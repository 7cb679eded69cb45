import Mathlib.Data.List.Nodup
import Mathlib.Data.List.Rotate
import Mathlib.Data.Set.Insert
import Mathlib.Logic.Function.Basic
import Mathlib.Tactic.Common

/-!
# Linked lists and rings

A function `next` links nodes. `Segment next first nodes last` says that the links lead from
`first` through `nodes` to `last`. The nodes of a segment are determined by its length
(`Segment.eq_of_length_eq`), and by its end when it is met for the first time
(`Segment.unique`); so a list that ends never meets a node twice (`Segment.nodup`).

A node outside can be put in front of a segment (`Segment.push`). A node of it cannot: the links
then lead round and round and never to its end (`Segment.avoids_of_push`), and no further node in
front mends that (`Avoids.push`). What the links lead to from a node put in front is that node, and
what they led to before without passing it (`LeadsTo.push_iff`).

A ring is a segment that ends where it begins. Following one link rotates it (`IsRing.rotate`),
a node can be linked in behind the first one (`IsRing.insert`), and as many links as there are
nodes lead through all of them and back (`IsRing.walk_around`).
-/

set_option autoImplicit false

namespace CocosOS.Library.LinkedList

variable {α : Type*} {next next' : α → α}

/-! ## Segments -/

/-- The links lead from `first` through the nodes to `last`. -/
def Segment (next : α → α) : α → List α → α → Prop
  | first, [], last => first = last
  | first, node :: nodes, last => first = node ∧ Segment next (next node) nodes last

@[simp] theorem segment_nil {first last : α} : Segment next first [] last ↔ first = last := Iff.rfl

@[simp] theorem segment_cons {first node last : α} {nodes : List α} :
    Segment next first (node :: nodes) last ↔
      first = node ∧ Segment next (next node) nodes last := Iff.rfl

theorem segment_append {first last : α} {front back : List α} :
    Segment next first (front ++ back) last ↔
      ∃ middle, Segment next first front middle ∧ Segment next middle back last := by
  induction front generalizing first with
  | nil => simp
  | cons node front ih => simp [ih, and_assoc]

/-- A segment depends only on the links of its nodes. -/
theorem Segment.congr {first last : α} {nodes : List α} (segment : Segment next first nodes last)
    (same : ∀ node ∈ nodes, next' node = next node) : Segment next' first nodes last := by
  induction nodes generalizing first with
  | nil => exact segment
  | cons node nodes ih =>
      refine ⟨segment.1, ?_⟩
      rw [same node List.mem_cons_self]
      exact ih segment.2 fun other member => same other (List.mem_cons_of_mem _ member)

/-- A new link of a node outside leaves the segment alone. -/
theorem Segment.update [DecidableEq α] {first last node : α} {nodes : List α}
    (segment : Segment next first nodes last) (outside : node ∉ nodes) (target : α) :
    Segment (Function.update next node target) first nodes last :=
  segment.congr fun _ member =>
    Function.update_of_ne (ne_of_mem_of_not_mem member outside) _ _

/-- Segments of one length from one node are the same. -/
theorem Segment.eq_of_length_eq {first last last' : α} {nodes nodes' : List α}
    (segment : Segment next first nodes last) (segment' : Segment next first nodes' last')
    (length : nodes.length = nodes'.length) : nodes = nodes' ∧ last = last' := by
  induction nodes generalizing first nodes' with
  | nil =>
      obtain rfl := List.length_eq_zero_iff.mp length.symm
      exact ⟨rfl, segment.symm.trans segment'⟩
  | cons node nodes ih =>
      cases nodes' with
      | nil => exact absurd length (Nat.succ_ne_zero _)
      | cons node' nodes' =>
          obtain ⟨rfl, tail⟩ := segment
          obtain ⟨rfl, tail'⟩ := segment'
          obtain ⟨rfl, rfl⟩ := ih tail tail' (Nat.succ.inj length)
          exact ⟨rfl, rfl⟩

/-- **Segments up to the first meeting of their end are the same.** -/
theorem Segment.unique {first last : α} {nodes nodes' : List α}
    (segment : Segment next first nodes last) (segment' : Segment next first nodes' last)
    (before : last ∉ nodes) (before' : last ∉ nodes') : nodes = nodes' := by
  induction nodes generalizing first nodes' with
  | nil =>
      cases nodes' with
      | nil => rfl
      | cons node' nodes' =>
          obtain rfl : last = node' := segment.symm.trans segment'.1
          exact absurd List.mem_cons_self before'
  | cons node nodes ih =>
      cases nodes' with
      | nil =>
          obtain rfl : last = node := segment'.symm.trans segment.1
          exact absurd List.mem_cons_self before
      | cons node' nodes' =>
          obtain ⟨rfl, tail⟩ := segment
          obtain ⟨rfl, tail'⟩ := segment'
          rw [ih tail tail' (List.not_mem_of_not_mem_cons before)
            (List.not_mem_of_not_mem_cons before')]

/-- **A segment up to the first meeting of its end meets no node twice.** -/
theorem Segment.nodup {first last : α} {nodes : List α} (segment : Segment next first nodes last)
    (before : last ∉ nodes) : nodes.Nodup := by
  induction nodes generalizing first with
  | nil => exact List.nodup_nil
  | cons node nodes ih =>
      have later := List.not_mem_of_not_mem_cons before
      refine List.nodup_cons.mpr ⟨fun again => ?_, ih segment.2 later⟩
      -- Met again, the node would begin a shorter segment to the same end.
      obtain ⟨front, back, rfl⟩ := List.append_of_mem again
      obtain ⟨middle, _, rest⟩ := segment_append.mp segment.2
      obtain rfl : middle = node := rest.1
      have whole : Segment next middle (middle :: (front ++ middle :: back)) last :=
        ⟨rfl, segment.2⟩
      have same := whole.unique rest before fun member =>
        later (List.mem_append_right _ member)
      have length := congrArg List.length same
      simp only [List.length_cons, List.length_append] at length
      omega

/-! ## Nodes in front -/

/-- A node outside is put in front of a segment. -/
theorem Segment.push [DecidableEq α] {first last node : α} {nodes : List α}
    (segment : Segment next first nodes last) (outside : node ∉ nodes) :
    Segment (Function.update next node first) node (node :: nodes) last := by
  refine ⟨rfl, ?_⟩
  rw [Function.update_self]
  exact segment.update outside first

/-- The links lead from `first` around in a set of nodes without `last`. -/
def Avoids (next : α → α) (first last : α) : Prop :=
  ∃ nodes : Set α, first ∈ nodes ∧ last ∉ nodes ∧ ∀ node ∈ nodes, next node ∈ nodes

namespace Avoids

variable {first last : α}

theorem ne (avoids : Avoids next first last) : first ≠ last := by
  obtain ⟨nodes, inside, outside, _⟩ := avoids
  exact ne_of_mem_of_not_mem inside outside

theorem step (avoids : Avoids next first last) : Avoids next (next first) last := by
  obtain ⟨nodes, inside, outside, closed⟩ := avoids
  exact ⟨nodes, closed first inside, outside, closed⟩

/-- No segment leads to what the links avoid. -/
theorem not_segment (avoids : Avoids next first last) (nodes : List α) :
    ¬ Segment next first nodes last := by
  induction nodes generalizing first with
  | nil => exact avoids.ne
  | cons node nodes ih =>
      rintro ⟨rfl, tail⟩
      exact ih avoids.step tail

/-- A node in front changes nothing about what the links avoid. -/
theorem push [DecidableEq α] (avoids : Avoids next first last) {node : α} (ne : node ≠ last) :
    Avoids (Function.update next node first) node last := by
  obtain ⟨nodes, inside, outside, closed⟩ := avoids
  refine ⟨insert node nodes, Set.mem_insert _ _, ?_, ?_⟩
  · intro member
    rcases Set.mem_insert_iff.mp member with same | member
    · exact ne same.symm
    · exact outside member
  · intro other member
    by_cases same : other = node
    · rw [same, Function.update_self]
      exact Set.mem_insert_of_mem _ inside
    · rw [Function.update_of_ne same]
      exact Set.mem_insert_of_mem _ (closed other (Set.mem_of_mem_insert_of_ne member same))

end Avoids

/-- Each node of a segment links to a node of it or to its end. -/
theorem Segment.next_mem {first last node : α} {nodes : List α}
    (segment : Segment next first nodes last) (member : node ∈ nodes) :
    next node ∈ nodes ∨ next node = last := by
  obtain ⟨front, back, rfl⟩ := List.append_of_mem member
  obtain ⟨middle, _, rfl, tail⟩ := segment_append.mp segment
  cases back with
  | nil => exact Or.inr tail
  | cons other back =>
      left
      rw [tail.1]
      simp

/-- **A node of a segment that is put in front of it closes a ring.** -/
theorem Segment.avoids_of_push [DecidableEq α] {first last node : α} {nodes : List α}
    (segment : Segment next first nodes last) (before : last ∉ nodes) (member : node ∈ nodes) :
    Avoids (Function.update next node first) node last := by
  obtain ⟨front, back, rfl⟩ := List.append_of_mem member
  obtain ⟨middle, lead, rfl, _⟩ := segment_append.mp segment
  refine ⟨{other | other ∈ middle :: front}, List.mem_cons_self, fun inside => ?_, ?_⟩
  · exact before (List.perm_middle.mem_iff.mpr (List.mem_append_left back inside))
  · intro other inside
    by_cases same : other = middle
    · rw [same, Function.update_self]
      cases front with
      | nil =>
          rw [Set.mem_ofPred_eq, lead]
          exact List.mem_cons_self
      | cons head front =>
          rw [Set.mem_ofPred_eq, lead.1]
          simp
    · rw [Function.update_of_ne same]
      rcases lead.next_mem (List.mem_of_ne_of_mem same inside) with within | final
      · exact List.mem_cons_of_mem _ within
      · rw [final]
        exact List.mem_cons_self

/-! ## Nodes that are met -/

/-- The links lead from `first` to `node`, and to no avoided node on the way. -/
def LeadsTo (next : α → α) (avoided : Set α) (first node : α) : Prop :=
  ∃ front, Segment next first front node ∧ ∀ other ∈ front, other ∉ avoided

namespace LeadsTo

variable {avoided more : Set α} {first node : α}

theorem mono (leads : LeadsTo next more first node) (subset : avoided ⊆ more) :
    LeadsTo next avoided first node := by
  obtain ⟨front, segment, clear⟩ := leads
  exact ⟨front, segment, fun other member inside => clear other member (subset inside)⟩

/-- The way to the first visit of a node does not pass the node. -/
theorem direct (leads : LeadsTo next avoided first node) :
    LeadsTo next (insert node avoided) first node := by
  obtain ⟨front, segment, clear⟩ := leads
  induction front generalizing first with
  | nil => exact ⟨[], segment, fun _ member => absurd member List.not_mem_nil⟩
  | cons head front ih =>
      obtain ⟨rfl, tail⟩ := segment
      by_cases same : first = node
      · exact ⟨[], same, fun _ member => absurd member List.not_mem_nil⟩
      · obtain ⟨front', segment', clear'⟩ := ih tail fun other member =>
          clear other (List.mem_cons_of_mem _ member)
        refine ⟨first :: front', ⟨rfl, segment'⟩, fun other member => ?_⟩
        rcases List.mem_cons.mp member with rfl | within
        · rw [Set.mem_insert_iff, not_or]
          exact ⟨same, clear _ List.mem_cons_self⟩
        · exact clear' other within

/-- A detour through a node is left out: what follows its last visit starts from its link. -/
theorem shorten [DecidableEq α] {front : List α} {start : α} (dev : α)
    (segment : Segment next start front node) :
    ∃ rest, rest ⊆ front ∧ dev ∉ rest ∧
      (Segment next start rest node ∨ Segment next (next dev) rest node) := by
  induction front generalizing start with
  | nil => exact ⟨[], List.Subset.refl _, List.not_mem_nil, Or.inl segment⟩
  | cons head front ih =>
      obtain ⟨rfl, tail⟩ := segment
      obtain ⟨rest, subset, apart, leads⟩ := ih tail
      by_cases same : start = dev
      · refine ⟨rest, fun _ member => List.mem_cons_of_mem _ (subset member), apart, Or.inr ?_⟩
        rcases leads with before | behind
        · exact same ▸ before
        · exact behind
      · rcases leads with before | behind
        · refine ⟨start :: rest, List.cons_subset_cons _ subset, ?_, Or.inl ⟨rfl, before⟩⟩
          exact List.not_mem_cons_of_ne_of_not_mem (Ne.symm same) apart
        · exact ⟨rest, fun _ member => List.mem_cons_of_mem _ (subset member), apart, Or.inr behind⟩

/-- **From a node put in front**, the links lead to it and to what they led to without it. -/
theorem push_iff [DecidableEq α] {dev : α} (outside : dev ∉ avoided) :
    LeadsTo (Function.update next dev first) avoided dev node ↔
      node = dev ∨ LeadsTo next (insert dev avoided) first node := by
  have away : ∀ rest : List α, dev ∉ rest → ∀ start last,
      (Segment (Function.update next dev first) start rest last ↔
        Segment next start rest last) := by
    intro rest apart start last
    have same : ∀ other ∈ rest, Function.update next dev first other = next other :=
      fun other member => Function.update_of_ne (ne_of_mem_of_not_mem member apart) _ _
    exact ⟨fun segment => segment.congr fun other member => (same other member).symm,
      fun segment => segment.congr same⟩
  constructor
  · rintro ⟨front, segment, clear⟩
    cases front with
    | nil => exact Or.inl segment.symm
    | cons head front =>
        obtain ⟨rfl, tail⟩ := segment
        rw [Function.update_self] at tail
        obtain ⟨rest, subset, apart, leads⟩ := shorten dev tail
        rw [Function.update_self, or_self, away rest apart] at leads
        refine Or.inr ⟨rest, leads, fun other member => ?_⟩
        rw [Set.mem_insert_iff, not_or]
        exact ⟨fun same => apart (same ▸ member),
          clear other (List.mem_cons_of_mem _ (subset member))⟩
  · rintro (rfl | ⟨front, segment, clear⟩)
    · exact ⟨[], rfl, fun _ member => absurd member List.not_mem_nil⟩
    · have apart : dev ∉ front := fun member => clear dev member (Set.mem_insert _ _)
      refine ⟨dev :: front, ⟨rfl, ?_⟩, fun other member => ?_⟩
      · rw [Function.update_self, away front apart]
        exact segment
      · rcases List.mem_cons.mp member with rfl | within
        · exact outside
        · exact fun inside => clear other within (Set.mem_insert_of_mem _ inside)

end LeadsTo

/-! ## Walks -/

/-- From `first`, the links lead to the visited nodes in turn, the last of which is `last`. -/
def Walk (next : α → α) (first : α) (visited : List α) (last : α) : Prop :=
  ∃ front, first :: visited = front ++ [last] ∧ Segment next first front last

theorem Walk.refl (first : α) : Walk next first [] first := ⟨[], rfl, rfl⟩

theorem Walk.step {first last : α} {visited : List α} (walk : Walk next first visited last) :
    Walk next first (visited ++ [next last]) (next last) := by
  obtain ⟨front, trace, segment⟩ := walk
  refine ⟨front ++ [last], ?_, segment_append.mpr ⟨last, segment, rfl, rfl⟩⟩
  rw [← List.cons_append, trace]

/-! ## Rings -/

/-- A node to which some turns of a ring lead splits what is behind the first node. -/
theorem exists_split_of_rotate {first last : α} {rest turned : List α} {j : ℕ}
    (short : j < rest.length) (rotated : (first :: rest).rotate (j + 1) = last :: turned) :
    ∃ back, rest = rest.take j ++ last :: back := by
  rw [List.rotate_cons_succ, List.rotate_eq_drop_append_take
    (by rw [List.length_append]; omega), List.drop_append_of_le_length short.le] at rotated
  obtain ⟨node, back, split⟩ := List.exists_cons_of_ne_nil
    (List.ne_nil_of_length_pos (l := rest.drop j) (by rw [List.length_drop]; omega))
  rw [split, List.cons_append, List.cons_append] at rotated
  refine ⟨back, ?_⟩
  rw [← (List.cons.inj rotated).1, ← split, List.take_append_drop]

/-- The links lead from `first` through the nodes, each once, and back. -/
structure IsRing (next : α → α) (first : α) (nodes : List α) : Prop where
  segment : Segment next first nodes first
  nonempty : nodes ≠ []
  nodup : nodes.Nodup

namespace IsRing

variable {first : α} {nodes : List α}

/-- The ring begins with its first node. -/
theorem eq_cons (ring : IsRing next first nodes) : ∃ rest, nodes = first :: rest := by
  cases nodes with
  | nil => exact absurd rfl ring.nonempty
  | cons node rest => exact ⟨rest, by rw [ring.segment.1]⟩

theorem first_mem (ring : IsRing next first nodes) : first ∈ nodes := by
  obtain ⟨rest, rfl⟩ := ring.eq_cons
  exact List.mem_cons_self

/-- There is one ring from a node on. -/
theorem unique {nodes' : List α} (ring : IsRing next first nodes)
    (ring' : IsRing next first nodes') : nodes = nodes' := by
  obtain ⟨rest, rfl⟩ := ring.eq_cons
  obtain ⟨rest', rfl⟩ := ring'.eq_cons
  have outside := (List.nodup_cons.mp ring.nodup).1
  have outside' := (List.nodup_cons.mp ring'.nodup).1
  rw [ring.segment.2.unique ring'.segment.2 outside outside']

/-- A node linked to itself is a ring. -/
theorem singleton (loop : next first = first) : IsRing next first [first] where
  segment := ⟨rfl, loop⟩
  nonempty := List.cons_ne_nil _ _
  nodup := List.nodup_singleton _

theorem congr (ring : IsRing next first nodes) (same : ∀ node ∈ nodes, next' node = next node) :
    IsRing next' first nodes :=
  ⟨ring.segment.congr same, ring.nonempty, ring.nodup⟩

/-- **Following one link rotates the ring.** -/
theorem rotate (ring : IsRing next first nodes) : IsRing next (next first) (nodes.rotate 1) := by
  obtain ⟨rest, rfl⟩ := ring.eq_cons
  rw [List.rotate_cons_succ, List.rotate_zero]
  refine ⟨segment_append.mpr ⟨first, ring.segment.2, rfl, rfl⟩, by simp, ?_⟩
  exact (List.perm_append_singleton first rest).nodup_iff.mpr ring.nodup

/-- **A node is linked in behind the first one.** -/
theorem insert [DecidableEq α] {rest : List α} (ring : IsRing next first (first :: rest))
    {node : α} (outside : node ∉ first :: rest) :
    IsRing (Function.update (Function.update next node (next first)) first node) first
      (first :: node :: rest) := by
  have apart : node ≠ first := fun same => outside (same ▸ List.mem_cons_self)
  have notRest : node ∉ rest := fun member => outside (List.mem_cons_of_mem _ member)
  have notFirst : first ∉ rest := (List.nodup_cons.mp ring.nodup).1
  refine ⟨⟨rfl, ?_, ?_⟩, List.cons_ne_nil _ _, ?_⟩
  · exact Function.update_self ..
  · rw [Function.update_of_ne apart, Function.update_self]
    exact (ring.segment.2.update notRest _).update notFirst _
  · refine List.nodup_cons.mpr
      ⟨?_, List.nodup_cons.mpr ⟨notRest, (List.nodup_cons.mp ring.nodup).2⟩⟩
    exact List.not_mem_cons_of_ne_of_not_mem apart.symm notFirst

/-- **A node takes over the link of the first one, and a later node is linked to it.** What was
between the later node and the first one is no longer on the way. -/
theorem shortcut [DecidableEq α] {last node : α} {front : List α}
    (segment : Segment next (next first) front last) (distinct : (last :: front).Nodup)
    (outside : node ∉ last :: front) :
    IsRing (Function.update (Function.update next node (next first)) last node) last
      (last :: node :: front) := by
  have apart : node ≠ last := fun same => outside (same ▸ List.mem_cons_self)
  have notFront : node ∉ front := fun member => outside (List.mem_cons_of_mem _ member)
  have notLast : last ∉ front := (List.nodup_cons.mp distinct).1
  refine ⟨⟨rfl, Function.update_self .., ?_⟩, List.cons_ne_nil _ _, ?_⟩
  · rw [Function.update_of_ne apart, Function.update_self]
    exact (segment.update notFront _).update notLast _
  · refine List.nodup_cons.mpr
      ⟨?_, List.nodup_cons.mpr ⟨notFront, (List.nodup_cons.mp distinct).2⟩⟩
    exact List.not_mem_cons_of_ne_of_not_mem apart.symm notLast

/-- What was between the later node and the first one, with the first one, is no longer on the way. -/
theorem shortcut_split [DecidableEq α] {last node : α} {front back : List α}
    (ring : IsRing next first (first :: (front ++ last :: back)))
    (outside : node ∉ first :: (front ++ last :: back)) :
    IsRing (Function.update (Function.update next node (next first)) last node) last
      (last :: node :: front) ∧ first ∉ last :: front := by
  obtain ⟨middle, before, behind⟩ := segment_append.mp ring.segment.2
  obtain rfl : middle = last := behind.1
  have inside : middle :: front ⊆ front ++ middle :: back :=
    List.cons_subset.mpr ⟨List.mem_append_right _ List.mem_cons_self, List.subset_append_left ..⟩
  obtain ⟨notFirst, distinct⟩ := List.nodup_cons.mp ring.nodup
  obtain ⟨nodupFront, -, disjoint⟩ := List.nodup_append.mp distinct
  refine ⟨.shortcut before (List.nodup_cons.mpr ⟨fun again => ?_, nodupFront⟩) ?_, ?_⟩
  · exact disjoint _ again _ List.mem_cons_self rfl
  · exact fun member => outside (List.mem_cons_of_mem _ (inside member))
  · exact fun member => notFirst (inside member)

/-- **As many links as there are nodes lead through all of them and back.** -/
theorem walk_around (ring : IsRing next first nodes) {visited : List α} {last : α}
    (walk : Walk next first visited last) (length : visited.length = nodes.length) :
    visited = nodes.rotate 1 ∧ last = first := by
  obtain ⟨front, trace, segment⟩ := walk
  have long : front.length = nodes.length := by
    have lengths := congrArg List.length trace
    rw [List.length_cons, List.length_append, List.length_singleton] at lengths
    omega
  obtain ⟨rfl, rfl⟩ := segment.eq_of_length_eq ring.segment long
  obtain ⟨rest, rfl⟩ := ring.eq_cons
  rw [List.cons_append, List.cons.injEq] at trace
  exact ⟨by rw [List.rotate_cons_succ, List.rotate_zero, trace.2], rfl⟩

end IsRing

end CocosOS.Library.LinkedList
