import Mathlib.Data.Int.Notation
import Mathlib.Data.List.Basic
import Mathlib.Tactic.Common

/-!
# Collecting a bounded number of entries

A loop goes through a list and puts an entry into an array for some of its elements, until the array
is full. It collects the first entries (`collect_eq`).

Two ways to make entries collect the same exactly if they agree on every element that comes before
the array is full, where each entry tells its element by a key, and the key tells whether there is
an entry (`take_filterMap_eq_iff`).
-/

set_option autoImplicit false

namespace CocosOS.Library.Collect

variable {α β κ : Type*}

/-- The loop, where `found` are the entries so far. -/
def collect (entry : α → Option β) (limit : ℤ) : List α → List β → List β
  | [], found => found
  | a :: rest, found =>
    if found.length < limit then collect entry limit rest (found ++ (entry a).toList) else found

theorem collect_eq (entry : α → Option β) (limit : ℤ) (all : List α) {found : List β}
    (room : found.length ≤ limit.toNat) :
    collect entry limit all found = (found ++ all.filterMap entry).take limit.toNat := by
  induction all generalizing found with
  | nil => rw [collect, List.filterMap_nil, List.append_nil, List.take_of_length_le room]
  | cons a rest ih =>
      rw [collect]
      split_ifs with more
      · cases here : entry a with
        | none =>
            rw [List.filterMap_cons_none here, Option.toList_none, List.append_nil]
            exact ih room
        | some b =>
            have room' : (found ++ [b]).length ≤ limit.toNat := by
              rw [List.length_append, List.length_singleton]
              omega
            rw [List.filterMap_cons_some here, Option.toList_some, ih room', List.append_assoc,
              List.singleton_append]
      · have full : limit.toNat = found.length := by omega
        rw [full, List.take_left]

/-- An element of a list is the first one, or it comes later. -/
theorem forall_split_cons_iff {holds : List α → α → Prop} (a : α) (all : List α) :
    (∀ before b after, a :: all = before ++ b :: after → holds before b) ↔
      holds [] a ∧ ∀ before b after, all = before ++ b :: after → holds (a :: before) b := by
  constructor
  · intro every
    exact ⟨every [] a all rfl, fun before b after split =>
      every (a :: before) b after (congrArg (a :: ·) split)⟩
  · rintro ⟨first, later⟩ before b after split
    cases before with
    | nil =>
        obtain ⟨rfl, -⟩ := List.cons.inj split
        exact first
    | cons a' before =>
        obtain ⟨rfl, behind⟩ := List.cons.inj split
        exact later before b after behind

section

variable {f g : α → Option β} {key : α → κ} {tag : β → κ}

/-- An entry does not come from an element with the key of one that has no entry. -/
theorem notMem_filterMap (tagged : ∀ a b, f a = some b → tag b = key a)
    (told : ∀ a a', key a = key a' → (f a).isSome → (f a').isSome) {a : α} (none : f a = none)
    {b : β} (same : tag b = key a) (all : List α) : b ∉ all.filterMap f := by
  intro member
  obtain ⟨a', -, entry⟩ := List.mem_filterMap.mp member
  have some := told a' a ((tagged a' b entry).symm.trans same) (Option.isSome_of_eq_some entry)
  rw [none] at some
  exact Bool.false_ne_true some

/-- **The first entries are the same exactly if the elements that come before the array is full have
the same entries.** -/
theorem take_filterMap_eq_iff (taggedF : ∀ a b, f a = some b → tag b = key a)
    (taggedG : ∀ a b, g a = some b → tag b = key a)
    (toldF : ∀ a a', key a = key a' → (f a).isSome → (f a').isSome)
    (toldG : ∀ a a', key a = key a' → (g a).isSome → (g a').isSome) (count : ℕ) (all : List α) :
    (all.filterMap f).take count = (all.filterMap g).take count ↔
      ∀ before a after, all = before ++ a :: after → (before.filterMap g).length < count →
        f a = g a := by
  induction all generalizing count with
  | nil => exact iff_of_true rfl fun before a after split =>
      absurd split.symm (List.append_ne_nil_of_right_ne_nil _ (List.cons_ne_nil _ _))
  | cons a rest ih =>
      cases count with
      | zero => exact iff_of_true rfl fun _ _ _ _ less => absurd less (Nat.not_lt_zero _)
      | succ count =>
          rw [forall_split_cons_iff]
          cases first : f a with
          | none =>
              cases second : g a with
              | none =>
                  simp only [List.filterMap_cons_none first, List.filterMap_cons_none second,
                    ih (count + 1), implies_true, true_and]
              | some c =>
                  refine iff_of_false (fun same => ?_) fun both =>
                    absurd (both.1 (Nat.succ_pos _)) nofun
                  rw [List.filterMap_cons_none first, List.filterMap_cons_some second,
                    List.take_succ_cons] at same
                  have member : c ∈ rest.filterMap f :=
                    List.mem_of_mem_take (same.symm ▸ List.mem_cons_self)
                  exact notMem_filterMap taggedF toldF first (taggedG a c second) rest member
          | some b =>
              cases second : g a with
              | none =>
                  refine iff_of_false (fun same => ?_) fun both =>
                    absurd (both.1 (Nat.succ_pos _)) nofun
                  rw [List.filterMap_cons_some first, List.filterMap_cons_none second,
                    List.take_succ_cons] at same
                  have member : b ∈ rest.filterMap g :=
                    List.mem_of_mem_take (same ▸ List.mem_cons_self)
                  exact notMem_filterMap taggedG toldG second (taggedF a b first) rest member
              | some c =>
                  simp only [List.filterMap_cons_some first, List.filterMap_cons_some second,
                    List.take_succ_cons, List.cons.injEq, ih count, List.length_cons,
                    Nat.add_lt_add_iff_right, Option.some.injEq, List.filterMap_nil,
                    List.length_nil, Nat.succ_pos, forall_true_left]

end

end CocosOS.Library.Collect
