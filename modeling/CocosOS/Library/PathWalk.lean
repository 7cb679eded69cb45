import Mathlib.Data.List.Count
import Mathlib.Data.List.Infix
import Mathlib.Data.List.Lemmas
import Mathlib.Tactic.Common
import Mathlib.Tactic.SplitIfs

/-!
# Walks through a tree of names

A walk starts at the root. A name goes down to the child of that name, and one name, `up`, goes
back to the parent, which at the root is the root itself. `walk` is the list of names from where
the walk ends up to the root.

A walk ends at or below a child of the root exactly if it enters that child from the root and
afterwards never goes up further than it has gone down (`getLast?_walk_iff`).
-/

set_option autoImplicit false

namespace CocosOS.Library.PathWalk

variable {α : Type*} [DecidableEq α] {up name : α} {names front back : List α}

/-- One step. The place is told by the names from it up to the root. -/
def climb (up : α) (place : List α) (name : α) : List α :=
  if name = up then place.tail else name :: place

/-- Where a walk from the root ends. -/
def walk (up : α) (names : List α) : List α := names.foldl (climb up) []

/-- How far below the root a walk ends. -/
def level (up : α) (names : List α) : ℕ :=
  names.foldl (fun depth name => if name = up then depth - 1 else depth + 1) 0

/-- From no place of the walk it has gone up more often than down. -/
def Stays (up : α) (names : List α) : Prop :=
  ∀ front, front <+: names → front.count up ≤ front.countP (· ≠ up)

@[simp] theorem walk_nil : walk up [] = [] := rfl

theorem walk_append (front back : List α) :
    walk up (front ++ back) = back.foldl (climb up) (walk up front) := List.foldl_append

theorem walk_concat (names : List α) (name : α) :
    walk up (names ++ [name]) = climb up (walk up names) name := walk_append names [name]

@[simp] theorem climb_up (place : List α) : climb up place up = place.tail := if_pos rfl

theorem climb_of_ne (other : name ≠ up) (place : List α) : climb up place name = name :: place :=
  if_neg other

theorem length_walk (names : List α) : (walk up names).length = level up names := by
  induction names using List.reverseRecOn with
  | nil => rfl
  | append_singleton names name ih =>
      rw [walk_concat, level, List.foldl_concat, ← level, ← ih, climb]
      split_ifs
      · exact List.length_tail
      · exact List.length_cons

/-- A walk that never goes up ends where its names say. -/
theorem walk_of_notMem (down : up ∉ names) : walk up names = names.reverse := by
  induction names using List.reverseRecOn with
  | nil => rfl
  | append_singleton names name ih =>
      have other : name ≠ up := fun same =>
        down (List.mem_append_right _ (List.mem_singleton.mpr same.symm))
      rw [walk_concat, ih fun member => down (List.mem_append_left _ member), climb_of_ne other,
        List.reverse_concat]

/-- **A walk that does not go up further than down stays below where it starts.** -/
theorem foldl_climb_of_stays (stays : Stays up names) (place : List α) :
    ∃ deeper, names.foldl (climb up) place = deeper ++ place ∧
      deeper.length + names.count up = names.countP (· ≠ up) := by
  induction names using List.reverseRecOn with
  | nil => exact ⟨[], rfl, rfl⟩
  | append_singleton names name ih =>
      obtain ⟨deeper, ends, length⟩ := ih fun front inside =>
        stays front (inside.trans (List.prefix_append _ _))
      have bound := stays (names ++ [name]) List.prefix_rfl
      rw [List.count_append, List.countP_append] at bound
      rw [List.foldl_concat, ends, List.count_append, List.countP_append]
      by_cases same : name = up
      · subst same
        have one : List.count name [name] = 1 := List.count_singleton_self
        have none : List.countP (· ≠ name) [name] = 0 := by simp
        rw [one, none] at bound ⊢
        cases deeper with
        | nil =>
            rw [List.length_nil] at length
            omega
        | cons first deeper =>
            rw [List.length_cons] at length
            exact ⟨deeper, climb_up _, by omega⟩
      · have none : List.count up [name] = 0 := List.count_eq_zero.mpr (by simpa using Ne.symm same)
        have one : List.countP (· ≠ up) [name] = 1 := by simp [same]
        rw [none, one]
        refine ⟨name :: deeper, climb_of_ne same _, ?_⟩
        rw [List.length_cons]
        omega

/-- A walk stays below where it starts if it stayed so far and has room for one more step. -/
theorem Stays.concat (stays : Stays up names)
    (room : name = up → names.count up < names.countP (· ≠ up)) : Stays up (names ++ [name]) := by
  intro front inside
  rcases List.prefix_concat_iff.mp inside with rfl | shorter
  · rw [List.count_append, List.countP_append]
    have here := stays names List.prefix_rfl
    by_cases same : name = up
    · have more := room same
      subst same
      have one : List.count name [name] = 1 := List.count_singleton_self
      omega
    · have none : List.count up [name] = 0 := List.count_eq_zero.mpr (by simpa using Ne.symm same)
      omega
  · exact stays front shorter

/-- Where a walk ends that enters a child from the root and stays below it. -/
theorem walk_of_stays (other : name ≠ up) (root : level up front = 0) (stays : Stays up back) :
    ∃ deeper, walk up (front ++ name :: back) = deeper ++ [name] ∧
      deeper.length + back.count up = back.countP (· ≠ up) := by
  have empty : walk up front = [] := List.eq_nil_of_length_eq_zero ((length_walk _).trans root)
  obtain ⟨deeper, ends, length⟩ := foldl_climb_of_stays stays [name]
  refine ⟨deeper, ?_, length⟩
  rw [walk_append, List.foldl_cons, empty, climb_of_ne other, ends]

/-- **A walk ends at or below a child of the root exactly if it enters the child from the root and
then stays below it.** -/
theorem getLast?_walk_iff : (walk up names).getLast? = some name ↔
    ∃ front back, names = front ++ name :: back ∧ name ≠ up ∧ level up front = 0 ∧
      Stays up back := by
  constructor
  · induction names using List.reverseRecOn with
    | nil => exact fun nothing => absurd nothing nofun
    | append_singleton names last ih =>
        intro ends
        rw [walk_concat] at ends
        by_cases same : last = up
        · -- the step goes up, but not out of the child
          subst same
          rw [climb_up] at ends
          have before : (walk last names).getLast? = some name := by
            rw [List.getLast?_tail] at ends
            split_ifs at ends
            exact ends
          obtain ⟨front, back, rfl, other, root, stays⟩ := ih before
          obtain ⟨deeper, place, length⟩ := walk_of_stays other root stays
          have some : deeper ≠ [] := by
            rintro rfl
            rw [place] at ends
            exact absurd ends nofun
          have positive := List.length_pos_iff.mpr some
          refine ⟨front, back ++ [last], (List.append_assoc ..), other, root, ?_⟩
          exact stays.concat fun _ => by omega
        · rw [climb_of_ne same] at ends
          cases place : walk up names with
          | nil =>
              rw [place] at ends
              obtain rfl := Option.some.inj ends
              refine ⟨names, [], rfl, same, ?_, fun front inside => ?_⟩
              · rw [← length_walk, place, List.length_nil]
              · rw [List.prefix_nil.mp inside]
                exact Nat.le_refl 0
          | cons first place' =>
              rw [place, List.getLast?_cons_cons, ← place] at ends
              obtain ⟨front, back, rfl, other, root, stays⟩ := ih ends
              refine ⟨front, back ++ [last], (List.append_assoc ..), other, root, ?_⟩
              exact stays.concat fun up => absurd up same
  · rintro ⟨front, back, rfl, other, root, stays⟩
    obtain ⟨deeper, ends, -⟩ := walk_of_stays other root stays
    rw [ends]
    exact List.getLast?_concat

end CocosOS.Library.PathWalk
