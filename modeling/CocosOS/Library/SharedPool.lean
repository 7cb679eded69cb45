import Mathlib.Data.Option.Basic
import Mathlib.Data.Set.Function
import Mathlib.Logic.Function.Basic
import Mathlib.Tactic.Common

/-!
# A pool of units shared by keys

A pool has `total` units numbered from zero. Each key holds at most one unit, and a mark says
of each unit whether it is taken. A key that holds nothing acquires the lowest unit that is not
marked; a key that already holds a unit keeps it. Releasing gives the unit back.

The marks are kept apart from the keys, and nothing in the two operations compares them.
`Owned` says that they agree: from a reserved number on, the marked units are exactly the held
ones, and no two keys hold the same unit. Giving out a unit that is not marked keeps it
(`Owned.give`), and so does taking one back (`Owned.revoke`). In such a state holding is a
bijection from the keys that hold a unit onto the marked units (`Owned.bijOn`).
-/

set_option autoImplicit false

namespace CocosOS.Library.SharedPool

/-- Which units are marked, and which unit each key holds. -/
@[ext] structure Assignment (Key : Type*) where
  total : ℕ
  taken : ℕ → Bool
  unitOf : Key → Option ℕ

/-- What a key asks for. -/
inductive Event (Key : Type*) where
  | acquire (key : Key)
  | release (key : Key)

namespace Assignment

variable {Key : Type*}

/-- The lowest unit that is not marked. -/
def lowestFree (m : Assignment Key) : Option ℕ :=
  (List.range m.total).find? fun i => !m.taken i

theorem lowestFree_eq_some {m : Assignment Key} {i : ℕ} :
    m.lowestFree = some i ↔ i < m.total ∧ m.taken i = false ∧ ∀ j < i, m.taken j = true := by
  rw [lowestFree, List.find?_range_eq_some, List.mem_range]
  simp only [Bool.not_eq_true', Bool.not_not]
  tauto

theorem lowestFree_eq_none {m : Assignment Key} :
    m.lowestFree = none ↔ ∀ i < m.total, m.taken i = true := by
  rw [lowestFree, List.find?_range_eq_none]
  simp only [Bool.not_not]

variable [DecidableEq Key]

/-- Mark the unit `i` and let `key` hold it. -/
def give (m : Assignment Key) (key : Key) (i : ℕ) : Assignment Key :=
  { m with
    taken := Function.update m.taken i true
    unitOf := Function.update m.unitOf key (some i) }

/-- Unmark the unit `i` and let `key` hold nothing. -/
def revoke (m : Assignment Key) (key : Key) (i : ℕ) : Assignment Key :=
  { m with
    taken := Function.update m.taken i false
    unitOf := Function.update m.unitOf key none }

/-- Let `key` hold a unit. There is no result when it holds none and every unit is marked. -/
def acquire (m : Assignment Key) (key : Key) : Option (Assignment Key) :=
  match m.unitOf key with
  | some _ => some m
  | none => m.lowestFree.map (m.give key)

/-- Give back the unit that `key` holds, if any. -/
def release (m : Assignment Key) (key : Key) : Assignment Key :=
  match m.unitOf key with
  | none => m
  | some i => m.revoke key i

/-- One event. -/
def perform (m : Assignment Key) : Event Key → Option (Assignment Key)
  | .acquire key => m.acquire key
  | .release key => some (m.release key)

/-- The events of a list, the first one first. -/
def replay (m : Assignment Key) (events : List (Event Key)) : Option (Assignment Key) :=
  events.foldlM perform m

/-! ## The operations -/

section Fields

variable (m : Assignment Key) (key : Key) (i : ℕ)

@[simp] theorem taken_give_self : (m.give key i).taken i = true := Function.update_self ..

@[simp] theorem taken_give_of_ne {j : ℕ} (ne : j ≠ i) : (m.give key i).taken j = m.taken j :=
  Function.update_of_ne ne ..

@[simp] theorem unitOf_give_self : (m.give key i).unitOf key = some i := Function.update_self ..

@[simp] theorem unitOf_give_of_ne {key' : Key} (ne : key' ≠ key) :
    (m.give key i).unitOf key' = m.unitOf key' := Function.update_of_ne ne ..

@[simp] theorem taken_revoke_self : (m.revoke key i).taken i = false := Function.update_self ..

@[simp] theorem taken_revoke_of_ne {j : ℕ} (ne : j ≠ i) :
    (m.revoke key i).taken j = m.taken j := Function.update_of_ne ne ..

@[simp] theorem unitOf_revoke_self : (m.revoke key i).unitOf key = none :=
  Function.update_self ..

@[simp] theorem unitOf_revoke_of_ne {key' : Key} (ne : key' ≠ key) :
    (m.revoke key i).unitOf key' = m.unitOf key' := Function.update_of_ne ne ..

end Fields

theorem acquire_of_held {m : Assignment Key} {key : Key} {i : ℕ} (held : m.unitOf key = some i) :
    m.acquire key = some m := by
  rw [acquire, held]

theorem acquire_of_not_held {m : Assignment Key} {key : Key} (absent : m.unitOf key = none) :
    m.acquire key = m.lowestFree.map (m.give key) := by
  rw [acquire, absent]

theorem release_of_held {m : Assignment Key} {key : Key} {i : ℕ} (held : m.unitOf key = some i) :
    m.release key = m.revoke key i := by
  rw [release, held]

theorem release_of_not_held {m : Assignment Key} {key : Key} (absent : m.unitOf key = none) :
    m.release key = m := by
  rw [release, absent]

/-- An acquisition changes what no other key holds. -/
theorem unitOf_acquire_of_ne {m m' : Assignment Key} {key other : Key}
    (step : m.acquire key = some m') (ne : other ≠ key) : m'.unitOf other = m.unitOf other := by
  cases held : m.unitOf key with
  | some i =>
      rw [acquire_of_held held, Option.some.injEq] at step
      rw [step]
  | none =>
      rw [acquire_of_not_held held, Option.map_eq_some_iff] at step
      obtain ⟨i, -, rfl⟩ := step
      exact unitOf_give_of_ne m key i ne

/-- A release changes what no other key holds. -/
theorem unitOf_release_of_ne {m : Assignment Key} {key other : Key} (ne : other ≠ key) :
    (m.release key).unitOf other = m.unitOf other := by
  cases held : m.unitOf key with
  | none => rw [release_of_not_held held]
  | some i =>
      rw [release_of_held held]
      exact unitOf_revoke_of_ne m key i ne

/-- An acquisition takes nothing away. -/
theorem unitOf_acquire_of_held {m m' : Assignment Key} {key other : Key} {i : ℕ}
    (step : m.acquire key = some m') (held : m.unitOf other = some i) :
    m'.unitOf other = some i := by
  by_cases same : other = key
  · subst same
    rw [acquire_of_held held, Option.some.injEq] at step
    rw [← step, held]
  · rw [unitOf_acquire_of_ne step same, held]

theorem unitOf_release_self (m : Assignment Key) (key : Key) :
    (m.release key).unitOf key = none := by
  cases held : m.unitOf key with
  | none => rw [release_of_not_held held, held]
  | some i => rw [release_of_held held, unitOf_revoke_self]

theorem replay_append {m m' : Assignment Key} {events : List (Event Key)}
    (run : m.replay events = some m') (event : Event Key) :
    m.replay (events ++ [event]) = m'.perform event := by
  rw [replay] at run
  rw [replay, List.foldlM_append, run]
  exact bind_pure (m'.perform event)

end Assignment

open Assignment

/-! ## Ownership -/

/-- The marked units are the held ones, from `reserved` on; those below it are marked and held
by no key. -/
structure Owned {Key : Type*} (reserved : ℕ) (m : Assignment Key) : Prop where
  below : ∀ i < reserved, i < m.total → m.taken i = true
  held : ∀ key i, m.unitOf key = some i → reserved ≤ i ∧ i < m.total ∧ m.taken i = true
  once : ∀ key key' i, m.unitOf key = some i → m.unitOf key' = some i → key = key'
  owner : ∀ i, reserved ≤ i → i < m.total → m.taken i = true → ∃ key, m.unitOf key = some i

namespace Owned

variable {Key : Type*} [DecidableEq Key] {reserved : ℕ} {m : Assignment Key}

/-- Giving out a unit that is not marked keeps ownership. -/
theorem give (owned : Owned reserved m) {key : Key} {i : ℕ} (absent : m.unitOf key = none)
    (lt : i < m.total) (unmarked : m.taken i = false) : Owned reserved (m.give key i) := by
  have above : reserved ≤ i := by
    by_contra low
    rw [owned.below i (Nat.lt_of_not_le low) lt] at unmarked
    contradiction
  -- the unit is marked for no key that already holds one
  have fresh : ∀ key', m.unitOf key' ≠ some i := by
    intro key' holds
    rw [(owned.held key' i holds).2.2] at unmarked
    contradiction
  refine ⟨?_, ?_, ?_, ?_⟩
  · intro j small lt_total
    by_cases same : j = i
    · rw [same, taken_give_self]
    · rw [taken_give_of_ne _ _ _ same]
      exact owned.below j small lt_total
  · intro key' j holds
    by_cases same : key' = key
    · rw [same, unitOf_give_self, Option.some.injEq] at holds
      rw [← holds, taken_give_self]
      exact ⟨above, lt, rfl⟩
    · rw [unitOf_give_of_ne _ _ _ same] at holds
      have ne : j ≠ i := by
        rintro rfl
        exact fresh key' holds
      rw [taken_give_of_ne _ _ _ ne]
      exact owned.held key' j holds
  · intro key₁ key₂ j first second
    by_cases same₁ : key₁ = key <;> by_cases same₂ : key₂ = key
    · rw [same₁, same₂]
    · rw [same₁, unitOf_give_self, Option.some.injEq] at first
      rw [unitOf_give_of_ne _ _ _ same₂, ← first] at second
      exact absurd second (fresh key₂)
    · rw [same₂, unitOf_give_self, Option.some.injEq] at second
      rw [unitOf_give_of_ne _ _ _ same₁, ← second] at first
      exact absurd first (fresh key₁)
    · rw [unitOf_give_of_ne _ _ _ same₁] at first
      rw [unitOf_give_of_ne _ _ _ same₂] at second
      exact owned.once key₁ key₂ j first second
  · intro j ge lt_total marked
    by_cases same : j = i
    · exact ⟨key, by rw [same, unitOf_give_self]⟩
    · rw [taken_give_of_ne _ _ _ same] at marked
      obtain ⟨key', holds⟩ := owned.owner j ge lt_total marked
      have other : key' ≠ key := by
        rintro rfl
        rw [absent] at holds
        contradiction
      exact ⟨key', by rw [unitOf_give_of_ne _ _ _ other, holds]⟩

/-- Taking back the unit that a key holds keeps ownership. -/
theorem revoke (owned : Owned reserved m) {key : Key} {i : ℕ} (holds : m.unitOf key = some i) :
    Owned reserved (m.revoke key i) := by
  have above := (owned.held key i holds).1
  -- no other key is left with the unit
  have moved : ∀ key' j, key' ≠ key → m.unitOf key' = some j → j ≠ i := by
    rintro key' j other holds' rfl
    exact other (owned.once key' key j holds' holds)
  have other : ∀ key' j, (m.revoke key i).unitOf key' = some j → key' ≠ key := by
    rintro key' j holds' rfl
    rw [unitOf_revoke_self] at holds'
    contradiction
  refine ⟨?_, ?_, ?_, ?_⟩
  · intro j small lt_total
    rw [taken_revoke_of_ne _ _ _ (by omega)]
    exact owned.below j small lt_total
  · intro key' j holds'
    have ne := other key' j holds'
    rw [unitOf_revoke_of_ne _ _ _ ne] at holds'
    rw [taken_revoke_of_ne _ _ _ (moved key' j ne holds')]
    exact owned.held key' j holds'
  · intro key₁ key₂ j first second
    have ne₁ := other key₁ j first
    have ne₂ := other key₂ j second
    rw [unitOf_revoke_of_ne _ _ _ ne₁] at first
    rw [unitOf_revoke_of_ne _ _ _ ne₂] at second
    exact owned.once key₁ key₂ j first second
  · intro j ge lt_total marked
    have ne : j ≠ i := by
      rintro rfl
      rw [taken_revoke_self] at marked
      contradiction
    rw [taken_revoke_of_ne _ _ _ ne] at marked
    obtain ⟨key', holds'⟩ := owned.owner j ge lt_total marked
    have ne' : key' ≠ key := by
      rintro rfl
      rw [holds, Option.some.injEq] at holds'
      exact ne holds'.symm
    exact ⟨key', by rw [unitOf_revoke_of_ne _ _ _ ne', holds']⟩

omit [DecidableEq Key] in
/-- **Holding is a bijection** from the keys that hold a unit onto the marked units. -/
theorem bijOn (owned : Owned reserved m) :
    Set.BijOn (fun key => (m.unitOf key).getD 0) {key | (m.unitOf key).isSome}
      {i | reserved ≤ i ∧ i < m.total ∧ m.taken i = true} := by
  refine ⟨?_, ?_, ?_⟩
  · intro key holds
    obtain ⟨i, eq⟩ := Option.isSome_iff_exists.mp holds
    dsimp only
    rw [eq]
    exact owned.held key i eq
  · intro key holds key' holds' same
    obtain ⟨i, eq⟩ := Option.isSome_iff_exists.mp holds
    obtain ⟨i', eq'⟩ := Option.isSome_iff_exists.mp holds'
    dsimp only at same
    rw [eq, eq'] at same
    exact owned.once key key' i eq (by rw [eq', show i = i' from same])
  · rintro i ⟨ge, lt, marked⟩
    obtain ⟨key, eq⟩ := owned.owner i ge lt marked
    refine ⟨key, Option.isSome_iff_exists.mpr ⟨i, eq⟩, ?_⟩
    dsimp only
    rw [eq]
    rfl

end Owned

end CocosOS.Library.SharedPool
