import Mathlib.Data.List.Basic
import Mathlib.Data.Int.Notation
import Mathlib.Tactic.Common

/-!
# Rows under a click

A window draws panels for each of its rows, and a click is handled by the first row that takes it.
The window acts on what it drew (`ActsOn`) if the handler that runs belongs to a panel around the
click, and no panel is around the click where none runs.

Where a click is taken by every row it is the first row that handles it, so the window acts on what
it drew only in the panel of the first row (`actsOn_taken_iff`).
-/

set_option autoImplicit false

namespace CocosOS.Library.Rows

structure Click where
  x : ℤ
  y : ℤ

/-- The click is between these bounds, which belong to it. -/
def Click.Within (click : Click) (left right top bottom : ℤ) : Prop :=
  click.x ≥ left ∧ click.x ≤ right ∧ click.y ≥ top ∧ click.y ≤ bottom

instance (click : Click) (left right top bottom : ℤ) :
    Decidable (click.Within left right top bottom) :=
  inferInstanceAs (Decidable (_ ∧ _ ∧ _ ∧ _))

structure Panel where
  x : ℤ
  y : ℤ
  width : ℤ
  height : ℤ

/-- The panel is drawn around the click. -/
def Panel.Around (panel : Panel) (click : Click) : Prop :=
  click.Within panel.x (panel.x + panel.width) panel.y (panel.y + panel.height)

variable {Row Action State : Type}

/-- The first row that takes the click. Rows are counted from 1. -/
def firstRow (take : ℕ → Row → Option (Action × State)) (rows : List Row) :
    Option ((Action × ℕ) × State) :=
  (rows.zipIdx 1).findSome? fun entry =>
    (take entry.2 entry.1).map fun taken => ((taken.1, entry.2), taken.2)

/-- The handler that runs, and the state after it. -/
def handleRows (take : State → ℕ → Row → Option (Action × State)) (rows : State → List Row)
    (state : State) : Option (Action × ℕ) × State :=
  match firstRow (take state) (rows state) with
  | some (handler, state) => (some handler, state)
  | none => (none, state)

/-- A panel of this action is drawn for the row with this number, and it is around the click. -/
def Drawn (panels : ℕ → Row → List (Action × Panel)) (rows : List Row) (click : Click)
    (handler : Action × ℕ) : Prop :=
  ∃ row panel, (row, handler.2) ∈ rows.zipIdx 1 ∧ (handler.1, panel) ∈ panels handler.2 row ∧
    panel.Around click

/-- What runs is the handler of a panel around the click, and nothing runs only outside of all of
them. -/
def ActsOn (drawn : Action × ℕ → Prop) : Option (Action × ℕ) → Prop
  | some handler => drawn handler
  | none => ∀ handler, ¬ drawn handler

/-- All panels are between these columns and below this height. -/
def Bounded (panels : ℕ → Row → List (Action × Panel)) (left right top : ℤ) : Prop :=
  ∀ i row action panel, 1 ≤ i → (action, panel) ∈ panels i row →
    left ≤ panel.x ∧ panel.x + panel.width ≤ right ∧ top ≤ panel.y

/-! ## Panels -/

section

variable {panels : ℕ → Row → List (Action × Panel)} {rows : List Row} {click : Click}

theorem not_drawn_nil (handler : Action × ℕ) : ¬ Drawn panels [] click handler :=
  fun ⟨_, _, member, _⟩ => List.not_mem_nil member

/-- What is drawn for a row with a number is drawn for this row. -/
theorem drawn_iff_of_mem {row : Row} {i : ℕ} (member : (row, i) ∈ rows.zipIdx 1) {action : Action} :
    Drawn panels rows click (action, i) ↔
      ∃ panel, (action, panel) ∈ panels i row ∧ panel.Around click := by
  constructor
  · rintro ⟨other, panel, member', drawn, around⟩
    have here := (List.mk_mem_zipIdx_iff_le_and_getElem?_sub.mp member).2
    have here' := (List.mk_mem_zipIdx_iff_le_and_getElem?_sub.mp member').2
    obtain rfl := Option.some.inj (here.symm.trans here')
    exact ⟨panel, drawn, around⟩
  · rintro ⟨panel, drawn, around⟩
    exact ⟨row, panel, member, drawn, around⟩

theorem drawn_first_iff {action : Action} :
    Drawn panels rows click (action, 1) ↔
      ∃ row ∈ rows.head?, ∃ panel, (action, panel) ∈ panels 1 row ∧ panel.Around click := by
  cases rows with
  | nil => exact iff_of_false (not_drawn_nil _) nofun
  | cons row rows =>
      rw [drawn_iff_of_mem (List.mem_cons_self : (row, 1) ∈ (row :: rows).zipIdx 1)]
      simp

/-- Outside of the bounds there is no panel. -/
theorem Bounded.not_drawn {left right top : ℤ} (bounded : Bounded panels left right top)
    (outside : ¬ (left ≤ click.x ∧ click.x ≤ right ∧ top ≤ click.y)) (handler : Action × ℕ) :
    ¬ Drawn panels rows click handler := by
  rintro ⟨row, panel, member, drawn, ⟨fromLeft, toRight, fromTop, -⟩⟩
  obtain ⟨columns, columns', below⟩ :=
    bounded _ _ _ _ (List.le_snd_of_mem_zipIdx member) drawn
  exact outside ⟨Int.le_trans columns fromLeft, Int.le_trans toRight columns',
    Int.le_trans below fromTop⟩

end

/-! ## Handlers -/

section

variable {take : State → ℕ → Row → Option (Action × State)} {rows : State → List Row}
  {state : State}

theorem handleRows_nil (empty : rows state = []) : (handleRows take rows state).1 = none := by
  rw [handleRows, empty]
  rfl

theorem handleRows_none (none : ∀ i row, take state i row = none) :
    (handleRows take rows state).1 = Option.none := by
  have all : firstRow (take state) (rows state) = Option.none := by
    refine List.findSome?_eq_none_iff.mpr fun entry _ => ?_
    rw [none]
    rfl
  rw [handleRows, all]

/-- A click that every row takes is handled by the first one. -/
theorem handleRows_first {action : Action} (taken : ∀ i row, ∃ after,
    take state i row = some (action, after)) (some : rows state ≠ []) :
    (handleRows take rows state).1 = Option.some (action, 1) := by
  obtain ⟨row, rest, split⟩ := List.exists_cons_of_ne_nil some
  obtain ⟨after, first⟩ := taken 1 row
  have here : firstRow (take state) (rows state) = Option.some ((action, 1), after) := by
    rw [firstRow, split, List.zipIdx_cons, List.findSome?_cons_of_isSome]
    · rw [first]
      rfl
    · rw [first]
      rfl
  rw [handleRows, here]

/-- **A click that every row takes acts on what is drawn only in the first row.** -/
theorem actsOn_taken_iff {action : Action} (taken : ∀ i row, ∃ after,
    take state i row = some (action, after)) (drawn : Action × ℕ → Prop) :
    ActsOn drawn (handleRows take rows state).1 ↔
      (rows state = [] ∧ ∀ handler, ¬ drawn handler) ∨ (rows state ≠ [] ∧ drawn (action, 1)) := by
  by_cases empty : rows state = []
  · rw [handleRows_nil empty]
    exact ⟨fun none => .inl ⟨empty, none⟩, fun either => either.elim And.right
      fun some => absurd empty some.1⟩
  · rw [handleRows_first taken empty]
    exact ⟨fun first => .inr ⟨empty, first⟩, fun either => either.elim
      (fun none => absurd none.1 empty) And.right⟩

/-- A click that some rows take, with one action, is handled by the first of them. -/
theorem handleRows_some {action : Action} {takes : Row → Bool} (taken : ∀ i row,
    (take state i row).map Prod.fst = if takes row then some action else none) :
    (handleRows take rows state).1 =
      (((rows state).zipIdx 1).find? fun entry => takes entry.1).map fun entry =>
        (action, entry.2) := by
  have first : (firstRow (take state) (rows state)).map Prod.fst =
      (((rows state).zipIdx 1).find? fun entry => takes entry.1).map fun entry =>
        (action, entry.2) := by
    rw [firstRow, List.map_findSome?, List.find?_eq_findSome?_guard, List.map_findSome?]
    refine congrArg (fun f => List.findSome? f _) (funext fun entry => ?_)
    have here := congrArg (Option.map fun action => (action, entry.2)) (taken entry.2 entry.1)
    rw [Option.map_map] at here
    rw [Function.comp_apply, Option.map_map, Function.comp_apply, Option.guard]
    refine Eq.trans ?_ (here.trans ?_)
    · rfl
    · split_ifs <;> rfl
  rw [← first, handleRows]
  cases firstRow (take state) (rows state) with
  | none => rfl
  | some both => rfl

/-- What the click found and what each row makes of it holds behind the click. -/
theorem handleRows_keeps {holds : State → Prop} (here : holds state)
    (keeps : ∀ i row action after, take state i row = some (action, after) → holds after) :
    holds (handleRows take rows state).2 := by
  cases taken : firstRow (take state) (rows state) with
  | none =>
      rw [handleRows, taken]
      exact here
  | some result =>
      obtain ⟨entry, -, row⟩ := List.exists_of_findSome?_eq_some taken
      obtain ⟨⟨action, after⟩, takes, rfl⟩ := Option.map_eq_some_iff.mp row
      rw [handleRows, taken]
      exact keeps _ _ _ _ takes

/-- Where the rows do not differ in whether they take a click, it is the first row that changes
something. -/
theorem handleRows_uniform {holds : State → Prop} (here : holds state)
    (uniform : ∀ i row j row', take state i row = none → take state j row' = none)
    (first : ∀ row action after, take state 1 row = some (action, after) → holds after) :
    holds (handleRows take rows state).2 := by
  cases split : rows state with
  | nil =>
      rw [handleRows, split]
      exact here
  | cons row rest =>
      cases taken : take state 1 row with
      | none =>
          have none : firstRow (take state) (rows state) = Option.none := by
            refine List.findSome?_eq_none_iff.mpr fun entry _ => ?_
            rw [uniform 1 row entry.2 entry.1 taken]
            rfl
          rw [handleRows, none]
          exact here
      | some result =>
          obtain ⟨action, after⟩ := result
          have head : firstRow (take state) (rows state) = Option.some ((action, 1), after) := by
            rw [firstRow, split, List.zipIdx_cons, List.findSome?_cons_of_isSome]
            · rw [taken]
              rfl
            · rw [taken]
              rfl
          rw [handleRows, head]
          exact first row action after taken

/-- A click that no row takes, and that is outside of all panels, is as it should be. -/
theorem actsOn_none {drawn : Action × ℕ → Prop} (none : ∀ i row, take state i row = none)
    (outside : ∀ handler, ¬ drawn handler) : ActsOn drawn (handleRows take rows state).1 := by
  rw [handleRows_none none]
  exact outside

end

end CocosOS.Library.Rows
