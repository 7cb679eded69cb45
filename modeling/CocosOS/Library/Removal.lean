import Mathlib.Data.Finset.Max
import Mathlib.Data.List.Infix

/-!
# Removing the occurrences of a pattern

`removeAll pattern text` is the text without the occurrences of the pattern, which are found from
the front to the back and do not overlap. The text stays as it is if the pattern does not occur in
it, and is shorter otherwise (`removeAll_eq_self_iff`, `length_removeAll_lt`).

What is left of a text may hold the pattern again. A finite set of texts is nevertheless mapped
onto itself only if each of them stays as it is (`removeAll_eq_self_of_onto`): the longest text that
does not would have to come from a longer one.
-/

set_option autoImplicit false

namespace CocosOS.Library.Removal

variable {α : Type} [DecidableEq α] {pattern : List α}

/-- The text without the occurrences of the pattern, behind so many characters that belong to an
occurrence. An empty pattern has no occurrences. -/
def removeFrom (pattern : List α) : ℕ → List α → List α
  | _, [] => []
  | skip + 1, _ :: rest => removeFrom pattern skip rest
  | 0, c :: rest =>
    if pattern ≠ [] ∧ pattern <+: c :: rest then removeFrom pattern (pattern.length - 1) rest
    else c :: removeFrom pattern 0 rest

def removeAll (pattern text : List α) : List α := removeFrom pattern 0 text

theorem removeAll_nil (text : List α) : removeAll [] text = text := by
  induction text with
  | nil => rfl
  | cons c rest ih =>
      rw [removeAll, removeFrom, if_neg fun both => both.1 rfl]
      exact congrArg (List.cons c) ih

theorem removeFrom_eq_removeAll (skip : ℕ) (text : List α) :
    removeFrom pattern skip text = removeAll pattern (text.drop skip) := by
  induction text generalizing skip with
  | nil =>
      rw [List.drop_nil]
      cases skip <;> rfl
  | cons c rest ih =>
      cases skip with
      | zero => rfl
      | succ skip => exact ih skip

/-- An occurrence at the front is removed. -/
theorem removeAll_append (some : pattern ≠ []) (text : List α) :
    removeAll pattern (pattern ++ text) = removeAll pattern text := by
  obtain ⟨c, rest, rfl⟩ := List.exists_cons_of_ne_nil some
  have here : (c :: rest) <+: c :: (rest ++ text) := List.prefix_append (c :: rest) text
  rw [removeAll, List.cons_append, removeFrom, if_pos ⟨some, here⟩, removeFrom_eq_removeAll,
    List.length_cons, Nat.add_sub_cancel, List.drop_left]

theorem length_removeFrom_le (skip : ℕ) (text : List α) :
    (removeFrom pattern skip text).length ≤ text.length - skip := by
  induction text generalizing skip with
  | nil => cases skip <;> exact Nat.zero_le _
  | cons c rest ih =>
      cases skip with
      | succ skip =>
          rw [removeFrom, List.length_cons, Nat.add_sub_add_right]
          exact ih skip
      | zero =>
          rw [removeFrom, List.length_cons]
          split_ifs with here
          · have later := ih (pattern.length - 1)
            omega
          · rw [List.length_cons]
            exact Nat.succ_le_succ (ih 0)

theorem removeAll_of_absent {text : List α} (none : ¬ pattern <:+: text) :
    removeAll pattern text = text := by
  induction text with
  | nil => rfl
  | cons c rest ih =>
      rw [List.infix_cons_iff, not_or] at none
      rw [removeAll, removeFrom, if_neg fun both => none.1 both.2]
      exact congrArg (List.cons c) (ih none.2)

/-- A text in which the pattern occurs gets shorter. -/
theorem length_removeAll_lt (some : pattern ≠ []) {text : List α} (occurs : pattern <:+: text) :
    (removeAll pattern text).length < text.length := by
  induction text with
  | nil => exact absurd (List.infix_nil.mp occurs) some
  | cons c rest ih =>
      rw [removeAll, removeFrom, List.length_cons]
      split_ifs with here
      · exact Nat.lt_succ_of_le ((length_removeFrom_le _ _).trans (Nat.sub_le ..))
      · have inside : pattern <:+: rest :=
          (List.infix_cons_iff.mp occurs).resolve_left fun front => here ⟨some, front⟩
        rw [List.length_cons]
        exact Nat.succ_lt_succ (ih inside)

theorem removeAll_eq_self_iff (some : pattern ≠ []) {text : List α} :
    removeAll pattern text = text ↔ ¬ pattern <:+: text := by
  constructor
  · intro same occurs
    exact Nat.ne_of_lt (length_removeAll_lt some occurs) (congrArg List.length same)
  · exact removeAll_of_absent

/-- **Texts that all come from one another stay as they are.** -/
theorem removeAll_eq_self_of_onto (some : pattern ≠ []) {texts : Finset (List α)}
    (onto : ∀ text ∈ texts, ∃ longer ∈ texts, removeAll pattern longer = text) :
    ∀ text ∈ texts, removeAll pattern text = text := by
  by_contra changed
  obtain ⟨first, member, changes⟩ := by simpa only [not_forall] using changed
  obtain ⟨text, inside, longest⟩ := Finset.exists_max_image
    (texts.filter fun text => removeAll pattern text ≠ text) List.length
    ⟨first, Finset.mem_filter.mpr ⟨member, changes⟩⟩
  obtain ⟨kept, changes⟩ := Finset.mem_filter.mp inside
  obtain ⟨longer, kept', rfl⟩ := onto text kept
  have changes' : removeAll pattern longer ≠ longer := fun same => changes (congrArg _ same)
  have occurs : pattern <:+: longer := not_not.mp (mt (removeAll_eq_self_iff some).mpr changes')
  exact Nat.not_lt_of_le (longest longer (Finset.mem_filter.mpr ⟨kept', changes'⟩))
    (length_removeAll_lt some occurs)

end CocosOS.Library.Removal
