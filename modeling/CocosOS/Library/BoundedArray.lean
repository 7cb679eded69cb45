import Mathlib.Data.List.GetD
import Mathlib.Data.List.Range
import Mathlib.Logic.Function.Basic
import Mathlib.Tactic.Common
import Mathlib.Tactic.SplitIfs

/-!
# Arrays with an end

An array is read by index, and a write at its end or behind it has no result (`put`). Values
written one after another all lie inside exactly if the last one does (`putAll_isSome_iff`), and
then they overlay what the array held (`putAll_of_fits`). A `slice` of the array reads them back,
and a slice before them is as it was (`slice_overlay_self`, `slice_overlay_of_le`).
-/

set_option autoImplicit false

namespace CocosOS.Library.BoundedArray

variable {α : Type*} {limit start : ℕ} {array : ℕ → α} {values : List α}

/-! ## Writes -/

/-- A write into an array of so many elements. -/
def put (limit : ℕ) (array : ℕ → α) (index : ℕ) (value : α) : Option (ℕ → α) :=
  if index < limit then some (Function.update array index value) else none

theorem put_of_lt {index : ℕ} (inside : index < limit) (value : α) :
    put limit array index value = some (Function.update array index value) := if_pos inside

theorem put_of_ge {index : ℕ} (outside : limit ≤ index) (value : α) :
    put limit array index value = none := if_neg (Nat.not_lt_of_le outside)

/-- Values are written one after another, from an index on. -/
def putAll (limit : ℕ) : (ℕ → α) → ℕ → List α → Option (ℕ → α)
  | array, _, [] => some array
  | array, start, value :: values =>
    (put limit array start value).bind fun array => putAll limit array (start + 1) values

/-- **All writes lie inside the array exactly if the last one does.** -/
theorem putAll_isSome_iff : (putAll limit array start values).isSome ↔
    values = [] ∨ start + values.length ≤ limit := by
  induction values generalizing array start with
  | nil => simp [putAll]
  | cons value values ih =>
      rw [putAll, List.length_cons]
      by_cases inside : start < limit
      · rw [put_of_lt inside, Option.bind_some, ih, or_iff_right (List.cons_ne_nil _ _)]
        constructor
        · rintro (rfl | fits)
          · exact inside
          · omega
        · intro fits
          right
          omega
      · rw [put_of_ge (Nat.le_of_not_lt inside), Option.bind_none]
        refine iff_of_false nofun ?_
        rintro (empty | fits)
        · exact List.cons_ne_nil _ _ empty
        · omega

/-! ## Overlays -/

/-- The array with the values from an index on. -/
def overlay (array : ℕ → α) (start : ℕ) (values : List α) : ℕ → α := fun index =>
  if start ≤ index then values.getD (index - start) (array index) else array index

theorem overlay_of_lt {index : ℕ} (before : index < start) :
    overlay array start values index = array index := if_neg (Nat.not_le_of_lt before)

@[simp] theorem overlay_nil (array : ℕ → α) (start : ℕ) : overlay array start [] = array := by
  funext index
  rw [overlay]
  split_ifs <;> rfl

theorem overlay_add {offset : ℕ} (inside : offset < values.length) :
    overlay array start values (start + offset) = values[offset] := by
  rw [overlay, if_pos (Nat.le_add_right _ _), Nat.add_sub_cancel_left]
  exact List.getD_eq_getElem _ _ inside

theorem overlay_cons (value : α) :
    overlay (Function.update array start value) (start + 1) values =
      overlay array start (value :: values) := by
  funext index
  rcases Nat.lt_trichotomy index start with before | here | behind
  · rw [overlay_of_lt (Nat.lt_succ_of_lt before), overlay_of_lt before,
      Function.update_of_ne before.ne]
  · rw [here, overlay_of_lt (Nat.lt_succ_self _), Function.update_self]
    have first : 0 < (value :: values).length := Nat.succ_pos _
    exact (overlay_add first).symm
  · obtain ⟨offset, rfl⟩ := Nat.exists_eq_add_of_lt behind
    rw [overlay, overlay, if_pos (by omega), if_pos (by omega), Function.update_of_ne (by omega)]
    have first : start + offset + 1 - (start + 1) = offset := by omega
    have second : start + offset + 1 - start = offset + 1 := by omega
    rw [first, second, List.getD_cons_succ]

/-- Values behind those of an overlay extend it. -/
theorem overlay_overlay (more : List α) :
    overlay (overlay array start values) (start + values.length) more =
      overlay array start (values ++ more) := by
  induction values generalizing array start with
  | nil => rw [overlay_nil, List.length_nil, Nat.add_zero, List.nil_append]
  | cons value values ih =>
      rw [List.cons_append, ← overlay_cons, ← overlay_cons, ← ih, List.length_cons,
        Nat.add_right_comm, Nat.add_assoc]

/-- One value that is written overlays the array. -/
theorem update_eq_overlay (array : ℕ → α) (start : ℕ) (value : α) :
    Function.update array start value = overlay array start [value] := by
  rw [← overlay_cons, overlay_nil]

/-- **Writes that fit overlay the array.** -/
theorem putAll_of_fits (fits : start + values.length ≤ limit) :
    putAll limit array start values = some (overlay array start values) := by
  induction values generalizing array start with
  | nil =>
      rw [putAll, overlay_nil]
  | cons value values ih =>
      rw [List.length_cons] at fits
      rw [putAll, put_of_lt (by omega), Option.bind_some, ih (by omega), overlay_cons]

/-! ## Slices -/

/-- So many elements of the array from an index on. -/
def slice (array : ℕ → α) (start count : ℕ) : List α :=
  (List.range count).map fun offset => array (start + offset)

@[simp] theorem length_slice (array : ℕ → α) (start count : ℕ) :
    (slice array start count).length = count := by
  simp [slice]

theorem getElem_slice {count offset : ℕ} (inside : offset < (slice array start count).length) :
    (slice array start count)[offset] = array (start + offset) := by
  simp [slice]

theorem slice_congr {other : ℕ → α} {count : ℕ}
    (same : ∀ offset < count, other (start + offset) = array (start + offset)) :
    slice other start count = slice array start count :=
  List.map_congr_left fun offset member => same offset (List.mem_range.mp member)

theorem slice_add (array : ℕ → α) (start m n : ℕ) :
    slice array start (m + n) = slice array start m ++ slice array (start + m) n := by
  rw [slice, List.range_add, List.map_append, List.map_map, slice, slice]
  refine congrArg _ (List.map_congr_left fun offset _ => ?_)
  rw [Function.comp_apply, Nat.add_assoc]

theorem slice_succ (array : ℕ → α) (start n : ℕ) :
    slice array start (n + 1) = array start :: slice array (start + 1) n := by
  rw [Nat.add_comm, slice_add]
  rfl

/-- A slice is put together from its parts. -/
theorem slice_eq_append_iff {front back : List α} :
    slice array start (front ++ back).length = front ++ back ↔
      slice array start front.length = front ∧
        slice array (start + front.length) back.length = back := by
  rw [List.length_append, slice_add]
  refine ⟨fun same => List.append_inj same (length_slice _ _ _), ?_⟩
  rintro ⟨first, second⟩
  rw [first, second]

theorem slice_overlay_self : slice (overlay array start values) start values.length = values := by
  apply List.ext_getElem
  · exact length_slice _ _ _
  · intro offset inside inside'
    rw [getElem_slice, overlay_add inside']

theorem slice_overlay_of_le {first count : ℕ} (before : first + count ≤ start) :
    slice (overlay array start values) first count = slice array first count :=
  slice_congr fun _ _ => overlay_of_lt (by omega)

/-- **Values written behind a slice extend it.** -/
theorem slice_overlay_append (array : ℕ → α) (start count : ℕ) (values : List α) :
    slice (overlay array (start + count) values) start (count + values.length) =
      slice array start count ++ values := by
  rw [slice_add, slice_overlay_of_le (Nat.le_refl _), slice_overlay_self]

end CocosOS.Library.BoundedArray
