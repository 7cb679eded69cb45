import Mathlib.Data.BitVec
import Mathlib.Data.List.GetD
import Mathlib.Tactic.Common

/-!
# Strings in memory

A C string is read from a sequence of bytes up to the first zero. `text` reads at most a given
number of characters; it is determined by those characters and by the zero after them, if there
is room for one (`text_eq`). `strncpy` copies such a text into a buffer and pads it with zeros
up to the given number of bytes; the text can be read back from there (`text_strncpy`), and
bytes outside are left alone (`strncpy_of_outside`).

A terminated string is its characters (`Terminated.chars_eq_iff`). `strcpy` copies it with its
zero and `strcmp` tells whether it is the string in some buffer (`strcmp_eq_zero_iff`,
`strcmp_strcpy`).
-/

set_option autoImplicit false

namespace CocosOS.Library.CString

/-- A sequence of bytes, from some address on. -/
abbrev Bytes := ℕ → BitVec 8

/-- The bytes from an offset on. -/
def Bytes.from (bytes : Bytes) (offset : ℕ) : Bytes := fun index => bytes (offset + index)

@[simp] theorem Bytes.from_apply (bytes : Bytes) (offset index : ℕ) :
    bytes.from offset index = bytes (offset + index) := rfl

@[simp] theorem Bytes.from_zero (bytes : Bytes) : bytes.from 0 = bytes := by
  funext index
  rw [Bytes.from_apply, Nat.zero_add]

/-- The characters of a literal. -/
def literal (text : String) : List (BitVec 8) := text.toList.map fun c => BitVec.ofNat 8 c.toNat

/-! ## Texts -/

/-- The characters before the first zero, `limit` at most. -/
def text (bytes : Bytes) : ℕ → List (BitVec 8)
  | 0 => []
  | limit + 1 => if bytes 0 = 0 then [] else bytes 0 :: text (bytes.from 1) limit

theorem length_text_le (bytes : Bytes) (limit : ℕ) : (text bytes limit).length ≤ limit := by
  induction limit generalizing bytes with
  | zero => exact Nat.le_refl 0
  | succ limit ih =>
      rw [text]
      split_ifs
      · exact Nat.zero_le _
      · exact Nat.succ_le_succ (ih _)

/-- A text holds no zero. -/
theorem zero_notMem_text (bytes : Bytes) (limit : ℕ) : 0 ∉ text bytes limit := by
  induction limit generalizing bytes with
  | zero => exact List.not_mem_nil
  | succ limit ih =>
      rw [text]
      split_ifs with ended
      · exact List.not_mem_nil
      · exact List.not_mem_cons_of_ne_of_not_mem (Ne.symm ended) (ih _)

/-- **A text is its characters and the zero after them.** -/
theorem text_eq {bytes : Bytes} {limit : ℕ} {chars : List (BitVec 8)}
    (short : chars.length ≤ limit) (nonzero : 0 ∉ chars)
    (reads : ∀ index, (inside : index < chars.length) → bytes index = chars[index])
    (ended : chars.length < limit → bytes chars.length = 0) : text bytes limit = chars := by
  induction limit generalizing bytes chars with
  | zero => rw [text, List.length_eq_zero_iff.mp (Nat.le_zero.mp short)]
  | succ limit ih =>
      cases chars with
      | nil => exact if_pos (ended (Nat.succ_pos _))
      | cons first rest =>
          have head := reads 0 (Nat.succ_pos _)
          rw [List.getElem_cons_zero] at head
          have here : bytes 0 ≠ 0 := fun zero =>
            nonzero (List.mem_cons.mpr (.inl (zero.symm.trans head)))
          rw [text, if_neg here, head]
          refine congrArg _ (ih (Nat.le_of_succ_le_succ short)
            (List.not_mem_of_not_mem_cons nonzero) ?_ ?_)
          · intro index inside
            rw [Bytes.from_apply, Nat.add_comm, reads _ (Nat.succ_lt_succ inside),
              List.getElem_cons_succ]
          · intro less
            rw [Bytes.from_apply, Nat.add_comm]
            exact ended (Nat.succ_lt_succ less)

/-- A text depends only on the bytes it may read. -/
theorem text_congr {bytes bytes' : Bytes} {limit : ℕ}
    (same : ∀ index < limit, bytes' index = bytes index) :
    text bytes' limit = text bytes limit := by
  induction limit generalizing bytes bytes' with
  | zero => rfl
  | succ limit ih =>
      have later : ∀ index < limit, bytes'.from 1 index = bytes.from 1 index :=
        fun index less => same (1 + index) (by omega)
      rw [text, text, same 0 (Nat.succ_pos _), ih later]

/-! ## Terminated strings -/

/-- A string in memory: characters that are not zero, then a zero, then anything. -/
structure Terminated where
  bytes : Bytes
  length : ℕ
  nonzero : ∀ index < length, bytes index ≠ 0
  terminator : bytes length = 0

namespace Terminated

/-- A string of one character. -/
def single (c : BitVec 8) (nonzero : c ≠ 0) : Terminated where
  bytes i := if i = 0 then c else 0
  length := 1
  nonzero index less := by
    rw [Nat.lt_one_iff.mp less]
    exact nonzero
  terminator := rfl

/-- The characters of a string. -/
def chars (string : Terminated) : List (BitVec 8) :=
  (List.range string.length).map string.bytes

@[simp] theorem length_chars (string : Terminated) : string.chars.length = string.length := by
  simp [chars]

theorem zero_notMem_chars (string : Terminated) : 0 ∉ string.chars := by
  intro member
  obtain ⟨index, inside, zero⟩ := List.mem_map.mp member
  exact string.nonzero index (List.mem_range.mp inside) zero

/-- Reading at most `limit` characters of a string gives its first ones. -/
theorem text_bytes (string : Terminated) (limit : ℕ) :
    text string.bytes limit = string.chars.take limit := by
  refine text_eq (List.length_take_le _ _)
    (fun member => string.zero_notMem_chars (List.mem_of_mem_take member)) ?_ ?_
  · intro index inside
    rw [List.getElem_take]
    simp [chars]
  · intro less
    rw [List.length_take, string.length_chars] at less ⊢
    rw [Nat.min_eq_right (by omega)]
    exact string.terminator

/-- **A string with the bytes of another has its characters**, and only then. -/
theorem chars_eq_iff (string other : Terminated) :
    string.chars = other.chars ↔
      ∀ index ≤ other.length, string.bytes index = other.bytes index := by
  constructor
  · intro same index inside
    have lengths : string.length = other.length := by
      rw [← length_chars, same, length_chars]
    rcases Nat.lt_or_eq_of_le inside with before | rfl
    · have here := congrArg (·[index]?) same
      simpa [chars, lengths, before] using here
    · rw [other.terminator, ← lengths, string.terminator]
  · intro same
    have short : string.length ≤ other.length := by
      by_contra longer
      exact string.nonzero _ (Nat.lt_of_not_le longer)
        ((same _ (Nat.le_refl _)).trans other.terminator)
    have long : other.length ≤ string.length := by
      by_contra shorter
      exact other.nonzero _ (Nat.lt_of_not_le shorter) ((same _ short).symm.trans string.terminator)
    rw [chars, chars, Nat.le_antisymm short long]
    exact List.map_congr_left fun index inside => same index (List.mem_range.mp inside).le

/-- The first characters of a string. -/
def take (string : Terminated) (limit : ℕ) : Terminated where
  bytes index := if index < limit then string.bytes index else 0
  length := min limit string.length
  nonzero index inside := by
    rw [if_pos (Nat.lt_of_lt_of_le inside (Nat.min_le_left _ _))]
    exact string.nonzero index (Nat.lt_of_lt_of_le inside (Nat.min_le_right _ _))
  terminator := by
    split_ifs with short
    · rw [Nat.min_eq_right (by omega)]
      exact string.terminator
    · rfl

@[simp] theorem length_take (string : Terminated) (limit : ℕ) :
    (string.take limit).length = min limit string.length := rfl

theorem take_bytes_of_lt {string : Terminated} {limit index : ℕ} (inside : index < limit) :
    (string.take limit).bytes index = string.bytes index := if_pos inside

/-- A string that is short enough is its first characters. -/
theorem chars_take {string : Terminated} {limit : ℕ} (short : string.length ≤ limit) :
    (string.take limit).chars = string.chars := by
  rw [chars, chars, length_take, Nat.min_eq_right short]
  exact List.map_congr_left fun index inside =>
    take_bytes_of_lt (Nat.lt_of_lt_of_le (List.mem_range.mp inside) short)

end Terminated

/-- A text that ends in its buffer is a string. -/
theorem exists_terminated {bytes : Bytes} {limit : ℕ} (ends : ∃ index < limit, bytes index = 0) :
    ∃ string : Terminated, string.bytes = bytes ∧ string.length < limit ∧
      string.chars = text bytes limit := by
  obtain ⟨index, inside, zero⟩ := ends
  have somewhere : ∃ index, bytes index = 0 := ⟨index, zero⟩
  let string : Terminated := ⟨bytes, Nat.find somewhere,
    fun index before => Nat.find_min somewhere before, Nat.find_spec somewhere⟩
  have short : string.length < limit := (Nat.find_le zero).trans_lt inside
  refine ⟨string, rfl, short, ?_⟩
  have whole := string.text_bytes limit
  rw [List.take_of_length_le (by rw [string.length_chars]; exact short.le)] at whole
  exact whole.symm

/-! ## Comparing -/

/-- The loop of `strcmp`, over as many characters at most. -/
def compareChars (a b : Bytes) : ℕ → ℤ
  | 0 => 0
  | limit + 1 =>
    if a 0 ≠ b 0 then (a 0).toNat - (b 0).toNat
    else if b 0 = 0 then 0
    else compareChars (a.from 1) (b.from 1) limit

/-- `strcmp`. It stops behind the zero of the second string at the latest. -/
def strcmp (a : Bytes) (b : Terminated) : ℤ := compareChars a b.bytes (b.length + 1)

theorem compareChars_eq_zero_iff {a b : Bytes} {length : ℕ}
    (nonzero : ∀ index < length, b index ≠ 0) (terminator : b length = 0) :
    compareChars a b (length + 1) = 0 ↔ ∀ index ≤ length, a index = b index := by
  induction length generalizing a b with
  | zero =>
      rw [compareChars]
      split_ifs with differ
      · refine iff_of_false (fun zero => differ ?_) fun same => differ (same 0 (Nat.le_refl 0))
        exact BitVec.eq_of_toNat_eq (by omega)
      · refine iff_of_true rfl fun index here => ?_
        rw [Nat.le_zero.mp here]
        exact not_not.mp differ
  | succ length ih =>
      rw [compareChars, if_neg (nonzero 0 (Nat.succ_pos _))]
      split_ifs with differ
      · refine iff_of_false (fun zero => differ ?_) fun same => differ (same 0 (Nat.zero_le _))
        exact BitVec.eq_of_toNat_eq (by omega)
      · have shift : ∀ index, b.from 1 index = b (index + 1) := fun index => by
          rw [Bytes.from_apply, Nat.add_comm]
        rw [ih (fun index inside => by
            rw [shift]
            exact nonzero _ (Nat.succ_lt_succ inside))
          ((shift length).trans terminator)]
        constructor
        · intro same index inside
          cases index with
          | zero => exact not_not.mp differ
          | succ index =>
              rw [Nat.add_comm]
              exact same index (Nat.le_of_succ_le_succ inside)
        · exact fun same index inside => same (1 + index) (by omega)

/-- **Only a buffer that holds the string compares equal with it.** -/
theorem strcmp_eq_zero_iff {a : Bytes} {b : Terminated} :
    strcmp a b = 0 ↔ ∀ index ≤ b.length, a index = b.bytes index :=
  compareChars_eq_zero_iff b.nonzero b.terminator

/-- A buffer holds one string. -/
theorem chars_eq_of_strcmp {a : Bytes} {b c : Terminated} (first : strcmp a b = 0)
    (second : strcmp a c = 0) : b.chars = c.chars := by
  rw [strcmp_eq_zero_iff] at first second
  rw [Terminated.chars_eq_iff]
  intro index inside
  have short : index ≤ b.length := by
    by_contra longer
    have early : b.length < c.length := by omega
    exact c.nonzero _ early
      ((second _ early.le).symm.trans ((first _ (Nat.le_refl _)).trans b.terminator))
  rw [← first index short, second index inside]

/-- Strings compare equal if they have the same characters, and only then. -/
theorem strcmp_bytes (a b : Terminated) : strcmp a.bytes b = 0 ↔ a.chars = b.chars := by
  have self : strcmp a.bytes a = 0 := strcmp_eq_zero_iff.mpr fun _ _ => rfl
  refine ⟨chars_eq_of_strcmp self, fun same => strcmp_eq_zero_iff.mpr fun index inside => ?_⟩
  exact ((Terminated.chars_eq_iff a b).mp same) index inside

/-! ## Copying -/

/-- `strcpy`. -/
def strcpy (dst : Bytes) (src : Terminated) : Bytes := fun index =>
  if index ≤ src.length then src.bytes index else dst index

theorem strcpy_of_inside {dst : Bytes} {src : Terminated} {index : ℕ}
    (inside : index ≤ src.length) : strcpy dst src index = src.bytes index := if_pos inside

theorem strcpy_of_outside {dst : Bytes} {src : Terminated} {index : ℕ}
    (outside : src.length < index) : strcpy dst src index = dst index :=
  if_neg (Nat.not_le_of_lt outside)

/-- A copied string reads back. -/
theorem text_strcpy (dst : Bytes) {src : Terminated} {limit : ℕ} (fits : src.length ≤ limit) :
    text (strcpy dst src) limit = src.chars := by
  refine text_eq (by rw [src.length_chars]; exact fits) src.zero_notMem_chars ?_ ?_
  · intro index inside
    rw [src.length_chars] at inside
    rw [strcpy_of_inside inside.le]
    simp [Terminated.chars]
  · intro less
    rw [src.length_chars, strcpy_of_inside (Nat.le_refl _), src.terminator]

/-- A copied string compares equal with what has its characters. -/
theorem strcmp_strcpy (dst : Bytes) (src b : Terminated) :
    strcmp (strcpy dst src) b = 0 ↔ src.chars = b.chars := by
  have self : strcmp (strcpy dst src) src = 0 :=
    strcmp_eq_zero_iff.mpr fun index inside => strcpy_of_inside inside
  refine ⟨chars_eq_of_strcmp self, fun same => strcmp_eq_zero_iff.mpr fun index inside => ?_⟩
  have lengths : src.length = b.length := by
    rw [← src.length_chars, same, b.length_chars]
  rw [strcpy_of_inside (lengths ▸ inside)]
  exact (Terminated.chars_eq_iff src b).mp same index inside

/-- `strncpy(dst + at, src, n)`: the text of `src`, padded with zeros to `n` bytes. -/
def strncpy (dst : Bytes) (start : ℕ) (src : Bytes) (n : ℕ) : Bytes := fun index =>
  if start ≤ index ∧ index < start + n then (text src n).getD (index - start) 0 else dst index

theorem strncpy_of_outside {dst src : Bytes} {start n index : ℕ}
    (outside : index < start ∨ start + n ≤ index) :
    strncpy dst start src n index = dst index :=
  if_neg (by omega)

theorem strncpy_add (dst src : Bytes) (start : ℕ) {n offset : ℕ} (inside : offset < n) :
    strncpy dst start src n (start + offset) = (text src n).getD offset 0 := by
  rw [strncpy, if_pos (by omega), Nat.add_sub_cancel_left]

/-- **A copied text reads back**, from a memory that holds the copy and, when more than `n`
characters may be read, a zero behind it. -/
theorem text_strncpy (dst src : Bytes) (start : ℕ) {mem : Bytes} {n limit : ℕ} (more : n ≤ limit)
    (copied : ∀ offset < n, mem (start + offset) = strncpy dst start src n (start + offset))
    (ended : n < limit → mem (start + n) = 0) :
    text (mem.from start) limit = text src n := by
  have short := length_text_le src n
  refine text_eq (short.trans more) (zero_notMem_text src n) ?_ ?_
  · intro index inside
    rw [Bytes.from_apply, copied index (by omega), strncpy_add _ _ _ (by omega),
      List.getD_eq_getElem _ _ inside]
  · intro less
    rcases Nat.lt_or_eq_of_le short with before | whole
    · rw [Bytes.from_apply, copied _ before, strncpy_add _ _ _ before,
        List.getD_eq_default _ _ (Nat.le_refl _)]
    · rw [whole, Bytes.from_apply]
      exact ended (whole ▸ less)

end CocosOS.Library.CString
