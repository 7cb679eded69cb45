import CocosOS.Library.CString
import Mathlib.Data.List.DropRight
import Mathlib.Data.List.TakeWhile
import Mathlib.Data.List.Infix

/-!
# Reading lines and fields

`fgets` reads a line of bounded length, and the conversions of `sscanf` skip spaces and read a
number or a word. A number that is written in decimal with spaces in front of it is read back
(`scanInt_decimal`), and so is a word (`scanWord_append`).

`strstr` finds the first occurrence of a pattern. If the pattern ends with a character that occurs
nowhere else in it, it is found in front of the first such character whose text ends with the rest
of the pattern (`behind_append_cons`).
-/

set_option autoImplicit false

namespace CocosOS.Library.CString

abbrev Chars := List (BitVec 8)

/-! ## Lines -/

/-- What calls of `fgets` read one after the other, `limit` characters at most each, where
`current` is what the call has read so far. -/
def fgetsLines (limit : ℕ) : Chars → Chars → List Chars
  | current, [] => if current = [] then [] else [current]
  | current, c :: rest =>
    if c = 10 ∨ current.length + 1 = limit then
      (current ++ [c]) :: fgetsLines limit [] rest
    else fgetsLines limit (current ++ [c]) rest

/-- A line that is short enough is read at once. -/
theorem fgetsLines_line {limit : ℕ} {line : Chars} (whole : 10 ∉ line) (rest current : Chars)
    (short : current.length + line.length < limit) :
    fgetsLines limit current (line ++ 10 :: rest) =
      (current ++ line ++ [10]) :: fgetsLines limit [] rest := by
  induction line generalizing current with
  | nil =>
      rw [List.nil_append, fgetsLines, if_pos (.inl rfl), List.append_nil]
  | cons c line ih =>
      rw [List.length_cons] at short
      have other : ¬ (c = 10 ∨ current.length + 1 = limit) := by
        rintro (rfl | full)
        · exact whole List.mem_cons_self
        · omega
      have length : (current ++ [c]).length + line.length < limit := by
        rw [List.length_append, List.length_singleton]
        omega
      rw [List.cons_append, fgetsLines, if_neg other,
        ih (fun member => whole (List.mem_cons_of_mem _ member)) _ length]
      simp

/-! ## Conversions -/

def isSpace (c : BitVec 8) : Bool := c = 32 ∨ (9 ≤ c ∧ c ≤ 13)

def isDigit (c : BitVec 8) : Bool := 48 ≤ c ∧ c ≤ 57

def skipSpaces (s : Chars) : Chars := s.dropWhile isSpace

/-- The value of decimal digits. -/
def decimalValue (digits : Chars) : ℕ :=
  digits.foldl (fun value c => 10 * value + (c.toNat - 48)) 0

/-- An optional sign: whether it is a minus, and what stands behind it. -/
def scanSign : Chars → Bool × Chars
  | [] => (false, [])
  | c :: rest =>
    if c = 45 then (true, rest) else if c = 43 then (false, rest) else (false, c :: rest)

/-- A number with a sign, behind spaces: whether it has a minus, its digits, and what stands behind
them. -/
def scanInt (s : Chars) : Option (Bool × ℕ × Chars) :=
  let signed := scanSign (skipSpaces s)
  let digits := signed.2.takeWhile isDigit
  if digits = [] then none
  else some (signed.1, decimalValue digits, signed.2.dropWhile isDigit)

/-- `%llu`, which saturates. -/
def scanUnsigned (s : Chars) : Option (BitVec 64 × Chars) :=
  (scanInt s).map fun (minus, value, rest) =>
    (if 2 ^ 64 ≤ value then .allOnes 64
      else if minus then -.ofNat 64 value
      else .ofNat 64 value, rest)

/-- `%s` with a width. -/
def scanWord (width : ℕ) (s : Chars) : Option (Chars × Chars) :=
  let word := ((skipSpaces s).takeWhile fun c => !isSpace c).take width
  if word = [] then none else some (word, (skipSpaces s).drop word.length)

/-- A number in decimal. -/
def decimal (n : ℕ) : Chars := (Nat.toDigits 10 n).map fun c => .ofNat 8 c.toNat

/-- A text behind spaces, so many characters wide at least. -/
def padded (width : ℕ) (s : Chars) : Chars := List.replicate (width - s.length) 32 ++ s

theorem toNat_of_isDigit {c : Char} (digit : c.isDigit) :
    (BitVec.ofNat 8 c.toNat).toNat = c.toNat ∧ 48 ≤ c.toNat ∧ c.toNat ≤ 57 := by
  have bounds : 48 ≤ c.toNat ∧ c.toNat ≤ 57 := by
    simpa [Char.isDigit, UInt32.le_iff_toNat_le] using digit
  refine ⟨?_, bounds⟩
  rw [BitVec.toNat_ofNat, Nat.mod_eq_of_lt (by omega)]

theorem isDigit_of_mem_decimal {n : ℕ} {c : BitVec 8} (member : c ∈ decimal n) :
    isDigit c = true := by
  obtain ⟨digit, inside, rfl⟩ := List.mem_map.mp member
  obtain ⟨same, low, high⟩ :=
    toNat_of_isDigit (Nat.isDigit_of_mem_toDigits (by decide) (by decide) inside)
  rw [isDigit, decide_eq_true_iff, BitVec.le_def, BitVec.le_def, same]
  exact ⟨low, high⟩

theorem decimal_ne_nil (n : ℕ) : decimal n ≠ [] := by
  rw [decimal, ne_eq, List.map_eq_nil_iff]
  exact Nat.toDigits_ne_nil

/-- A number can be read back. -/
theorem decimalValue_decimal (n : ℕ) : decimalValue (decimal n) = n := by
  rw [decimalValue, decimal, List.foldl_map]
  refine Eq.trans ?_ (Nat.ofDigitChars_toDigits (b := 10) (by decide) (by decide))
  rw [Nat.ofDigitChars_eq_foldl]
  refine List.foldl_ext _ _ _ fun value c member => ?_
  rw [(toNat_of_isDigit (Nat.isDigit_of_mem_toDigits (by decide) (by decide) member)).1]
  rfl

theorem isSpace_of_isDigit {c : BitVec 8} (digit : isDigit c = true) : isSpace c = false := by
  revert digit c
  decide

theorem scanSign_of_isDigit {c : BitVec 8} (digit : isDigit c = true) (rest : Chars) :
    scanSign (c :: rest) = (false, c :: rest) := by
  have minus : c ≠ 45 := by
    rintro rfl
    exact absurd digit (by decide)
  have plus : c ≠ 43 := by
    rintro rfl
    exact absurd digit (by decide)
  rw [scanSign, if_neg minus, if_neg plus]

section

variable {p : BitVec 8 → Bool} {s rest : Chars} (inside : ∀ c ∈ s, p c = true)
  (ends : ∀ c, rest.head? = some c → p c = false)
include inside ends

/-- What is read ends where the first other character stands. -/
theorem takeWhile_append_of_head : (s ++ rest).takeWhile p = s := by
  rw [List.takeWhile_append_of_pos inside]
  cases rest with
  | nil => exact List.append_nil s
  | cons c rest =>
      rw [List.takeWhile_cons_of_neg (by simp [ends c rfl]), List.append_nil]

theorem dropWhile_append_of_head : (s ++ rest).dropWhile p = rest := by
  rw [List.dropWhile_append_of_pos inside]
  cases rest with
  | nil => rfl
  | cons c rest => exact List.dropWhile_cons_of_neg (by simp [ends c rfl])

end

/-- Spaces in front of a character that is none are skipped. -/
theorem skipSpaces_append {blanks : Chars} (spaces : ∀ c ∈ blanks, isSpace c = true)
    {c : BitVec 8} (other : isSpace c = false) (rest : Chars) :
    skipSpaces (blanks ++ c :: rest) = c :: rest := by
  rw [skipSpaces, List.dropWhile_append_of_pos spaces, List.dropWhile_cons_of_neg]
  rw [other]
  exact Bool.false_ne_true

/-- Spaces that were skipped already make no difference. -/
theorem skipSpaces_skipSpaces (s : Chars) : skipSpaces (skipSpaces s) = skipSpaces s :=
  List.dropWhile_idempotent _ _

@[simp] theorem scanInt_skipSpaces (s : Chars) : scanInt (skipSpaces s) = scanInt s := by
  rw [scanInt, scanInt, skipSpaces_skipSpaces]

@[simp] theorem scanUnsigned_skipSpaces (s : Chars) :
    scanUnsigned (skipSpaces s) = scanUnsigned s := by
  rw [scanUnsigned, scanUnsigned, scanInt_skipSpaces]

@[simp] theorem scanWord_skipSpaces (width : ℕ) (s : Chars) :
    scanWord width (skipSpaces s) = scanWord width s := by
  rw [scanWord, scanWord, skipSpaces_skipSpaces]

section

variable {blanks rest : Chars} (spaces : ∀ c ∈ blanks, isSpace c = true)
include spaces

/-- **A number behind spaces is read back.** -/
theorem scanInt_decimal (n : ℕ) (ends : ∀ c, rest.head? = some c → isDigit c = false) :
    scanInt (blanks ++ (decimal n ++ rest)) = some (false, n, rest) := by
  obtain ⟨first, more, split⟩ := List.exists_cons_of_ne_nil (decimal_ne_nil n)
  have digit : isDigit first = true :=
    isDigit_of_mem_decimal (split.symm ▸ List.mem_cons_self : first ∈ decimal n)
  have skipped : skipSpaces (blanks ++ (decimal n ++ rest)) = decimal n ++ rest := by
    rw [split]
    exact skipSpaces_append spaces (isSpace_of_isDigit digit) _
  have signed : scanSign (decimal n ++ rest) = (false, decimal n ++ rest) := by
    rw [split]
    exact scanSign_of_isDigit digit _
  have digits : ∀ c ∈ decimal n, isDigit c = true := fun c => isDigit_of_mem_decimal
  rw [scanInt, skipped, signed]
  dsimp only
  rw [takeWhile_append_of_head digits ends, dropWhile_append_of_head digits ends,
    if_neg (decimal_ne_nil n), decimalValue_decimal]

theorem scanUnsigned_decimal {n : ℕ} (fits : n < 2 ^ 64)
    (ends : ∀ c, rest.head? = some c → isDigit c = false) :
    scanUnsigned (blanks ++ (decimal n ++ rest)) = some (.ofNat 64 n, rest) := by
  rw [scanUnsigned, scanInt_decimal spaces n ends, Option.map_some]
  dsimp only
  rw [if_neg fits.not_ge]
  rfl

/-- **A word behind spaces is read back.** -/
theorem scanWord_append {width : ℕ} {word : Chars} (some : word ≠ []) (fits : word.length ≤ width)
    (whole : ∀ c ∈ word, isSpace c = false) (ends : ∀ c, rest.head? = Option.some c → isSpace c) :
    scanWord width (blanks ++ (word ++ rest)) = Option.some (word, rest) := by
  obtain ⟨first, more, split⟩ := List.exists_cons_of_ne_nil some
  have skipped : skipSpaces (blanks ++ (word ++ rest)) = word ++ rest := by
    rw [split]
    exact skipSpaces_append spaces (whole first (split.symm ▸ List.mem_cons_self)) _
  have taken : ((word ++ rest).takeWhile fun c => !isSpace c).take width = word := by
    rw [takeWhile_append_of_head (fun c member => by simp [whole c member])
      fun c first => by simp [ends c first], List.take_of_length_le fits]
  rw [scanWord, skipped, taken, if_neg some, List.drop_left]

end

theorem isSpace_replicate (count : ℕ) : ∀ c ∈ List.replicate count 32, isSpace c = true := by
  intro c member
  rw [List.eq_of_mem_replicate member]
  rfl

/-! ## Occurrences -/

/-- What stands behind the first occurrence of a pattern, which `strstr` finds. -/
def behind (pattern : Chars) : Chars → Option Chars
  | [] => if pattern = [] then some [] else none
  | c :: rest =>
    if pattern <+: c :: rest then some ((c :: rest).drop pattern.length) else behind pattern rest

/-- What stands in front of the first such character, which `strchr` finds. -/
def upTo (c : BitVec 8) (s : Chars) : Option Chars :=
  if c ∈ s then some (s.takeWhile (· ≠ c)) else none

theorem upTo_append_cons {c : BitVec 8} {s : Chars} (before : c ∉ s) (rest : Chars) :
    upTo c (s ++ c :: rest) = some s := by
  have other : ∀ d ∈ s, decide (d ≠ c) = true := fun d member =>
    decide_eq_true fun same => before (same ▸ member)
  rw [upTo, if_pos (List.mem_append_right _ List.mem_cons_self),
    takeWhile_append_of_head other fun d first => ?_]
  rw [← Option.some.inj first]
  exact decide_eq_false (not_not_intro rfl)

theorem upTo_of_notMem {c : BitVec 8} {s : Chars} (none : c ∉ s) : upTo c s = Option.none :=
  if_neg none

theorem behind_of_notMem (front : Chars) {q : BitVec 8} {s : Chars} (none : q ∉ s) :
    behind (front ++ [q]) s = Option.none := by
  have nowhere {s : Chars} (none : q ∉ s) : ¬ front ++ [q] <+: s := fun here =>
    none (here.subset (List.mem_append_right _ List.mem_cons_self))
  induction s with
  | nil => exact if_neg (List.append_ne_nil_of_right_ne_nil _ (List.cons_ne_nil _ _))
  | cons c s ih =>
      rw [behind, if_neg (nowhere none)]
      exact ih fun member => none (List.mem_cons_of_mem _ member)

section

variable {front : Chars} {q : BitVec 8} (plain : q ∉ front)
include plain

theorem prefix_append_cons_iff {s : Chars} (before : q ∉ s) (rest : Chars) :
    front ++ [q] <+: s ++ q :: rest ↔ front = s := by
  constructor
  · rintro ⟨more, same⟩
    rw [List.append_assoc, List.singleton_append] at same
    have first := upTo_append_cons plain more
    rw [same, upTo_append_cons before] at first
    exact (Option.some.inj first).symm
  · rintro rfl
    exact ⟨rest, by simp⟩

/-- **A pattern that ends with its only such character is found in front of the first one in the
text, if the text before it ends with the rest of the pattern, and else behind that.** -/
theorem behind_append_cons {s : Chars} (before : q ∉ s) (rest : Chars) :
    behind (front ++ [q]) (s ++ q :: rest) =
      if front <:+ s then some rest else behind (front ++ [q]) rest := by
  induction s with
  | nil =>
      have here := prefix_append_cons_iff plain before rest
      rw [List.nil_append] at here
      rw [List.nil_append, behind]
      by_cases empty : front = []
      · rw [if_pos (here.mpr empty), if_pos (List.suffix_nil.mpr empty), empty]
        rfl
      · rw [if_neg (mt here.mp empty), if_neg (mt List.suffix_nil.mp empty)]
  | cons c s ih =>
      have here := prefix_append_cons_iff plain before rest
      rw [List.cons_append] at here
      rw [List.cons_append, behind]
      by_cases same : front = c :: s
      · rw [if_pos (here.mpr same), if_pos (List.suffix_cons_iff.mpr (.inl same)), same]
        simp
      · rw [if_neg (mt here.mp same), ih fun member => before (List.mem_cons_of_mem _ member)]
        exact if_congr (List.suffix_cons_iff.trans (or_iff_right same)).symm rfl rfl

end

/-- A text without the character ends what stands behind the character too, or nothing. -/
theorem suffix_append_cons_iff {c : BitVec 8} {s : Chars} (plain : c ∉ s) (front back : Chars) :
    s <:+ front ++ c :: back ↔ s <:+ back := by
  constructor
  · intro ends
    have whole : c :: back <:+ front ++ c :: back := List.suffix_append ..
    rcases List.suffix_or_suffix_of_suffix ends whole with inside | outside
    · rcases List.suffix_cons_iff.mp inside with rfl | inside
      · exact absurd List.mem_cons_self plain
      · exact inside
    · exact absurd (outside.subset List.mem_cons_self) plain
  · intro ends
    exact ends.trans (List.suffix_append_of_suffix (List.suffix_cons c back))

end CocosOS.Library.CString
