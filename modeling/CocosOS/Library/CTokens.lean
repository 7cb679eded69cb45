import CocosOS.Library.BoundedArray
import CocosOS.Library.CString
import Mathlib.Data.List.TakeWhile

/-!
# Cutting a string into words

`strtok` cuts a string in its array: it skips delimiters, puts a zero over the delimiter behind the
next word, and remembers where to go on. The words of a string are what lies between its
delimiters (`words`). Called on a string that ends in the array, `strtok` writes inside the array,
finds the first word and leaves the others to the next call (`strtok_spec`). It only ever writes
over a character that it has not passed, so the words found before stay (`Keeps`).
-/

set_option autoImplicit false

namespace CocosOS.Library.CString

open BoundedArray

variable {delimiter : BitVec 8}

/-! ## Words -/

/-- The words of a string. -/
def words (delimiter : BitVec 8) (line : List (BitVec 8)) : List (List (BitVec 8)) :=
  (line.splitOn delimiter).filter fun word => word ≠ []

theorem words_nil : words delimiter [] = [] := by
  rw [words, List.splitOn_nil]
  rfl

/-- Delimiters in front make no words. -/
theorem words_append_delimiters {lead : List (BitVec 8)} (only : ∀ c ∈ lead, c = delimiter)
    (line : List (BitVec 8)) : words delimiter (lead ++ line) = words delimiter line := by
  induction lead with
  | nil => rfl
  | cons first lead ih =>
      obtain rfl := only first List.mem_cons_self
      rw [List.cons_append, ← List.nil_append (first :: _), words,
        List.splitOn_append_cons_self_of_not_mem List.not_mem_nil,
        List.filter_cons_of_neg (by simp)]
      exact ih fun c member => only c (List.mem_cons_of_mem _ member)

theorem words_of_notMem {word : List (BitVec 8)} (some : word ≠ []) (whole : delimiter ∉ word) :
    words delimiter word = [word] := by
  rw [words, List.splitOn_eq_singleton whole, List.filter_cons_of_pos (by simpa using some)]
  rfl

theorem words_append_cons {word : List (BitVec 8)} (some : word ≠ []) (whole : delimiter ∉ word)
    (line : List (BitVec 8)) :
    words delimiter (word ++ delimiter :: line) = word :: words delimiter line := by
  rw [words, List.splitOn_append_cons_self_of_not_mem whole,
    List.filter_cons_of_pos (by simpa using some)]
  rfl

/-! ## Strings in an array -/

/-- The string at an index of an array. -/
def textAt (limit : ℕ) (buffer : ℕ → BitVec 8) (start : ℕ) : List (BitVec 8) :=
  text (Bytes.from buffer start) (limit - start)

/-- The array holds the string at the index. -/
structure Stored (buffer : ℕ → BitVec 8) (start : ℕ) (string : List (BitVec 8)) : Prop where
  chars : slice buffer start string.length = string
  ended : buffer (start + string.length) = 0
  nonzero : 0 ∉ string

/-- The string at the index ends inside the array. -/
def Ends (limit : ℕ) (buffer : ℕ → BitVec 8) (start : ℕ) : Prop :=
  ∃ index < limit, start ≤ index ∧ buffer index = 0

/-- What lies before the index and what is zero is as it was. -/
def Keeps (start : ℕ) (buffer buffer' : ℕ → BitVec 8) : Prop :=
  ∀ index, index < start ∨ buffer index = 0 → buffer' index = buffer index

variable {limit start : ℕ} {buffer buffer' buffer'' : ℕ → BitVec 8} {string : List (BitVec 8)}

theorem Keeps.refl (start : ℕ) (buffer : ℕ → BitVec 8) : Keeps start buffer buffer := fun _ _ => rfl

theorem Keeps.trans {start' : ℕ} (first : Keeps start buffer buffer') (later : start ≤ start')
    (second : Keeps start' buffer' buffer'') : Keeps start buffer buffer'' := by
  intro index kept
  have same := first index kept
  rw [← same]
  refine second index ?_
  rcases kept with before | zero
  · exact Or.inl (before.trans_le later)
  · exact Or.inr (same.trans zero)

/-- A string before the index is kept. -/
theorem Stored.keeps {first : ℕ} (stored : Stored buffer first string)
    (before : first + string.length ≤ start) (keeps : Keeps start buffer buffer') :
    Stored buffer' first string where
  chars := by
    refine (slice_congr fun offset inside => keeps _ (Or.inl ?_)).trans stored.chars
    exact (Nat.add_lt_add_left inside first).trans_le before
  ended := (keeps _ (Or.inr stored.ended)).trans stored.ended
  nonzero := stored.nonzero

/-- What is stored is what is read. -/
theorem Stored.textAt_eq (stored : Stored buffer start string)
    (inside : start + string.length < limit) : textAt limit buffer start = string := by
  refine text_eq (by omega) stored.nonzero (fun index less => ?_) fun _ => stored.ended
  have here : index < (slice buffer start string.length).length := by
    rw [length_slice]
    exact less
  rw [Bytes.from_apply, ← getElem_slice here]
  exact List.getElem_of_eq stored.chars here

/-- What is written with a zero behind it is stored. -/
theorem stored_overlay (array : ℕ → BitVec 8) (start : ℕ) (nonzero : 0 ∉ string) :
    Stored (overlay array start (string ++ [0])) start string := by
  have read : slice (overlay array start (string ++ [0])) start (string ++ [0]).length =
      string ++ [0] := slice_overlay_self
  obtain ⟨chars, ended⟩ := slice_eq_append_iff.mp read
  exact ⟨chars, List.singleton_inj.mp ended, nonzero⟩

/-- The back of what is stored is stored behind its front. -/
theorem Stored.behind {front back : List (BitVec 8)}
    (stored : Stored buffer start (front ++ back)) : Stored buffer (start + front.length) back where
  chars := (slice_eq_append_iff.mp stored.chars).2
  ended := by
    have ended := stored.ended
    rwa [List.length_append, ← Nat.add_assoc] at ended
  nonzero zero := stored.nonzero (List.mem_append_right _ zero)

/-- A zero over a character of what is stored leaves its front and its back stored. -/
theorem Stored.cut {front back : List (BitVec 8)} {c : BitVec 8}
    (stored : Stored buffer start (front ++ c :: back)) :
    Stored (Function.update buffer (start + front.length) 0) start front ∧
      Stored (Function.update buffer (start + front.length) 0) (start + front.length + 1) back := by
  have other : ∀ index, index ≠ start + front.length →
      Function.update buffer (start + front.length) 0 index = buffer index :=
    fun index differ => Function.update_of_ne differ _ _
  have first := (slice_eq_append_iff.mp stored.chars).1
  have tail := stored.behind
  have second := tail.chars
  have ended := tail.ended
  rw [List.length_cons, slice_succ] at second
  rw [List.length_cons] at ended
  have index : start + front.length + 1 + back.length =
      start + front.length + (back.length + 1) := by omega
  refine ⟨⟨?_, Function.update_self .., ?_⟩, ⟨?_, ?_, ?_⟩⟩
  · exact (slice_congr fun offset less => other _ (by omega)).trans first
  · exact fun zero => stored.nonzero (List.mem_append_left _ zero)
  · exact (slice_congr fun offset _ => other _ (by omega)).trans (List.cons.inj second).2
  · rw [other _ (by omega), index]
    exact ended
  · exact fun zero => tail.nonzero (List.mem_cons_of_mem _ zero)

/-- What is read is stored. -/
theorem Ends.stored (ends : Ends limit buffer start) :
    Stored buffer start (textAt limit buffer start) ∧
      start + (textAt limit buffer start).length < limit := by
  obtain ⟨index, inside, behind, zero⟩ := ends
  have zero' : Bytes.from buffer start (index - start) = 0 := by
    rw [Bytes.from_apply, Nat.add_sub_cancel' behind]
    exact zero
  have short : index - start < limit - start := by omega
  obtain ⟨read, bytes, short, chars⟩ := exists_terminated ⟨index - start, short, zero'⟩
  rw [textAt, ← chars, read.length_chars]
  refine ⟨⟨?_, ?_, read.zero_notMem_chars⟩, by omega⟩
  · rw [read.length_chars, slice, Terminated.chars, bytes]
    rfl
  · rw [read.length_chars]
    have zero := read.terminator
    rw [bytes] at zero
    exact zero

/-- Characters with a zero behind them are read up to their first zero. -/
theorem textAt_of_slice {chars : List (BitVec 8)} (here : slice buffer start chars.length = chars)
    (ended : buffer (start + chars.length) = 0) (inside : start + chars.length < limit) :
    textAt limit buffer start = chars.takeWhile (· ≠ 0) := by
  have parts : chars.takeWhile (· ≠ 0) ++ chars.dropWhile (· ≠ 0) = chars :=
    List.takeWhile_append_dropWhile
  have lengths := congrArg List.length parts
  rw [List.length_append] at lengths
  have split := here
  rw [← parts] at split
  obtain ⟨front, back⟩ := slice_eq_append_iff.mp split
  have stop := List.head?_dropWhile_not (· ≠ 0) chars
  refine Stored.textAt_eq ⟨front, ?_, fun member => ?_⟩ (by omega)
  · cases rest : chars.dropWhile (· ≠ 0) with
    | nil =>
        rw [rest, List.length_nil, Nat.add_zero] at lengths
        rw [lengths]
        exact ended
    | cons first more =>
        rw [rest] at stop
        rw [rest, List.length_cons, slice_succ] at back
        exact (List.cons.inj back).1.trans (by simpa using stop)
  · simpa using List.mem_takeWhile_imp member

/-! ## `strtok` -/

/-- The array, where the next call goes on, and the word that was found. -/
structure Scan where
  buffer : ℕ → BitVec 8
  save : ℕ
  token : Option ℕ

/-- `strtok` on the string at an index of an array. -/
def strtok (delimiter : BitVec 8) (limit : ℕ) (buffer : ℕ → BitVec 8) (start : ℕ) : Option Scan :=
  let string := textAt limit buffer start
  let first := start + (string.takeWhile (· = delimiter)).length
  let token := (string.dropWhile (· = delimiter)).takeWhile (· ≠ delimiter)
  let last := first + token.length
  if token = [] then some ⟨buffer, first, none⟩
  else if buffer last = 0 then some ⟨buffer, last, some first⟩
  else (put limit buffer last 0).map fun buffer => ⟨buffer, last + 1, some first⟩

/-- What a call of `strtok` found of the words that were left: none, or the first one, with the
others left to the next call. -/
inductive Finds (delimiter : BitVec 8) (limit : ℕ) (scan : Scan) :
    List (List (BitVec 8)) → Prop where
  | none (none : scan.token = none) : Finds delimiter limit scan []
  | word (first : ℕ) (word : List (BitVec 8)) (rest : List (List (BitVec 8)))
      (token : scan.token = some first) (stored : Stored scan.buffer first word)
      (before : first + word.length ≤ scan.save) (ends : Ends limit scan.buffer scan.save)
      (left : words delimiter (textAt limit scan.buffer scan.save) = rest) :
      Finds delimiter limit scan (word :: rest)

/-- A string is delimiters, a word, and what comes behind the word. -/
theorem exists_split (delimiter : BitVec 8) (string : List (BitVec 8)) :
    ∃ rest, string = string.takeWhile (· = delimiter) ++
        ((string.dropWhile (· = delimiter)).takeWhile (· ≠ delimiter) ++ rest) ∧
      (∀ c ∈ string.takeWhile (· = delimiter), c = delimiter) ∧
      delimiter ∉ (string.dropWhile (· = delimiter)).takeWhile (· ≠ delimiter) ∧
      (rest = [] ∨ (string.dropWhile (· = delimiter)).takeWhile (· ≠ delimiter) ≠ [] ∧
        ∃ more, rest = delimiter :: more) := by
  refine ⟨(string.dropWhile (· = delimiter)).dropWhile (· ≠ delimiter), ?_, ?_, ?_, ?_⟩
  · rw [List.takeWhile_append_dropWhile, List.takeWhile_append_dropWhile]
  · intro c member
    simpa using List.mem_takeWhile_imp member
  · intro member
    simpa using List.mem_takeWhile_imp member
  · have behind := List.head?_dropWhile_not (· = delimiter) string
    cases found : string.dropWhile (· = delimiter) with
    | nil => exact Or.inl rfl
    | cons first left =>
        rw [found] at behind
        have other : first ≠ delimiter := by simpa using behind
        have word : List.takeWhile (· ≠ delimiter) (first :: left) ≠ [] := by
          rw [List.takeWhile_cons_of_pos (by simpa using other)]
          exact List.cons_ne_nil _ _
        have stop := List.head?_dropWhile_not (· ≠ delimiter) (first :: left)
        cases ends : List.dropWhile (· ≠ delimiter) (first :: left) with
        | nil => exact Or.inl rfl
        | cons next more =>
            rw [ends] at stop
            have here : next = delimiter := by simpa using stop
            exact Or.inr ⟨word, more, by rw [here]⟩

/-- **`strtok` writes inside the array and finds the first word.** -/
theorem strtok_spec (nonzero : delimiter ≠ 0) (ends : Ends limit buffer start) :
    ∃ scan, strtok delimiter limit buffer start = some scan ∧ start ≤ scan.save ∧
      Keeps start buffer scan.buffer ∧
      Finds delimiter limit scan (words delimiter (textAt limit buffer start)) := by
  obtain ⟨stored, inside⟩ := ends.stored
  obtain ⟨rest, split, only, whole, behind⟩ :=
    exists_split delimiter (textAt limit buffer start)
  rw [strtok]
  generalize textAt limit buffer start = string at *
  generalize string.takeWhile (· = delimiter) = lead at *
  generalize (string.dropWhile (· = delimiter)).takeWhile (· ≠ delimiter) = word at *
  subst split
  have tail : Stored buffer (start + lead.length) (word ++ rest) := stored.behind
  have left : Stored buffer (start + lead.length + word.length) rest := tail.behind
  simp only [List.length_append, ← Nat.add_assoc] at inside
  rw [words_append_delimiters only]
  by_cases empty : word = []
  · -- only delimiters are left
    have nothing : rest = [] := behind.resolve_right fun more => more.1 empty
    rw [if_pos empty, empty, nothing, List.append_nil, words_nil]
    exact ⟨_, rfl, Nat.le_add_right _ _, Keeps.refl _ _, .none rfl⟩
  rw [if_neg empty]
  rcases behind with rfl | ⟨-, more, rfl⟩
  · -- the word ends the string
    rw [List.append_nil] at tail
    have zero : buffer (start + lead.length + word.length) = 0 := left.ended
    have nil : textAt limit buffer (start + lead.length + word.length) = [] :=
      left.textAt_eq inside
    rw [if_pos zero, List.append_nil, words_of_notMem empty whole]
    refine ⟨_, rfl, by dsimp only; omega, Keeps.refl _ _, ?_⟩
    exact .word _ word [] rfl tail (Nat.le_refl _) ⟨_, inside, Nat.le_refl _, zero⟩
      (by rw [nil, words_nil])
  · -- a zero is put over the delimiter behind the word
    obtain ⟨here, later⟩ := tail.cut
    have length : (delimiter :: more).length = more.length + 1 := rfl
    have second := left.chars
    rw [length] at inside
    rw [length, slice_succ] at second
    have last : buffer (start + lead.length + word.length) = delimiter := (List.cons.inj second).1
    have fits : start + lead.length + word.length + 1 + more.length < limit := by omega
    rw [last, if_neg nonzero, put_of_lt (by omega), Option.map_some, words_append_cons empty whole]
    refine ⟨_, rfl, by dsimp only; omega, fun index kept => Function.update_of_ne ?_ _ _, ?_⟩
    · rintro rfl
      rcases kept with before | zero
      · omega
      · exact nonzero (last.symm.trans zero)
    · exact .word _ word _ rfl here (Nat.le_succ _) ⟨_, fits, Nat.le_add_right _ _, later.ended⟩
        (by rw [later.textAt_eq fits])

end CocosOS.Library.CString
