import Mathlib.Algebra.BigOperators.Group.List.Basic
import Mathlib.Data.List.Basic
import Mathlib.Tactic.Common
import Mathlib.Tactic.SplitIfs

/-!
# The tokens of a C text

`run` reads a text character by character, as the lexer of a C compiler does: words (identifiers,
keywords and numbers), string literals with their escape sequences, character constants, comments,
directives, and one punctuator a character. A string token carries the characters that the literal
denotes. A text is read if it ends between two tokens (`lex`). `join` makes one token of string
literals that stand next to each other. A line ends at a newline or a carriage return. Macros are
not expanded; a line is continued inside a string literal only, and universal character names and
encoding prefixes are left out.

What one character can do is said once (`step_cases`). A string token ends with a quote, and a text
can be cut there (`run_cut`). It takes at least the characters that it denotes and two quotes
(`run_weight`). `Clean` characters denote themselves inside a literal, and others never do
(`clean_of_run_string`).
-/

set_option autoImplicit false

namespace CocosOS.Library.CLexer

abbrev Text := List Char

/-! ## Tokens -/

inductive Token where
  | word (chars : Text)
  | string (chars : Text)
  | character (chars : Text)
  | punctuator (char : Char)
  | directive (line : Text)
deriving DecidableEq

/-- Where the lexer is. What it has read of a token is kept backwards. -/
inductive Lexer where
  | start
  | word (read : Text)
  | slash
  | lineComment
  | blockComment
  | blockStar
  | directive (read : Text)
  | string (read : Text)
  | escape (read : Text)
  | splice (read : Text)
  | octal (read : Text) (value digits : ℕ)
  | hex (read : Text) (value : Option ℕ)
  | character (read : Text)
  | characterEscape (read : Text)
deriving DecidableEq

/-- The character ends a line. A carriage return does, with or without a newline behind it. -/
def EndsLine (c : Char) : Prop := c = '\n' ∨ c = '\r'

instance (c : Char) : Decidable (EndsLine c) := inferInstanceAs (Decidable (_ ∨ _))

def isWordChar (c : Char) : Bool := c.isAlphanum || c == '_'

/-- A character between two tokens. -/
def first (c : Char) : Option (List Token × Lexer) :=
  if c.isWhitespace then some ([], .start)
  else if isWordChar c then some ([], .word [c])
  else if c = '"' then some ([], .string [])
  else if c = '\'' then some ([], .character [])
  else if c = '/' then some ([], .slash)
  else if c = '#' then some ([], .directive [])
  else if c = '\\' then none
  else some ([.punctuator c], .start)

/-- A character of a string literal. -/
def inString (read : Text) (c : Char) : Option (List Token × Lexer) :=
  if c = '"' then some ([.string read.reverse], .start)
  else if c = '\\' then some ([], .escape read)
  else if EndsLine c then none
  else some ([], .string (c :: read))

/-- What a simple escape sequence stands for. -/
def simpleEscape : Char → Option Char
  | '\'' => some '\''
  | '"' => some '"'
  | '?' => some '?'
  | '\\' => some '\\'
  | 'a' => some '\x07'
  | 'b' => some '\x08'
  | 'f' => some '\x0c'
  | 'n' => some '\n'
  | 'r' => some '\r'
  | 't' => some '\t'
  | 'v' => some '\x0b'
  | _ => none

def octalDigit (c : Char) : Option ℕ :=
  if '0' ≤ c ∧ c ≤ '7' then some (c.toNat - '0'.toNat) else none

def hexDigit (c : Char) : Option ℕ :=
  if '0' ≤ c ∧ c ≤ '9' then some (c.toNat - '0'.toNat)
  else if 'a' ≤ c ∧ c ≤ 'f' then some (c.toNat - 'a'.toNat + 10)
  else if 'A' ≤ c ∧ c ≤ 'F' then some (c.toNat - 'A'.toNat + 10)
  else none

/-- A character behind the backslash in a string literal. An end of line continues the line. -/
def inEscape (read : Text) (c : Char) : Option (List Token × Lexer) :=
  if c = '\n' then some ([], .string read)
  else if c = '\r' then some ([], .splice read)
  else if c = 'x' then some ([], .hex read none)
  else
    match octalDigit c with
    | some digit => some ([], .octal read digit 1)
    | none => (simpleEscape c).map fun char => ([], .string (char :: read))

/-- A character behind a backslash and a carriage return. A newline belongs to the same end of
line. -/
def inSplice (read : Text) (c : Char) : Option (List Token × Lexer) :=
  if c = '\n' then some ([], .string read) else inString read c

/-- A character of an octal escape sequence, or behind one. It has three digits at most. -/
def inOctal (read : Text) (value digits : ℕ) (c : Char) : Option (List Token × Lexer) :=
  match octalDigit c with
  | some digit =>
    if digits < 3 then some ([], .octal read (8 * value + digit) (digits + 1))
    else inString (Char.ofNat value :: read) c
  | none => inString (Char.ofNat value :: read) c

/-- A character of a hexadecimal escape sequence, or behind one. It has a digit at least. -/
def inHex (read : Text) (value : Option ℕ) (c : Char) : Option (List Token × Lexer) :=
  match hexDigit c with
  | some digit => some ([], .hex read (some (16 * value.getD 0 + digit)))
  | none => value.bind fun value => inString (Char.ofNat value :: read) c

/-- A token that ends in front of a character. -/
def endsBefore (token : Token) (c : Char) : Option (List Token × Lexer) :=
  (first c).map fun result => (token :: result.1, result.2)

/-- One character: the tokens that end there, and where the lexer is then. -/
def step : Lexer → Char → Option (List Token × Lexer)
  | .start, c => first c
  | .word read, c =>
    if isWordChar c then some ([], .word (c :: read)) else endsBefore (.word read.reverse) c
  | .slash, c =>
    if c = '/' then some ([], .lineComment)
    else if c = '*' then some ([], .blockComment)
    else endsBefore (.punctuator '/') c
  | .lineComment, c => some ([], if EndsLine c then .start else .lineComment)
  | .blockComment, c => some ([], if c = '*' then .blockStar else .blockComment)
  | .blockStar, c =>
    some ([], if c = '/' then .start else if c = '*' then .blockStar else .blockComment)
  | .directive read, c =>
    if EndsLine c then some ([.directive read.reverse], .start)
    else some ([], .directive (c :: read))
  | .string read, c => inString read c
  | .escape read, c => inEscape read c
  | .splice read, c => inSplice read c
  | .octal read value digits, c => inOctal read value digits c
  | .hex read value, c => inHex read value c
  | .character read, c =>
    if c = '\'' then some ([.character read.reverse], .start)
    else if c = '\\' then some ([], .characterEscape (c :: read))
    else if EndsLine c then none
    else some ([], .character (c :: read))
  | .characterEscape read, c => some ([], .character (c :: read))

/-- The tokens of a text, and where the lexer is behind it. -/
def run : Lexer → Text → Option (List Token × Lexer)
  | q, [] => some ([], q)
  | q, c :: cs =>
    (step q c).bind fun now => (run now.2 cs).map fun later => (now.1 ++ later.1, later.2)

/-- The tokens of a text that ends between two tokens. -/
def lex (text : Text) : Option (List Token) :=
  match run .start text with
  | some (tokens, .start) => some tokens
  | _ => none

/-- String literals next to each other are one. -/
def join : List Token → List Token
  | [] => []
  | .string s :: tokens =>
    match join tokens with
    | .string s' :: rest => .string (s ++ s') :: rest
    | rest => .string s :: rest
  | token :: tokens => token :: join tokens

example : lex "f(\"a\\x41\" /* and */ \"b\", -1);\n".toList =
    some [.word ['f'], .punctuator '(', .string ['a', 'A'], .string ['b'], .punctuator ',',
      .punctuator '-', .word ['1'], .punctuator ')', .punctuator ';'] := by
  decide

/-! ## Reading part by part -/

/-- An entry that is not in the first part of a list lies behind it. -/
theorem append_cut {α : Type*} {x y p q : List α} {t : α} (same : x ++ y = p ++ t :: q)
    (outside : t ∉ x) : ∃ p', p = x ++ p' ∧ y = p' ++ t :: q := by
  rcases List.append_eq_append_iff.mp same with ⟨p', behind, rest⟩ | ⟨r, front, rest⟩
  · exact ⟨p', behind, rest⟩
  · cases r with
    | nil => exact ⟨[], by simpa using front.symm, rest.symm⟩
    | cons head r =>
        obtain ⟨rfl, -⟩ := List.cons.inj rest
        exact absurd (front ▸ List.mem_append_right p List.mem_cons_self) outside

/-- An entry with the first part of a list in front of it lies behind that part. -/
theorem append_cut_of_length {α : Type*} {x y p q : List α} (same : x ++ y = p ++ q)
    (long : x.length ≤ p.length) : ∃ p', p = x ++ p' ∧ y = p' ++ q := by
  rcases List.append_eq_append_iff.mp same with ⟨p', behind, rest⟩ | ⟨r, rfl, rest⟩
  · exact ⟨p', behind, rest⟩
  · have empty : r = [] := by
      rw [List.length_append] at long
      exact List.length_eq_zero_iff.mp (by omega)
    rw [empty, List.nil_append] at rest
    exact ⟨[], by rw [empty, List.append_nil, List.append_nil], rest.symm⟩

section Run

variable {q q' : Lexer} {tokens : List Token}

theorem run_cons {c : Char} {cs : Text} {now : List Token} (here : step q c = some (now, q')) :
    run q (c :: cs) = (run q' cs).map fun later => (now ++ later.1, later.2) := by
  rw [run, here, Option.bind_some]

theorem run_cons_eq_some {c : Char} {cs : Text} (whole : run q (c :: cs) = some (tokens, q')) :
    ∃ now middle later, step q c = some (now, middle) ∧ run middle cs = some (later, q') ∧
      tokens = now ++ later := by
  obtain ⟨⟨now, middle⟩, here, rest⟩ := Option.bind_eq_some_iff.mp whole
  obtain ⟨⟨later, last⟩, behind, same⟩ := Option.map_eq_some_iff.mp rest
  obtain ⟨rfl, rfl⟩ := Prod.mk.inj same
  exact ⟨now, middle, later, here, behind, rfl⟩

theorem run_append (q : Lexer) (a b : Text) :
    run q (a ++ b) = (run q a).bind fun now =>
      (run now.2 b).map fun later => (now.1 ++ later.1, later.2) := by
  induction a generalizing q with
  | nil => simp [run]
  | cons c a ih =>
      rw [List.cons_append, run, run]
      cases step q c with
      | none => rfl
      | some now =>
          rw [Option.bind_some, Option.bind_some, ih]
          cases run now.2 a with
          | none => rfl
          | some middle =>
              rw [Option.bind_some, Option.map_some, Option.bind_some, Option.map_map]
              congr 1
              funext later
              exact Prod.ext (List.append_assoc _ _ _).symm rfl

theorem run_append_of_eq {a : Text} (b : Text) (front : run q a = some (tokens, q')) :
    run q (a ++ b) = (run q' b).map fun later => (tokens ++ later.1, later.2) := by
  rw [run_append, front, Option.bind_some]

/-- What is read of a text is read of its parts. -/
theorem run_append_eq_some {a b : Text} (whole : run q (a ++ b) = some (tokens, q')) :
    ∃ front middle back, run q a = some (front, middle) ∧ run middle b = some (back, q') ∧
      tokens = front ++ back := by
  rw [run_append, Option.bind_eq_some_iff] at whole
  obtain ⟨⟨front, middle⟩, first, rest⟩ := whole
  obtain ⟨⟨back, last⟩, second, same⟩ := Option.map_eq_some_iff.mp rest
  obtain ⟨rfl, rfl⟩ := Prod.mk.inj same
  exact ⟨front, middle, back, first, second, rfl⟩

end Run

theorem lex_eq_some_iff {text : Text} {tokens : List Token} :
    lex text = some tokens ↔ run .start text = some (tokens, .start) := by
  rw [lex]
  split
  · rename_i found same
    rw [same, Option.some.injEq, Option.some.injEq, Prod.mk.injEq, and_iff_left rfl]
  · rename_i other
    refine iff_of_false (Option.some_ne_none _).symm fun same => other tokens same

/-! ## What one character can do -/

/-- What has been paid for the string literal that is being read. -/
def pending : Lexer → ℕ
  | .string read => read.length + 1
  | .escape read => read.length + 1
  | .splice read => read.length + 1
  | .octal read .. => read.length + 2
  | .hex read none => read.length + 1
  | .hex read (some _) => read.length + 2
  | _ => 0

section Step

variable {q q' : Lexer} {c : Char} {tokens : List Token} {read : Text}

theorem first_quiet (here : first c = some (tokens, q)) :
    (∀ s, .string s ∉ tokens) ∧ pending q ≤ 1 := by
  unfold first at here
  split_ifs at here
  all_goals
    obtain ⟨rfl, rfl⟩ := Prod.mk.inj (Option.some.inj here)
    simp [pending]

theorem endsBefore_quiet {token : Token} (other : ∀ s, .string s ≠ token)
    (here : endsBefore token c = some (tokens, q)) :
    (∀ s, .string s ∉ tokens) ∧ pending q ≤ 1 := by
  obtain ⟨⟨rest, q'⟩, behind, same⟩ := Option.map_eq_some_iff.mp here
  obtain ⟨rfl, rfl⟩ := Prod.mk.inj same
  obtain ⟨quiet, paid⟩ := first_quiet behind
  exact ⟨fun s => List.not_mem_cons_of_ne_of_not_mem (other s) (quiet s), paid⟩

/-- A string literal goes on, or it ends at its quote. -/
theorem inString_cases (here : inString read c = some (tokens, q)) :
    (tokens = [] ∧ pending q ≤ read.length + 2) ∨
      (c = '"' ∧ tokens = [.string read.reverse] ∧ q = .start) := by
  unfold inString at here
  split_ifs at here with quote
  · obtain ⟨rfl, rfl⟩ := Prod.mk.inj (Option.some.inj here)
    exact Or.inr ⟨quote, rfl, rfl⟩
  all_goals
    obtain ⟨rfl, rfl⟩ := Prod.mk.inj (Option.some.inj here)
    exact Or.inl ⟨rfl, by simp [pending]⟩

theorem inEscape_cases (here : inEscape read c = some (tokens, q)) :
    tokens = [] ∧ pending q ≤ read.length + 2 := by
  unfold inEscape at here
  split_ifs at here
  · obtain ⟨rfl, rfl⟩ := Prod.mk.inj (Option.some.inj here)
    simp [pending]
  · obtain ⟨rfl, rfl⟩ := Prod.mk.inj (Option.some.inj here)
    simp [pending]
  · obtain ⟨rfl, rfl⟩ := Prod.mk.inj (Option.some.inj here)
    simp [pending]
  · cases digit : octalDigit c with
    | some value =>
        rw [digit] at here
        obtain ⟨rfl, rfl⟩ := Prod.mk.inj (Option.some.inj here)
        simp [pending]
    | none =>
        rw [digit] at here
        obtain ⟨char, -, same⟩ := Option.map_eq_some_iff.mp here
        obtain ⟨rfl, rfl⟩ := Prod.mk.inj same
        simp [pending]

/-- A continued line goes on, or the character belongs to the literal. -/
theorem inSplice_cases (here : inSplice read c = some (tokens, q)) :
    (tokens = [] ∧ pending q = read.length + 1) ∨ inString read c = some (tokens, q) := by
  unfold inSplice at here
  split_ifs at here
  · obtain ⟨rfl, rfl⟩ := Prod.mk.inj (Option.some.inj here)
    exact Or.inl ⟨rfl, rfl⟩
  · exact Or.inr here

/-- An octal escape sequence goes on, or the character belongs to the literal behind it. -/
theorem inOctal_cases {value digits : ℕ} (here : inOctal read value digits c = some (tokens, q)) :
    (tokens = [] ∧ pending q = read.length + 2) ∨
      inString (Char.ofNat value :: read) c = some (tokens, q) := by
  unfold inOctal at here
  split at here
  · split_ifs at here
    · obtain ⟨rfl, rfl⟩ := Prod.mk.inj (Option.some.inj here)
      exact Or.inl ⟨rfl, rfl⟩
    · exact Or.inr here
  · exact Or.inr here

theorem inHex_cases {value : Option ℕ} (here : inHex read value c = some (tokens, q)) :
    (tokens = [] ∧ pending q = read.length + 2) ∨
      ∃ known, value = some known ∧ inString (Char.ofNat known :: read) c = some (tokens, q) := by
  unfold inHex at here
  split at here
  · obtain ⟨rfl, rfl⟩ := Prod.mk.inj (Option.some.inj here)
    exact Or.inl ⟨rfl, rfl⟩
  · exact Or.inr (Option.bind_eq_some_iff.mp here)

/-- **What one character can do.** It ends no string token and pays for one character of a literal
at most, or it is the quote that ends a literal, and then the lexer is between two tokens. -/
theorem step_cases (here : step q c = some (tokens, q')) :
    ((∀ s, .string s ∉ tokens) ∧ pending q' ≤ pending q + 1) ∨
      ∃ s, c = '"' ∧ tokens = [.string s] ∧ q' = .start ∧ s.length + 2 ≤ pending q + 1 := by
  have outside : (∀ s, .string s ∉ tokens) ∧ pending q' ≤ 1 →
      (∀ s, .string s ∉ tokens) ∧ pending q' ≤ pending q + 1 :=
    fun ⟨quiet, paid⟩ => ⟨quiet, Nat.le_trans paid (Nat.le_add_left 1 _)⟩
  have inside : ∀ {read}, inString read c = some (tokens, q') → pending q = read.length + 1 →
      ((∀ s, .string s ∉ tokens) ∧ pending q' ≤ pending q + 1) ∨
        ∃ s, c = '"' ∧ tokens = [.string s] ∧ q' = .start ∧ s.length + 2 ≤ pending q + 1 := by
    intro read here paid
    rcases inString_cases here with ⟨rfl, more⟩ | ⟨quote, rfl, rfl⟩
    · exact Or.inl ⟨fun s => List.not_mem_nil, by omega⟩
    · exact Or.inr ⟨read.reverse, quote, rfl, rfl, by rw [List.length_reverse]; omega⟩
  cases q with
  | start => exact Or.inl (outside (first_quiet here))
  | word read =>
      rw [step] at here
      split_ifs at here
      · obtain ⟨rfl, rfl⟩ := Prod.mk.inj (Option.some.inj here)
        simp [pending]
      · exact Or.inl (outside (endsBefore_quiet (fun s => Token.noConfusion) here))
  | slash =>
      rw [step] at here
      split_ifs at here
      · obtain ⟨rfl, rfl⟩ := Prod.mk.inj (Option.some.inj here)
        simp [pending]
      · obtain ⟨rfl, rfl⟩ := Prod.mk.inj (Option.some.inj here)
        simp [pending]
      · exact Or.inl (outside (endsBefore_quiet (fun s => Token.noConfusion) here))
  | lineComment =>
      obtain ⟨rfl, rfl⟩ := Prod.mk.inj (Option.some.inj here)
      split <;> simp [pending]
  | blockComment =>
      obtain ⟨rfl, rfl⟩ := Prod.mk.inj (Option.some.inj here)
      split <;> simp [pending]
  | blockStar =>
      obtain ⟨rfl, rfl⟩ := Prod.mk.inj (Option.some.inj here)
      split_ifs <;> simp [pending]
  | directive read =>
      rw [step] at here
      split_ifs at here
      all_goals
        obtain ⟨rfl, rfl⟩ := Prod.mk.inj (Option.some.inj here)
        simp [pending]
  | string read => exact inside here rfl
  | escape read =>
      obtain ⟨rfl, paid⟩ := inEscape_cases here
      exact Or.inl ⟨fun s => List.not_mem_nil, paid⟩
  | splice read =>
      rcases inSplice_cases here with ⟨rfl, paid⟩ | behind
      · exact Or.inl ⟨fun s => List.not_mem_nil, paid.trans_le (Nat.le_succ _)⟩
      · exact inside behind rfl
  | octal read value digits =>
      rcases inOctal_cases here with ⟨rfl, paid⟩ | behind
      · exact Or.inl ⟨fun s => List.not_mem_nil, paid.trans_le (Nat.le_succ _)⟩
      · exact inside behind rfl
  | hex read value =>
      rcases inHex_cases here with ⟨rfl, paid⟩ | ⟨known, rfl, behind⟩
      · refine Or.inl ⟨fun s => List.not_mem_nil, ?_⟩
        rw [paid]
        cases value with
        | none => exact Nat.le_refl _
        | some known => exact Nat.le_succ _
      · exact inside behind rfl
  | character read =>
      rw [step] at here
      split_ifs at here
      all_goals
        obtain ⟨rfl, rfl⟩ := Prod.mk.inj (Option.some.inj here)
        simp [pending]
  | characterEscape read =>
      obtain ⟨rfl, rfl⟩ := Prod.mk.inj (Option.some.inj here)
      simp [pending]

/-- A string token ends with its quote. -/
theorem step_string (here : step q c = some (tokens, q')) {s : Text}
    (member : .string s ∈ tokens) : c = '"' ∧ tokens = [.string s] ∧ q' = .start := by
  rcases step_cases here with ⟨quiet, -⟩ | ⟨s', quote, rfl, rfl, -⟩
  · exact absurd member (quiet s)
  · exact ⟨quote, by rw [List.mem_singleton.mp member], rfl⟩

end Step

/-- **A text is cut in two behind a string token.** -/
theorem run_cut {q q' : Lexer} {cs : Text} {before after : List Token} {s : Text}
    (whole : run q cs = some (before ++ .string s :: after, q')) :
    ∃ a b, cs = a ++ '"' :: b ∧ run q (a ++ ['"']) = some (before ++ [.string s], .start) ∧
      run .start b = some (after, q') := by
  induction cs generalizing q before with
  | nil =>
      obtain ⟨none, -⟩ := Prod.mk.inj (Option.some.inj whole)
      exact absurd none.symm (by simp)
  | cons c cs ih =>
      obtain ⟨now, middle, later, here, rest, tokens⟩ := run_cons_eq_some whole
      by_cases string : ∃ y, .string y ∈ now
      · obtain ⟨y, member⟩ := string
        obtain ⟨rfl, rfl, rfl⟩ := step_string here member
        cases before with
        | nil =>
            obtain ⟨same, rfl⟩ := List.cons.inj tokens
            refine ⟨[], cs, rfl, ?_, rest⟩
            rw [List.nil_append, List.nil_append, run_cons here, same]
            rfl
        | cons token before =>
            obtain ⟨rfl, same⟩ := List.cons.inj tokens
            obtain rfl : before ++ .string s :: after = later := same
            obtain ⟨a, b, rfl, front, back⟩ := ih rest
            refine ⟨'"' :: a, b, rfl, ?_, back⟩
            rw [List.cons_append, run_cons here, front]
            rfl
      · obtain ⟨before', rfl, rfl⟩ := append_cut tokens.symm fun member => string ⟨s, member⟩
        obtain ⟨a, b, rfl, front, back⟩ := ih rest
        refine ⟨c :: a, b, rfl, ?_, back⟩
        rw [List.cons_append, run_cons here, front, Option.map_some, List.append_assoc]

/-! ## What a string literal costs -/

/-- The characters that string tokens take at least: what they denote, and their quotes. -/
def weight : List Token → ℕ
  | [] => 0
  | .string s :: tokens => s.length + 2 + weight tokens
  | _ :: tokens => weight tokens

@[simp] theorem weight_append (a b : List Token) : weight (a ++ b) = weight a + weight b := by
  induction a with
  | nil => simp [weight]
  | cons token a ih =>
      cases token with
      | string s => simp [weight, ih, Nat.add_assoc]
      | word s => simpa [weight] using ih
      | character s => simpa [weight] using ih
      | punctuator s => simpa [weight] using ih
      | directive s => simpa [weight] using ih

theorem weight_of_not_string {tokens : List Token} (none : ∀ s, .string s ∉ tokens) :
    weight tokens = 0 := by
  induction tokens with
  | nil => rfl
  | cons token tokens ih =>
      have rest := ih fun s member => none s (List.mem_cons_of_mem _ member)
      cases token with
      | string s => exact absurd List.mem_cons_self (none s)
      | word s => exact rest
      | character s => exact rest
      | punctuator s => exact rest
      | directive s => exact rest

/-- A character pays for one character of a string literal at most. -/
theorem step_weight {q q' : Lexer} {c : Char} {tokens : List Token}
    (here : step q c = some (tokens, q')) : weight tokens + pending q' ≤ pending q + 1 := by
  rcases step_cases here with ⟨quiet, paid⟩ | ⟨s, -, rfl, rfl, paid⟩
  · rw [weight_of_not_string quiet, Nat.zero_add]
    exact paid
  · exact paid

/-- **String tokens are no longer than what they are read from.** -/
theorem run_weight {q q' : Lexer} {cs : Text} {tokens : List Token}
    (whole : run q cs = some (tokens, q')) :
    weight tokens + pending q' ≤ pending q + cs.length := by
  induction cs generalizing q tokens with
  | nil =>
      obtain ⟨rfl, rfl⟩ := Prod.mk.inj (Option.some.inj whole)
      simp [weight]
  | cons c cs ih =>
      obtain ⟨now, middle, later, here, rest, rfl⟩ := run_cons_eq_some whole
      have one := step_weight here
      have more := ih rest
      rw [weight_append, List.length_cons]
      omega

/-! ## Clean texts -/

/-- The characters denote themselves in a string literal. -/
def Clean (s : Text) : Prop := ∀ c ∈ s, c ≠ '"' ∧ c ≠ '\\' ∧ c ≠ '\n' ∧ c ≠ '\r'

theorem run_string_of_clean {s : Text} (clean : Clean s) (read : Text) :
    run (.string read) (s ++ ['"']) = some ([.string (read.reverse ++ s)], .start) := by
  induction s generalizing read with
  | nil =>
      rw [List.append_nil]
      rfl
  | cons c s ih =>
      obtain ⟨quote, backslash, newline⟩ := clean c List.mem_cons_self
      have goesOn : ¬ EndsLine c := not_or.mpr newline
      have here : step (.string read) c = some ([], .string (c :: read)) := by
        rw [step, inString, if_neg quote, if_neg backslash, if_neg goesOn]
      rw [List.cons_append, run_cons here,
        ih fun d member => clean d (List.mem_cons_of_mem c member)]
      simp

theorem length_le_weight {d : Text} {tokens : List Token} (member : .string d ∈ tokens) :
    d.length + 2 ≤ weight tokens := by
  obtain ⟨front, back, rfl⟩ := List.append_of_mem member
  rw [weight_append, weight]
  omega

/-- **A literal that denotes as many characters as are written in it is clean.** -/
theorem clean_of_run_string {s read d : Text} {tokens : List Token} {q : Lexer}
    (whole : run (.string read) (s ++ ['"']) = some (tokens, q)) (member : .string d ∈ tokens)
    (long : read.length + s.length ≤ d.length) :
    Clean s ∧ tokens = [.string (read.reverse ++ s)] := by
  induction s generalizing read tokens with
  | nil =>
      obtain ⟨rfl, -⟩ := Prod.mk.inj (Option.some.inj whole)
      exact ⟨fun c inside => absurd inside List.not_mem_nil, by simp⟩
  | cons c s ih =>
      rw [List.cons_append] at whole
      obtain ⟨now, middle, later, here, rest, rfl⟩ := run_cons_eq_some whole
      have bound := run_weight rest
      rw [List.length_append, List.length_singleton] at bound
      rw [List.length_cons] at long
      rw [step, inString] at here
      split_ifs at here with quote backslash newline
      · -- the literal ends too early, and the rest is too short for another one
        obtain ⟨rfl, rfl⟩ := Prod.mk.inj (Option.some.inj here)
        have unpaid : pending .start = 0 := rfl
        rcases List.mem_append.mp member with early | late
        · obtain rfl := Token.string.inj (List.mem_singleton.mp early)
          rw [List.length_reverse] at long
          omega
        · have cost := length_le_weight late
          omega
      · -- an escape sequence loses a character
        obtain ⟨rfl, rfl⟩ := Prod.mk.inj (Option.some.inj here)
        have cost := length_le_weight member
        have paid : pending (.escape read) = read.length + 1 := rfl
        rw [List.nil_append] at cost
        omega
      · obtain ⟨rfl, rfl⟩ := Prod.mk.inj (Option.some.inj here)
        obtain ⟨clean, tokens⟩ := ih rest member (by rw [List.length_cons]; omega)
        refine ⟨fun e inside => ?_, by rw [List.nil_append, tokens]; simp⟩
        rcases List.mem_cons.mp inside with rfl | other
        · exact ⟨quote, backslash, not_or.mp newline⟩
        · exact clean e other

/-! ## String literals next to each other -/

theorem join_cons {token : Token} (other : ∀ s, token ≠ .string s) (tokens : List Token) :
    join (token :: tokens) = token :: join tokens := by
  cases token with
  | string s => exact absurd rfl (other s)
  | word s => rfl
  | character s => rfl
  | punctuator s => rfl
  | directive s => rfl

theorem join_append {given : List Token} (stringless : ∀ s, .string s ∉ given)
    (tokens : List Token) : join (given ++ tokens) = given ++ join tokens := by
  induction given with
  | nil => rfl
  | cons token given ih =>
      rw [List.cons_append, join_cons fun s same => stringless s (same ▸ List.mem_cons_self),
        ih fun s member => stringless s (List.mem_cons_of_mem _ member), List.cons_append]

/-- A string token is joined with the one behind it, if there is one. -/
theorem join_string (s : Text) (tokens : List Token) :
    (∃ s' rest, join tokens = .string s' :: rest ∧
        join (.string s :: tokens) = .string (s ++ s') :: rest) ∨
      (∀ s' rest, join tokens ≠ .string s' :: rest) ∧
        join (.string s :: tokens) = .string s :: join tokens := by
  rw [join]
  split
  · rename_i s' rest same
    exact Or.inl ⟨s', rest, same, rfl⟩
  · rename_i rest other
    exact Or.inr ⟨other, rfl⟩

theorem eq_nil_of_join {tokens : List Token} (none : join tokens = []) : tokens = [] := by
  cases tokens with
  | nil => rfl
  | cons token tokens =>
      cases token with
      | string s =>
          rcases join_string s tokens with ⟨_, _, -, same⟩ | ⟨-, same⟩
          · exact absurd (same.symm.trans none) (List.cons_ne_nil _ _)
          · exact absurd (same.symm.trans none) (List.cons_ne_nil _ _)
      | word s => exact absurd none (List.cons_ne_nil _ _)
      | character s => exact absurd none (List.cons_ne_nil _ _)
      | punctuator s => exact absurd none (List.cons_ne_nil _ _)
      | directive s => exact absurd none (List.cons_ne_nil _ _)

/-- A single string token is joined from string tokens. -/
theorem eq_map_of_join {tokens : List Token} {s : Text} (single : join tokens = [.string s]) :
    ∃ parts last, tokens = (parts ++ [last]).map Token.string ∧ (parts ++ [last]).flatten = s := by
  induction tokens generalizing s with
  | nil => exact absurd single.symm (List.cons_ne_nil _ _)
  | cons token tokens ih =>
      cases token with
      | string a =>
          rcases join_string a tokens with ⟨b, rest, behind, same⟩ | ⟨-, same⟩
          · obtain ⟨joined, rfl⟩ := List.cons.inj (same.symm.trans single)
            obtain ⟨parts, last, rfl, rfl⟩ := ih behind
            obtain rfl := Token.string.inj joined
            exact ⟨a :: parts, last, by simp, by simp⟩
          · obtain ⟨joined, none⟩ := List.cons.inj (same.symm.trans single)
            obtain rfl := eq_nil_of_join none
            obtain rfl := Token.string.inj joined
            exact ⟨[], a, rfl, by simp⟩
      | word a => exact absurd (List.cons.inj single).1 Token.noConfusion
      | character a => exact absurd (List.cons.inj single).1 Token.noConfusion
      | punctuator a => exact absurd (List.cons.inj single).1 Token.noConfusion
      | directive a => exact absurd (List.cons.inj single).1 Token.noConfusion

/-- A token that is not a string parts what is joined. -/
theorem join_cut {tokens before after : List Token} {token : Token}
    (other : ∀ s, token ≠ .string s) (joined : join tokens = before ++ token :: after) :
    ∃ before' after', tokens = before' ++ token :: after' ∧ join before' = before ∧
      join after' = after := by
  induction tokens generalizing before with
  | nil => exact absurd joined.symm (List.append_ne_nil_of_right_ne_nil _ (List.cons_ne_nil _ _))
  | cons head tokens ih =>
      by_cases string : ∃ a, head = .string a
      · obtain ⟨a, rfl⟩ := string
        rcases join_string a tokens with ⟨b, rest, behind, same⟩ | ⟨apart, same⟩
        · rw [same] at joined
          cases before with
          | nil => exact absurd (List.cons.inj joined).1.symm (other _)
          | cons front before =>
              obtain ⟨rfl, rfl⟩ := List.cons.inj joined
              have shape : join tokens = (.string b :: before) ++ token :: after := behind
              obtain ⟨before', after', rfl, front_eq, back_eq⟩ := ih shape
              refine ⟨.string a :: before', after', rfl, ?_, back_eq⟩
              rw [join, front_eq]
        · rw [same] at joined
          cases before with
          | nil => exact absurd (List.cons.inj joined).1.symm (other _)
          | cons front before =>
              obtain ⟨rfl, rest⟩ := List.cons.inj joined
              obtain ⟨before', after', rfl, rfl, back_eq⟩ := ih rest
              refine ⟨.string a :: before', after', rfl, ?_, back_eq⟩
              rcases join_string a before' with ⟨b, more, behind, -⟩ | ⟨-, same'⟩
              · exact absurd (rest.trans (by rw [behind]; rfl)) (apart b _)
              · exact same'
      · have plain : ∀ a, head ≠ .string a := fun a same => string ⟨a, same⟩
        rw [join_cons plain] at joined
        cases before with
        | nil =>
            obtain ⟨rfl, rfl⟩ := List.cons.inj joined
            exact ⟨[], tokens, rfl, rfl, rfl⟩
        | cons front before =>
            obtain ⟨rfl, rest⟩ := List.cons.inj joined
            obtain ⟨before', after', rfl, rfl, back_eq⟩ := ih rest
            exact ⟨head :: before', after', rfl, join_cons plain before', back_eq⟩

theorem join_eq_append {tokens given rest : List Token} (stringless : ∀ s, .string s ∉ given)
    (joined : join tokens = given ++ rest) :
    ∃ rest', tokens = given ++ rest' ∧ join rest' = rest := by
  induction given generalizing tokens with
  | nil => exact ⟨tokens, rfl, joined⟩
  | cons token given ih =>
      have cut : join tokens = [] ++ token :: (given ++ rest) := joined
      obtain ⟨before, after, rfl, none, rest_eq⟩ :=
        join_cut (fun s same => stringless s (same ▸ List.mem_cons_self)) cut
      obtain rfl := eq_nil_of_join none
      obtain ⟨rest', rfl, rest_eq'⟩ :=
        ih (fun s member => stringless s (List.mem_cons_of_mem _ member)) rest_eq
      exact ⟨rest', rfl, rest_eq'⟩

end CocosOS.Library.CLexer
