import CocosOS.Library.CUnit
import CocosOS.Library.WrittenText

/-!
# Programs that write C

What a program writes means tokens, if the texts that it puts between quotes are clean (`Writes`).
Texts with a meaning are put behind each other (`Writes.append`): calls, constants and functions
are written from them. Behind a quote a list goes on, or it ends.

Such a text parses as the intended unit exactly if the texts between quotes are clean
(`Writes.parses_iff`), and a unit in which a function has the intended body can be read only if the
texts between the quotes of the body are clean (`Writes.clean_of_bodies`).
-/

set_option autoImplicit false

namespace CocosOS.Library.CLexer

/-! ## Words and numbers -/

theorem not_whitespace_of_isWordChar {c : Char} (inside : isWordChar c = true) :
    c.isWhitespace = false := by
  rw [Bool.eq_false_iff]
  intro white
  simp only [Char.isWhitespace, Bool.or_eq_true, decide_eq_true_eq] at white
  rcases white with ((rfl | rfl) | rfl) | rfl
  all_goals exact absurd inside (by decide)

theorem run_in_word {w : Text} (inside : ∀ c ∈ w, isWordChar c = true) {c : Char}
    (ends : isWordChar c = false) (rest : Text) (read : Text) :
    run (.word read) (w ++ c :: rest) =
      (run .start (c :: rest)).map fun later =>
        (.word (read.reverse ++ w) :: later.1, later.2) := by
  induction w generalizing read with
  | nil =>
      have here : step (.word read) c =
          (first c).map fun result => (.word read.reverse :: result.1, result.2) := by
        rw [step, if_neg (Bool.eq_false_iff.mp ends), endsBefore]
      rw [List.nil_append, List.append_nil, run, run, here, step]
      cases first c with
      | none => rfl
      | some now =>
          rw [Option.map_some, Option.bind_some, Option.bind_some, Option.map_map]
          rfl
  | cons d w ih =>
      have here : step (.word read) d = some ([], .word (d :: read)) := by
        rw [step, if_pos (inside d List.mem_cons_self)]
      rw [List.cons_append, run_cons here,
        ih (fun e member => inside e (List.mem_cons_of_mem d member)), Option.map_map]
      simp [Function.comp_def]

def IsWord (w : Text) : Prop := w ≠ [] ∧ ∀ c ∈ w, isWordChar c = true

instance (w : Text) : Decidable (IsWord w) :=
  decidable_of_iff (w ≠ [] ∧ w.all isWordChar = true) (and_congr_right' List.all_eq_true)

/-- A word cannot go on with the first character of the text. -/
def EndsWord (text : Text) : Prop := ∃ c rest, text = c :: rest ∧ isWordChar c = false

instance (text : Text) : Decidable (EndsWord text) :=
  match text with
  | [] => isFalse fun ⟨_, _, same, _⟩ => absurd same.symm (List.cons_ne_nil _ _)
  | c :: rest =>
    decidable_of_iff (isWordChar c = false)
      ⟨fun ends => ⟨c, rest, rfl, ends⟩, fun ⟨_, _, same, ends⟩ => (List.cons.inj same).1 ▸ ends⟩

/-- A word, in front of a text that does not go on with it. -/
theorem Plain.word {w : Text} (isWord : IsWord w) {rest : Text} (ends : EndsWord rest)
    {tokens : List Token} (plain : Plain rest tokens) :
    Plain (w ++ rest) (.word w :: tokens) := by
  obtain ⟨nonempty, inside⟩ := isWord
  obtain ⟨c, rest, rfl, ends⟩ := ends
  refine ⟨?_, fun member => ?_⟩
  · cases w with
    | nil => exact absurd rfl nonempty
    | cons d w =>
        have start := inside d List.mem_cons_self
        have here : step .start d = some ([], .word [d]) := by
          rw [step, first, not_whitespace_of_isWordChar start, if_neg Bool.false_ne_true,
            if_pos start]
        rw [List.cons_append, run_cons here,
          run_in_word (fun e member => inside e (List.mem_cons_of_mem d member)) ends, plain.1]
        rfl
  · rcases List.mem_append.mp member with early | late
    · exact absurd (inside _ early) (by decide)
    · exact plain.2 late

theorem isWord_toDigits (n : ℕ) : IsWord (Nat.toDigits 10 n) := by
  refine ⟨Nat.toDigits_ne_nil, fun c member => ?_⟩
  have digit := Nat.isDigit_of_mem_toDigits (by decide) (by decide) member
  simp [isWordChar, Char.isAlphanum, digit]

/-- A word that is no number is in no number. -/
theorem word_not_mem_int {w : Text} (other : ∃ c ∈ w, c.isDigit = false) (value : ℤ) :
    .word w ∉ (Expr.int value).tokens := by
  obtain ⟨c, member, digit⟩ := other
  have apart : w ≠ Nat.toDigits 10 value.natAbs := by
    rintro rfl
    exact absurd (Nat.isDigit_of_mem_toDigits (by decide) (by decide) member) (by simp [digit])
  rw [Expr.tokens]
  split_ifs
  · simp [apart]
  · simp [apart]

/-- A number as a program writes it. -/
def intText (value : ℤ) : Text :=
  if value < 0 then '-' :: Nat.toDigits 10 value.natAbs else Nat.toDigits 10 value.natAbs

theorem Plain.int (value : ℤ) {rest : Text} (ends : EndsWord rest) {tokens : List Token}
    (plain : Plain rest tokens) :
    Plain (intText value ++ rest) ((Expr.int value).tokens ++ tokens) := by
  have digits : Plain (Nat.toDigits 10 value.natAbs ++ rest)
      (.word (Nat.toDigits 10 value.natAbs) :: tokens) :=
    plain.word (isWord_toDigits _) ends
  rw [intText, Expr.tokens]
  split_ifs
  · have sign : Plain ['-'] [.punctuator '-'] := by decide
    exact sign.append digits
  · exact digits

/-! ## Texts with a meaning -/

/-- What a program writes behind the quotes of a list: a comma, the end of a call or of a
constant. -/
def closings : List (List Token) :=
  [[.punctuator ','], [.punctuator ')', .punctuator ';'], [.punctuator ';']]

/-- The text means the tokens, with the contents between its quotes. -/
def Writes (text : Text) (tokens : List Token) (contents : List Text) : Prop :=
  ∃ items : List Item, (∀ item ∈ items, item.Sound) ∧
    (∀ content text tokens, .quoted content text tokens ∈ items → tokens ∈ closings) ∧
    textOf items = text ∧ tokensOf items = tokens ∧ items.flatMap Item.contents = contents

theorem Plain.writes {text : Text} {tokens : List Token} (plain : Plain text tokens) :
    Writes text tokens [] := by
  refine ⟨[.plain text tokens], ?_, ?_, List.append_nil _, List.append_nil _, rfl⟩
  · intro item member
    rw [List.mem_singleton.mp member]
    exact plain
  · intro content text tokens member
    exact nomatch List.mem_singleton.mp member

theorem Writes.quoted (content : Text) {text : Text} {tokens : List Token}
    (plain : Plain text tokens) (closing : tokens ∈ closings) :
    Writes ('"' :: content ++ '"' :: text) (.string content :: tokens) [content] := by
  refine ⟨[.quoted content text tokens], ?_, ?_, List.append_nil _, List.append_nil _, rfl⟩
  · intro item member
    rw [List.mem_singleton.mp member]
    exact plain
  · intro content' text' tokens' member
    obtain ⟨-, -, rfl⟩ := Item.quoted.inj (List.mem_singleton.mp member)
    exact closing

theorem Writes.nil : Writes [] [] [] :=
  ⟨[], fun _ member => absurd member List.not_mem_nil,
    fun _ _ _ member => absurd member List.not_mem_nil, rfl, rfl, rfl⟩

theorem Writes.append {a b : Text} {s t : List Token} {xs ys : List Text} (front : Writes a s xs)
    (back : Writes b t ys) : Writes (a ++ b) (s ++ t) (xs ++ ys) := by
  obtain ⟨items, sound, closed, rfl, rfl, rfl⟩ := front
  obtain ⟨items', sound', closed', rfl, rfl, rfl⟩ := back
  refine ⟨items ++ items', ?_, ?_, List.flatMap_append, List.flatMap_append, List.flatMap_append⟩
  · intro item member
    exact (List.mem_append.mp member).elim (sound item) (sound' item)
  · intro content text tokens member
    exact (List.mem_append.mp member).elim (closed content text tokens)
      (closed' content text tokens)

/-- What is written for the entries of a list. -/
theorem Writes.flatMap {α : Type*} {text : α → Text} {tokens : α → List Token}
    {contents : α → List Text} {entries : List α}
    (each : ∀ entry ∈ entries, Writes (text entry) (tokens entry) (contents entry)) :
    Writes (entries.flatMap text) (entries.flatMap tokens) (entries.flatMap contents) := by
  induction entries with
  | nil => exact Writes.nil
  | cons entry entries ih =>
      have rest := ih fun other member => each other (List.mem_cons_of_mem entry member)
      exact (each entry List.mem_cons_self).append rest

/-! ## Calls -/

/-- A call with its arguments. -/
structure Call where
  function : Text
  args : List Expr

def Call.statement (call : Call) : Statement := .call call.function call.args

def Expr.text : Expr → Text
  | .int value => intText value
  | .string chars => '"' :: chars ++ ['"']
  | .name chars => chars

/-- Arguments and the end of the call. -/
def argsText : List Expr → Text
  | [] => ");\n".toList
  | [arg] => arg.text ++ ");\n".toList
  | arg :: next :: args => arg.text ++ ", ".toList ++ argsText (next :: args)

/-- A call on a line of its own. -/
def Call.text (call : Call) : Text :=
  "    ".toList ++ call.function ++ "(".toList ++ argsText call.args

/-- A name is a word. -/
def Expr.Named : Expr → Prop
  | .name chars => IsWord chars
  | _ => True

def Call.Named (call : Call) : Prop := IsWord call.function ∧ ∀ arg ∈ call.args, arg.Named

/-- The string arguments. -/
def strings (args : List Expr) : List Text :=
  args.flatMap fun
    | .string chars => [chars]
    | _ => []

theorem Writes.arg {arg : Expr} (named : arg.Named) {rest : Text} (ends : EndsWord rest)
    {tokens : List Token} (plain : Plain rest tokens) (closing : tokens ∈ closings) :
    Writes (arg.text ++ rest) (arg.tokens ++ tokens) (strings [arg]) := by
  cases arg with
  | int value => exact (plain.int value ends).writes
  | string chars =>
      have quoted := Writes.quoted chars plain closing
      rw [List.append_cons] at quoted
      exact quoted
  | name chars => exact (plain.word named ends).writes

theorem Writes.args {args : List Expr} (named : ∀ arg ∈ args, arg.Named) :
    Writes (argsText args) (argTokens args ++ [Token.punctuator ')', .punctuator ';'])
      (strings args) := by
  have close : Plain ");\n".toList [.punctuator ')', .punctuator ';'] := by decide +kernel
  have comma : Plain ", ".toList [.punctuator ','] := by decide +kernel
  induction args with
  | nil => exact close.writes
  | cons arg args ih =>
      have own := named arg List.mem_cons_self
      cases args with
      | nil => exact Writes.arg own (by decide +kernel) close (by decide +kernel)
      | cons next args =>
          have rest := ih fun other member => named other (List.mem_cons_of_mem arg member)
          have all := (Writes.arg own (by decide +kernel) comma (by decide +kernel)).append rest
          have contents : strings (arg :: next :: args) = strings [arg] ++ strings (next :: args) :=
            by simp [strings]
          have tokens : argTokens (arg :: next :: args) ++ [Token.punctuator ')', .punctuator ';'] =
              (arg.tokens ++ [Token.punctuator ',']) ++
                (argTokens (next :: args) ++ [Token.punctuator ')', .punctuator ';']) := by
            simp [argTokens]
          rw [contents, tokens]
          exact all

theorem Writes.call {call : Call} (named : call.Named) :
    Writes call.text call.statement.tokens (strings call.args) := by
  have indent : Plain "    ".toList [] := by decide +kernel
  have bracket : Plain "(".toList [.punctuator '('] := by decide +kernel
  have called := bracket.word named.1 (by decide +kernel)
  have all := (indent.append called).writes.append (Writes.args named.2)
  have tokens : call.statement.tokens =
      ([] ++ (Token.word call.function :: [Token.punctuator '('])) ++
        (argTokens call.args ++ [Token.punctuator ')', .punctuator ';']) :=
    List.append_assoc _ _ _
  have text : call.text = "    ".toList ++ (call.function ++ "(".toList) ++ argsText call.args :=
    congrArg (· ++ argsText call.args) (List.append_assoc _ _ _)
  rw [tokens, text]
  exact all

/-! ## Constants and functions -/

/-- The first line of a function without parameters. -/
def headText (f : Text) : Text := "void ".toList ++ f ++ "() \x7b\n".toList

/-- The head of a function without parameters, behind `void`. -/
def headTokens (f : Text) : List Token :=
  [.word f, .punctuator '(', .punctuator ')', .punctuator '\x7b']

/-- A function that makes calls, without parameters. -/
def functionText (f : Text) (calls : List Call) : Text :=
  headText f ++ calls.flatMap Call.text ++ "\x7d\n".toList

/-- A string constant whose text is put between two texts of the program. -/
theorem writes_string (name opening closing : Text) {rest : Text} (value : Text)
    (isWord : IsWord name)
    (opens : opening = "const char* ".toList ++ (name ++ " = ".toList) ++ ['"'])
    (closes : closing = '"' :: rest) (plain : Plain rest [.punctuator ';']) :
    Writes (opening ++ (value ++ closing)) (Declaration.string name value).tokens [value] := by
  have type : Plain "const char* ".toList [word "const", word "char", .punctuator '*'] := by
    decide +kernel
  have equals : Plain " = ".toList [.punctuator '='] := by decide +kernel
  have named := (type.append (equals.word isWord (by decide +kernel))).writes
  have all := named.append (Writes.quoted value plain (by decide +kernel))
  have text : opening ++ (value ++ closing) =
      "const char* ".toList ++ (name ++ " = ".toList) ++ ('"' :: value ++ '"' :: rest) := by
    rw [opens, closes, List.append_assoc _ ['"']]
    rfl
  rw [text]
  exact all

/-- A number constant that is put between two texts of the program. -/
theorem writes_int (name opening closing : Text) (value : ℤ) (isWord : IsWord name)
    (opens : opening = "const int ".toList ++ (name ++ " = ".toList)) (ends : EndsWord closing)
    (plain : Plain closing [.punctuator ';']) :
    Writes (opening ++ (intText value ++ closing)) (Declaration.int name value).tokens [] := by
  have type : Plain "const int ".toList [word "const", word "int"] := by decide +kernel
  have equals : Plain " = ".toList [.punctuator '='] := by decide +kernel
  have named := type.append (equals.word isWord (by decide +kernel))
  have all := named.append (plain.int value ends)
  have tokens : (Declaration.int name value).tokens =
      ([word "const", word "int"] ++ Token.word name :: [Token.punctuator '=']) ++
        ((Expr.int value).tokens ++ [Token.punctuator ';']) := by
    simp [Declaration.tokens]
  rw [opens, tokens]
  exact all.writes

theorem plain_headText {f : Text} (isWord : IsWord f) :
    Plain (headText f) (word "void" :: headTokens f) := by
  have type : Plain "void ".toList [word "void"] := by decide +kernel
  have params : Plain "() \x7b\n".toList
      [.punctuator '(', .punctuator ')', .punctuator '\x7b'] := by decide +kernel
  have all := type.append (params.word isWord (by decide +kernel))
  rw [← List.append_assoc] at all
  exact all

theorem Writes.calls {calls : List Call} (named : ∀ call ∈ calls, call.Named) :
    Writes (calls.flatMap Call.text) ((calls.map Call.statement).flatMap Statement.tokens)
      (calls.flatMap fun call => strings call.args) := by
  rw [List.flatMap_map]
  exact Writes.flatMap fun call member => Writes.call (named call member)

theorem writes_functionText {f : Text} (isWord : IsWord f) {calls : List Call}
    (named : ∀ call ∈ calls, call.Named) :
    Writes (functionText f calls) (Declaration.function f [] (calls.map Call.statement)).tokens
      (calls.flatMap fun call => strings call.args) := by
  have close : Plain "\x7d\n".toList [.punctuator '\x7d'] := by decide +kernel
  have all := ((plain_headText isWord).writes.append (Writes.calls named)).append close.writes
  rw [List.nil_append, List.append_nil] at all
  exact all

/-- Declarations that are written one behind the other. -/
theorem Writes.declaration {declaration : Declaration} {unit : CUnit} {line : Text}
    {lines : List Text} {xs ys : List Text} (front : Writes line declaration.tokens xs)
    (back : Writes lines.flatten (unit.flatMap Declaration.tokens) ys) :
    Writes (line :: lines).flatten ((declaration :: unit).flatMap Declaration.tokens)
      (xs ++ ys) := by
  rw [List.flatten_cons, List.flatMap_cons]
  exact front.append back

/-! ## Units -/

section Unit

variable {front text last : Text} {frontTokens tokens : List Token} {contents : List Text}

/-- The text ends with no closing behind a quote of its own. -/
def Safe (last : Text) : Prop := ∀ closing ∈ closings, NeverIn last closing

instance (last : Text) : Decidable (Safe last) :=
  inferInstanceAs (Decidable (∀ closing ∈ closings, NeverIn last closing))

/-- The items of a text are sound and parted, and can be told from a safe end. -/
theorem Writes.exists_items (writes : Writes text tokens contents) :
    ∃ items : List Item, (∀ item ∈ items, item.Sound) ∧ (∀ item ∈ items, item.Parted) ∧
      (∀ last, Safe last → EndsIn last items) ∧ textOf items = text ∧ tokensOf items = tokens ∧
      ∀ s, s ∈ contents ↔ ∃ item ∈ items, s ∈ item.contents := by
  obtain ⟨items, sound, closed, text_eq, tokens_eq, rfl⟩ := writes
  refine ⟨items, sound, fun item member => ?_, fun last safe content text tokens member => ?_,
    text_eq, tokens_eq, fun s => List.mem_flatMap⟩
  · cases item with
    | plain text tokens => trivial
    | quoted content text tokens =>
        intro empty
        have closing := closed content text tokens member
        rw [empty] at closing
        exact absurd closing (by decide)
  · exact safe tokens (closed content text tokens member)

theorem Writes.read (writes : Writes text tokens contents) (clean : ∀ s ∈ contents, Clean s) :
    run .start text = some (tokens, .start) := by
  obtain ⟨items, sound, -, -, rfl, rfl, listed⟩ := writes.exists_items
  exact run_items sound fun item member s written =>
    clean s ((listed s).mpr ⟨item, member, written⟩)

/-- **The text parses as the intended unit exactly if what is between quotes is clean.** -/
theorem Writes.parses_iff {lastTokens : List Token} {unit : CUnit}
    (writes : Writes text tokens contents)
    (reads : run .start front = some (frontTokens, .start))
    (stringless : ∀ s, .string s ∉ frontTokens) (safe : Safe last)
    (reads_last : run .start last = some (lastTokens, .start))
    (joined : join lastTokens = lastTokens)
    (means : unit.flatMap Declaration.tokens = frontTokens ++ (tokens ++ lastTokens)) :
    Parses (front ++ (text ++ last)) unit ↔ ∀ s ∈ contents, Clean s := by
  obtain ⟨items, sound, parted, ends, rfl, rfl, listed⟩ := writes.exists_items
  rw [CLexer.parses_iff, means]
  constructor
  · rintro ⟨tokens, whole, same⟩
    rw [run_append_of_eq _ reads, Option.map_eq_some_iff] at whole
    obtain ⟨⟨read, q⟩, behind, result⟩ := whole
    obtain ⟨rfl, rfl⟩ := Prod.mk.inj result
    dsimp only at same
    rw [join_append stringless] at same
    have follows : Follows [] items read :=
      follows_of_join sound parted (fun s => List.not_mem_nil) (List.append_cancel_left same)
    have all : [] ++ read = [] ++ read := rfl
    have clean := clean_of_follows sound (ends last safe) behind (fun s => List.not_mem_nil) all
      follows
    intro s written
    obtain ⟨item, member, inside⟩ := (listed s).mp written
    exact clean item member s inside
  · intro clean
    refine ⟨frontTokens ++ (tokensOf items ++ lastTokens), ?_, ?_⟩
    · rw [run_append_of_eq _ reads, run_append_of_eq _ (writes.read clean), reads_last]
      rfl
    · rw [join_append stringless, join_tokensOf sound parted, joined]

/-- **If a unit can be read in which the function has the intended body, what is between quotes in
the body is clean**, whatever else is in the unit. -/
theorem Writes.clean_of_bodies {f : Text} {body : List Statement} {unit : CUnit}
    (writes : Writes text (body.flatMap Statement.tokens) contents)
    (reads : run .start front = some (frontTokens ++ word "void" :: headTokens f, .start))
    (fresh : .word f ∉ frontTokens) (ne : f ≠ "void".toList) (safe : Safe last)
    (parses : Parses (front ++ (text ++ last)) unit) (defined : body ∈ bodies f unit) :
    ∀ s ∈ contents, Clean s := by
  obtain ⟨read, whole, joined⟩ := CLexer.parses_iff.mp parses
  obtain ⟨before, params, after, tokens⟩ := tokens_of_mem_bodies defined
  obtain ⟨items, sound, parted, ends, rfl, means, listed⟩ := writes.exists_items
  rw [tokens, ← means] at joined
  -- the intended tokens follow the name of the function in what is read
  obtain ⟨before', after', rfl, -, behind⟩ := join_cut (fun s => Token.noConfusion) joined
  have stringless : ∀ s, .string s ∉ [Token.punctuator '('] ++ paramTokens params ++
      [Token.punctuator ')', .punctuator '\x7b'] := by
    intro s member
    simp [paramTokens_not_string] at member
  have follows := follows_of_join sound parted stringless behind
  -- the name is read at the head of the function or behind it
  rw [run_append_of_eq _ reads, Option.map_eq_some_iff] at whole
  obtain ⟨⟨rest, q⟩, here, result⟩ := whole
  obtain ⟨same, rfl⟩ := Prod.mk.inj result
  have outside : .word f ∉ frontTokens ++ [word "void"] := by
    intro member
    rcases List.mem_append.mp member with early | late
    · exact fresh early
    · exact ne (Token.word.inj (List.mem_singleton.mp late))
  have split : (frontTokens ++ [word "void"]) ++ (headTokens f ++ rest) =
      before' ++ .word f :: after' := by
    rw [← same]
    simp
  obtain ⟨skipped, -, found⟩ := append_cut split outside
  have none : ∀ s, .string s ∉ headTokens f := by
    intro s member
    simp [headTokens] at member
  have moved : headTokens f ++ rest = (skipped ++ [.word f]) ++ after' := by
    rw [found]
    simp
  have clean := clean_of_follows sound (ends last safe) here none moved follows
  intro s written
  obtain ⟨item, member, inside⟩ := (listed s).mp written
  exact clean item member s inside

/-- **With a clean header, a unit in which the function makes the calls can be read exactly if what
is between the quotes of the calls is clean.** -/
theorem Writes.exists_bodies_iff {f : Text} {calls : List Call} {lastTokens : List Token}
    {unit : CUnit} (header : Writes text tokens contents) (clean : ∀ s ∈ contents, Clean s)
    (reads : run .start front = some (frontTokens, .start))
    (stringless : ∀ s, .string s ∉ frontTokens) (isWord : IsWord f) (ne : f ≠ "void".toList)
    (fresh : .word f ∉ frontTokens ++ tokens) (named : ∀ call ∈ calls, call.Named)
    (safe : Safe last) (reads_last : run .start last = some (lastTokens, .start))
    (joined : join lastTokens = lastTokens)
    (means : unit.flatMap Declaration.tokens = frontTokens ++
      ((tokens ++ (Declaration.function f [] (calls.map Call.statement)).tokens) ++ lastTokens))
    (only : bodies f unit = [calls.map Call.statement]) :
    (∃ unit, Parses (front ++ ((text ++ functionText f calls) ++ last)) unit ∧
        bodies f unit = [calls.map Call.statement]) ↔
      ∀ call ∈ calls, ∀ s ∈ strings call.args, Clean s := by
  constructor
  · rintro ⟨found, parses, defined⟩
    have reads_head : run .start (front ++ (text ++ headText f)) =
        some ((frontTokens ++ tokens) ++ word "void" :: headTokens f, .start) := by
      rw [run_append_of_eq _ reads, run_append_of_eq _ (header.read clean),
        (plain_headText isWord).1]
      simp
    have safe_close : Safe ("\x7d\n".toList ++ last) := fun closing member =>
      NeverIn.of_append (by decide +kernel) (safe closing member)
    have pieces : front ++ ((text ++ functionText f calls) ++ last) =
        (front ++ (text ++ headText f)) ++
          (calls.flatMap Call.text ++ ("\x7d\n".toList ++ last)) := by
      delta functionText
      simp only [List.append_assoc]
    rw [pieces] at parses
    have all := (Writes.calls named).clean_of_bodies reads_head fresh ne safe_close parses
      (defined ▸ List.mem_singleton_self _)
    intro call member s written
    exact all s (List.mem_flatMap.mpr ⟨call, member, written⟩)
  · intro inside
    refine ⟨unit, ?_, only⟩
    have whole := header.append (writes_functionText isWord named)
    refine (whole.parses_iff reads stringless safe reads_last joined means).mpr fun s written => ?_
    rcases List.mem_append.mp written with early | late
    · exact clean s early
    · obtain ⟨call, member, given⟩ := List.mem_flatMap.mp late
      exact inside call member s given

end Unit

end CocosOS.Library.CLexer
