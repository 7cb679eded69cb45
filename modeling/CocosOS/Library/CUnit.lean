import CocosOS.Library.CLexer

/-!
# C translation units

A part of the grammar of C: a unit is a list of directives, constants and functions without
results. The body of a function is a list of calls, and of cascades of `if` that compare the result
of a call with zero. A text parses as a unit if the tokens that are read from it are the tokens of
the unit (`Parses`). Where a function has a body, its tokens are found behind the name of the
function (`tokens_of_mem_bodies`).
-/

set_option autoImplicit false

namespace CocosOS.Library.CLexer

/-! ## Grammar -/

inductive Expr where
  | int (value : ℤ)
  | string (chars : Text)
  | name (chars : Text)
deriving DecidableEq

/-- A call `f(args) == 0`, and the function that is called without arguments if it holds. -/
structure Test where
  function : Text
  args : List Expr
  action : Text
deriving DecidableEq

inductive Statement where
  | call (function : Text) (args : List Expr)
  | cascade (tests : List Test)
deriving DecidableEq

inductive Declaration where
  | directive (line : Text)
  | string (name value : Text)
  | int (name : Text) (value : ℤ)
  | function (name : Text) (params : List Text) (body : List Statement)
deriving DecidableEq

/-- A word of the source. -/
def word (s : String) : Token := .word s.toList

def Expr.tokens : Expr → List Token
  | .int value =>
    if value < 0 then [.punctuator '-', .word (Nat.toDigits 10 value.natAbs)]
    else [.word (Nat.toDigits 10 value.natAbs)]
  | .string chars => [.string chars]
  | .name chars => [.word chars]

@[simp] theorem Expr.tokens_string (chars : Text) :
    (Expr.string chars).tokens = [.string chars] := rfl

@[simp] theorem Expr.tokens_name (chars : Text) : (Expr.name chars).tokens = [.word chars] := rfl

def argTokens : List Expr → List Token
  | [] => []
  | [arg] => arg.tokens
  | arg :: next :: args => arg.tokens ++ .punctuator ',' :: argTokens (next :: args)

def Test.tokens (test : Test) : List Token :=
  [word "if", .punctuator '(', .word test.function, .punctuator '('] ++ argTokens test.args ++
    [.punctuator ')', .punctuator '=', .punctuator '=', word "0", .punctuator ')', .punctuator '{',
      .word test.action, .punctuator '(', .punctuator ')', .punctuator ';', .punctuator '}']

def cascadeTokens : List Test → List Token
  | [] => []
  | [test] => test.tokens
  | test :: next :: tests => test.tokens ++ word "else" :: cascadeTokens (next :: tests)

def Statement.tokens : Statement → List Token
  | .call function args =>
    [.word function, .punctuator '('] ++ argTokens args ++ [.punctuator ')', .punctuator ';']
  | .cascade tests => cascadeTokens tests

/-- Parameters, all of them strings. -/
def paramTokens : List Text → List Token
  | [] => []
  | [param] => [word "const", word "char", .punctuator '*', .word param]
  | param :: next :: params =>
    [word "const", word "char", .punctuator '*', .word param, .punctuator ','] ++
      paramTokens (next :: params)

def Declaration.tokens : Declaration → List Token
  | .directive line => [.directive line]
  | .string name value =>
    [word "const", word "char", .punctuator '*', .word name, .punctuator '=', .string value,
      .punctuator ';']
  | .int name value =>
    [word "const", word "int", .word name, .punctuator '='] ++ (Expr.int value).tokens ++
      [.punctuator ';']
  | .function name params body =>
    [word "void", .word name, .punctuator '('] ++ paramTokens params ++
      [.punctuator ')', .punctuator '{'] ++ body.flatMap Statement.tokens ++ [.punctuator '}']

abbrev CUnit := List Declaration

/-- The text parses as the unit. -/
def Parses (text : Text) (unit : CUnit) : Prop :=
  (lex text).map join = some (unit.flatMap Declaration.tokens)

/-- The bodies of the functions with a name. -/
def bodies (name : Text) (unit : CUnit) : List (List Statement) :=
  unit.filterMap fun
    | .function other _ body => if other = name then some body else none
    | _ => none

theorem parses_iff {text : Text} {unit : CUnit} :
    Parses text unit ↔ ∃ tokens, run .start text = some (tokens, .start) ∧
      join tokens = unit.flatMap Declaration.tokens := by
  rw [Parses, Option.map_eq_some_iff]
  exact exists_congr fun tokens => and_congr_left' lex_eq_some_iff

/-- The tokens of a unit in which a function has a body. -/
theorem tokens_of_mem_bodies {f : Text} {body : List Statement} {unit : CUnit}
    (defined : body ∈ bodies f unit) :
    ∃ before params after, unit.flatMap Declaration.tokens =
      before ++ Token.word f :: (([Token.punctuator '('] ++ paramTokens params ++
        [Token.punctuator ')', .punctuator '\x7b']) ++
          (body.flatMap Statement.tokens ++ after)) := by
  obtain ⟨declaration, listed, same⟩ := List.mem_filterMap.mp defined
  cases declaration with
  | directive line => exact nomatch same
  | string name value => exact nomatch same
  | int name value => exact nomatch same
  | function name params body' =>
      dsimp only at same
      split_ifs at same with named
      obtain rfl := Option.some.inj same
      subst named
      obtain ⟨front, back, rfl⟩ := List.append_of_mem listed
      refine ⟨front.flatMap Declaration.tokens ++ [word "void"], params,
        .punctuator '\x7d' :: back.flatMap Declaration.tokens, ?_⟩
      simp [Declaration.tokens]

theorem paramTokens_not_string (params : List Text) (s : Text) :
    .string s ∉ paramTokens params := by
  induction params with
  | nil => exact List.not_mem_nil
  | cons param params ih =>
      cases params with
      | nil => simp [paramTokens, word]
      | cons next params =>
          intro member
          rcases List.mem_append.mp member with early | late
          · simp [word] at early
          · exact ih late

end CocosOS.Library.CLexer
