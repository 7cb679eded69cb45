import CocosOS.Library.LuaValue
import Mathlib.Data.List.Infix
import Mathlib.Tactic.Common
import Mathlib.Tactic.SplitIfs

/-!
# The login

`login` compares the password of a user's entry with the line that was typed. Either may be `nil`:
the one where an entry has no password, the other at the end of the input. So a user whose entry
has no password is let in if the input ends behind the name, and an entry that is a string has no
password either.

The loop ends with a session only for guests and for users who typed their password exactly if the
input does not end behind the name of such a user (`login_secure_iff`).
-/

set_option autoImplicit false

namespace CocosOS.Core.Login

open Library.CString Library.Lua

variable {N : Type}

/-! ## The script -/

structure Session where
  user : Option Text
  role : Text
  deriving DecidableEq

/-- `cargarUsuarios`. -/
def cargarUsuarios (json : Json N) (file : Option Text) : Value N := loadJson json file

/-- `autenticar`. It has no result where it raises an error. -/
def autenticar (json : Json N) (file : Option Text) (usuario password : Option Text) :
    Option Bool := do
  let users := cargarUsuarios json file
  let u ← index (some users) usuario
  if truthy u then
    let stored ← index u (some (literal "password"))
    return equals stored password
  else
    return false

/-- `login` on the lines that are left: the session or `nil`, and the lines behind. At the end of
the input `io.read` returns `nil`. The input ends for good, as that of a file or a pipe does; a
terminal may deliver lines again behind an end of input. -/
def login (json : Json N) (file : Option Text) (lines : List Text) :
    Option (Option Session × List Text) := do
  let user := lines.head?
  let lines := lines.tail
  if user = some (literal "guest") then
    return (some ⟨some (literal "guest"), literal "guest"⟩, lines)
  else
    let pass := lines.head?
    let lines := lines.tail
    if ← autenticar json file user pass then
      return (some ⟨user, literal "user"⟩, lines)
    else
      return (none, lines)

/-- Where the loop is after some rounds. -/
inductive Outcome where
  | running (lines : List Text)
  | raised
  | session (session : Session) (lines : List Text)

/-- The loop around `login`, for at most so many rounds. -/
def loginLoop (json : Json N) (file : Option Text) : ℕ → List Text → Outcome
  | 0, lines => .running lines
  | rounds + 1, lines =>
    match login json file lines with
    | none => .raised
    | some (some session, lines) => .session session lines
    | some (none, lines) => loginLoop json file rounds lines

/-! ## Who may log in -/

/-- The entry of a user, whose password is the text. -/
def Opens (entry : Option (Value N)) (password : Text) : Prop :=
  ∃ named numbered, entry = some (.table named numbered) ∧
    named (literal "password") = some (.string password)

/-- A session for a guest, or for a user whose password was typed behind the name. -/
inductive Legitimate (users : Text → Option (Value N)) : List Text → Session → Prop
  | guest (typed : List Text) :
      Legitimate users typed ⟨some (literal "guest"), literal "guest"⟩
  | user (before : List Text) (name password : Text) (opens : Opens (users name) password) :
      Legitimate users (before ++ [name, password]) ⟨some name, literal "user"⟩

/-- The loop ends only with a legitimate session for what was typed. -/
def Secure (json : Json N) (file : Option Text) (users : Text → Option (Value N))
    (lines : List Text) : Prop :=
  ∀ rounds session rest, loginLoop json file rounds lines = .session session rest →
    ∃ typed, lines = typed ++ rest ∧ Legitimate users typed session

/-- The entry can be indexed and has no password: an object without one, or a string. -/
def Passwordless : Option (Value N) → Prop
  | some (.table named _) => named (literal "password") = none
  | some (.string _) => True
  | _ => False

/-- The entry is not there, or it can be indexed. -/
def Readable : Option (Value N) → Prop
  | none | some (.bool false) | some (.table _ _) | some (.string _) => True
  | _ => False

/-- After attempts that fail, the input ends behind the name of a user without a password. -/
def EndsAtName (users : Text → Option (Value N)) : List Text → Prop
  | [] => False
  | [name] => name ≠ literal "guest" ∧ Passwordless (users name)
  | name :: password :: rest =>
    name ≠ literal "guest" ∧ Readable (users name) ∧ ¬ Opens (users name) password ∧
      EndsAtName users rest

/-! ## One attempt -/

section

variable {json : Json N} {file : Option Text} {users : Text → Option (Value N)}
  {numbered : N → Option (Value N)} (loaded : cargarUsuarios json file = .table users numbered)
include loaded

theorem autenticar_eq (usuario : Option Text) (password : Option Text) :
    autenticar json file usuario password =
      (index (some (.table users numbered)) usuario).bind fun u =>
        if truthy u then (index u (some (literal "password"))).map (equals · password)
        else some false := by
  rw [autenticar, loaded]
  refine congrArg _ (funext fun u => ?_)
  split_ifs
  · exact Option.map_eq_bind.symm
  · rfl

theorem autenticar_nil (password : Option Text) :
    autenticar json file none password = some false := autenticar_eq loaded none password

/-- **At the end of the input, a user without a password is let in, and no other.** -/
theorem autenticar_eof_iff (name : Text) :
    autenticar json file (some name) none = some true ↔ Passwordless (users name) := by
  have noPassword : literal "password" ∉ stringLibrary := by decide
  rw [autenticar_eq loaded, index_table, Option.bind_some]
  match users name with
  | none => exact iff_of_false nofun id
  | some (.bool false) => exact iff_of_false nofun id
  | some (.bool true) => exact iff_of_false nofun id
  | some (.number _) => exact iff_of_false nofun id
  | some (.method _) => exact iff_of_false nofun id
  | some (.string _) =>
      rw [truthy_string, if_pos rfl, index_string noPassword]
      exact iff_of_true rfl trivial
  | some (.table named _) =>
      rw [truthy_table, if_pos rfl, index_table, Option.map_some, Option.some.injEq, equals_nil_iff]
      rfl

/-- **A typed password lets in whose password it is**, and the loop goes on for others whose entry
can be read. -/
theorem autenticar_typed_iff (name password : Text) :
    (autenticar json file (some name) (some password) = some true ↔
      Opens (users name) password) ∧
    (autenticar json file (some name) (some password) = some false ↔
      Readable (users name) ∧ ¬ Opens (users name) password) := by
  have noPassword : literal "password" ∉ stringLibrary := by decide
  have noTable {entry : Option (Value N)} (other : ∀ named numbered,
      entry ≠ some (.table named numbered)) : ¬ Opens entry password := by
    rintro ⟨named, numbered, same, -⟩
    exact other named numbered same
  rw [autenticar_eq loaded, index_table, Option.bind_some]
  match users name with
  | none => exact ⟨iff_of_false nofun (noTable nofun), iff_of_true rfl ⟨trivial, noTable nofun⟩⟩
  | some (.bool false) =>
      exact ⟨iff_of_false nofun (noTable nofun), iff_of_true rfl ⟨trivial, noTable nofun⟩⟩
  | some (.bool true) =>
      exact ⟨iff_of_false nofun (noTable nofun), iff_of_false nofun fun both => both.1⟩
  | some (.number _) =>
      exact ⟨iff_of_false nofun (noTable nofun), iff_of_false nofun fun both => both.1⟩
  | some (.method _) =>
      exact ⟨iff_of_false nofun (noTable nofun), iff_of_false nofun fun both => both.1⟩
  | some (.string _) =>
      rw [truthy_string, if_pos rfl, index_string noPassword]
      exact ⟨iff_of_false nofun (noTable nofun), iff_of_true rfl ⟨trivial, noTable nofun⟩⟩
  | some (.table named numbered) =>
      have opens : Opens (some (.table named numbered)) password ↔
          named (literal "password") = some (.string password) := by
        constructor
        · rintro ⟨named', numbered', same, stored⟩
          obtain ⟨rfl, rfl⟩ := Value.table.inj (Option.some.inj same)
          exact stored
        · exact fun stored => ⟨named, numbered, rfl, stored⟩
      rw [truthy_table, if_pos rfl, index_table, Option.map_some, Option.some.injEq,
        Option.some.injEq, opens, ← equals_text_iff, Bool.not_eq_true]
      exact ⟨Iff.rfl, (and_iff_right trivial).symm⟩

end

theorem login_guest (json : Json N) (file : Option Text) (lines : List Text) :
    login json file (literal "guest" :: lines) =
      some (some ⟨some (literal "guest"), literal "guest"⟩, lines) := rfl

theorem login_of_ne (json : Json N) (file : Option Text) {lines : List Text}
    (other : lines.head? ≠ some (literal "guest")) :
    login json file lines = (autenticar json file lines.head? lines.tail.head?).map fun answer =>
      (if answer then some ⟨lines.head?, literal "user"⟩ else none, lines.tail.tail) := by
  rw [login]
  dsimp only
  rw [if_neg other]
  cases autenticar json file lines.head? lines.tail.head? with
  | none => rfl
  | some answer => cases answer <;> rfl

/-! ## The loop -/

variable {json : Json N} {file : Option Text} {users : Text → Option (Value N)}
  {numbered : N → Option (Value N)}

theorem Legitimate.append {typed : List Text} {session : Session}
    (legitimate : Legitimate users typed session) (front : List Text) :
    Legitimate users (front ++ typed) session := by
  cases legitimate with
  | guest => exact .guest _
  | user before name password opens =>
      rw [← List.append_assoc]
      exact .user _ name password opens

/-- A round that is not a guest's ends the loop with a session for the name, or it fails and the
loop goes on. -/
theorem session_of_round {rounds : ℕ} {lines rest : List Text} {session : Session}
    (other : lines.head? ≠ some (literal "guest"))
    (ends : loginLoop json file (rounds + 1) lines = .session session rest) :
    (autenticar json file lines.head? lines.tail.head? = some true ∧
      session = ⟨lines.head?, literal "user"⟩ ∧ rest = lines.tail.tail) ∨
    (autenticar json file lines.head? lines.tail.head? = some false ∧
      loginLoop json file rounds lines.tail.tail = .session session rest) := by
  rw [loginLoop, login_of_ne json file other] at ends
  cases answer : autenticar json file lines.head? lines.tail.head? with
  | none =>
      rw [answer] at ends
      exact absurd ends nofun
  | some granted =>
      rw [answer] at ends
      cases granted with
      | true =>
          obtain ⟨rfl, rfl⟩ := Outcome.session.inj ends
          exact .inl ⟨rfl, rfl, rfl⟩
      | false => exact .inr ⟨rfl, ends⟩

/-- **While the input does not end behind the name of a user without a password, the loop ends only
with legitimate sessions.** -/
theorem legitimate_of_loginLoop (loaded : cargarUsuarios json file = .table users numbered)
    {rounds : ℕ} {lines : List Text} (clear : ¬ EndsAtName users lines) {session : Session}
    {rest : List Text} (ends : loginLoop json file rounds lines = .session session rest) :
    ∃ typed, lines = typed ++ rest ∧ Legitimate users typed session := by
  induction rounds generalizing lines with
  | zero => exact absurd ends nofun
  | succ rounds ih =>
      by_cases guest : lines.head? = some (literal "guest")
      · obtain ⟨tail, rfl⟩ := List.head?_eq_some_iff.mp guest
        rw [loginLoop, login_guest] at ends
        obtain ⟨rfl, rfl⟩ := Outcome.session.inj ends
        exact ⟨[literal "guest"], rfl, .guest _⟩
      have round := session_of_round guest ends
      match lines with
      | [] =>
          rcases round with ⟨let_in, -⟩ | ⟨-, later⟩
          · exact absurd ((autenticar_nil loaded _).symm.trans let_in) nofun
          · exact ih clear later
      | [name] =>
          -- the input is at its end, so only a user without a password would be let in
          have named : name ≠ literal "guest" := fun same => guest (congrArg some same)
          rcases round with ⟨let_in, -⟩ | ⟨-, later⟩
          · exact absurd ⟨named, (autenticar_eof_iff loaded name).mp let_in⟩ clear
          · obtain ⟨typed, same, legitimate⟩ := ih (show ¬ EndsAtName users [] from id) later
            exact ⟨name :: typed, congrArg (name :: ·) same, legitimate.append [name]⟩
      | name :: password :: lines =>
          have named : name ≠ literal "guest" := fun same => guest (congrArg some same)
          obtain ⟨opens, refused⟩ := autenticar_typed_iff loaded name password
          rcases round with ⟨let_in, rfl, rfl⟩ | ⟨answer, later⟩
          · exact ⟨[name, password], rfl, .user [] name password (opens.mp let_in)⟩
          · obtain ⟨readable, closed⟩ := refused.mp answer
            obtain ⟨typed, rfl, legitimate⟩ :=
              ih (fun inside => clear ⟨named, readable, closed, inside⟩) later
            exact ⟨name :: password :: typed, rfl, legitimate.append [name, password]⟩

/-- Where the input ends behind the name of a user without a password, the loop ends with a session
for that user. -/
theorem loginLoop_of_endsAtName (loaded : cargarUsuarios json file = .table users numbered)
    {lines : List Text} (ends : EndsAtName users lines) :
    ∃ rounds name, loginLoop json file rounds lines =
        .session ⟨some name, literal "user"⟩ [] ∧ lines.getLast? = some name ∧
      Passwordless (users name) ∧ name ≠ literal "guest" := by
  match lines with
  | [] => exact ends.elim
  | [name] =>
      obtain ⟨named, free⟩ := ends
      have other : [name].head? ≠ some (literal "guest") := fun same => named (Option.some.inj same)
      refine ⟨1, name, ?_, rfl, free, named⟩
      rw [loginLoop, login_of_ne json file other, List.tail_cons, List.head?_nil, List.head?_cons,
        (autenticar_eof_iff loaded name).mpr free]
      rfl
  | name :: password :: lines =>
      obtain ⟨named, readable, closed, later⟩ := ends
      have other : (name :: password :: lines).head? ≠ some (literal "guest") := fun same =>
        named (Option.some.inj same)
      obtain ⟨rounds, last, ended, isLast, free, guestless⟩ := loginLoop_of_endsAtName loaded later
      refine ⟨rounds + 1, last, ?_, ?_, free, guestless⟩
      · rw [loginLoop, login_of_ne json file other, List.tail_cons, List.head?_cons,
          List.head?_cons, (autenticar_typed_iff loaded name password).2.mpr ⟨readable, closed⟩]
        exact ended
      · cases lines with
        | nil => exact later.elim
        | cons first more => rw [List.getLast?_cons_cons, List.getLast?_cons_cons, isLast]

/-- **The loop ends only with a session for a guest, or for a user whose password was typed, exactly
if the input does not end behind the name of a user whose entry has no password.** -/
theorem login_secure_iff (loaded : cargarUsuarios json file = .table users numbered)
    (lines : List Text) : Secure json file users lines ↔ ¬ EndsAtName users lines := by
  constructor
  · intro secure atName
    obtain ⟨rounds, name, ended, isLast, free, named⟩ := loginLoop_of_endsAtName loaded atName
    obtain ⟨typed, same, legitimate⟩ := secure rounds _ _ ended
    rw [List.append_nil] at same
    subst same
    generalize session : (⟨some name, literal "user"⟩ : Session) = made at legitimate
    cases legitimate with
    | guest => exact named (Option.some.inj (Session.mk.inj session).1)
    | user before name' password opens =>
        -- the last line is the name, so it would be the password too
        obtain rfl := Option.some.inj (Session.mk.inj session).1
        obtain ⟨fields, others, entry, stored⟩ := opens
        rw [entry, Passwordless, stored] at free
        exact absurd free nofun
  · exact fun clear _ _ _ ends => legitimate_of_loginLoop loaded clear ends

/-! ## A user without a password -/

theorem Legitimate.two_le {typed : List Text} {session : Session}
    (legitimate : Legitimate users typed session)
    (other : session.user ≠ some (literal "guest")) : 2 ≤ typed.length := by
  cases legitimate with
  | guest => exact absurd rfl other
  | user before name password opens =>
      rw [List.length_append]
      exact Nat.le_add_left 2 _

/-- The users of a file with the single entry of `ana`. -/
def onlyAna (entry : Value ℕ) : Text → Option (Value ℕ) :=
  fun name => if name = literal "ana" then some entry else none

/-- A library that knows one text. -/
def oneText (text : Text) (value : Value ℕ) : Json ℕ :=
  ⟨fun other => if other = text then some (some value) else none, fun _ => some text⟩

def noNumbers : ℕ → Option (Value ℕ) := fun _ => none

def withPassword : Text := literal "\x7b\"ana\":\x7b\"password\":\"x\"\x7d\x7d"

def anaWithPassword : Value ℕ :=
  .table (fun field => if field = literal "password" then some (.string (literal "x")) else none)
    noNumbers

/-- The user `ana` is let in with her password. -/
theorem ana_secure :
    Secure (oneText withPassword (.table (onlyAna anaWithPassword) noNumbers)) (some withPassword)
      (onlyAna anaWithPassword) [literal "ana", literal "x"] := by
  have loaded : cargarUsuarios
      (oneText withPassword (.table (onlyAna anaWithPassword) noNumbers)) (some withPassword) =
      .table (onlyAna anaWithPassword) noNumbers := rfl
  exact (login_secure_iff loaded _).mpr fun ends => ends.2.2.2

def withoutPassword : Text := literal "\x7b\"ana\":\x7b\x7d\x7d"

/-- The user `ana`, whose entry is empty, is let in at the end of the input. -/
theorem ana_let_in : ¬ ∀ (json : Json ℕ) file users numbered,
    cargarUsuarios json file = .table users numbered → ∀ lines, Secure json file users lines := by
  intro secure
  obtain ⟨typed, same, legitimate⟩ := secure
    (oneText withoutPassword (.table (onlyAna .empty) noNumbers)) (some withoutPassword)
    (onlyAna .empty) noNumbers rfl [literal "ana"] 1 ⟨some (literal "ana"), literal "user"⟩ [] rfl
  have two := legitimate.two_le (by decide)
  rw [List.append_nil] at same
  rw [← same] at two
  exact absurd two (by decide)

end CocosOS.Core.Login
