import CocosOS.Library.LuaValue
import Mathlib.Logic.Function.Basic
import Mathlib.Tactic.SplitIfs

/-!
# Scripts

A script changes a state and returns a value, or it raises an error; the state is then what was
changed up to there. Scripts are put one behind the other (`bind`), and a condition that each part
of them keeps is kept by all of it (`Keeps.bind`).

Behind that are the parts of the language that a script of files needs: text that can be written,
fields that are assigned, and a JSON library that reads what it wrote (`Json.Lawful`).
-/

set_option autoImplicit false

namespace CocosOS.Library.Lua

open CString

/-- The value that is returned, where no error is raised, and the state at the end. -/
def Script (State A : Type) := State → Option A × State

namespace Script

variable {State A B : Type}

instance : Monad (Script State) where
  pure a := fun state => (some a, state)
  bind script next := fun state =>
    match script state with
    | (some a, state) => next a state
    | (none, state) => (none, state)

/-- A value that may be an error. -/
def ofOption (value : Option A) : Script State A := fun state => (value, state)

@[simp] theorem pure_apply (a : A) (state : State) :
    (pure a : Script State A) state = (some a, state) := rfl

theorem bind_of_some {script : Script State A} {state after : State} {a : A}
    (runs : script state = (some a, after)) (next : A → Script State B) :
    (script >>= next) state = next a after := by
  change (match script state with
    | (some a, state) => next a state
    | (none, state) => (none, state)) = _
  rw [runs]

theorem bind_of_none {script : Script State A} {state after : State}
    (raises : script state = (none, after)) (next : A → Script State B) :
    (script >>= next) state = (none, after) := by
  change (match script state with
    | (some a, state) => next a state
    | (none, state) => (none, state)) = _
  rw [raises]

@[simp] theorem ofOption_bind (value : Option A) (next : A → Script State B) (state : State) :
    (ofOption value >>= next) state = value.elim (none, state) fun a => next a state := by
  cases value <;> rfl

/-- The condition holds after the script, also where it raises an error, and what it returns is as
told. -/
def Keeps (holds : State → Prop) (script : Script State A) (returns : A → Prop) : Prop :=
  ∀ state, holds state → holds (script state).2 ∧ ∀ a, (script state).1 = some a → returns a

variable {holds : State → Prop}

theorem Keeps.pure {returns : A → Prop} {a : A} (here : returns a) :
    Keeps holds (Pure.pure a : Script State A) returns :=
  fun _ before => ⟨before, fun _ same => Option.some.inj same ▸ here⟩

theorem Keeps.ofOption {returns : A → Prop} {value : Option A}
    (here : ∀ a, value = some a → returns a) :
    Keeps holds (Script.ofOption value : Script State A) returns :=
  fun _ before => ⟨before, here⟩

/-- **What two scripts keep is kept by one behind the other.** -/
theorem Keeps.bind {script : Script State A} {next : A → Script State B} {first : A → Prop}
    {returns : B → Prop} (keeps : Keeps holds script first)
    (later : ∀ a, first a → Keeps holds (next a) returns) :
    Keeps holds (script >>= next) returns := by
  intro state before
  obtain ⟨after, value⟩ := keeps state before
  cases run : script state with
  | mk result state' =>
      rw [run] at after value
      cases result with
      | none =>
          rw [bind_of_none run]
          exact ⟨after, nofun⟩
      | some a =>
          rw [bind_of_some run]
          exact later a (value a rfl) state' after

theorem Keeps.mono {script : Script State A} {returns returns' : A → Prop}
    (keeps : Keeps holds script returns) (weaker : ∀ a, returns a → returns' a) :
    Keeps holds script returns' :=
  fun state before =>
    ⟨(keeps state before).1, fun a same => weaker a ((keeps state before).2 a same)⟩

end Script

/-! ## Text, fields and JSON -/

variable {N : Type}

/-- What is written for a value, and put behind a text by `..`. Other values raise an error. -/
def written (numberText : N → Text) : Option (Value N) → Option Text
  | some (.string value) => some value
  | some (.number value) => some (numberText value)
  | _ => none

/-- `value[key] = field`. It raises an error where the value is no table. -/
def setField (value : Value N) (key : Text) (field : Option (Value N)) : Option (Value N) :=
  match value with
  | .table named numbered => some (.table (Function.update named key field) numbered)
  | _ => none

theorem setField_eq_some_iff {value value' : Value N} {key : Text} {field : Option (Value N)} :
    setField value key field = some value' ↔ ∃ named numbered, value = .table named numbered ∧
      value' = .table (Function.update named key field) numbered := by
  cases value with
  | table named numbered =>
      constructor
      · intro same
        exact ⟨named, numbered, rfl, (Option.some.inj same).symm⟩
      · rintro ⟨named', numbered', same, rfl⟩
        obtain ⟨rfl, rfl⟩ := Value.table.inj same
        rfl
  | bool value => exact iff_of_false nofun nofun
  | number value => exact iff_of_false nofun nofun
  | string value => exact iff_of_false nofun nofun
  | method name => exact iff_of_false nofun nofun

/-- The fields of a value that have a name. -/
def Value.fields : Value N → Text → Option (Value N)
  | .table named _ => named
  | _ => fun _ => none

@[simp] theorem Value.fields_table (named : Text → Option (Value N))
    (numbered : N → Option (Value N)) : (Value.table named numbered).fields = named := rfl

/-- What was encoded can be read, and an empty text is no JSON. A value comes back as it was, its
numbers included: the numbers are those that survive being written and read. -/
structure Json.Lawful (json : Json N) : Prop where
  decode_encode : ∀ value text, json.encode value = some text →
    json.decode text = some (some value)
  decode_nil : json.decode [] = none

open Classical in
/-- A library that knows some texts with their values. -/
noncomputable def Json.known (pairs : List (Text × Value N)) : Json N where
  decode text := (pairs.find? fun pair => pair.1 = text).map fun pair => some pair.2
  encode value := (pairs.find? fun pair => pair.2 = value).map Prod.fst

/-- What a pair of the library tells. -/
theorem Json.decode_known {pairs : List (Text × Value N)} (unique : (pairs.map Prod.fst).Nodup)
    {pair : Text × Value N} (member : pair ∈ pairs) :
    (Json.known pairs).decode pair.1 = some (some pair.2) := by
  cases found : pairs.find? fun other => other.1 = pair.1 with
  | none => exact absurd (List.find?_eq_none.mp found pair member) (by simp)
  | some other =>
      have same : other.1 = pair.1 := by simpa using List.find?_some found
      obtain rfl := List.inj_on_of_nodup_map unique (List.mem_of_find?_eq_some found) member same
      exact congrArg (Option.map fun pair => some pair.2) found

/-- A text that the library knows is loaded. -/
theorem loadJson_known {pairs : List (Text × Value N)} (unique : (pairs.map Prod.fst).Nodup)
    {pair : Text × Value N} (member : pair ∈ pairs) (true : truthy (some pair.2) = Bool.true) :
    loadJson (Json.known pairs) (some pair.1) = pair.2 := by
  rw [loadJson, Option.bind_some, Json.decode_known unique member]
  exact if_pos true

theorem Json.lawful_known {pairs : List (Text × Value N)} (unique : (pairs.map Prod.fst).Nodup)
    (nonempty : [] ∉ pairs.map Prod.fst) : (Json.known pairs).Lawful where
  decode_encode value text encodes := by
    obtain ⟨pair, found, rfl⟩ := Option.map_eq_some_iff.mp encodes
    obtain rfl : pair.2 = value := by simpa using List.find?_some found
    exact Json.decode_known unique (List.mem_of_find?_eq_some found)
  decode_nil := by
    refine Option.map_eq_none_iff.mpr (List.find?_eq_none.mpr fun pair member => ?_)
    rw [decide_eq_true_iff]
    exact fun empty => nonempty (empty ▸ List.mem_map_of_mem member)

end CocosOS.Library.Lua
