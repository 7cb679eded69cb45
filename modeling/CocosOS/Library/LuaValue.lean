import CocosOS.Library.CString

/-!
# Values of Lua

What a Lua program can make of a decoded JSON text: a value, or `nil`, which is `none`. Indexing
reads a field of a table; a string has the fields of the string library, and other values raise an
error. A table is told by its fields with a name and those with a number. Numbers are left open,
and so is the JSON library.
-/

set_option autoImplicit false

namespace CocosOS.Library.Lua

open CString

/-- A Lua string. -/
abbrev Text := List (BitVec 8)

/-- A value other than `nil`. A method is a function of the string library. -/
inductive Value (N : Type) where
  | bool (value : Bool)
  | number (value : N)
  | string (value : Text)
  | table (named : Text → Option (Value N)) (numbered : N → Option (Value N))
  | method (name : Text)

/-- A JSON library. Where it raises an error there is no result. -/
structure Json (N : Type) where
  decode : Text → Option (Option (Value N))
  encode : Value N → Option Text

variable {N : Type}

/-- The names in the table `string`. -/
def stringLibrary : List Text :=
  [literal "byte", literal "char", literal "dump", literal "find", literal "format",
    literal "gmatch", literal "gsub", literal "len", literal "lower", literal "match",
    literal "pack", literal "packsize", literal "rep", literal "reverse", literal "sub",
    literal "unpack", literal "upper"]

/-- `value[key]`. It raises an error for a value that cannot be indexed. -/
def index : Option (Value N) → Option Text → Option (Option (Value N))
  | some (.table named _), some key => some (named key)
  | some (.table _ _), none => some none
  | some (.string _), some key =>
    some (if key ∈ stringLibrary then some (.method key) else none)
  | some (.string _), none => some none
  | _, _ => none

/-- Everything is true but `nil` and `false`. -/
def truthy : Option (Value N) → Bool
  | none => false
  | some (.bool value) => value
  | some _ => true

/-- `value == text`. -/
def equals : Option (Value N) → Option Text → Bool
  | none, none => true
  | some (.string value), some text => value = text
  | _, _ => false

/-- `{}`. -/
def Value.empty : Value N := .table (fun _ => none) fun _ => none

/-- Open a file, read all of it and decode it. Where that fails, or makes `nil` or `false`, it is
the empty table. -/
def loadJson (json : Json N) (file : Option Text) : Value N :=
  match file.bind json.decode with
  | some (some value) => if truthy (some value) then value else .empty
  | _ => .empty

@[simp] theorem index_table (named : Text → Option (Value N)) (numbered : N → Option (Value N))
    (key : Text) : index (some (.table named numbered)) (some key) = some (named key) := rfl

theorem index_string {key : Text} (other : key ∉ stringLibrary) (value : Text) :
    index (some (.string value : Value N)) (some key) = some none :=
  congrArg some (if_neg other)

@[simp] theorem truthy_table (named : Text → Option (Value N))
    (numbered : N → Option (Value N)) : truthy (some (.table named numbered)) = true := rfl

@[simp] theorem truthy_string (value : Text) : truthy (some (.string value : Value N)) = true := rfl

@[simp] theorem equals_nil_iff (value : Option (Value N)) :
    equals value none = true ↔ value = none := by
  cases value with
  | none => exact iff_of_true rfl rfl
  | some value => cases value <;> exact iff_of_false nofun nofun

@[simp] theorem equals_text_iff (value : Option (Value N)) (text : Text) :
    equals value (some text) = true ↔ value = some (.string text) := by
  cases value with
  | none => exact iff_of_false nofun nofun
  | some value => cases value <;> simp [equals]

end CocosOS.Library.Lua
