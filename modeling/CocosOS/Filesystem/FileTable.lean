import CocosOS.Library.CString
import Mathlib.Data.List.Find
import Mathlib.Data.List.Range

/-!
# The file table

`filesystem/fs.c` keeps names and contents in a table of 32 slots. A name is looked up from the
first slot on. `fs_create` takes the next slot without looking whether the name is there already,
and leaves what the slot held as its content.

An address is `none` for null and a string for the rest; `fs_read` returns the content as it is
when it returns. What a name reads is changed only by a write to that name, by its creation and
by `fs_init` (`fsRead_of_ne`, `file_table_laws`): the name is found in one slot, which stays the
first one with that name (`lookup_create`), and a write to another name goes to another slot.
-/

set_option autoImplicit false

namespace CocosOS.Filesystem.FileTable

open Library.CString

/-! ## The calls -/

def MAX_FILES : ℕ := 32

def MAX_FILENAME : ℕ := 32

def MAX_FILE_SIZE : ℕ := 1024

/-- `file_t`: an array of 32 bytes, an array of 1024, and a size. -/
structure File where
  name : Bytes
  data : Bytes
  size : ℤ

/-- `files` and `file_count`. -/
structure Files where
  files : ℕ → File
  fileCount : ℕ

namespace Files

def modify (table : Files) (i : ℕ) (change : File → File) : Files :=
  { table with files := Function.update table.files i (change (table.files i)) }

theorem files_modify (table : Files) (i : ℕ) (change : File → File) (j : ℕ) :
    (table.modify i change).files j =
      if j = i then change (table.files i) else table.files j :=
  Function.update_apply ..

/-- The loop over the slots in `fs_write` and `fs_read`: the first slot with the name. -/
def lookup (table : Files) (name : Terminated) : Option ℕ :=
  (List.range table.fileCount).find? fun i => strcmp (table.files i).name name = 0

end Files

/-- `fs_init`. -/
def fsInit (table : Files) : Files := { table with fileCount := 0 }

/-- `fs_create`, with what it returns. -/
def fsCreate (name : Option Terminated) (table : Files) : ℤ × Files :=
  match name with
  | none => (-1, table)
  | some name =>
    if name.length ≥ MAX_FILENAME then (-1, table)
    else if table.fileCount ≥ MAX_FILES then (-1, table)
    else
      let table := table.modify table.fileCount fun file =>
        { file with name := strcpy file.name name, size := 0 }
      (0, { table with fileCount := table.fileCount + 1 })

/-- `fs_write`, with what it returns. -/
def fsWrite (name data : Option Terminated) (table : Files) : ℤ × Files :=
  match name, data with
  | some name, some data =>
    if data.length ≥ MAX_FILE_SIZE then (-1, table)
    else
      match table.lookup name with
      | some i =>
        (0, table.modify i fun file =>
          { file with data := strcpy file.data data, size := data.length })
      | none => (-1, table)
  | _, _ => (-1, table)

/-- `fs_read`: the content of the slot it returns. -/
def fsRead (name : Option Terminated) (table : Files) : Option Bytes :=
  match name with
  | none => none
  | some name => (table.lookup name).map fun i => (table.files i).data

/-- The table at the start. -/
def start : Files := ⟨fun _ => ⟨fun _ => 0, fun _ => 0, 0⟩, 0⟩

/-! ## Runs -/

inductive FsCall where
  | init
  | create (name : Option Terminated)
  | write (name data : Option Terminated)
  | read (name : Option Terminated)

/-- What a call returns, where it returns a number, and the table after it. -/
def FsCall.perform (table : Files) : FsCall → Option ℤ × Files
  | .init => (none, fsInit table)
  | .create name => ((fsCreate name table).1, (fsCreate name table).2)
  | .write name data => ((fsWrite name data table).1, (fsWrite name data table).2)
  | .read _ => (none, table)

/-- The table after calls, the first one first. -/
def after (table : Files) (calls : List FsCall) : Files :=
  calls.foldl (fun table call => (call.perform table).2) table

/-- The call is `fs_init` or a successful `fs_write` to the name. -/
def Replaces (name : Terminated) (table : Files) : FsCall → Prop
  | .init => True
  | .create _ => False
  | .write other data =>
    (∃ string, other = some string ∧ string.chars = name.chars) ∧
      (fsWrite other data table).1 = 0
  | .read _ => False

/-- No call is `fs_init` or a successful `fs_write` to the name. -/
def Undisturbed (name : Terminated) (table : Files) : List FsCall → Prop
  | [] => True
  | call :: calls =>
    ¬ Replaces name table call ∧ Undisturbed name (call.perform table).2 calls

/-- The string of an address that `fs_read` returned. -/
def yields (content : Option Bytes) : Option (List (BitVec 8)) :=
  content.map fun bytes => text bytes MAX_FILE_SIZE

/-- The table has no more than its slots, every array ends its string, and no byte behind an array
was written. -/
structure Bounded (table : Files) : Prop where
  count : table.fileCount ≤ MAX_FILES
  names : ∀ i, ∃ index < MAX_FILENAME, (table.files i).name index = 0
  contents : ∀ i, ∃ index < MAX_FILE_SIZE, (table.files i).data index = 0
  nameArray : ∀ i index, MAX_FILENAME ≤ index → (table.files i).name index = 0
  dataArray : ∀ i index, MAX_FILE_SIZE ≤ index → (table.files i).data index = 0

/-- What the calls guarantee in the table they run in. -/
structure FileTableLaws (table : Files) : Prop where
  readsBack : ∀ name data calls, (fsWrite (some name) (some data) table).1 = 0 →
    Undisturbed name (fsWrite (some name) (some data) table).2 calls →
    yields (fsRead (some name) (after (fsWrite (some name) (some data) table).2 calls)) =
      some data.chars
  createElsewhere : ∀ name other : Terminated, other.chars ≠ name.chars →
    fsRead (some name) (fsCreate (some other) table).2 = fsRead (some name) table
  writeElsewhere : ∀ (name other : Terminated) data, other.chars ≠ name.chars →
    fsRead (some name) (fsWrite (some other) data table).2 = fsRead (some name) table
  unchanged : ∀ call : FsCall, (call.perform table).1 = some (-1) →
    (call.perform table).2 = table
  bounded : Bounded table

/-! ## Slots and names -/

namespace Files

variable {table : Files} {name other : Terminated}

/-- The slot where a name is found is taken and holds that name. -/
theorem lookup_spec {i : ℕ} (found : table.lookup name = some i) :
    i < table.fileCount ∧ strcmp (table.files i).name name = 0 := by
  refine ⟨List.mem_range.mp (List.mem_of_find?_eq_some found), ?_⟩
  simpa using List.find?_some found

/-- A lookup depends only on the names of the slots. -/
theorem lookup_congr {table' : Files} (count : table'.fileCount = table.fileCount)
    (names : ∀ i < table.fileCount, (table'.files i).name = (table.files i).name) :
    table'.lookup name = table.lookup name := by
  rw [lookup, lookup, count]
  refine List.find?_congr fun i member => ?_
  rw [names i (List.mem_range.mp member)]

/-- The table after `fs_create` took the next slot. -/
def append (table : Files) (name : Terminated) : Files :=
  { table.modify table.fileCount fun file =>
      { file with name := strcpy file.name name, size := 0 } with
    fileCount := table.fileCount + 1 }

/-- The table after `fs_write` found a slot. -/
def store (table : Files) (i : ℕ) (data : Terminated) : Files :=
  table.modify i fun file => { file with data := strcpy file.data data, size := data.length }

theorem name_append (table : Files) (name : Terminated) (i : ℕ) :
    ((table.append name).files i).name =
      if i = table.fileCount then strcpy (table.files i).name name else (table.files i).name := by
  rw [append, files_modify]
  split_ifs with new
  · rw [new]
  · rfl

theorem data_append (table : Files) (name : Terminated) (i : ℕ) :
    ((table.append name).files i).data = (table.files i).data := by
  rw [append, files_modify]
  split_ifs with new
  · rw [new]
  · rfl

theorem name_store (table : Files) (i : ℕ) (data : Terminated) (j : ℕ) :
    ((table.store i data).files j).name = (table.files j).name := by
  rw [store, files_modify]
  split_ifs with same
  · rw [same]
  · rfl

theorem data_store (table : Files) (i : ℕ) (data : Terminated) (j : ℕ) :
    ((table.store i data).files j).data =
      if j = i then strcpy (table.files j).data data else (table.files j).data := by
  rw [store, files_modify]
  split_ifs with same
  · rw [same]
  · rfl

theorem lookup_store (table : Files) (i : ℕ) (data : Terminated) :
    (table.store i data).lookup name = table.lookup name :=
  lookup_congr rfl fun j _ => table.name_store i data j

/-- **A new slot is found only by its name, and only if no slot before it has the name.** -/
theorem lookup_append (table : Files) (new : Terminated) :
    (table.append new).lookup name =
      (table.lookup name).or (if new.chars = name.chars then some table.fileCount else none) := by
  have before : (List.range table.fileCount).find?
      (fun i => strcmp ((table.append new).files i).name name = 0) = table.lookup name := by
    refine List.find?_congr fun i member => ?_
    rw [name_append, if_neg (Nat.ne_of_lt (List.mem_range.mp member))]
  have last : [table.fileCount].find?
      (fun i => strcmp ((table.append new).files i).name name = 0) =
        if new.chars = name.chars then some table.fileCount else none := by
    rw [List.find?_singleton, name_append, if_pos rfl]
    exact if_congr (by rw [decide_eq_true_iff, strcmp_strcpy]) rfl rfl
  have count : (table.append new).fileCount = table.fileCount + 1 := rfl
  rw [lookup, count, List.range_succ, List.find?_append, before, last]

end Files

/-! ## What the calls do -/

variable {table : Files} {name other : Terminated}

/-- **A creation fails or takes the next slot.** -/
theorem fsCreate_cases (name : Option Terminated) (table : Files) :
    fsCreate name table = (-1, table) ∨
      ∃ string, name = some string ∧ string.length < MAX_FILENAME ∧
        table.fileCount < MAX_FILES ∧ fsCreate name table = (0, table.append string) := by
  cases name with
  | none => exact Or.inl rfl
  | some string =>
      rw [fsCreate]
      split_ifs with long full
      · exact Or.inl rfl
      · exact Or.inl rfl
      · exact Or.inr ⟨string, rfl, Nat.lt_of_not_le long, Nat.lt_of_not_le full, rfl⟩

/-- **A write fails or goes to the slot where its name is found.** -/
theorem fsWrite_cases (name data : Option Terminated) (table : Files) :
    fsWrite name data table = (-1, table) ∨
      ∃ string content i, name = some string ∧ data = some content ∧
        content.length < MAX_FILE_SIZE ∧ table.lookup string = some i ∧
        fsWrite name data table = (0, table.store i content) := by
  cases name with
  | none => exact Or.inl rfl
  | some string =>
      cases data with
      | none => exact Or.inl rfl
      | some content =>
          rw [fsWrite]
          split_ifs with long
          · exact Or.inl rfl
          · cases found : table.lookup string with
            | none => exact Or.inl rfl
            | some i => exact Or.inr ⟨_, _, i, rfl, rfl, Nat.lt_of_not_le long, found, rfl⟩

theorem returned_ne : (0 : ℤ) ≠ -1 := by decide

/-- **Creating another name changes nothing about what a name reads.** -/
theorem fsRead_append (differ : other.chars ≠ name.chars) :
    fsRead (some name) (table.append other) = fsRead (some name) table := by
  rw [fsRead, fsRead, table.lookup_append, if_neg differ, Option.or_none]
  exact congrArg (Option.map · _) (funext fun i => table.data_append other i)

/-- **Writing to another name changes nothing about what a name reads.** -/
theorem fsRead_store {i : ℕ} (found : table.lookup other = some i) (data : Terminated)
    (differ : other.chars ≠ name.chars) :
    fsRead (some name) (table.store i data) = fsRead (some name) table := by
  rw [fsRead, fsRead, table.lookup_store]
  cases here : table.lookup name with
  | none => rfl
  | some j =>
      have apart : j ≠ i := by
        rintro rfl
        exact differ (chars_eq_of_strcmp (Files.lookup_spec found).2 (Files.lookup_spec here).2)
      rw [Option.map_some, Option.map_some, table.data_store, if_neg apart]

/-- The name is found in a slot that holds this content. -/
def Holds (table : Files) (name : Terminated) (content : List (BitVec 8)) : Prop :=
  ∃ i, table.lookup name = some i ∧ text (table.files i).data MAX_FILE_SIZE = content

theorem Holds.yields {content : List (BitVec 8)} (holds : Holds table name content) :
    yields (fsRead (some name) table) = some content := by
  obtain ⟨i, found, reads⟩ := holds
  rw [FileTable.yields, fsRead, found, Option.map_some, Option.map_some, reads]

/-- A write leaves its string as the content. -/
theorem holds_store {i : ℕ} (found : table.lookup name = some i) {data : Terminated}
    (short : data.length < MAX_FILE_SIZE) : Holds (table.store i data) name data.chars := by
  refine ⟨i, by rw [table.lookup_store, found], ?_⟩
  rw [table.data_store, if_pos rfl, text_strcpy _ short.le]

/-- **A call that does not replace it keeps the content of a name.** -/
theorem Holds.perform {content : List (BitVec 8)} (holds : Holds table name content)
    {call : FsCall} (keeps : ¬ Replaces name table call) :
    Holds (call.perform table).2 name content := by
  cases call with
  | init => exact absurd trivial keeps
  | read other => exact holds
  | create other =>
      obtain ⟨i, found, reads⟩ := holds
      rcases fsCreate_cases other table with failed | ⟨string, rfl, _, _, created⟩
      · exact ⟨i, by rw [FsCall.perform, failed]; exact ⟨found, reads⟩⟩
      · refine ⟨i, ?_, ?_⟩
        · rw [FsCall.perform, created, table.lookup_append, found, Option.some_or]
        · rw [FsCall.perform, created, table.data_append, reads]
  | write other data =>
      obtain ⟨i, found, reads⟩ := holds
      rcases fsWrite_cases other data table with failed | ⟨string, content', j, rfl, rfl, _, target,
        written⟩
      · exact ⟨i, by rw [FsCall.perform, failed]; exact ⟨found, reads⟩⟩
      · have differ : string.chars ≠ name.chars := fun same =>
          keeps ⟨⟨string, rfl, same⟩, by rw [written]⟩
        have apart : i ≠ j := by
          rintro rfl
          exact differ (chars_eq_of_strcmp (Files.lookup_spec target).2 (Files.lookup_spec found).2)
        refine ⟨i, ?_, ?_⟩
        · rw [FsCall.perform, written, table.lookup_store, found]
        · rw [FsCall.perform, written, table.data_store, if_neg apart, reads]

theorem Holds.after {content : List (BitVec 8)} (holds : Holds table name content)
    {calls : List FsCall} (undisturbed : Undisturbed name table calls) :
    Holds (after table calls) name content := by
  induction calls generalizing table with
  | nil => exact holds
  | cons call calls ih => exact ih (holds.perform undisturbed.1) undisturbed.2

/-! ## The table stays inside its arrays -/

theorem bounded_start : Bounded start :=
  ⟨Nat.zero_le _, fun _ => ⟨0, by decide, rfl⟩, fun _ => ⟨0, by decide, rfl⟩, fun _ _ _ => rfl,
    fun _ _ _ => rfl⟩

theorem Bounded.perform (bounded : Bounded table) (call : FsCall) :
    Bounded (call.perform table).2 := by
  cases call with
  | init => exact { bounded with count := Nat.zero_le _ }
  | read other => exact bounded
  | create other =>
      rcases fsCreate_cases other table with failed | ⟨string, rfl, short, room, created⟩
      · rw [FsCall.perform, failed]
        exact bounded
      · rw [FsCall.perform, created]
        refine ⟨room, fun i => ?_, fun i => ?_, fun i index behind => ?_, fun i index behind => ?_⟩
        · rw [table.name_append]
          split_ifs with new
          · refine ⟨string.length, short, ?_⟩
            rw [strcpy_of_inside (Nat.le_refl _), string.terminator]
          · exact bounded.names i
        · rw [table.data_append]
          exact bounded.contents i
        · rw [table.name_append]
          split_ifs with new
          · rw [strcpy_of_outside (Nat.lt_of_lt_of_le short behind)]
            exact bounded.nameArray i index behind
          · exact bounded.nameArray i index behind
        · rw [table.data_append]
          exact bounded.dataArray i index behind
  | write other data =>
      rcases fsWrite_cases other data table with failed | ⟨string, content, j, rfl, rfl, short, _,
        written⟩
      · rw [FsCall.perform, failed]
        exact bounded
      · rw [FsCall.perform, written]
        refine ⟨bounded.count, fun i => ?_, fun i => ?_, fun i index behind => ?_,
          fun i index behind => ?_⟩
        · rw [table.name_store]
          exact bounded.names i
        · rw [table.data_store]
          split_ifs with here
          · refine ⟨content.length, short, ?_⟩
            rw [strcpy_of_inside (Nat.le_refl _), content.terminator]
          · exact bounded.contents i
        · rw [table.name_store]
          exact bounded.nameArray i index behind
        · rw [table.data_store]
          split_ifs with here
          · rw [strcpy_of_outside (Nat.lt_of_lt_of_le short behind)]
            exact bounded.dataArray i index behind
          · exact bounded.dataArray i index behind

theorem Bounded.after (bounded : Bounded table) (calls : List FsCall) :
    Bounded (after table calls) := by
  induction calls generalizing table with
  | nil => exact bounded
  | cons call calls ih => exact ih (bounded.perform call)

/-- **A failed call leaves the table alone.** -/
theorem perform_of_failed {call : FsCall} (failed : (call.perform table).1 = some (-1)) :
    (call.perform table).2 = table := by
  cases call with
  | init => exact absurd failed nofun
  | read other => rfl
  | create other =>
      rcases fsCreate_cases other table with same | ⟨string, _, _, _, created⟩
      · rw [FsCall.perform, same]
      · rw [FsCall.perform, created] at failed
        exact absurd (Option.some.inj failed) returned_ne
  | write other data =>
      rcases fsWrite_cases other data table with same | ⟨_, _, _, _, _, _, _, written⟩
      · rw [FsCall.perform, same]
      · rw [FsCall.perform, written] at failed
        exact absurd (Option.some.inj failed) returned_ne

/-- **After any calls, a name reads what was last written to it**, other names do not matter to
it, failed calls change nothing, and every string ends inside its array. -/
theorem file_table_laws (calls : List FsCall) : FileTableLaws (after start calls) := by
  have bounded := bounded_start.after calls
  generalize after start calls = table at bounded
  constructor
  · intro name data calls returned undisturbed
    rcases fsWrite_cases (some name) (some data) table with failed | ⟨_, _, i, same, same', short,
      found, written⟩
    · rw [failed] at returned
      exact absurd returned.symm returned_ne
    · obtain rfl := Option.some.inj same
      obtain rfl := Option.some.inj same'
      rw [written] at undisturbed ⊢
      exact ((holds_store found short).after undisturbed).yields
  · intro name other differ
    rcases fsCreate_cases (some other) table with failed | ⟨_, same, _, _, created⟩
    · rw [failed]
    · obtain rfl := Option.some.inj same
      rw [created, fsRead_append differ]
  · intro name other data differ
    rcases fsWrite_cases (some other) data table with failed | ⟨_, content, i, same, _, _, found,
      written⟩
    · rw [failed]
    · obtain rfl := Option.some.inj same
      rw [written, fsRead_store found content differ]
  · exact fun call failed => perform_of_failed failed
  · exact bounded

end CocosOS.Filesystem.FileTable
