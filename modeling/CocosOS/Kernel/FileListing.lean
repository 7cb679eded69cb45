import CocosOS.Library.LastCall
import CocosOS.Library.Removal
import Mathlib.Data.Finmap

/-!
# The files of the kernel object

The `FileSystem` of the kernel object is a dictionary from paths to contents. `listDirectory` takes
the paths that begin with the given one, and removes it from each wherever it occurs, not only at
the front.

After any run of calls a file holds what was written last (`readFile_run`). A listing is exact, so
that its entries are just what stands behind the path in the names of the files, if and only if the
path does not occur again in any of them (`listDirectory_exact_iff`). So a listing of `/` is never
exact while there is a file in a directory.
-/

set_option autoImplicit false

namespace CocosOS.Kernel

open Library.LastCall Library.Removal

variable {α Data : Type} [DecidableEq α]

/-! ## The source -/

/-- The dictionary `files`. A path is a list of characters. -/
structure FileSystem (α Data : Type) where
  files : Finmap fun _ : List α => Data

namespace FileSystem

def new : FileSystem α Data := ⟨∅⟩

def createFile (path : List α) (content : Data) (system : FileSystem α Data) :
    Bool × FileSystem α Data :=
  (true, ⟨system.files.insert path content⟩)

def readFile (path : List α) (system : FileSystem α Data) : Option Data :=
  system.files.lookup path

def deleteFile (path : List α) (system : FileSystem α Data) : Bool × FileSystem α Data :=
  (true, ⟨system.files.erase path⟩)

/-- The order is that of the dictionary, which is not told. -/
def listDirectory (path : List α) (system : FileSystem α Data) : Multiset (List α) :=
  (system.files.keys.val.filter (path <+: ·)).map (removeAll path)

/-! ## Runs -/

inductive Call (α Data : Type) where
  | createFile (path : List α) (content : Data)
  | deleteFile (path : List α)

def Call.path : Call α Data → List α
  | .createFile path _ => path
  | .deleteFile path => path

/-- What the call leaves at its path. -/
def Call.left : Call α Data → Option Data
  | .createFile _ content => some content
  | .deleteFile _ => none

def step (system : FileSystem α Data) : Call α Data → FileSystem α Data
  | .createFile path content => (system.createFile path content).2
  | .deleteFile path => (system.deleteFile path).2

def run (calls : List (Call α Data)) : FileSystem α Data := calls.foldl step new

/-- What the last call for a path left there. -/
def written (calls : List (Call α Data)) (path : List α) : Option Data :=
  (lastLeft Call.path Call.left calls path).join

theorem readFile_step (system : FileSystem α Data) (call : Call α Data) (path : List α) :
    (system.step call).readFile path =
      if call.path = path then call.left else system.readFile path := by
  cases call with
  | createFile name content =>
      change (system.files.insert name content).lookup path = _
      by_cases same : name = path
      · rw [same, Finmap.lookup_insert]
        exact (if_pos rfl).symm
      · rw [Finmap.lookup_insert_of_ne _ (Ne.symm same)]
        exact (if_neg same).symm
  | deleteFile name =>
      change (system.files.erase name).lookup path = _
      by_cases same : name = path
      · rw [same, Finmap.lookup_erase]
        exact (if_pos rfl).symm
      · rw [Finmap.lookup_erase_ne (Ne.symm same)]
        exact (if_neg same).symm

/-- **A file holds what was written last.** -/
theorem readFile_run (calls : List (Call α Data)) (path : List α) :
    (run calls).readFile path = written calls path := by
  have last := read_calls (fun system path => readFile path system)
    (fun system call path => readFile_step system call path) calls new path
  rw [run, last, written]
  cases lastLeft Call.path Call.left calls path with
  | none => exact Finmap.lookup_empty path
  | some left => rfl

/-! ## Listings -/

theorem mem_keys_iff {system : FileSystem α Data} {path : List α} :
    path ∈ system.files.keys ↔ (system.readFile path).isSome := by
  rw [Finmap.mem_keys, readFile, Finmap.lookup_isSome]

/-- An entry is what is left of the name of a file behind the path. -/
theorem mem_listDirectory {system : FileSystem α Data} {path : List α} (some : path ≠ [])
    {entry : List α} : entry ∈ system.listDirectory path ↔
      ∃ rest, (system.readFile (path ++ rest)).isSome ∧ removeAll path rest = entry := by
  simp only [listDirectory, Multiset.mem_map, Multiset.mem_filter, Finset.mem_val, mem_keys_iff]
  constructor
  · rintro ⟨name, ⟨stored, rest, rfl⟩, rfl⟩
    exact ⟨rest, stored, (removeAll_append some rest).symm⟩
  · rintro ⟨rest, stored, rfl⟩
    exact ⟨path ++ rest, ⟨stored, List.prefix_append path rest⟩, removeAll_append some rest⟩

/-- The finitely many rests of the names behind the path. -/
theorem exists_rests (system : FileSystem α Data) (path : List α) :
    ∃ rests : Finset (List α), ∀ rest,
      rest ∈ rests ↔ (system.readFile (path ++ rest)).isSome := by
  refine ⟨(system.files.keys.filter (path <+: ·)).image (List.drop path.length), fun rest => ?_⟩
  simp only [Finset.mem_image, Finset.mem_filter, mem_keys_iff]
  constructor
  · rintro ⟨name, ⟨stored, more, rfl⟩, rfl⟩
    rwa [List.drop_left]
  · intro stored
    exact ⟨path ++ rest, ⟨stored, List.prefix_append path rest⟩, List.drop_left⟩

/-- **When a listing is exact.** -/
theorem listDirectory_exact_iff (calls : List (Call α Data)) (path : List α) :
    (∀ entry, entry ∈ (run calls).listDirectory path ↔ (written calls (path ++ entry)).isSome) ↔
      path = [] ∨ ∀ entry, (written calls (path ++ entry)).isSome → ¬ path <:+: entry := by
  simp only [← readFile_run]
  by_cases empty : path = []
  · subst empty
    have whole : removeAll ([] : List α) = id := funext removeAll_nil
    refine iff_of_true (fun entry => ?_) (.inl rfl)
    rw [listDirectory, whole, Multiset.map_id, Multiset.mem_filter, Finset.mem_val, mem_keys_iff]
    exact and_iff_left List.nil_prefix
  · simp only [mem_listDirectory empty, empty, false_or]
    constructor
    · intro exact
      obtain ⟨rests, mem⟩ := exists_rests (run calls) path
      have onto : ∀ rest ∈ rests, ∃ longer ∈ rests, removeAll path longer = rest := by
        intro rest member
        obtain ⟨longer, stored, same⟩ := (exact rest).mpr ((mem rest).mp member)
        exact ⟨longer, (mem longer).mpr stored, same⟩
      intro entry stored
      exact (removeAll_eq_self_iff empty).mp
        (removeAll_eq_self_of_onto empty onto entry ((mem entry).mpr stored))
    · intro none entry
      constructor
      · rintro ⟨rest, stored, rfl⟩
        rwa [removeAll_of_absent (none rest stored)]
      · intro stored
        exact ⟨entry, stored, removeAll_of_absent (none entry stored)⟩

/-- A file in a directory is listed below the root with a name that no file has. -/
example : (run [.createFile "/a/b".toList ()]).listDirectory "/".toList = {"ab".toList} ∧
    written [.createFile "/a/b".toList ()] "/ab".toList = none := by decide

end FileSystem

end CocosOS.Kernel
