import CocosOS.Library.CTokens
import CocosOS.Library.PathWalk

/-!
# Paths of files

A path is bytes, cut into names at the slashes. Empty names and `.` say nothing, and `..` goes up.
`resolve` is the list of names from the root to where the path leads. A path lies in a directory of
the root if it leads to the directory or below it (`inDirectory_iff`). What a path starts with, behind
its first slash, belongs to its first component (`prefix_iff_opens`).
-/

set_option autoImplicit false

namespace CocosOS.Library.FilePath

open CString PathWalk

/-- A path, and any text. -/
abbrev Text := List (BitVec 8)

/-- `/`. -/
def slash : BitVec 8 := 47

def dot : Text := literal "."

def dotdot : Text := literal ".."

/-- The names of a path that say something. -/
def names (path : Text) : List Text := (words slash path).filter (· ≠ dot)

/-- The names from the root to where a path leads. -/
def resolve (path : Text) : List Text := (walk dotdot (names path)).reverse

/-- The path leads to a directory of the root or below it. -/
def InDirectory (directory path : Text) : Prop := [directory] <+: resolve path

instance (directory path : Text) : Decidable (InDirectory directory path) :=
  inferInstanceAs (Decidable ([directory] <+: resolve path))

/-- A path enters a directory from the root, and behind that it never goes up further than down. -/
def Settles (directory path : Text) : Prop :=
  ∃ front back, names path = front ++ directory :: back ∧ directory ≠ dotdot ∧
    level dotdot front = 0 ∧ Stays dotdot back

/-- **A path lies in a directory of the root exactly if it settles there.** -/
theorem inDirectory_iff (directory path : Text) :
    InDirectory directory path ↔ Settles directory path := by
  rw [Settles, ← getLast?_walk_iff, InDirectory, resolve, ← List.head?_reverse]
  cases (walk dotdot (names path)).reverse with
  | nil => exact iff_of_false (by simp) nofun
  | cons first rest =>
      rw [List.cons_prefix_cons, List.head?_cons, Option.some.injEq, eq_comm]
      exact and_iff_left List.nil_prefix

/-- A path whose first name is given settles in the directory if the first name is the directory
and what follows stays below it, or if what follows comes back to the root and settles then. -/
theorem settles_cons_iff {directory path first : Text} {rest : List Text}
    (all : names path = first :: rest) (down : directory ≠ dotdot) :
    Settles directory path ↔ first = directory ∧ Stays dotdot rest ∨
      ∃ front back, rest = front ++ directory :: back ∧ level dotdot (first :: front) = 0 ∧
        Stays dotdot back := by
  rw [Settles, all]
  constructor
  · rintro ⟨front, back, split, -, root, stays⟩
    cases front with
    | nil =>
        obtain ⟨rfl, rfl⟩ := List.cons.inj split
        exact .inl ⟨rfl, stays⟩
    | cons head front =>
        obtain ⟨rfl, rfl⟩ := List.cons.inj split
        exact .inr ⟨front, back, rfl, root, stays⟩
  · rintro (⟨rfl, stays⟩ | ⟨front, back, rfl, root, stays⟩)
    · exact ⟨[], rest, rfl, down, rfl, stays⟩
    · exact ⟨first :: front, back, rfl, down, root, stays⟩

/-! ## The first component -/

/-- The path begins with a slash and this component right behind it, and goes on with the rest, which
is empty or begins with a slash. -/
structure Opens (path first rest : Text) : Prop where
  text : path = slash :: (first ++ rest)
  whole : slash ∉ first
  ends : rest = [] ∨ ∃ line, rest = slash :: line

/-- The first component is the first name, if it says something. -/
theorem Opens.names {path first rest : Text} (opens : Opens path first rest)
    (nonempty : first ≠ []) (notDot : first ≠ dot) :
    names path = first :: FilePath.names rest := by
  have skip (line : Text) : words slash (slash :: line) = words slash line :=
    words_append_delimiters (fun c member => List.mem_singleton.mp member) line
  have cut : words slash path = first :: words slash rest := by
    rw [opens.text, skip]
    rcases opens.ends with rfl | ⟨line, rfl⟩
    · rw [List.append_nil, words_of_notMem nonempty opens.whole, words_nil]
    · rw [words_append_cons nonempty opens.whole, skip]
  rw [FilePath.names, cut, List.filter_cons_of_pos (by simpa using notDot), FilePath.names]

/-- **A path starts with a slash and a text without slashes** exactly if its first component does. -/
theorem prefix_iff_opens {start : Text} (whole : slash ∉ start) (path : Text) :
    slash :: start <+: path ↔ ∃ tail rest, Opens path (start ++ tail) rest := by
  constructor
  · rintro ⟨behind, rfl⟩
    refine ⟨behind.takeWhile (· ≠ slash), behind.dropWhile (· ≠ slash), ?_, ?_, ?_⟩
    · rw [List.append_assoc, List.takeWhile_append_dropWhile]
      rfl
    · rw [List.mem_append, not_or]
      exact ⟨whole, fun member => by simpa using List.mem_takeWhile_imp member⟩
    · cases left : behind.dropWhile (· ≠ slash) with
      | nil => exact .inl rfl
      | cons head line =>
          have nonempty : behind.dropWhile (· ≠ slash) ≠ [] := left ▸ List.cons_ne_nil head line
          have stops := List.head_dropWhile_not (· ≠ slash) nonempty
          simp only [left, List.head_cons, decide_eq_false_iff_not, not_not] at stops
          exact .inr ⟨line, stops ▸ rfl⟩
  · rintro ⟨tail, rest, opens⟩
    rw [opens.text, List.append_assoc, ← List.cons_append]
    exact List.prefix_append _ _

/-! ## Names one below the other -/

/-- A name that goes down. -/
structure Plain (name : Text) : Prop where
  nonempty : name ≠ []
  whole : slash ∉ name
  not_dot : name ≠ dot
  not_dotdot : name ≠ dotdot

/-- The path of these names from the root. -/
def path : List Text → Text
  | [] => []
  | name :: rest => slash :: (name ++ path rest)

/-- The names of a path are the words between its slashes. -/
theorem words_path {all : List Text} (plain : ∀ name ∈ all, Plain name) {trail : Text}
    (only : ∀ c ∈ trail, c = slash) : words slash (path all ++ trail) = all := by
  have none : words slash trail = [] := by
    rw [← List.append_nil trail, words_append_delimiters only, words_nil]
  induction all with
  | nil => exact none
  | cons name rest ih =>
      have here := plain name List.mem_cons_self
      have later := ih fun other member => plain other (List.mem_cons_of_mem _ member)
      have skip (line : Text) : words slash (slash :: line) = words slash line :=
        words_append_delimiters (fun c member => List.mem_singleton.mp member) line
      rw [path, List.cons_append, skip, List.append_assoc]
      -- behind the name there is nothing, or a slash
      cases behind : path rest ++ trail with
      | nil =>
          rw [behind, words_nil] at later
          rw [List.append_nil, words_of_notMem here.nonempty here.whole, ← later]
      | cons first line =>
          obtain rfl : first = slash := by
            cases rest with
            | nil =>
                have inside : first ∈ path [] ++ trail := behind.symm ▸ List.mem_cons_self
                exact only first inside
            | cons second rest => exact (List.cons.inj behind).1.symm
          rw [behind, skip] at later
          rw [words_append_cons here.nonempty here.whole, later]

/-- **A path of plain names leads where its names say, also with slashes behind it.** -/
theorem resolve_path {all : List Text} (plain : ∀ name ∈ all, Plain name) {trail : Text}
    (only : ∀ c ∈ trail, c = slash) : resolve (path all ++ trail) = all := by
  have kept : names (path all ++ trail) = all := by
    rw [names, words_path plain only, List.filter_eq_self]
    exact fun name member => decide_eq_true (plain name member).not_dot
  have down : dotdot ∉ all := fun member => (plain dotdot member).not_dotdot rfl
  rw [resolve, kept, walk_of_notMem down, List.reverse_reverse]

end CocosOS.Library.FilePath
