import CocosOS.Library.LuaString
import Mathlib.Data.List.Infix

/-!
# The text editor

`Editor.tecla` puts a character behind the cursor and moves the cursor on by one, however many
bytes the character has. Strings are counted in bytes, so behind a character of more bytes the
cursor is inside it, and a backspace takes a part of it away.

The cursor is at the end of its line, and a backspace undoes a character, exactly as long as every
key is a single byte (`typing_undone_iff`).
-/

set_option autoImplicit false

namespace CocosOS.Apps.TextEditor

open Library.CString Library.Lua

/-! ## The editor -/

/-- `Editor.lineas`, `Editor.cursor_x` and `Editor.cursor_y`. Lines are counted from 1. -/
structure Editor where
  lineas : List Text
  cursorX : ℤ
  cursorY : ℕ

/-- The editor when it is loaded. -/
def Editor.start : Editor := ⟨[[]], 1, 1⟩

def newline : Text := literal "\n"

/-- `'\b'`. -/
def backspace : Text := [8]

/-- `lineas[y]`. -/
def getLine (lineas : List Text) : ℕ → Option Text
  | 0 => none
  | y + 1 => lineas[y]?

/-- `table.insert(lineas, y + 1, "")`, which raises an error behind the end of the list. -/
def insertLine (lineas : List Text) (y : ℕ) : Option (List Text) :=
  if y ≤ lineas.length then some (lineas.insertIdx y []) else none

/-- `lineas[y] = linea`, where there is such a line. -/
def setLine (lineas : List Text) (y : ℕ) (linea : Text) : List Text := lineas.set (y - 1) linea

/-- `Editor.tecla`. It has no result where it raises an error. -/
def tecla (c : Text) (editor : Editor) : Option Editor :=
  if c = newline then
    (insertLine editor.lineas editor.cursorY).map fun lineas =>
      { lineas := lineas, cursorY := editor.cursorY + 1, cursorX := 1 }
  else if c = backspace then
    if 1 < editor.cursorX then
      (getLine editor.lineas editor.cursorY).map fun linea =>
        { editor with
          lineas := setLine editor.lineas editor.cursorY
            (sub linea 1 (editor.cursorX - 2) ++ sub linea editor.cursorX (-1))
          cursorX := editor.cursorX - 1 }
    else some editor
  else
    (getLine editor.lineas editor.cursorY).map fun linea =>
      { editor with
        lineas := setLine editor.lineas editor.cursorY
          (sub linea 1 (editor.cursorX - 1) ++ c ++ sub linea editor.cursorX (-1))
        cursorX := editor.cursorX + 1 }

/-- A key: a newline, a backspace, or a character as the bytes that Lua receives. -/
structure Key where
  bytes : Text
  nonempty : bytes ≠ []

/-- The editor after keys, the first one first. -/
def editorRun (keys : List Key) : Option Editor :=
  keys.foldlM (fun editor key => tecla key.bytes editor) .start

/-- The cursor is at the end of a line. -/
def AtEnd (editor : Editor) : Prop :=
  1 ≤ editor.cursorY ∧ editor.cursorY ≤ editor.lineas.length ∧
    ∃ linea, getLine editor.lineas editor.cursorY = some linea ∧ editor.cursorX = linea.length + 1

/-- A character that is typed and a backspace leave the editor as it was. -/
def Undone (key : Key) (editor : Editor) : Prop :=
  key.bytes ≠ newline → key.bytes ≠ backspace →
    (tecla key.bytes editor).bind (tecla backspace) = some editor

/-- In every state of the run the cursor is at the end of its line, and a character that is typed
there can be undone. -/
def TypingUndone (keys : List Key) : Prop :=
  ∀ before, before <+: keys → ∃ editor, editorRun before = some editor ∧ AtEnd editor ∧
    ∀ key, before ++ [key] <+: keys → Undone key editor

/-! ## Lines -/

theorem getLine_setLine {lineas : List Text} {y : ℕ} (first : 1 ≤ y) (last : y ≤ lineas.length)
    (linea : Text) : getLine (setLine lineas y linea) y = some linea := by
  obtain ⟨index, rfl⟩ := Nat.exists_eq_add_of_le' first
  exact List.getElem?_set_self (Nat.lt_of_succ_le last)

theorem setLine_setLine (lineas : List Text) (y : ℕ) (linea linea' : Text) :
    setLine (setLine lineas y linea) y linea' = setLine lineas y linea' := List.set_set ..

theorem setLine_getLine {lineas : List Text} {y : ℕ} {linea : Text}
    (here : getLine lineas y = some linea) : setLine lineas y linea = lineas := by
  cases y with
  | zero => exact absurd here nofun
  | succ index =>
      obtain ⟨inside, rfl⟩ := List.getElem?_eq_some_iff.mp here
      exact List.set_getElem_self inside

@[simp] theorem length_setLine (lineas : List Text) (y : ℕ) (linea : Text) :
    (setLine lineas y linea).length = lineas.length := List.length_set

/-! ## Keys -/

/-- The cursor is at the end of this line. -/
structure EndOf (linea : Text) (editor : Editor) : Prop where
  first : 1 ≤ editor.cursorY
  last : editor.cursorY ≤ editor.lineas.length
  line : getLine editor.lineas editor.cursorY = some linea
  cursor : editor.cursorX = linea.length + 1

theorem atEnd_iff {editor : Editor} : AtEnd editor ↔ ∃ linea, EndOf linea editor :=
  ⟨fun ⟨first, last, linea, line, cursor⟩ => ⟨linea, first, last, line, cursor⟩,
    fun ⟨linea, ends⟩ => ⟨ends.first, ends.last, linea, ends.line, ends.cursor⟩⟩

namespace EndOf

variable {editor : Editor} {linea : Text} (ends : EndOf linea editor)
include ends

theorem newline : ∃ editor', tecla TextEditor.newline editor = some editor' ∧ EndOf [] editor' := by
  have last := ends.last
  refine ⟨⟨editor.lineas.insertIdx editor.cursorY [], 1, editor.cursorY + 1⟩, ?_, ?_⟩
  · rw [tecla, if_pos rfl, insertLine, if_pos last]
    rfl
  · refine ⟨Nat.le_add_left 1 _, ?_, ?_, rfl⟩
    · exact (List.length_insertIdx_of_le_length last []).symm.subst (Nat.succ_le_succ last)
    · exact (List.getElem?_insertIdx_self ..).trans (if_pos last)

/-- The line of the cursor with other content, and the cursor at the end of it. -/
theorem set (linea' : Text) :
    EndOf linea' { editor with
      lineas := setLine editor.lineas editor.cursorY linea', cursorX := linea'.length + 1 } where
  first := ends.first
  last := ends.last.trans (length_setLine ..).ge
  line := getLine_setLine ends.first ends.last linea'
  cursor := rfl

theorem character {c : Text} (other : c ≠ TextEditor.newline) (other' : c ≠ backspace) :
    tecla c editor = some { editor with
      lineas := setLine editor.lineas editor.cursorY (linea ++ c)
      cursorX := linea.length + 2 } := by
  have before : editor.cursorX - 1 = linea.length := by
    rw [ends.cursor]
    omega
  rw [tecla, if_neg other, if_neg other', ends.line, Option.map_some, before, ends.cursor, sub_one,
    sub_behind, List.take_length, List.append_nil]
  rfl

theorem erase (some : linea ≠ []) :
    tecla backspace editor = Option.some { editor with
      lineas := setLine editor.lineas editor.cursorY linea.dropLast
      cursorX := linea.dropLast.length + 1 } := by
  have other : backspace ≠ TextEditor.newline := by decide
  have length := List.length_pos_iff.mpr some
  have behind : 1 < editor.cursorX := by
    rw [ends.cursor]
    omega
  have before : editor.cursorX - 2 = ((linea.length - 1 : ℕ) : ℤ) := by
    rw [ends.cursor]
    omega
  have cursor : editor.cursorX - 1 = linea.dropLast.length + 1 := by
    rw [ends.cursor, List.length_dropLast]
    omega
  rw [tecla, if_neg other, if_pos rfl, if_pos behind, ends.line, Option.map_some, before, cursor,
    ends.cursor, sub_one, sub_behind, List.append_nil, ← List.dropLast_eq_take]

/-- **A key of one byte keeps the cursor at the end of its line.** -/
theorem key {key : Key} (single : key.bytes.length = 1) :
    ∃ editor', tecla key.bytes editor = some editor' ∧ AtEnd editor' := by
  by_cases isNewline : key.bytes = TextEditor.newline
  · obtain ⟨editor', typed, ends'⟩ := ends.newline
    exact ⟨editor', isNewline ▸ typed, atEnd_iff.mpr ⟨[], ends'⟩⟩
  by_cases isBackspace : key.bytes = backspace
  · rw [isBackspace]
    by_cases empty : linea = []
    · have first : ¬ 1 < editor.cursorX := by
        rw [ends.cursor, empty]
        decide
      refine ⟨editor, ?_, atEnd_iff.mpr ⟨linea, ends⟩⟩
      rw [tecla, if_neg (by decide), if_pos rfl, if_neg first]
    · exact ⟨_, ends.erase empty, atEnd_iff.mpr ⟨_, ends.set _⟩⟩
  · refine ⟨_, ends.character isNewline isBackspace, atEnd_iff.mpr ⟨linea ++ key.bytes, ?_⟩⟩
    have cursor : (linea.length : ℤ) + 2 = ((linea ++ key.bytes).length : ℤ) + 1 := by
      rw [List.length_append, single]
      omega
    rw [cursor]
    exact ends.set _

/-- **A backspace undoes a character of one byte.** -/
theorem undone {key : Key} (single : key.bytes.length = 1) : Undone key editor := by
  intro isNewline isBackspace
  obtain ⟨b, byte⟩ := List.length_eq_one_iff.mp single
  have typed : EndOf (linea ++ [b]) { editor with
      lineas := setLine editor.lineas editor.cursorY (linea ++ [b])
      cursorX := linea.length + 2 } := by
    have cursor : (linea.length : ℤ) + 2 = ((linea ++ [b]).length : ℤ) + 1 := by
      rw [List.length_append, List.length_singleton]
      omega
    rw [cursor]
    exact ends.set _
  have some : linea ++ [b] ≠ [] := List.append_ne_nil_of_right_ne_nil _ (List.cons_ne_nil _ _)
  rw [ends.character isNewline isBackspace, byte, Option.bind_some, typed.erase some,
    List.dropLast_concat]
  dsimp only
  rw [setLine_setLine, setLine_getLine ends.line, ← ends.cursor]

/-- **The cursor stays at the end of its line only for a key of one byte.** -/
theorem single_of_atEnd {key : Key} {editor' : Editor}
    (typed : tecla key.bytes editor = some editor') (ends' : AtEnd editor') :
    key.bytes.length = 1 := by
  by_cases isNewline : key.bytes = TextEditor.newline
  · rw [isNewline]
    rfl
  by_cases isBackspace : key.bytes = backspace
  · rw [isBackspace]
    rfl
  obtain ⟨linea', after⟩ := atEnd_iff.mp ends'
  rw [ends.character isNewline isBackspace, Option.some.injEq] at typed
  subst typed
  have line := after.line
  have cursor := after.cursor
  dsimp only at line cursor
  rw [getLine_setLine ends.first ends.last, Option.some.injEq] at line
  rw [← line, List.length_append] at cursor
  omega

end EndOf

/-! ## Runs -/

theorem editorRun_concat (keys : List Key) (key : Key) :
    editorRun (keys ++ [key]) = (editorRun keys).bind (tecla key.bytes) := by
  rw [editorRun, List.foldlM_append]
  refine congrArg _ (funext fun editor => ?_)
  exact bind_pure _

theorem atEnd_start : AtEnd .start := ⟨Nat.le_refl 1, Nat.le_refl 1, [], rfl, rfl⟩

/-- **In a run of single bytes the cursor is at the end of its line.** -/
theorem atEnd_of_single {keys : List Key} (single : ∀ key ∈ keys, key.bytes.length = 1) :
    ∃ editor, editorRun keys = some editor ∧ AtEnd editor := by
  induction keys using List.reverseRecOn with
  | nil => exact ⟨_, rfl, atEnd_start⟩
  | append_singleton keys key ih =>
      obtain ⟨editor, run, atEnd⟩ := ih fun other inside =>
        single other (List.mem_append_left _ inside)
      obtain ⟨linea, ends⟩ := atEnd_iff.mp atEnd
      rw [editorRun_concat, run]
      exact ends.key (single key (List.mem_append_right _ List.mem_cons_self))

/-- **The cursor stays at the end of its line, and a backspace undoes a character, exactly if every
key is a single byte.** -/
theorem typing_undone_iff (keys : List Key) :
    TypingUndone keys ↔ ∀ key ∈ keys, key.bytes.length = 1 := by
  constructor
  · intro undone
    induction keys using List.reverseRecOn with
    | nil => exact fun key member => absurd member List.not_mem_nil
    | append_singleton keys last ih =>
        have earlier := ih fun before inside => by
          obtain ⟨editor, run, atEnd, undo⟩ := undone before (inside.trans (List.prefix_append ..))
          exact ⟨editor, run, atEnd, fun key more => undo key (more.trans (List.prefix_append ..))⟩
        obtain ⟨editor, run, atEnd⟩ := atEnd_of_single earlier
        obtain ⟨linea, ends⟩ := atEnd_iff.mp atEnd
        obtain ⟨editor', run', atEnd', -⟩ := undone _ List.prefix_rfl
        rw [editorRun_concat, run] at run'
        intro key member
        rcases List.mem_append.mp member with inside | here
        · exact earlier key inside
        · rw [List.mem_singleton.mp here]
          exact ends.single_of_atEnd run' atEnd'
  · intro single before inside
    obtain ⟨editor, run, atEnd⟩ := atEnd_of_single fun key member =>
      single key (inside.subset member)
    obtain ⟨linea, ends⟩ := atEnd_iff.mp atEnd
    refine ⟨editor, run, atEnd, fun key more => ends.undone ?_⟩
    exact single key (more.subset (List.mem_append_right _ List.mem_cons_self))

/-- The letter `ñ`, as the keyboard delivers it in UTF-8. -/
def enie : Key := ⟨[0xC3, 0xB1], List.cons_ne_nil _ _⟩

/-- Behind `ñ` the cursor is not at the end of the line. -/
theorem enie_not_undone : ¬ ∀ keys, TypingUndone keys := by
  intro undone
  obtain ⟨editor, run, ⟨-, -, linea, line, cursor⟩, -⟩ := undone [enie] _ List.prefix_rfl
  obtain rfl := Option.some.inj run
  obtain rfl := Option.some.inj line
  exact absurd cursor (by decide)

end CocosOS.Apps.TextEditor
