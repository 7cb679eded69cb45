import CocosOS.Library.ByteMemory
import CocosOS.Library.CString

/-!
# The console

`console_update` asks the keyboard for a character and shows it. Its braces put the two lines that
write an ordinary character into the branch for character 8, behind the test for a cursor at 0.
So an ordinary character does nothing, and a backspace at cell 0 writes character 8 there and
moves on. Nothing limits the cursor to the screen.

`display_write_char` takes its position from `ecx` and its character from `al`, and loses the
character when it copies `ecx` to `eax`. Its callers in C pass both on the stack. So `ecx` is told
with each call, as what the register happens to hold. The routine stores wherever that leads; a
store outside the screen may hit anything, the cursor included, and has no result here. Neither has
an overflow of the cursor.

The console shows what an `Editor` shows as long as no printable character is typed, no backspace
comes at cell 0 or behind the screen, and what a backspace stores is a blank on the screen
(`console_shows_iff`).
-/

set_option autoImplicit false

namespace CocosOS.Kernel.Drivers.Console

open Library.ByteMemory Library.CString

/-! ## The keyboard -/

/-- `scancode_table`. The array has 128 elements, of which the last ones are 0. The constant with
two bytes for the letter after `l` has the value of its last byte. -/
def scancodeTable : List Byte :=
  [0] ++ literal "1234567890-=_" ++ [8, 9] ++ literal "qwertyuiop[]" ++ [13, 0] ++
  literal "asdfghjkl" ++ [0xB1] ++ literal ";" ++ [39, 96, 0, 92] ++ literal "zxcvbnm,./" ++
  [0] ++ literal "*" ++ [0] ++ literal " "

/-- `keyboard_read`, for the scancode that the port delivers. -/
def keyboardRead (scancode : Byte) : Byte :=
  if scancode > 127 then 0 else scancodeTable.getD scancode.toNat 0

example : keyboardRead 14 = 8 ∧ keyboardRead 28 = 13 ∧ keyboardRead 30 = 97 := by decide

/-! ## The display -/

/-- The cells of the text memory from `0xB8000` on: a character with its attribute above. -/
abbrev Screen := ℕ → BitVec 16

/-- The loop of `display_clear`, from a cell on. -/
def clearLoop : ℕ → ℕ → Screen → Screen
  | 0, _, screen => screen
  | rounds + 1, cell, screen => clearLoop rounds (cell + 1) (Function.update screen cell 0x0720)

/-- `display_clear`. -/
def displayClear (screen : Screen) : Screen := clearLoop (80 * 25) 0 screen

/-- The cell that `display_write_char` writes to. The address is in 32 bits. -/
def writtenCell (ecx : Word) : ℕ := (ecx <<< 1).toNat / 2

/-- What `display_write_char` writes: `mov eax, ecx` has put the low byte of twice the position
over the character. -/
def writtenValue (ecx : Word) : BitVec 16 := (0x07 : Byte) ++ (ecx <<< 1).setWidth 8

/-- `display_write_char`. There is no result if it stores outside the screen. -/
def displayWriteChar (ecx : Word) (screen : Screen) : Option Screen :=
  if writtenCell ecx < 80 * 25 then
    some (Function.update screen (writtenCell ecx) (writtenValue ecx))
  else none

/-! ## The console -/

def INT_MAX : ℤ := 2 ^ 31 - 1

/-- `cursor`, the text memory, and the arguments of the calls of `display_write_char`. -/
structure ConsoleState where
  cursor : ℤ
  screen : Screen
  calls : List (Byte × ℤ)

/-- `console_init`. -/
def consoleInit (screen : Screen) : ConsoleState := ⟨0, displayClear screen, []⟩

/-- What a call of `console_update` meets: the scancode, and what `ecx` holds where it calls
`display_write_char`. -/
structure Input where
  scancode : Byte
  ecx : Word

/-- A call `display_write_char(c, pos)`. -/
def ConsoleState.write (console : ConsoleState) (ecx : Word) (c : Byte) (pos : ℤ) :
    Option ConsoleState :=
  (displayWriteChar ecx console.screen).map fun screen =>
    { console with screen := screen, calls := console.calls ++ [(c, pos)] }

/-- `console_update`. -/
def consoleUpdate (input : Input) (console : ConsoleState) : Option ConsoleState :=
  let c := keyboardRead input.scancode
  if c = 0 then some console
  else if c = 13 then
    let cursor := (console.cursor.tdiv 80 + 1) * 80
    if cursor ≤ INT_MAX then some { console with cursor := cursor } else none
  else if c = 8 then
    if console.cursor > 0 then
      let console := { console with cursor := console.cursor - 1 }
      console.write input.ecx 32 console.cursor
    else
      (console.write input.ecx c console.cursor).map fun console =>
        { console with cursor := console.cursor + 1 }
  else some console

/-- The console after `console_init` and calls of `console_update`, the first one first. -/
def consoleRun (screen : Screen) (inputs : List Input) : Option ConsoleState :=
  inputs.foldl (fun console input => console.bind (consoleUpdate input)) (some (consoleInit screen))

/-! ## What should be shown -/

/-- The cursor and the cells of an editor. -/
structure Editor where
  cursor : ℤ
  screen : Screen

/-- Every character is printable but the control characters. -/
def Printable (c : Byte) : Prop := 32 ≤ c ∧ c ≠ 127

instance : DecidablePred Printable := fun _ => inferInstanceAs (Decidable (_ ∧ _))

/-- A character is written at the cursor, 13 goes to the next row, and 8 blanks the cell before the
cursor and goes there. -/
def Editor.key (c : Byte) (editor : Editor) : Editor :=
  if Printable c then
    ⟨editor.cursor + 1, Function.update editor.screen editor.cursor.toNat ((0x07 : Byte) ++ c)⟩
  else if c = 13 then { editor with cursor := (editor.cursor / 80 + 1) * 80 }
  else if c = 8 ∧ 0 < editor.cursor then
    ⟨editor.cursor - 1, Function.update editor.screen (editor.cursor - 1).toNat 0x0720⟩
  else editor

/-- An editor with nothing on the screen. -/
def Editor.start : Editor := ⟨0, fun _ => 0x0720⟩

def editorRun (inputs : List Input) : Editor :=
  inputs.foldl (fun editor input => editor.key (keyboardRead input.scancode)) Editor.start

/-- The console has the cursor and the screen of the editor, and it wrote to the screen only. -/
structure Shows (console : ConsoleState) (editor : Editor) : Prop where
  cursor : console.cursor = editor.cursor
  screen : ∀ cell < 2000, console.screen cell = editor.screen cell
  calls : ∀ call ∈ console.calls, 0 ≤ call.2 ∧ call.2 < 2000

/-- At every moment the console shows what the editor shows. -/
def ConsoleShows (screen : Screen) (inputs : List Input) : Prop :=
  ∀ before, before <+: inputs →
    ∃ console, consoleRun screen before = some console ∧ Shows console (editorRun before)

/-- What is written is a blank on the screen. -/
def StoresBlank (ecx : Word) : Prop := writtenCell ecx < 2000 ∧ writtenValue ecx = 0x0720

/-- No character is typed, a backspace comes where there is a cell before the cursor and writes a
blank to the screen, and a new row does not overflow the cursor. -/
def Harmless (cursor : ℤ) (input : Input) : Prop :=
  ¬ Printable (keyboardRead input.scancode) ∧
  (keyboardRead input.scancode = 8 → 0 < cursor ∧ cursor ≤ 2000 ∧ StoresBlank input.ecx) ∧
  (keyboardRead input.scancode = 13 → (cursor / 80 + 1) * 80 ≤ INT_MAX)

/-! ## Clearing -/

theorem clearLoop_apply (rounds first : ℕ) (screen : Screen) (cell : ℕ) :
    clearLoop rounds first screen cell =
      if first ≤ cell ∧ cell < first + rounds then 0x0720 else screen cell := by
  induction rounds generalizing first screen with
  | zero => exact (if_neg (by omega)).symm
  | succ rounds ih =>
      rw [clearLoop, ih, Function.update_apply]
      split_ifs <;> first | rfl | omega

theorem displayClear_of_lt {cell : ℕ} (inside : cell < 2000) (screen : Screen) :
    displayClear screen cell = 0x0720 := by
  rw [displayClear, clearLoop_apply]
  exact if_pos ⟨Nat.zero_le _, by omega⟩

/-! ## Keys -/

/-- Console and editor show nothing, with the cursor at the same place. -/
structure Blank (console : ConsoleState) (editor : Editor) : Prop where
  cursor : console.cursor = editor.cursor
  nonneg : 0 ≤ console.cursor
  screen : ∀ cell < 2000, console.screen cell = 0x0720
  nothing : editor.screen = fun _ => 0x0720
  calls : ∀ call ∈ console.calls, 0 ≤ call.2 ∧ call.2 < 2000

/-- A call keeps nothing shown if it is harmless, and shows what it should only then. -/
structure KeyLaw (console : ConsoleState) (editor : Editor) (input : Input) : Prop where
  keeps : Harmless console.cursor input → ∃ console', consoleUpdate input console = some console' ∧
    Blank console' (editor.key (keyboardRead input.scancode))
  only : ∀ console', consoleUpdate input console = some console' →
    Shows console' (editor.key (keyboardRead input.scancode)) → Harmless console.cursor input

namespace Blank

variable {console : ConsoleState} {editor : Editor} (blank : Blank console editor) {input : Input}
include blank

theorem shows : Shows console editor where
  cursor := blank.cursor
  screen cell inside := by rw [blank.screen cell inside, blank.nothing]
  calls := blank.calls

/-- The end of a row. -/
theorem enter (row : keyboardRead input.scancode = 13) : KeyLaw console editor input := by
  have unprintable : ¬ Printable 13 := by decide
  have other : ¬ (13 : Byte) = 0 := by decide
  have nonneg := blank.nonneg
  have key : editor.key 13 = { editor with cursor := (editor.cursor / 80 + 1) * 80 } := by
    rw [Editor.key, if_neg unprintable, if_pos rfl]
  have update : consoleUpdate input console =
      if (console.cursor / 80 + 1) * 80 ≤ INT_MAX then
        some { console with cursor := (console.cursor / 80 + 1) * 80 } else none := by
    rw [consoleUpdate, row, if_neg other, if_pos rfl, Int.tdiv_eq_ediv_of_nonneg nonneg]
  constructor
  · rintro ⟨-, -, fits⟩
    rw [row, key, update, if_pos (fits row)]
    refine ⟨_, rfl, ?_, ?_, blank.screen, blank.nothing, blank.calls⟩
    · rw [blank.cursor]
    · dsimp only
      omega
  · intro console' done _
    refine ⟨row ▸ unprintable, fun back => ?_, fun _ => ?_⟩
    · rw [row] at back
      exact absurd back (by decide)
    · by_contra overflow
      rw [update, if_neg overflow] at done
      exact absurd done nofun

/-- A backspace behind the first cell. -/
theorem backspace_behind (back : keyboardRead input.scancode = 8) (behind : 0 < console.cursor) :
    KeyLaw console editor input := by
  have unprintable : ¬ Printable 8 := by decide
  have other : ¬ (8 : Byte) = 0 := by decide
  have other' : ¬ (8 : Byte) = 13 := by decide
  have behind' : 0 < editor.cursor := blank.cursor ▸ behind
  have key : editor.key 8 = ⟨editor.cursor - 1, editor.screen⟩ := by
    rw [Editor.key, if_neg unprintable, if_neg other', if_pos ⟨rfl, behind'⟩, blank.nothing]
    exact congrArg _ (Function.update_eq_self _ _)
  have update : consoleUpdate input console = ({ console with
      cursor := console.cursor - 1 } : ConsoleState).write input.ecx 32 (console.cursor - 1) := by
    rw [consoleUpdate, back, if_neg other, if_neg other', if_pos rfl, if_pos behind]
  constructor
  · rintro ⟨-, inside, -⟩
    obtain ⟨-, last, visible, blanks⟩ := inside back
    rw [back, key, update, ConsoleState.write, displayWriteChar, if_pos visible]
    refine ⟨_, rfl, ?_, Int.le_sub_one_of_lt behind, fun cell inside => ?_, blank.nothing, ?_⟩
    · exact congrArg (· - 1) blank.cursor
    · change Function.update console.screen (writtenCell input.ecx) _ cell = 0x0720
      rw [Function.update_apply]
      split_ifs
      · exact blanks
      · exact blank.screen cell inside
    · intro call member
      rcases List.mem_append.mp member with old | new
      · exact blank.calls call old
      · rw [List.mem_singleton.mp new]
        dsimp only
        omega
  · intro console' done shows
    rw [update] at done
    obtain ⟨screen, stored, rfl⟩ := Option.map_eq_some_iff.mp done
    rw [displayWriteChar] at stored
    split_ifs at stored with visible
    obtain rfl := Option.some.inj stored
    rw [back, key] at shows
    refine ⟨back ▸ unprintable, fun _ => ⟨behind, ?_, visible, ?_⟩, fun row => ?_⟩
    · -- the new call is on the screen
      have inside := (shows.calls (32, console.cursor - 1)
        (List.mem_append_right _ (List.mem_singleton_self _))).2
      dsimp only at inside
      omega
    · -- the editor shows a blank there
      have same := shows.screen _ visible
      dsimp only at same
      rwa [Function.update_self, blank.nothing] at same
    · rw [back] at row
      exact absurd row other'

/-- A backspace at the first cell moves the cursor on. -/
theorem backspace_first (back : keyboardRead input.scancode = 8) (first : ¬ 0 < console.cursor) :
    KeyLaw console editor input := by
  have unprintable : ¬ Printable 8 := by decide
  have other : ¬ (8 : Byte) = 0 := by decide
  have other' : ¬ (8 : Byte) = 13 := by decide
  have update : consoleUpdate input console = (console.write input.ecx 8 console.cursor).map
      fun console => { console with cursor := console.cursor + 1 } := by
    rw [consoleUpdate, back, if_neg other, if_neg other', if_pos rfl, if_neg first]
  have key : editor.key 8 = editor := by
    have first' : ¬ 0 < editor.cursor := blank.cursor ▸ first
    rw [Editor.key, if_neg unprintable, if_neg other', if_neg fun both => first' both.2]
  constructor
  · exact fun harmless => absurd (harmless.2.1 back).1 first
  · intro console' done shows
    rw [update] at done
    obtain ⟨written, call, rfl⟩ := Option.map_eq_some_iff.mp done
    obtain ⟨screen, -, rfl⟩ := Option.map_eq_some_iff.mp call
    rw [back, key] at shows
    have cursor : console.cursor + 1 = editor.cursor := shows.cursor
    have same := blank.cursor
    omega

/-- Any other character. -/
theorem ordinary (other : keyboardRead input.scancode ≠ 13)
    (other' : keyboardRead input.scancode ≠ 8) : KeyLaw console editor input := by
  have update : consoleUpdate input console = some console := by
    rw [consoleUpdate]
    split_ifs
    · rfl
    · rfl
  by_cases printable : Printable (keyboardRead input.scancode)
  · constructor
    · exact fun harmless => absurd printable harmless.1
    · -- the console stays where it is
      intro console' done shows
      rw [update, Option.some.injEq] at done
      subst done
      rw [Editor.key, if_pos printable] at shows
      have cursor : console.cursor = editor.cursor + 1 := shows.cursor
      have same := blank.cursor
      omega
  · constructor
    · intro _
      rw [Editor.key, if_neg printable, if_neg other, if_neg fun both => other' both.1]
      exact ⟨console, update, blank⟩
    · exact fun _ _ _ => ⟨printable, fun back => absurd back other', fun row => absurd row other⟩

/-- **Every key keeps nothing shown if it is harmless, and only then shows what it should.** -/
theorem keyLaw (input : Input) : KeyLaw console editor input := by
  by_cases row : keyboardRead input.scancode = 13
  · exact blank.enter row
  by_cases back : keyboardRead input.scancode = 8
  · by_cases behind : 0 < console.cursor
    · exact blank.backspace_behind back behind
    · exact blank.backspace_first back behind
  · exact blank.ordinary row back

end Blank

theorem blank_init (screen : Screen) : Blank (consoleInit screen) Editor.start where
  cursor := rfl
  nonneg := Int.le_refl 0
  screen cell inside := by
    dsimp only [consoleInit]
    rw [displayClear_of_lt inside]
  nothing := rfl
  calls call member := absurd member List.not_mem_nil

/-! ## Runs -/

theorem consoleRun_concat (screen : Screen) (inputs : List Input) (input : Input) :
    consoleRun screen (inputs ++ [input]) =
      (consoleRun screen inputs).bind (consoleUpdate input) := List.foldl_append

theorem editorRun_concat (inputs : List Input) (input : Input) :
    editorRun (inputs ++ [input]) = (editorRun inputs).key (keyboardRead input.scancode) :=
  List.foldl_append

/-- Every call of a run is harmless in the state it is made in. -/
def AllHarmless (screen : Screen) (inputs : List Input) : Prop :=
  ∀ before input, before ++ [input] <+: inputs →
    ∀ console, consoleRun screen before = some console → Harmless console.cursor input

/-- While all calls are harmless, nothing is shown. -/
theorem AllHarmless.blank {screen : Screen} {inputs : List Input}
    (harmless : AllHarmless screen inputs) {before : List Input} (inside : before <+: inputs) :
    ∃ console, consoleRun screen before = some console ∧ Blank console (editorRun before) := by
  induction before using List.reverseRecOn with
  | nil => exact ⟨_, rfl, blank_init screen⟩
  | append_singleton before input ih =>
      have shorter : before <+: inputs := (List.prefix_append before [input]).trans inside
      obtain ⟨console, run, blank⟩ := ih shorter
      rw [consoleRun_concat, run, editorRun_concat]
      exact (blank.keyLaw input).keeps (harmless before input inside console run)

/-- **The console shows what is typed exactly if no printable character is typed, every backspace
has a cell before it and stores a blank on the screen, and no new row overflows the cursor.** -/
theorem console_shows_iff (screen : Screen) (inputs : List Input) :
    ConsoleShows screen inputs ↔ AllHarmless screen inputs := by
  constructor
  · -- the calls before the last one are harmless, and so the last one starts from nothing shown
    induction inputs using List.reverseRecOn with
    | nil =>
        intro _ before input inside
        exact absurd (List.prefix_nil.mp inside)
          (List.append_ne_nil_of_right_ne_nil before (List.cons_ne_nil _ _))
    | append_singleton inputs last ih =>
        intro shows
        have earlier : AllHarmless screen inputs := ih fun before inside =>
          shows before (inside.trans (List.prefix_append _ _))
        intro before input inside console run
        rcases List.prefix_concat_iff.mp inside with same | shorter
        · obtain ⟨rfl, one⟩ := List.append_inj' same rfl
          obtain rfl := List.singleton_inj.mp one
          obtain ⟨console', run', blank⟩ := earlier.blank List.prefix_rfl
          rw [run, Option.some.injEq] at run'
          obtain ⟨after, done, shown⟩ := shows _ List.prefix_rfl
          rw [consoleRun_concat, run, Option.bind_some] at done
          rw [editorRun_concat] at shown
          subst run'
          exact (blank.keyLaw input).only after done shown
        · exact earlier before input shorter console run
  · intro harmless before inside
    obtain ⟨console, run, blank⟩ := harmless.blank inside
    exact ⟨console, run, blank.shows⟩

/-- The key `a` is not shown. -/
theorem key_not_shown : ¬ ∀ screen inputs, ConsoleShows screen inputs := by
  intro shows
  obtain ⟨console, run, shown⟩ := shows (fun _ => 0) [⟨30, 0⟩] _ List.prefix_rfl
  obtain rfl := Option.some.inj run
  exact absurd shown.cursor (by decide)

end CocosOS.Kernel.Drivers.Console
