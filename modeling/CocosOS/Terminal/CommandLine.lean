import CocosOS.Library.CTokens

/-!
# The command line

`terminal_input` gathers characters in `input_buffer` and hands a line to `shell_execute` when it
ends. The shell cuts it into at most 16 words, and `cpm install` puts its third word behind a
path of 15 characters in an array of 64.

A write behind the end of an array has no result here. `display_putc`, `terminal_clear` and
`fs_mkdir` are elsewhere; what they are called with is told as an `Effect`.

The line always fits its buffer, and the words always fit `argv`. The path does not: all writes
stay inside their arrays exactly if no line installs a package whose name has 49 characters or
more (`writes_inside_iff`).
-/

set_option autoImplicit false

namespace CocosOS.Terminal

open Library.BoundedArray Library.CString

abbrev Char8 := BitVec 8

/-! ## The calls -/

/-- What code elsewhere is asked to do. -/
inductive Effect where
  | putc (c : Char8)
  | clear
  | mkdir (path : List Char8)
  deriving DecidableEq

/-- `terminal_write`. -/
def terminalWrite (str : List Char8) : List Effect := str.map .putc

/-- `terminal_prompt`. -/
def terminalPrompt : List Effect :=
  terminalWrite (literal "\n") ++ terminalWrite (literal "cocos> ")

/-- `strcpy` into an array of so many characters. -/
def strcpyInto (limit : ℕ) (dst : ℕ → Char8) (src : List Char8) : Option (ℕ → Char8) :=
  putAll limit dst 0 (src ++ [0])

/-- `strcat` in an array of so many characters. -/
def strcatInto (limit : ℕ) (dst : ℕ → Char8) (src : List Char8) : Option (ℕ → Char8) :=
  putAll limit dst (textAt limit dst 0).length (src ++ [0])

def VERSION : List Char8 := literal "0.1.0"

/-- `cpm_help`. -/
def cpmHelp : List Effect :=
  terminalWrite (literal "Cocos Package Manager\n") ++
  terminalWrite (literal "Uso: cpm <comando>\n\n") ++
  terminalWrite (literal "Comandos:\n") ++
  terminalWrite (literal "  init      Inicializar proyecto\n") ++
  terminalWrite (literal "  install   Instalar paquete\n") ++
  terminalWrite (literal "  remove    Eliminar paquete\n") ++
  terminalWrite (literal "  list      Listar paquetes\n") ++
  terminalWrite (literal "  update    Actualizar paquetes\n") ++
  terminalWrite (literal "  version   Mostrar version\n")

/-- `cpm_init`. -/
def cpmInit : List Effect :=
  terminalWrite (literal "Inicializando proyecto CPM\n") ++
  [.mkdir (literal "/.cpm")] ++ [.mkdir (literal "/.cpm/packages")] ++
  terminalWrite (literal "Estructura creada correctamente\n")

/-- `cpm_install`. The array `ruta` lies on the stack. -/
def cpmInstall (stack : ℕ → Char8) (argc : ℕ) (argv : ℕ → List Char8) : Option (List Effect) :=
  if argc < 3 then some (terminalWrite (literal "Instalando todas las dependencias\n"))
  else do
    let ruta ← strcpyInto 64 stack (literal "/.cpm/packages/")
    let ruta ← strcatInto 64 ruta (argv 2)
    some (terminalWrite (literal "Instalando: ") ++ terminalWrite (argv 2) ++
      terminalWrite (literal "\n") ++ [.mkdir (textAt 64 ruta 0)] ++
      terminalWrite (literal "Paquete instalado\n"))

/-- `cpm_list`. -/
def cpmList : List Effect :=
  terminalWrite (literal "\nPaquetes instalados:\n") ++
  terminalWrite (literal "--------------------\n") ++
  terminalWrite (literal "  (listado de paquetes)\n") ++
  terminalWrite (literal "--------------------\n")

/-- `cpm_remove`. -/
def cpmRemove (argc : ℕ) (argv : ℕ → List Char8) : List Effect :=
  if argc < 3 then terminalWrite (literal "Especifique nombre de paquete\n")
  else
    terminalWrite (literal "Eliminando: ") ++ terminalWrite (argv 2) ++
    terminalWrite (literal "\n") ++ terminalWrite (literal "Paquete eliminado\n")

/-- `cpm_main`. -/
def cpmMain (stack : ℕ → Char8) (argc : ℕ) (argv : ℕ → List Char8) : Option (List Effect) :=
  if argc = 1 then some cpmHelp
  else if argv 1 = literal "help" then some cpmHelp
  else if argv 1 = literal "init" then some cpmInit
  else if argv 1 = literal "install" then cpmInstall stack argc argv
  else if argv 1 = literal "remove" then some (cpmRemove argc argv)
  else if argv 1 = literal "list" then some cpmList
  else if argv 1 = literal "version" then
    some (terminalWrite (literal "CPM v") ++ terminalWrite VERSION ++
      terminalWrite (literal "\n"))
  else some (terminalWrite (literal "Comando desconocido\n") ++ cpmHelp)

/-- The array of `cmd`, `argv` and `argc`. An entry of `argv` is an index of the array. -/
structure Arguments where
  buffer : ℕ → Char8
  argv : ℕ → ℕ
  argc : ℕ

/-- The string of an argument. -/
def Arguments.string (arguments : Arguments) (i : ℕ) : List Char8 :=
  textAt 256 arguments.buffer (arguments.argv i)

/-- The loop of `shell_execute`, in the entries of `argv` that are left. -/
def tokenLoop : ℕ → Scan → (ℕ → ℕ) → ℕ → Option Arguments
  | 0, scan, argv, argc => some ⟨scan.buffer, argv, argc⟩
  | left + 1, scan, argv, argc =>
    match scan.token with
    | none => some ⟨scan.buffer, argv, argc⟩
    | some token => do
      let argv ← put 16 argv argc token
      let scan ← strtok 32 256 scan.buffer scan.save
      tokenLoop left scan argv (argc + 1)

/-- What `shell_execute` does with the words of a line. -/
def dispatch (stack : ℕ → Char8) (argc : ℕ) (argv : ℕ → List Char8) : Option (List Effect) :=
  if argc = 0 then some []
  else if argv 0 = literal "help" then
    some (terminalWrite (literal "Comandos disponibles:\n") ++
      terminalWrite (literal "  help\n") ++ terminalWrite (literal "  clear\n") ++
      terminalWrite (literal "  about\n") ++ terminalWrite (literal "  cpm\n"))
  else if argv 0 = literal "clear" then some [.clear]
  else if argv 0 = literal "about" then
    some (terminalWrite (literal "Cocos OS Alpha V1\n") ++
      terminalWrite (literal "Kernel: lilcos v1\n"))
  else if argv 0 = literal "cpm" then cpmMain stack argc argv
  else some (terminalWrite (literal "Comando desconocido\n"))

/-- What the arrays of `shell_execute` and `cpm_install` hold at first. -/
structure Stack where
  argv : ℕ → ℕ
  ruta : ℕ → Char8

/-- `shell_execute` on the string in an array of 256 characters. -/
def shellExecute (stack : Stack) (cmd : ℕ → Char8) : Option ((ℕ → Char8) × List Effect) := do
  let scan ← strtok 32 256 cmd 0
  let arguments ← tokenLoop 16 scan stack.argv 0
  let effects ← dispatch stack.ruta arguments.argc arguments.string
  some (arguments.buffer, effects)

/-- `input_buffer`, `input_index` and what was done so far. -/
structure TerminalState where
  inputBuffer : ℕ → Char8
  inputIndex : ℕ
  effects : List Effect

def TerminalState.start : TerminalState := ⟨fun _ => 0, 0, []⟩

/-- `terminal_input`. -/
def terminalInput (stack : Stack) (c : Char8) (terminal : TerminalState) :
    Option TerminalState :=
  if c = 10 then do
    let buffer ← put 256 terminal.inputBuffer terminal.inputIndex 0
    let (buffer, effects) ← shellExecute stack buffer
    some ⟨buffer, 0, terminal.effects ++ terminalWrite (literal "\n") ++ effects ++ terminalPrompt⟩
  else if terminal.inputIndex < 255 then do
    let buffer ← put 256 terminal.inputBuffer terminal.inputIndex c
    some ⟨buffer, terminal.inputIndex + 1, terminal.effects ++ [.putc c]⟩
  else some terminal

/-- A stream of characters, each with what its call finds on the stack. -/
def terminalRun : List (Stack × Char8) → TerminalState → Option TerminalState
  | [], terminal => some terminal
  | (stack, c) :: stream, terminal => (terminalInput stack c terminal).bind (terminalRun stream)

/-! ## The lines of a stream -/

/-- The lines that are executed: what lies before each end of a line, of which 255 characters are
kept and read up to the first zero. -/
def commandLines (stream : List Char8) : List (List Char8) :=
  (stream.splitOn 10).dropLast.map fun line => (line.take 255).takeWhile (· ≠ 0)

/-- The line installs a package whose name has 49 characters or more. -/
def InstallsLong (line : List Char8) : Prop :=
  ∃ name rest, words 32 line = literal "cpm" :: literal "install" :: name :: rest ∧
    49 ≤ name.length

/-! ## Words -/

/-- **The loop of `shell_execute` fills `argv` with the first 16 words.** -/
theorem tokenLoop_spec (argv : ℕ → ℕ) {left argc : ℕ} {scan : Scan} {found : List (List Char8)}
    (finds : Finds 32 256 scan found) (room : argc + left ≤ 16) :
    ∃ arguments, tokenLoop left scan argv argc = some arguments ∧
      arguments.argc = argc + min left found.length ∧
      (∀ i < argc, arguments.argv i = argv i) ∧ Keeps scan.save scan.buffer arguments.buffer ∧
      ∀ i < left, ∀ word, found[i]? = some word → arguments.string (argc + i) = word := by
  induction left generalizing argc scan argv found with
  | zero =>
      refine ⟨_, rfl, by rw [Nat.zero_min]; rfl, fun _ _ => rfl, Keeps.refl _ _, ?_⟩
      exact fun i inside => absurd inside (Nat.not_lt_zero i)
  | succ left ih =>
      rw [tokenLoop]
      cases finds with
      | none none =>
          rw [none]
          refine ⟨_, rfl, by rw [List.length_nil, Nat.min_zero]; rfl, fun _ _ => rfl,
            Keeps.refl _ _, ?_⟩
          exact fun i _ word nothing => absurd nothing nofun
      | word first word rest token stored before ends remaining =>
          have space : (32 : Char8) ≠ 0 := by decide
          obtain ⟨next, scanned, later, kept, finds⟩ := strtok_spec space ends
          rw [remaining] at finds
          have free : argc < 16 := by omega
          obtain ⟨arguments, done, count, same, keeps, words⟩ :=
            ih (Function.update argv argc first) finds
              (show argc + 1 + left ≤ 16 by omega)
          have whole := kept.trans later keeps
          rw [token]
          simp only [Option.bind_eq_bind]
          rw [put_of_lt free, Option.bind_some, scanned, Option.bind_some, done]
          refine ⟨arguments, rfl, ?_, fun i inside => ?_, whole, fun i inside other at_ => ?_⟩
          · rw [count, List.length_cons]
            omega
          · rw [same i (Nat.lt_succ_of_lt inside), Function.update_of_ne inside.ne]
          · cases i with
            | zero =>
                obtain rfl := Option.some.inj at_
                have here : arguments.argv argc = first := by
                  rw [same argc (Nat.lt_succ_self _), Function.update_self]
                obtain ⟨index, short, behind, -⟩ := ends
                rw [Nat.add_zero, Arguments.string, here]
                exact (stored.keeps before whole).textAt_eq
                  ((before.trans behind).trans_lt short)
            | succ i =>
                rw [← Nat.add_assoc, Nat.add_right_comm]
                exact words i (Nat.lt_of_succ_lt_succ inside) other at_

/-- The shell cuts a line that ends inside its array. -/
theorem exists_arguments (argv : ℕ → ℕ) {buffer : ℕ → Char8} (ends : Ends 256 buffer 0) :
    ∃ scan arguments, strtok 32 256 buffer 0 = some scan ∧
      tokenLoop 16 scan argv 0 = some arguments ∧
      arguments.argc = min 16 (words 32 (textAt 256 buffer 0)).length ∧
      ∀ i < 16, ∀ word, (words 32 (textAt 256 buffer 0))[i]? = some word →
        arguments.string i = word := by
  obtain ⟨scan, scanned, -, -, finds⟩ := strtok_spec (show (32 : Char8) ≠ 0 by decide) ends
  have room : 0 + 16 ≤ 16 := Nat.le_refl 16
  obtain ⟨arguments, done, count, -, -, strings⟩ := tokenLoop_spec argv finds room
  refine ⟨scan, arguments, scanned, done, ?_, fun i inside word at_ => ?_⟩
  · rw [count, Nat.zero_add]
  · rw [← strings i inside word at_, Nat.zero_add]

/-! ## Commands -/

theorem length_path : (literal "/.cpm/packages/").length = 15 := by decide

/-- **The path fits exactly if the name has at most 48 characters.** -/
theorem cpmInstall_isSome_iff (stack : ℕ → Char8) (argc : ℕ) (argv : ℕ → List Char8) :
    (cpmInstall stack argc argv).isSome ↔ argc < 3 ∨ (argv 2).length < 49 := by
  rw [cpmInstall]
  split_ifs with few
  · exact iff_of_true rfl (Or.inl few)
  · rw [or_iff_right few]
    let ruta := overlay stack 0 (literal "/.cpm/packages/" ++ [0])
    have copied : strcpyInto 64 stack (literal "/.cpm/packages/") = some ruta :=
      putAll_of_fits (by decide)
    have path : Stored ruta 0 (literal "/.cpm/packages/") := stored_overlay stack 0 (by decide)
    have nonempty : argv 2 ++ [0] ≠ [] :=
      List.append_ne_nil_of_right_ne_nil _ (List.cons_ne_nil _ _)
    have fits : (putAll 64 ruta 15 (argv 2 ++ [0])).isSome ↔ (argv 2).length < 49 := by
      rw [putAll_isSome_iff, or_iff_right nonempty, List.length_append, List.length_singleton]
      omega
    rw [copied, Option.bind_eq_bind, Option.bind_some, strcatInto, path.textAt_eq (by decide),
      length_path, ← fits]
    cases putAll 64 ruta 15 (argv 2 ++ [0]) <;> rfl

/-- `cpm` only has to do with a long name where it installs it. -/
theorem cpmMain_isSome_iff (stack : ℕ → Char8) (argc : ℕ) (argv : ℕ → List Char8) :
    (cpmMain stack argc argv).isSome ↔
      (argc ≠ 1 → argv 1 = literal "install" → argc < 3 ∨ (argv 2).length < 49) := by
  by_cases one : argc = 1
  · rw [cpmMain, if_pos one]
    exact iff_of_true rfl fun other => absurd one other
  by_cases install : argv 1 = literal "install"
  · have help : literal "install" ≠ literal "help" := by decide
    have init : literal "install" ≠ literal "init" := by decide
    rw [cpmMain, if_neg one, install, if_neg help, if_neg init, if_pos rfl, cpmInstall_isSome_iff]
    exact ⟨fun fits _ _ => fits, fun fits => fits one rfl⟩
  · refine iff_of_true ?_ fun _ same => absurd same install
    rw [cpmMain, if_neg one, if_neg install]
    split_ifs <;> rfl

theorem dispatch_isSome_iff (stack : ℕ → Char8) (argc : ℕ) (argv : ℕ → List Char8) :
    (dispatch stack argc argv).isSome ↔
      (argc ≠ 0 → argv 0 = literal "cpm" → (cpmMain stack argc argv).isSome) := by
  by_cases zero : argc = 0
  · rw [dispatch, if_pos zero]
    exact iff_of_true rfl fun other => absurd zero other
  by_cases cpm : argv 0 = literal "cpm"
  · have help : literal "cpm" ≠ literal "help" := by decide
    have clear : literal "cpm" ≠ literal "clear" := by decide
    have about : literal "cpm" ≠ literal "about" := by decide
    rw [dispatch, if_neg zero, cpm, if_neg help, if_neg clear, if_neg about, if_pos rfl]
    exact ⟨fun fits _ _ => fits, fun fits => fits zero rfl⟩
  · refine iff_of_true ?_ fun _ same => absurd same cpm
    rw [dispatch, if_neg zero, if_neg cpm]
    split_ifs <;> rfl

/-- **A line is executed inside the arrays exactly if it does not install a long name.** -/
theorem shellExecute_isSome_iff (stack : Stack) {buffer : ℕ → Char8} (ends : Ends 256 buffer 0) :
    (shellExecute stack buffer).isSome ↔ ¬ InstallsLong (textAt 256 buffer 0) := by
  obtain ⟨scan, arguments, scanned, done, count, strings⟩ := exists_arguments stack.argv ends
  have executed : (shellExecute stack buffer).isSome ↔
      (dispatch stack.ruta arguments.argc arguments.string).isSome := by
    simp only [shellExecute, scanned, done, Option.bind_eq_bind, Option.bind_some]
    cases dispatch stack.ruta arguments.argc arguments.string <;> rfl
  rw [executed, dispatch_isSome_iff, cpmMain_isSome_iff, InstallsLong]
  generalize words 32 (textAt 256 buffer 0) = found at *
  have at_ : ∀ i < 16, (inside : i < found.length) → arguments.string i = found[i] :=
    fun i less inside => strings i less found[i] (List.getElem?_eq_getElem inside)
  constructor
  · rintro fits ⟨name, rest, rfl, long⟩
    have many : 3 ≤ arguments.argc := by
      rw [count, List.length_cons, List.length_cons, List.length_cons]
      omega
    have short := fits (by omega) (at_ 0 (by decide) (Nat.succ_pos _)) (by omega)
      (at_ 1 (by decide) (Nat.succ_lt_succ (Nat.succ_pos _)))
    have third := at_ 2 (by decide) (Nat.succ_lt_succ (Nat.succ_lt_succ (Nat.succ_pos _)))
    rw [third] at short
    exact Nat.not_le_of_lt (short.resolve_left (by omega)) long
  · intro none some first _ second
    by_contra beyond
    rw [not_or, Nat.not_lt, Nat.not_lt] at beyond
    have three : 3 ≤ found.length := by
      rw [count] at beyond
      exact beyond.1.trans (Nat.min_le_right _ _)
    match found, three, at_ with
    | w0 :: w1 :: name :: rest, _, at_ =>
        have zeroth := at_ 0 (by decide) (Nat.succ_pos _)
        have oneth := at_ 1 (by decide) (Nat.succ_lt_succ (Nat.succ_pos _))
        have third := at_ 2 (by decide) (Nat.succ_lt_succ (Nat.succ_lt_succ (Nat.succ_pos _)))
        refine none ⟨name, rest, ?_, ?_⟩
        · rw [← first, ← second, zeroth, oneth]
          rfl
        · rw [third] at beyond
          exact beyond.2

/-! ## Streams -/

/-- The array holds what was kept of the characters since the last end of a line. -/
structure Gathered (line : List Char8) (terminal : TerminalState) : Prop where
  oneLine : 10 ∉ line
  index : terminal.inputIndex = (line.take 255).length
  kept : slice terminal.inputBuffer 0 (line.take 255).length = line.take 255

theorem gathered_nil (buffer : ℕ → Char8) (effects : List Effect) :
    Gathered [] ⟨buffer, 0, effects⟩ := ⟨List.not_mem_nil, rfl, rfl⟩

theorem length_take_le (line : List Char8) : (line.take 255).length ≤ 255 := List.length_take_le _ _

/-- **A character is kept inside the array, or dropped.** -/
theorem Gathered.input {line : List Char8} {terminal : TerminalState}
    (gathered : Gathered line terminal) (stack : Stack) {c : Char8} (inLine : c ≠ 10) :
    ∃ terminal', terminalInput stack c terminal = some terminal' ∧
      Gathered (line ++ [c]) terminal' := by
  have oneLine : 10 ∉ line ++ [c] := by
    rw [List.mem_append, not_or, List.mem_singleton]
    exact ⟨gathered.oneLine, Ne.symm inLine⟩
  rw [terminalInput, if_neg inLine, gathered.index]
  by_cases room : line.length < 255
  · have whole : line.take 255 = line := List.take_of_length_le room.le
    have longer : (line ++ [c]).take 255 = line ++ [c] := by
      apply List.take_of_length_le
      rw [List.length_append]
      exact room
    have kept := gathered.kept
    rw [whole] at kept ⊢
    rw [if_pos room, put_of_lt (by omega), update_eq_overlay]
    refine ⟨_, rfl, oneLine, ?_, ?_⟩
    · rw [longer, List.length_append]
      rfl
    · rw [longer, List.length_append]
      have extended := slice_overlay_append terminal.inputBuffer 0 line.length [c]
      rw [kept, Nat.zero_add] at extended
      exact extended
  · have full : (line.take 255).length = 255 := by
      rw [List.length_take]
      omega
    have same : (line ++ [c]).take 255 = line.take 255 :=
      List.take_append_of_le_length (Nat.le_of_not_lt room)
    rw [full, if_neg (Nat.lt_irrefl _)]
    exact ⟨_, rfl, oneLine, by rw [same]; exact gathered.index, by rw [same]; exact gathered.kept⟩

/-- **The end of a line executes what was kept of it.** -/
theorem Gathered.execute {line : List Char8} {terminal : TerminalState}
    (gathered : Gathered line terminal) (stack : Stack) :
    ((terminalInput stack 10 terminal).isSome ↔
      ¬ InstallsLong ((line.take 255).takeWhile (· ≠ 0))) ∧
    ∀ terminal', terminalInput stack 10 terminal = some terminal' → Gathered [] terminal' := by
  have inside : (line.take 255).length < 256 := Nat.lt_succ_of_le (length_take_le line)
  let buffer := Function.update terminal.inputBuffer (line.take 255).length 0
  have ended : buffer (line.take 255).length = 0 := Function.update_self ..
  have kept : slice buffer 0 (line.take 255).length = line.take 255 := by
    refine (slice_congr fun offset less => ?_).trans gathered.kept
    rw [Nat.zero_add]
    exact Function.update_of_ne less.ne _ _
  have read : textAt 256 buffer 0 = (line.take 255).takeWhile (· ≠ 0) :=
    textAt_of_slice kept (by rw [Nat.zero_add]; exact ended) (by rw [Nat.zero_add]; exact inside)
  have ends : Ends 256 buffer 0 := ⟨_, inside, Nat.zero_le _, ended⟩
  have executed := shellExecute_isSome_iff stack ends
  rw [read] at executed
  rw [terminalInput, if_pos rfl, gathered.index, put_of_lt inside, Option.bind_eq_bind,
    Option.bind_some, ← executed]
  constructor
  · cases shellExecute stack buffer <;> rfl
  · intro terminal' done
    obtain ⟨⟨after, effects⟩, -, same⟩ := Option.bind_eq_some_iff.mp done
    obtain rfl := Option.some.inj same
    exact gathered_nil _ _

/-- A stream goes on with the line that was begun. -/
theorem commandLines_append {line : List Char8} (oneLine : 10 ∉ line) (stream : List Char8) :
    commandLines (line ++ 10 :: stream) =
      (line.take 255).takeWhile (· ≠ 0) :: commandLines stream := by
  rw [commandLines, List.splitOn_append_cons_self_of_not_mem oneLine,
    List.dropLast_cons_of_ne_nil (List.splitOn_ne_nil _ _), List.map_cons]
  rfl

/-- **The rest of a stream stays inside the arrays exactly if no line of it installs a long name.**
-/
theorem terminalRun_isSome_iff {line : List Char8} {terminal : TerminalState}
    (gathered : Gathered line terminal) (stream : List (Stack × Char8)) :
    (terminalRun stream terminal).isSome ↔
      ∀ command ∈ commandLines (line ++ stream.map Prod.snd), ¬ InstallsLong command := by
  induction stream generalizing line terminal with
  | nil =>
      have none : commandLines line = [] := by
        rw [commandLines, List.splitOn_eq_singleton gathered.oneLine]
        rfl
      rw [List.map_nil, List.append_nil, none]
      exact iff_of_true rfl fun _ member => absurd member List.not_mem_nil
  | cons input stream ih =>
      obtain ⟨stack, c⟩ := input
      rw [List.map_cons, terminalRun]
      by_cases newline : c = 10
      · subst newline
        obtain ⟨executed, fresh⟩ := gathered.execute stack
        rw [commandLines_append gathered.oneLine, List.forall_mem_cons, ← executed]
        cases done : terminalInput stack 10 terminal with
        | none => exact iff_of_false nofun fun both => absurd both.1 nofun
        | some terminal' =>
            rw [Option.bind_some, ih (fresh terminal' done), List.nil_append,
              and_iff_right (Option.isSome_some)]
      · obtain ⟨terminal', done, gathered'⟩ := gathered.input stack newline
        rw [done, Option.bind_some, ih gathered', List.append_assoc, List.singleton_append]

/-- **Every write stays inside its array exactly if no line installs a package whose name has 49
characters or more**, for every stream of characters. -/
theorem writes_inside_iff (stream : List (Stack × Char8)) :
    (terminalRun stream TerminalState.start).isSome ↔
      ∀ command ∈ commandLines (stream.map Prod.snd), ¬ InstallsLong command :=
  terminalRun_isSome_iff (gathered_nil _ _) stream

/-- A line that installs a name of 49 characters. -/
theorem long_name_overruns : ¬ ∀ stream, (terminalRun stream TerminalState.start).isSome := by
  intro inside
  have overrun := inside ((literal "cpm install " ++ List.replicate 49 120 ++ [10]).map
    fun c => (⟨fun _ => 0, fun _ => 0⟩, c))
  exact absurd overrun (by decide +kernel)

end CocosOS.Terminal
