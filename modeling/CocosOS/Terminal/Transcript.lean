import CocosOS.Terminal.CommandLine

/-!
# What a terminal shows

`terminal_input` sees one character at a time, keeps 255 of a line in a buffer that it reuses,
cuts the line into words by writing zeros into that buffer, and builds the path of a package in an
array on the stack. What comes out of this is a function of the characters alone (`transcript`):
each line is shown as far as it is kept, its words up to the first zero are the command, and the
prompt follows. Neither what was on the stack nor what earlier lines left in the buffer is ever
shown or used (`terminal_transcript`).
-/

set_option autoImplicit false

namespace CocosOS.Terminal

open Library.BoundedArray Library.CString

/-! ## What a line should do -/

/-- `cpm install`, with the words behind it. -/
def installEffects : List (List Char8) → List Effect
  | [] => terminalWrite (literal "Instalando todas las dependencias\n")
  | name :: _ =>
    terminalWrite (literal "Instalando: ") ++ terminalWrite name ++
      terminalWrite (literal "\n") ++ [.mkdir (literal "/.cpm/packages/" ++ name)] ++
      terminalWrite (literal "Paquete instalado\n")

/-- `cpm remove`, with the words behind it. -/
def removeEffects : List (List Char8) → List Effect
  | [] => terminalWrite (literal "Especifique nombre de paquete\n")
  | name :: _ =>
    terminalWrite (literal "Eliminando: ") ++ terminalWrite name ++
      terminalWrite (literal "\n") ++ terminalWrite (literal "Paquete eliminado\n")

/-- The package manager, with the words behind `cpm`. -/
def packageEffects : List (List Char8) → List Effect
  | [] => cpmHelp
  | command :: names =>
    if command = literal "help" then cpmHelp
    else if command = literal "init" then cpmInit
    else if command = literal "install" then installEffects names
    else if command = literal "remove" then removeEffects names
    else if command = literal "list" then cpmList
    else if command = literal "version" then
      terminalWrite (literal "CPM v") ++ terminalWrite VERSION ++ terminalWrite (literal "\n")
    else terminalWrite (literal "Comando desconocido\n") ++ cpmHelp

/-- The shell, with the words of a line. -/
def commandEffects : List (List Char8) → List Effect
  | [] => []
  | command :: rest =>
    if command = literal "help" then
      terminalWrite (literal "Comandos disponibles:\n") ++
        terminalWrite (literal "  help\n") ++ terminalWrite (literal "  clear\n") ++
        terminalWrite (literal "  about\n") ++ terminalWrite (literal "  cpm\n")
    else if command = literal "clear" then [.clear]
    else if command = literal "about" then
      terminalWrite (literal "Cocos OS Alpha V1\n") ++
        terminalWrite (literal "Kernel: lilcos v1\n")
    else if command = literal "cpm" then packageEffects rest
    else terminalWrite (literal "Comando desconocido\n")

/-- A line with its end: it is shown, executed, and answered with a prompt. -/
def lineEffects (line : List Char8) : List Effect :=
  terminalWrite (line.take 255) ++ terminalWrite (literal "\n") ++
    commandEffects ((words 32 ((line.take 255).takeWhile (· ≠ 0))).take 16) ++ terminalPrompt

/-- Lines that have ended, and the line that has not. -/
def transcript (stream : List Char8) : List Effect :=
  (stream.splitOn 10).dropLast.flatMap lineEffects ++
    terminalWrite (((stream.splitOn 10).getLast?.getD []).take 255)

theorem transcript_of_notMem {line : List Char8} (oneLine : 10 ∉ line) :
    transcript line = terminalWrite (line.take 255) := by
  rw [transcript, List.splitOn_eq_singleton oneLine]
  rfl

theorem transcript_append_cons {line : List Char8} (oneLine : 10 ∉ line) (stream : List Char8) :
    transcript (line ++ 10 :: stream) = lineEffects line ++ transcript stream := by
  have some := List.splitOn_ne_nil (10 : Char8) stream
  rw [transcript, List.splitOn_append_cons_self_of_not_mem oneLine,
    List.dropLast_cons_of_ne_nil some, List.flatMap_cons, List.getLast?_cons_of_ne_nil some,
    List.append_assoc]
  rfl

/-! ## The words in `argv` -/

/-- `argc` and `argv` are these words, and none of them holds a zero. -/
structure Holds (argc : ℕ) (argv : ℕ → List Char8) (found : List (List Char8)) : Prop where
  count : argc = found.length
  strings : ∀ (i : ℕ) (word : List Char8), found[i]? = some word → argv i = word
  nonzero : ∀ (i : ℕ) (word : List Char8), found[i]? = some word → 0 ∉ word

variable {argc : ℕ} {argv : ℕ → List Char8}

/-- `strcpy` and `strcat` put a path together that fits. -/
theorem path_of_name (stack : ℕ → Char8) {name : List Char8} (short : name.length < 49)
    (nonzero : 0 ∉ name) :
    ∃ ruta ruta', strcpyInto 64 stack (literal "/.cpm/packages/") = some ruta ∧
      strcatInto 64 ruta name = some ruta' ∧
      textAt 64 ruta' 0 = literal "/.cpm/packages/" ++ name := by
  let ruta := overlay stack 0 (literal "/.cpm/packages/" ++ [0])
  have path : Stored ruta 0 (literal "/.cpm/packages/") := stored_overlay stack 0 (by decide)
  have front : textAt 64 ruta 0 = literal "/.cpm/packages/" := path.textAt_eq (by decide)
  have chars := path.chars
  rw [length_path] at chars
  refine ⟨ruta, overlay ruta 15 (name ++ [0]), putAll_of_fits (by decide), ?_, ?_⟩
  · rw [strcatInto, front, length_path]
    refine putAll_of_fits ?_
    rw [List.length_append, List.length_singleton]
    omega
  · have back := stored_overlay ruta 15 nonzero
    refine Stored.textAt_eq ⟨?_, ?_, ?_⟩ ?_
    · refine slice_eq_append_iff.mpr ⟨?_, ?_⟩
      · rw [length_path, slice_overlay_of_le (Nat.le_refl 15), chars]
      · rw [length_path]
        exact back.chars
    · rw [List.length_append, length_path, Nat.zero_add]
      exact back.ended
    · rw [List.mem_append, not_or]
      exact ⟨by decide, nonzero⟩
    · rw [List.length_append, length_path]
      omega

theorem cpmInstall_eq (stack : ℕ → Char8) {first second : List Char8}
    {names : List (List Char8)} (holds : Holds argc argv (first :: second :: names))
    (short : ∀ name ∈ names.head?, name.length < 49) :
    cpmInstall stack argc argv = some (installEffects names) := by
  have count := holds.count
  cases names with
  | nil => exact if_pos (count.trans_lt (Nat.lt_succ_self 2))
  | cons name rest =>
      have many : ¬ argc < 3 := by
        rw [count]
        simp
      have third := holds.strings 2 name rfl
      obtain ⟨ruta, ruta', copied, joined, path⟩ :=
        path_of_name stack (short name rfl) (holds.nonzero 2 name rfl)
      rw [cpmInstall, if_neg many, copied, Option.bind_eq_bind, Option.bind_some, third, joined,
        Option.bind_some, path, installEffects]

theorem cpmRemove_eq {first second : List Char8} {names : List (List Char8)}
    (holds : Holds argc argv (first :: second :: names)) :
    cpmRemove argc argv = removeEffects names := by
  have count := holds.count
  cases names with
  | nil => exact if_pos (count.trans_lt (Nat.lt_succ_self 2))
  | cons name rest =>
      have many : ¬ argc < 3 := by
        rw [count]
        simp
      rw [cpmRemove, if_neg many, holds.strings 2 name rfl, removeEffects]

/-- `cpm_main` does what the package manager should do. -/
theorem cpmMain_eq (stack : ℕ → Char8) {first : List Char8} {found : List (List Char8)}
    (holds : Holds argc argv (first :: found))
    (short : ∀ name rest, found = literal "install" :: name :: rest → name.length < 49) :
    cpmMain stack argc argv = some (packageEffects found) := by
  have count := holds.count
  cases found with
  | nil => exact if_pos count
  | cons second names =>
      have more : argc ≠ 1 := by
        rw [count]
        simp
      rw [cpmMain, if_neg more, holds.strings 1 second rfl, packageEffects]
      split_ifs with help init install remove list version
      · rfl
      · rfl
      · refine cpmInstall_eq stack holds fun name first => ?_
        obtain ⟨rest, rfl⟩ := List.head?_eq_some_iff.mp first
        exact short name rest (by rw [install])
      · rw [cpmRemove_eq holds]
      · rfl
      · rfl
      · rfl

/-- `shell_execute` does what the shell should do with the words. -/
theorem dispatch_eq (stack : ℕ → Char8) {found : List (List Char8)}
    (holds : Holds argc argv found)
    (short : ∀ name rest, found = literal "cpm" :: literal "install" :: name :: rest →
      name.length < 49) :
    dispatch stack argc argv = some (commandEffects found) := by
  have count := holds.count
  cases found with
  | nil => exact if_pos count
  | cons first rest =>
      have some : argc ≠ 0 := by
        rw [count]
        simp
      rw [dispatch, if_neg some, holds.strings 0 first rfl, commandEffects]
      split_ifs with help clear about cpm
      · rfl
      · rfl
      · rfl
      · exact cpmMain_eq stack holds fun name more same => short name more (by rw [cpm, same])
      · rfl

/-- **A line that ends in its array is executed as its words.** -/
theorem shellExecute_eq (stack : Stack) {buffer : ℕ → Char8} (ends : Ends 256 buffer 0)
    (short : ¬ InstallsLong (textAt 256 buffer 0)) :
    ∃ after, shellExecute stack buffer =
      some (after, commandEffects ((words 32 (textAt 256 buffer 0)).take 16)) := by
  obtain ⟨scan, arguments, scanned, done, count, strings⟩ := exists_arguments stack.argv ends
  rw [InstallsLong] at short
  generalize words 32 (textAt 256 buffer 0) = found at *
  have holds : Holds arguments.argc arguments.string (found.take 16) := by
    have taken : ∀ i word, (found.take 16)[i]? = some word → arguments.string i = word := by
      intro i word at_
      rw [List.getElem?_take] at at_
      split_ifs at at_ with inside
      exact strings i inside word at_
    refine ⟨by rw [count, List.length_take], taken, fun i word at_ => ?_⟩
    rw [← taken i word at_]
    exact zero_notMem_text _ _
  have effects := dispatch_eq stack.ruta holds fun name rest same => by
    by_contra long
    have split := List.take_append_drop 16 found
    rw [same] at split
    exact short ⟨name, rest ++ found.drop 16, split.symm, Nat.le_of_not_lt long⟩
  refine ⟨arguments.buffer, ?_⟩
  simp only [shellExecute, scanned, done, Option.bind_eq_bind, Option.bind_some, effects]

/-! ## Streams -/

variable {line : List Char8} {terminal : TerminalState}

/-- A character of a line is shown while the line is kept. -/
theorem Gathered.shows (gathered : Gathered line terminal) (stack : Stack) {c : Char8}
    (inLine : c ≠ 10) {before : List Effect}
    (shown : terminal.effects = before ++ terminalWrite (line.take 255)) :
    ∃ terminal', terminalInput stack c terminal = some terminal' ∧
      Gathered (line ++ [c]) terminal' ∧
      terminal'.effects = before ++ terminalWrite ((line ++ [c]).take 255) := by
  obtain ⟨terminal', done, gathered'⟩ := gathered.input stack inLine
  refine ⟨terminal', done, gathered', ?_⟩
  rw [terminalInput, if_neg inLine, gathered.index, List.length_take] at done
  by_cases room : line.length < 255
  · rw [if_pos (by omega), put_of_lt (by omega)] at done
    obtain rfl := Option.some.inj done
    have longer : (line ++ [c]).take 255 = line ++ [c] := by
      apply List.take_of_length_le
      rw [List.length_append]
      exact room
    rw [List.take_of_length_le room.le] at shown
    rw [longer, shown]
    simp [terminalWrite]
  · rw [if_neg (by omega)] at done
    obtain rfl := Option.some.inj done
    rw [List.take_append_of_le_length (Nat.le_of_not_lt room), shown]

/-- The zero behind a line ends it in the array, and the line is read up to its first zero. -/
theorem Gathered.ended (gathered : Gathered line terminal) :
    Ends 256 (Function.update terminal.inputBuffer (line.take 255).length 0) 0 ∧
      textAt 256 (Function.update terminal.inputBuffer (line.take 255).length 0) 0 =
        (line.take 255).takeWhile (· ≠ 0) := by
  have inside : (line.take 255).length < 256 := Nat.lt_succ_of_le (length_take_le line)
  have zero : Function.update terminal.inputBuffer (line.take 255).length 0
      (line.take 255).length = 0 := Function.update_self ..
  refine ⟨⟨_, inside, Nat.zero_le _, zero⟩, textAt_of_slice ?_ ?_ ?_⟩
  · refine (slice_congr fun offset less => ?_).trans gathered.kept
    rw [Nat.zero_add]
    exact Function.update_of_ne less.ne _ _
  · rw [Nat.zero_add]
    exact zero
  · rw [Nat.zero_add]
    exact inside

/-- **The end of a line executes it** as it was kept. -/
theorem Gathered.executes (gathered : Gathered line terminal) (stack : Stack)
    (short : ¬ InstallsLong ((line.take 255).takeWhile (· ≠ 0))) {before : List Effect}
    (shown : terminal.effects = before ++ terminalWrite (line.take 255)) :
    ∃ terminal', terminalInput stack 10 terminal = some terminal' ∧ Gathered [] terminal' ∧
      terminal'.effects = before ++ lineEffects line := by
  have inside : (line.take 255).length < 256 := Nat.lt_succ_of_le (length_take_le line)
  obtain ⟨ends, read⟩ := gathered.ended
  obtain ⟨after, executed⟩ := shellExecute_eq stack ends (read.symm ▸ short)
  rw [read] at executed
  refine ⟨⟨after, 0, before ++ lineEffects line⟩, ?_, gathered_nil _ _, rfl⟩
  rw [terminalInput, if_pos rfl, gathered.index, put_of_lt inside]
  simp only [Option.bind_eq_bind, Option.bind_some, executed]
  rw [shown, lineEffects]
  simp only [List.append_assoc]

/-- The rest of a stream, behind a line that was begun. -/
theorem Gathered.run (gathered : Gathered line terminal) (stream : List (Stack × Char8))
    (short : ∀ command ∈ commandLines (line ++ stream.map Prod.snd), ¬ InstallsLong command)
    {before : List Effect}
    (shown : terminal.effects = before ++ terminalWrite (line.take 255)) :
    ∃ terminal', terminalRun stream terminal = some terminal' ∧
      terminal'.effects = before ++ transcript (line ++ stream.map Prod.snd) := by
  induction stream generalizing line terminal before with
  | nil =>
      refine ⟨terminal, rfl, ?_⟩
      rw [List.map_nil, List.append_nil, transcript_of_notMem gathered.oneLine]
      exact shown
  | cons input stream ih =>
      obtain ⟨stack, c⟩ := input
      rw [List.map_cons] at short ⊢
      by_cases newline : c = 10
      · subst newline
        rw [commandLines_append gathered.oneLine, List.forall_mem_cons] at short
        obtain ⟨middle, done, fresh, effects⟩ := gathered.executes stack short.1 shown
        obtain ⟨terminal', rest, shown'⟩ := ih fresh short.2
          (effects.trans (List.append_nil _).symm)
        refine ⟨terminal', ?_, ?_⟩
        · rw [terminalRun, done]
          exact rest
        · rw [shown', transcript_append_cons gathered.oneLine, List.append_assoc]
          rfl
      · obtain ⟨middle, done, gathered', effects⟩ := gathered.shows stack newline shown
        have split : line ++ c :: stream.map Prod.snd = line ++ [c] ++ stream.map Prod.snd :=
          List.append_cons ..
        rw [split] at short ⊢
        obtain ⟨terminal', rest, shown'⟩ := ih gathered' short effects
        refine ⟨terminal', ?_, shown'⟩
        rw [terminalRun, done]
        exact rest

/-- **A terminal shows the transcript of its characters.** For every stream of characters of which
no line installs a name of 49 characters or more, and whatever the stack holds at each of them,
`terminal_input` returns every time, and what it has shown and done is the transcript. -/
theorem terminal_transcript (stream : List (Stack × Char8))
    (short : ∀ command ∈ commandLines (stream.map Prod.snd), ¬ InstallsLong command) :
    ∃ terminal, terminalRun stream TerminalState.start = some terminal ∧
      terminal.effects = transcript (stream.map Prod.snd) := by
  have shown : TerminalState.start.effects = [] ++ terminalWrite (List.take 255 []) := rfl
  exact Gathered.run (gathered_nil _ _) stream short shown

/-- A package with a short name, with a stack full of ones. -/
theorem terminal_transcript_install :
    ∃ terminal, terminalRun ((literal "cpm install abc\n").map fun c =>
        (⟨fun _ => 1, fun _ => 1⟩, c)) TerminalState.start = some terminal ∧
      terminal.effects = transcript (literal "cpm install abc\n") := by
  obtain ⟨terminal, returned, effects⟩ := terminal_transcript
    ((literal "cpm install abc\n").map fun c => (⟨fun _ => 1, fun _ => 1⟩, c)) (by
      have lines : commandLines (((literal "cpm install abc\n").map fun c =>
          ((⟨fun _ => 1, fun _ => 1⟩, c) : Stack × Char8)).map Prod.snd) =
            [literal "cpm install abc"] := by decide
      have found : words 32 (literal "cpm install abc") =
          [literal "cpm", literal "install", literal "abc"] := by decide
      rw [lines]
      refine List.forall_mem_singleton.mpr ?_
      rintro ⟨name, rest, same, long⟩
      rw [found] at same
      obtain rfl : literal "abc" = name :=
        (List.cons_eq_cons.mp (List.cons_eq_cons.mp (List.cons_eq_cons.mp same).2).2).1
      exact absurd long (by decide))
  refine ⟨terminal, returned, effects.trans ?_⟩
  rw [List.map_map]
  exact congrArg transcript (List.map_id _)

end CocosOS.Terminal
