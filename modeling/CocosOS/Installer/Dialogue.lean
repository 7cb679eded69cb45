import CocosOS.Library.CScan

/-!
# The dialogue of the installer

The installer asks for a language until an empty line comes, and then for an action until the line
is `install` or `exit`. It reads with `fgets` into 32 bytes, so a line of 31 characters or more
comes in pieces, and each piece is taken for an answer: a line whose length is a multiple of 31
ends the choice of the language, and `install` behind 31 other characters installs.

For every sequence of typed lines it is told when the disk is formatted, and for which language
(`installs_iff`).
-/

set_option autoImplicit false

namespace CocosOS.Installer

open Library.CString

/-! ## The source -/

/-- The choice of the language in `main`, from what the calls of `fgets` read. It ends with an empty
line, and not at all where nothing is left to read. -/
def elegirIdioma : ℕ → List Chars → Option (ℕ × List Chars)
  | _, [] => none
  | idioma, input :: rest =>
    let idioma := if input.head? = some 119 ∧ idioma > 0 then idioma - 1 else idioma
    let idioma := if input.head? = some 115 ∧ idioma < 9 then idioma + 1 else idioma
    if input.head? = some 10 then some (idioma, rest) else elegirIdioma idioma rest

/-- `input[strcspn(input, "\n")] = 0`, as a string. -/
def answer (input : Chars) : Chars := input.takeWhile fun c => c ≠ 10 ∧ c ≠ 0

/-- The choice of the action. The installer installs, or it exits. -/
def elegirAccion : List Chars → Option Bool
  | [] => none
  | input :: rest =>
    if answer input = literal "install" then some true
    else if answer input = literal "exit" then some false
    else elegirAccion rest

def INSTALL_DIR : Chars := literal "/mnt/cocosos"

/-- The lines that `start_installation` gives to the shell. -/
def startInstallation (idioma : ℕ) : List Chars :=
  [literal "mkdir -p /tmp/cocosos_backup",
    literal "umount /dev/sda1 2>/dev/null || true",
    literal "umount /dev/sda2 2>/dev/null || true",
    literal "mkfs.ext4 /dev/sda1 -F",
    literal "mkdir -p " ++ INSTALL_DIR,
    literal "mount /dev/sda1 " ++ INSTALL_DIR,
    literal "cp -r /usr/share/cocosos/* " ++ INSTALL_DIR ++ literal "/ 2>/dev/null || true",
    literal "grub-install --root-directory=" ++ INSTALL_DIR ++
      literal " /dev/sda 2>/dev/null || true",
    literal "echo 'cocosos' > " ++ INSTALL_DIR ++ literal "/etc/hostname",
    literal "echo '" ++ decimal idioma ++ literal "' > " ++ INSTALL_DIR ++
      literal "/etc/language",
    literal "umount " ++ INSTALL_DIR]

/-- The lines for the shell that `main` comes to, for what is typed. -/
def installerMain (stdin : Chars) : List Chars :=
  match elegirIdioma 0 (fgetsLines 31 [] stdin) with
  | none => []
  | some (idioma, rest) =>
    match elegirAccion rest with
    | some true => startInstallation idioma
    | _ => []

/-! ## What was typed -/

/-- Lines, each with its end. -/
def typed (lines : List Chars) : Chars := lines.flatMap (· ++ [10])

/-- The pieces of a line that calls of `fgets` read, where `current` is what the call has read so
far. A last piece is behind the others, and it may be empty. -/
def pieces (limit : ℕ) : Chars → Chars → List Chars
  | current, [] => [current]
  | current, c :: rest =>
    if current.length + 1 = limit then (current ++ [c]) :: pieces limit [] rest
    else pieces limit (current ++ [c]) rest

/-- The answers that the installer sees. -/
def answers (lines : List Chars) : List Chars := lines.flatMap (pieces 31 [])

/-- What an answer does to the choice: `w` goes up in the list, and `s` goes down. -/
def mover (idioma : ℕ) (answer : Chars) : ℕ :=
  if answer.head? = some 119 then idioma - 1
  else if answer.head? = some 115 ∧ idioma < 9 then idioma + 1
  else idioma

/-- The characters of a line: no end of a line, and no zero. -/
def Plain (line : Chars) : Prop := 10 ∉ line ∧ 0 ∉ line

theorem Plain.answer {line : Chars} (plain : Plain line) (rest : Chars)
    (ends : ∀ c, rest.head? = some c → c = 10) : answer (line ++ rest) = line := by
  have inside : ∀ c ∈ line, decide (c ≠ 10 ∧ c ≠ 0) = true := fun c member =>
    decide_eq_true ⟨fun same => plain.1 (same ▸ member), fun same => plain.2 (same ▸ member)⟩
  rw [Installer.answer, List.takeWhile_append_of_pos inside]
  cases rest with
  | nil => rw [List.takeWhile_nil, List.append_nil]
  | cons c rest =>
      rw [ends c rfl, List.takeWhile_cons_of_neg (by simp), List.append_nil]

/-- The texts that `fgets` reads of a line, and where each begins: with its first character, or with
the end of the line. -/
theorem fgetsLines_pieces {limit : ℕ} (positive : 1 < limit) {line : Chars} (plain : Plain line)
    (rest : Chars) {current : Chars} (plain' : Plain current) (short : current.length < limit) :
    ∃ inputs, fgetsLines limit current (line ++ 10 :: rest) =
        inputs ++ fgetsLines limit [] rest ∧
      inputs.map answer = pieces limit current line ∧
      ∀ input ∈ inputs, input.head? = some ((answer input).headD 10) := by
  induction line generalizing current with
  | nil =>
      have text : answer (current ++ [10]) = current :=
        plain'.answer [10] fun c same => (Option.some.inj same).symm
      refine ⟨[current ++ [10]], ?_, ?_, ?_⟩
      · rw [List.nil_append, fgetsLines, if_pos (.inl rfl)]
        rfl
      · rw [List.map_singleton, text]
        rfl
      · refine List.forall_mem_singleton.mpr ?_
        rw [text]
        cases current <;> rfl
  | cons c line ih =>
      have other : c ≠ 10 := fun same => plain.1 (same ▸ List.mem_cons_self)
      have here : Plain (current ++ [c]) := by
        refine ⟨fun member => ?_, fun member => ?_⟩
        · rcases List.mem_append.mp member with before | last
          · exact plain'.1 before
          · exact other (List.mem_singleton.mp last).symm
        · rcases List.mem_append.mp member with before | last
          · exact plain'.2 before
          · exact plain.2 (List.mem_singleton.mp last ▸ List.mem_cons_self)
      have later : Plain line := ⟨List.not_mem_of_not_mem_cons plain.1,
        List.not_mem_of_not_mem_cons plain.2⟩
      by_cases full : current.length + 1 = limit
      · obtain ⟨inputs, reads, texts, heads⟩ :=
          ih later ⟨List.not_mem_nil, List.not_mem_nil⟩ (Nat.lt_trans Nat.zero_lt_one positive)
        have text : answer (current ++ [c]) = current ++ [c] := by
          have whole := here.answer [] fun _ none => absurd none (Option.some_ne_none _).symm
          rwa [List.append_nil] at whole
        refine ⟨(current ++ [c]) :: inputs, ?_, ?_, ?_⟩
        · rw [List.cons_append, fgetsLines, if_pos (.inr full), reads]
          rfl
        · rw [List.map_cons, text, texts, pieces, if_pos full]
        · refine List.forall_mem_cons.mpr ⟨?_, heads⟩
          rw [text]
          cases current <;> rfl
      · obtain ⟨inputs, reads, texts, heads⟩ := ih later here (by
          rw [List.length_append, List.length_singleton]
          omega)
        have goes : ¬ (c = 10 ∨ current.length + 1 = limit) := not_or_intro other full
        refine ⟨inputs, ?_, ?_, heads⟩
        · rw [List.cons_append, fgetsLines, if_neg goes, reads]
        · rw [texts, pieces, if_neg full]

/-- What the installer reads are the answers, and each begins as it was typed. -/
theorem fgetsLines_typed {lines : List Chars} (plain : ∀ line ∈ lines, Plain line) :
    (fgetsLines 31 [] (typed lines)).map answer = answers lines ∧
      ∀ input ∈ fgetsLines 31 [] (typed lines),
        input.head? = some ((answer input).headD 10) := by
  induction lines with
  | nil => exact ⟨rfl, fun _ none => absurd none List.not_mem_nil⟩
  | cons line lines ih =>
      obtain ⟨same, heads⟩ := ih fun other member => plain other (List.mem_cons_of_mem _ member)
      obtain ⟨inputs, reads, texts, first⟩ := fgetsLines_pieces (by decide : 1 < 31)
        (plain line List.mem_cons_self) (typed lines) ⟨List.not_mem_nil, List.not_mem_nil⟩
        (by decide)
      have split : typed (line :: lines) = line ++ 10 :: typed lines := by
        rw [typed, List.flatMap_cons, List.append_assoc]
        rfl
      rw [split, reads]
      refine ⟨?_, fun input member => ?_⟩
      · rw [List.map_append, texts, same, answers, answers, List.flatMap_cons]
      · exact (List.mem_append.mp member).elim (first input) (heads input)

/-! ## The two choices -/

/-- An input begins as its answer, or with the end of the line. -/
def Begins (input : Chars) : Prop := input.head? = some ((answer input).headD 10)

theorem newline_notMem_answer (input : Chars) : 10 ∉ answer input := by
  intro member
  have kept := List.mem_takeWhile_imp member
  simp at kept

theorem mover_le {idioma : ℕ} (small : idioma ≤ 9) (answer : Chars) : mover idioma answer ≤ 9 := by
  rw [mover]
  split_ifs <;> omega

/-- One round of the choice of the language. -/
theorem elegirIdioma_cons {input : Chars} (begins : Begins input) (idioma : ℕ)
    (rest : List Chars) : elegirIdioma idioma (input :: rest) =
      if answer input = [] then some (idioma, rest)
      else elegirIdioma (mover idioma (answer input)) rest := by
  rw [elegirIdioma]
  cases text : answer input with
  | nil =>
      have first : input.head? = some 10 := by
        rw [begins, text]
        rfl
      simp [first]
  | cons c more =>
      have first : input.head? = some c := by
        rw [begins, text]
        rfl
      have other : c ≠ 10 := fun same =>
        newline_notMem_answer input (text ▸ same ▸ List.mem_cons_self)
      have up : mover idioma (c :: more) =
          if c = 115 ∧ (if c = 119 ∧ idioma > 0 then idioma - 1 else idioma) < 9 then
            (if c = 119 ∧ idioma > 0 then idioma - 1 else idioma) + 1
          else if c = 119 ∧ idioma > 0 then idioma - 1 else idioma := by
        have differ : (119 : BitVec 8) ≠ 115 := by decide
        rw [mover, List.head?_cons]
        simp only [Option.some.injEq]
        by_cases w : c = 119
        · subst w
          have same : (if (119 : BitVec 8) = 119 ∧ idioma > 0 then idioma - 1 else idioma) =
              idioma - 1 := by
            by_cases above : idioma > 0
            · rw [if_pos ⟨rfl, above⟩]
            · rw [if_neg fun both => above both.2]
              omega
          rw [if_pos rfl, if_neg fun both => differ both.1, same]
        · simp only [w, false_and, if_false]
      simp only [first, Option.some.injEq, other, if_false, List.cons_ne_nil, up]

/-- **The choice of the language** ends at the first empty answer. -/
theorem elegirIdioma_eq_some_iff {inputs : List Chars} (begins : ∀ input ∈ inputs, Begins input)
    {idioma elegido : ℕ} {rest : List Chars} :
    elegirIdioma idioma inputs = some (elegido, rest) ↔ ∃ front input,
      inputs = front ++ input :: rest ∧ [] ∉ front.map answer ∧ answer input = [] ∧
        elegido = (front.map answer).foldl mover idioma := by
  induction inputs generalizing idioma with
  | nil =>
      refine iff_of_false (Option.some_ne_none _).symm ?_
      rintro ⟨front, input, split, -⟩
      exact absurd split (List.append_ne_nil_of_right_ne_nil _ (List.cons_ne_nil _ _)).symm
  | cons input inputs ih =>
      have more (idioma : ℕ) := @ih (fun other member => begins other
        (List.mem_cons_of_mem _ member)) idioma
      rw [elegirIdioma_cons (begins input List.mem_cons_self)]
      by_cases empty : answer input = []
      · rw [if_pos empty]
        constructor
        · intro same
          obtain ⟨rfl, rfl⟩ := Prod.mk.inj (Option.some.inj same)
          exact ⟨[], input, rfl, List.not_mem_nil, empty, rfl⟩
        · rintro ⟨front, other, split, none, -, rfl⟩
          cases front with
          | nil =>
              obtain ⟨-, rfl⟩ := List.cons.inj split
              rfl
          | cons first front =>
              obtain ⟨rfl, -⟩ := List.cons.inj split
              rw [List.map_cons, empty] at none
              exact absurd List.mem_cons_self none
      · rw [if_neg empty, more]
        constructor
        · rintro ⟨front, other, rfl, none, last, rfl⟩
          refine ⟨input :: front, other, rfl, ?_, last, rfl⟩
          exact List.not_mem_cons_of_ne_of_not_mem (Ne.symm empty) none
        · rintro ⟨front, other, split, none, last, rfl⟩
          cases front with
          | nil =>
              obtain ⟨rfl, -⟩ := List.cons.inj split
              exact absurd last empty
          | cons first front =>
              obtain ⟨rfl, rfl⟩ := List.cons.inj split
              exact ⟨front, other, rfl, List.not_mem_of_not_mem_cons none, last, rfl⟩

/-- **The choice of the action** is the first answer that is one. -/
theorem elegirAccion_eq_true_iff {inputs : List Chars} :
    elegirAccion inputs = some true ↔ ∃ middle back,
      inputs.map answer = middle ++ literal "install" :: back ∧
        literal "install" ∉ middle ∧ literal "exit" ∉ middle := by
  induction inputs with
  | nil =>
      refine iff_of_false (Option.some_ne_none _).symm ?_
      rintro ⟨middle, back, split, -⟩
      exact absurd split (List.append_ne_nil_of_right_ne_nil _ (List.cons_ne_nil _ _)).symm
  | cons input inputs ih =>
      rw [elegirAccion, List.map_cons]
      by_cases install : answer input = literal "install"
      · rw [if_pos install]
        refine iff_of_true rfl ⟨[], inputs.map answer, ?_, List.not_mem_nil, List.not_mem_nil⟩
        rw [install, List.nil_append]
      · rw [if_neg install]
        by_cases exit : answer input = literal "exit"
        · rw [if_pos exit]
          refine iff_of_false (by decide) ?_
          rintro ⟨middle, back, split, -, none⟩
          cases middle with
          | nil => exact install (List.cons.inj split).1
          | cons first middle =>
              rw [← (List.cons.inj split).1, exit] at none
              exact none List.mem_cons_self
        · rw [if_neg exit, ih]
          constructor
          · rintro ⟨middle, back, split, noInstall, noExit⟩
            refine ⟨answer input :: middle, back, ?_, ?_, ?_⟩
            · rw [split, List.cons_append]
            · exact List.not_mem_cons_of_ne_of_not_mem (Ne.symm install) noInstall
            · exact List.not_mem_cons_of_ne_of_not_mem (Ne.symm exit) noExit
          · rintro ⟨middle, back, split, noInstall, noExit⟩
            cases middle with
            | nil => exact absurd (List.cons.inj split).1 install
            | cons first middle =>
                exact ⟨middle, back, (List.cons.inj split).2,
                  List.not_mem_of_not_mem_cons noInstall, List.not_mem_of_not_mem_cons noExit⟩

/-! ## When the disk is formatted -/

/-- The answers come to an installation in this language: there is an empty one, the answers before
choose the language, and of those behind it `install` comes before any `exit`. -/
def Installs (answers : List Chars) (idioma : ℕ) : Prop :=
  ∃ front middle back, answers = front ++ [] :: (middle ++ literal "install" :: back) ∧
    [] ∉ front ∧ literal "install" ∉ middle ∧ literal "exit" ∉ middle ∧
      idioma = front.foldl mover 0

theorem mover_foldl_le (answers : List Chars) {idioma : ℕ} (small : idioma ≤ 9) :
    answers.foldl mover idioma ≤ 9 := by
  induction answers generalizing idioma with
  | nil => exact small
  | cons answer answers ih => exact ih (mover_le small answer)

/-- An installation is what the two choices come to. -/
theorem installs_iff_choices {inputs : List Chars} (begins : ∀ input ∈ inputs, Begins input)
    {idioma : ℕ} : Installs (inputs.map answer) idioma ↔ ∃ rest,
      elegirIdioma 0 inputs = some (idioma, rest) ∧ elegirAccion rest = some true := by
  constructor
  · rintro ⟨front, middle, back, split, none, noInstall, noExit, rfl⟩
    obtain ⟨before, behind, rfl, rfl, later⟩ := List.map_eq_append_iff.mp split
    obtain ⟨input, rest, rfl, empty, last⟩ := List.map_eq_cons_iff.mp later
    refine ⟨rest, (elegirIdioma_eq_some_iff begins).mpr ⟨before, input, rfl, none, empty, rfl⟩, ?_⟩
    exact elegirAccion_eq_true_iff.mpr ⟨middle, back, last, noInstall, noExit⟩
  · rintro ⟨rest, language, action⟩
    obtain ⟨before, input, rfl, none, empty, rfl⟩ := (elegirIdioma_eq_some_iff begins).mp language
    obtain ⟨middle, back, last, noInstall, noExit⟩ := elegirAccion_eq_true_iff.mp action
    refine ⟨before.map answer, middle, back, ?_, none, noInstall, noExit, rfl⟩
    rw [List.map_append, List.map_cons, empty, last]

/-- The language can be read in the lines for the shell. -/
theorem startInstallation_injective : Function.Injective startInstallation := by
  intro idioma other same
  have line : literal "echo '" ++ decimal idioma ++ literal "' > " ++ INSTALL_DIR ++
      literal "/etc/language" = literal "echo '" ++ decimal other ++ literal "' > " ++
        INSTALL_DIR ++ literal "/etc/language" := by
    have ninth := congrArg (·[9]?) same
    exact Option.some.inj ninth
  simp only [List.append_assoc, List.append_cancel_left_eq] at line
  have digits : decimal idioma = decimal other := List.append_cancel_right line
  rw [← decimalValue_decimal idioma, digits, decimalValue_decimal]

/-- **When the disk is formatted**: `main` comes to the lines of an installation in a language just
when the answers do, and the language is one of the ten; and else it comes to none. -/
theorem installs_iff {lines : List Chars} (plain : ∀ line ∈ lines, Plain line) :
    (∀ idioma, installerMain (typed lines) = startInstallation idioma ↔
      Installs (answers lines) idioma) ∧
    (installerMain (typed lines) ≠ [] ↔ ∃ idioma < 10, Installs (answers lines) idioma) := by
  obtain ⟨same, begins⟩ := fgetsLines_typed plain
  have choices {idioma : ℕ} := @installs_iff_choices _ begins idioma
  rw [same] at choices
  have comes {idioma : ℕ} (installs : Installs (answers lines) idioma) :
      installerMain (typed lines) = startInstallation idioma := by
    obtain ⟨rest, language, action⟩ := choices.mp installs
    simp only [installerMain, language, action]
  have came (some : installerMain (typed lines) ≠ []) : ∃ idioma,
      Installs (answers lines) idioma := by
    rw [installerMain] at some
    cases language : elegirIdioma 0 (fgetsLines 31 [] (typed lines)) with
    | none => simp [language] at some
    | some choice =>
        cases action : elegirAccion choice.2 with
        | none => simp [language, action] at some
        | some installs =>
            cases installs with
            | false => simp [language, action] at some
            | true => exact ⟨choice.1, choices.mpr ⟨choice.2, language, action⟩⟩
  refine ⟨fun idioma => ⟨fun ends => ?_, comes⟩, fun some => ?_, ?_⟩
  · obtain ⟨chosen, installs⟩ := came (ends ▸ List.cons_ne_nil _ _)
    rwa [← startInstallation_injective ((comes installs).symm.trans ends)]
  · obtain ⟨idioma, installs⟩ := came some
    refine ⟨idioma, ?_, installs⟩
    obtain ⟨front, -, -, -, -, -, -, rfl⟩ := installs
    exact Nat.lt_succ_of_le (mover_foldl_le front (Nat.zero_le 9))
  · rintro ⟨idioma, -, installs⟩
    rw [comes installs]
    exact List.cons_ne_nil _ _

/-- `install` behind other characters. -/
theorem installs_behind_others :
    installerMain (typed [literal "s", [], List.replicate 31 120 ++ literal "install"]) =
      startInstallation 1 := by
  have plain : ∀ line ∈ [literal "s", [], List.replicate 31 120 ++ literal "install"],
      Plain line := by
    unfold Plain
    decide
  refine ((installs_iff plain).1 1).mpr ⟨[literal "s"], [List.replicate 31 120], [], ?_⟩
  exact ⟨by decide, by decide, by decide, by decide, by decide⟩

end CocosOS.Installer
