import CocosOS.Apps.StoreInstall
import CocosOS.Library.FilePath

/-!
# Where the store writes

The name of an app is put into paths and into lines for the shell as it is. A name that is a single
plain name of ordinary characters leads to its own directory, and the shell runs one command on it.
Names that go up, or that the shell takes apart, lead elsewhere.

In a run in which every name that is found is such a name, everything stays in the directory of the
name, or is the list of installed apps (`store_confined`).
-/

set_option autoImplicit false

namespace CocosOS.Apps.Store

open Library.CString Library.Lua
open Library.FilePath hiding Text

variable {N : Type}

/-! ## The shell -/

/-- The characters that a shell does not leave as they are in the middle of a word, and the zero,
which ends the line. The braces are among them, since bash expands them; a comma means something
between braces only. -/
def special : Text := 0 :: literal "|&;<>()$`\\\"' \t\n*?[\x7b\x7d"

def Ordinary (text : Text) : Prop := ∀ c ∈ text, c ∉ special

/-- `mkdir -p` on a directory. -/
def mkdir (directory : Text) : List Text := [literal "mkdir", literal "-p", directory]

/-- `rm -rf` on a directory. -/
def rm (directory : Text) : List Text := [literal "rm", literal "-rf", directory]

/-- The commands that the shell runs for a line, by their words, and what a line does to the files.
Ordinary words behind a command are its arguments. To make a directory changes no file, and to
remove one does not write any. -/
structure Posix (runs : Text → List (List Text)) (shell : Text → Files → Files) : Prop where
  mkdir : ∀ directory, Ordinary directory →
    runs (literal "mkdir -p " ++ slash :: directory) = [Store.mkdir (slash :: directory)]
  rm : ∀ directory, Ordinary directory →
    runs (literal "rm -rf " ++ slash :: directory) = [Store.rm (slash :: directory)]
  mkdir_files : ∀ line directory, runs line = [Store.mkdir directory] →
    ∀ files, shell line files = files
  rm_files : ∀ line directory, runs line = [Store.rm directory] →
    ∀ files path, shell line files path = files path ∨ shell line files path = none

/-! ## Commands -/

inductive Orden where
  | get
  | remove

/-- `cpm get` or `cpm remove` with a name. -/
structure Comando where
  orden : Orden
  name : Text
  env : Environment

/-- What `ejecutarComando` calls. -/
def Comando.program (system : System N) (comando : Comando) : Script Disk Bool :=
  match comando.orden with
  | .get => instalarApp system comando.env comando.name
  | .remove => desinstalarApp system comando.env comando.name

/-- `ejecutarComando`. The effects are those of the command itself; the line that `initDirs` runs
in front of it, `mkdir -p /TiendaApps/`, is left out of them. -/
def ejecutarComando (system : System N) (comando : Comando) (files : Files) : Disk :=
  (comando.program system ⟨(initDirs system ⟨files, []⟩).2.files, []⟩).2

/-- The files behind a run of commands, the first one first. -/
def storeRun (system : System N) (comandos : List Comando) (files : Files) : Files :=
  comandos.foldl (fun files comando => (ejecutarComando system comando files).files) files

/-! ## What stays inside -/

def tienda : Text := literal "TiendaApps"

/-- The path leads from the root to where these names say. -/
def LeadsTo (path : Text) (place : List Text) : Prop :=
  path.head? = some slash ∧ resolve path = place

/-- A file is the list of installed apps or below the directory of the name, and a line for the
shell runs one command on this directory. -/
def Confined (runs : Text → List (List Text)) (name : Text) : Effect → Prop
  | .write path => LeadsTo path [tienda, literal "installed.json"] ∨
      ∃ file below, LeadsTo path (tienda :: name :: file :: below)
  | .execute line => ∃ directory,
      (runs line = [mkdir directory] ∨ runs line = [rm directory]) ∧
        LeadsTo directory [tienda, name]

/-- A single name of ordinary characters that goes down. -/
def Clean (name : Text) : Prop := Plain name ∧ Ordinary name

/-- The command finds the app of its name. -/
def Comando.Finds (system : System N) (files : Files) (comando : Comando) : Prop :=
  match comando.orden with
  | .get => comando.env.readsRepo ∧ (appOf system comando.name files).isSome
  | .remove => comando.env.readsInstalled ∧ truthy (records system files comando.name) = true

/-- Each record has the path of its app. -/
def PathsOf (instaladas : Value N) : Prop :=
  ∀ name app, instaladas.fields name = some app → truthy (some app) = true →
    index (some app) (some (literal "path")) = some (some (.string (appPath name)))

/-- In `installed.json` each record has the path of its app. -/
def PathsKept (system : System N) (files : Files) : Prop :=
  PathsOf (loadJson system.json (files installedJson))

/-! ## Clean names -/

theorem appPath_eq (name : Text) : appPath name = path [tienda, name] ++ [slash] := by
  simp [appPath, path, tiendaPath, tienda, literal, slash]

theorem plain_tienda : Plain tienda := ⟨by decide, by decide, by decide, by decide⟩

namespace Clean

variable {name : Text} (clean : Clean name)
include clean

theorem leadsTo_appPath : LeadsTo (appPath name) [tienda, name] := by
  refine ⟨rfl, ?_⟩
  rw [appPath_eq]
  refine resolve_path ?_ fun c member => List.mem_singleton.mp member
  simpa using ⟨plain_tienda, clean.1⟩

theorem leadsTo_file {file : Text} (plain : Plain file) :
    LeadsTo (appPath name ++ file) [tienda, name, file] := by
  refine ⟨rfl, ?_⟩
  have same : appPath name ++ file = path [tienda, name, file] ++ [] := by
    simp [appPath_eq, path]
  rw [same]
  refine resolve_path ?_ fun c none => absurd none List.not_mem_nil
  simpa using ⟨plain_tienda, clean.1, plain⟩

/-- Behind its slash the path has ordinary characters only. -/
theorem ordinary : ∃ directory, appPath name = slash :: directory ∧ Ordinary directory := by
  refine ⟨literal "TiendaApps/" ++ name ++ literal "/", rfl, fun c member => ?_⟩
  rw [List.mem_append, List.mem_append] at member
  rcases member with (first | middle) | last
  · revert c
    decide
  · exact clean.2 c middle
  · revert c
    decide

end Clean

/-! ## What a step keeps -/

/-- What was done is confined, and each record has the path of its app. -/
structure Good (system : System N) (runs : Text → List (List Text)) (name : Text) (disk : Disk) :
    Prop where
  effects : ∀ effect ∈ disk.effects, Confined runs name effect
  paths : PathsKept system disk.files

theorem PathsOf.empty : PathsOf (Value.empty : Value N) := fun _ _ none => absurd none nofun

section

variable {system : System N} {runs : Text → List (List Text)} {name : Text}

/-- One more effect that is confined. -/
theorem Good.effect {disk : Disk} {effect : Effect} {files : Files}
    (good : Good system runs name disk) (confined : Confined runs name effect)
    (paths : PathsKept system files) : Good system runs name ⟨files, disk.effects ++ [effect]⟩ where
  effects other member := by
    rcases List.mem_append.mp member with old | new
    · exact good.effects other old
    · rw [List.mem_singleton.mp new]
      exact confined
  paths := paths

/-- A file may be gone. -/
theorem PathsKept.gone {files files' : Files} (paths : PathsKept system files)
    (same : files' installedJson = files installedJson ∨ files' installedJson = none) :
    PathsKept system files' := by
  rcases same with same | gone
  · rw [PathsKept, same]
    exact paths
  · rw [PathsKept, gone]
    exact .empty

theorem keeps_mkdir (posix : Posix runs system.shell) (clean : Clean name) :
    Script.Keeps (Good system runs name) (execute system (literal "mkdir -p " ++ appPath name))
      fun _ => True := by
  obtain ⟨directory, same, ordinary⟩ := clean.ordinary
  have runs := posix.mkdir directory ordinary
  rw [← same] at runs
  refine fun disk good => ⟨good.effect ⟨_, .inl runs, clean.leadsTo_appPath⟩ ?_, fun _ _ => trivial⟩
  rw [posix.mkdir_files _ _ runs]
  exact good.paths

theorem keeps_rm (posix : Posix runs system.shell) (clean : Clean name) :
    Script.Keeps (Good system runs name) (execute system (literal "rm -rf " ++ appPath name))
      fun _ => True := by
  obtain ⟨directory, same, ordinary⟩ := clean.ordinary
  have runs := posix.rm directory ordinary
  rw [← same] at runs
  exact fun disk good => ⟨good.effect ⟨_, .inr runs, clean.leadsTo_appPath⟩
    (good.paths.gone (posix.rm_files _ _ runs _ _)), fun _ _ => trivial⟩

theorem keeps_file (clean : Clean name) {file : Text} (plain : Plain file) (opens : Bool)
    (text : Option Text) : Script.Keeps (Good system runs name)
      (escribir opens (appPath name ++ file) text) fun _ => True := by
  refine fun disk good => ⟨?_, fun _ _ => trivial⟩
  cases opens with
  | false => exact good
  | true =>
      refine good.effect (.inr ⟨file, [], clean.leadsTo_file plain⟩) (good.paths.gone (.inl ?_))
      exact Function.update_of_ne (appPath_ne name file).symm _ _

theorem keeps_installed (lawful : system.json.Lawful) (opens : Bool) {instaladas : Value N}
    (paths : PathsOf instaladas) : Script.Keeps (Good system runs name)
      (guardarArchivo system opens installedJson instaladas) fun _ => True := by
  refine fun disk good => ⟨?_, fun _ _ => trivial⟩
  cases opens with
  | false => exact good
  | true =>
      have place : LeadsTo installedJson [tienda, literal "installed.json"] :=
        ⟨by decide, by decide⟩
      refine good.effect (.inl place) ?_
      rw [PathsKept, Function.update_self, loadJson, Option.bind_some]
      cases encodes : system.json.encode instaladas with
      | none =>
          rw [Option.getD_none, lawful.decode_nil]
          exact .empty
      | some text =>
          rw [Option.getD_some, lawful.decode_encode _ _ encodes]
          dsimp only
          split_ifs
          · exact paths
          · exact .empty

theorem keeps_cargar (opens : Bool) : Script.Keeps (Good system runs name)
    (cargarArchivo system opens installedJson) PathsOf := by
  refine fun disk good => ⟨good, fun instaladas loaded => ?_⟩
  obtain rfl := Option.some.inj loaded
  cases opens with
  | false => exact .empty
  | true => exact good.paths

/-- The record of an app has its path. -/
theorem PathsOf.install {instaladas instaladas' : Value N} (paths : PathsOf instaladas)
    {version : Option (Value N)} {date : Text} (added : setField instaladas name
      (some (record version date name)) = some instaladas') : PathsOf instaladas' := by
  obtain ⟨named, numbered, rfl, rfl⟩ := setField_eq_some_iff.mp added
  intro other app here true
  rw [Value.fields_table, Function.update_apply] at here
  split_ifs at here with same
  · rw [← Option.some.inj here, same]
    rfl
  · exact paths other app here true

theorem PathsOf.uninstall {instaladas instaladas' : Value N} (paths : PathsOf instaladas)
    (removed : setField instaladas name none = some instaladas') : PathsOf instaladas' := by
  obtain ⟨named, numbered, rfl, rfl⟩ := setField_eq_some_iff.mp removed
  intro other app here true
  rw [Value.fields_table, Function.update_apply] at here
  split_ifs at here
  exact paths other app here true

/-- **To install an app with a clean name keeps what is good.** -/
theorem keeps_instalar (posix : Posix runs system.shell) (lawful : system.json.Lawful)
    (clean : Clean name) (env : Environment) (app : Value N) :
    Script.Keeps (Good system runs name) (instalar system env name app) fun _ => True := by
  rw [instalar]
  refine (keeps_mkdir posix clean).bind fun _ _ => ?_
  refine (keeps_file clean ⟨by decide, by decide, by decide, by decide⟩ _ _).bind fun _ _ => ?_
  refine (keeps_file clean ⟨by decide, by decide, by decide, by decide⟩ _ _).bind fun _ _ => ?_
  refine (keeps_cargar _).bind fun instaladas paths => ?_
  refine (Script.Keeps.ofOption fun _ _ => trivial).bind fun version _ => ?_
  refine (Script.Keeps.ofOption fun _ added => paths.install added).bind
    fun instaladas' paths' => ?_
  refine (keeps_installed lawful _ paths').bind fun _ _ => ?_
  refine (Script.Keeps.ofOption fun _ _ => trivial).bind fun _ _ => ?_
  exact Script.Keeps.pure trivial

/-- **To remove an app with a clean name and its path keeps what is good.** -/
theorem keeps_desinstalar (posix : Posix runs system.shell) (lawful : system.json.Lawful)
    (clean : Clean name) (env : Environment) {instaladas app : Value N} (paths : PathsOf instaladas)
    (here : index (some app) (some (literal "path")) = some (some (.string (appPath name)))) :
    Script.Keeps (Good system runs name) (desinstalar system env name instaladas app)
      fun _ => True := by
  rw [desinstalar, here]
  refine (Script.Keeps.ofOption fun _ same => (Option.some.inj same).symm).bind fun path found => ?_
  subst found
  refine (Script.Keeps.ofOption fun _ same => (Option.some.inj same).symm).bind fun path found => ?_
  subst found
  refine (keeps_rm posix clean).bind fun _ _ => ?_
  refine (Script.Keeps.ofOption fun _ removed => paths.uninstall removed).bind
    fun instaladas' paths' => ?_
  refine (keeps_installed lawful _ paths').bind fun _ _ => ?_
  exact Script.Keeps.pure trivial

/-! ## Commands that find nothing, and commands that find an app -/

theorem desinstalarApp_eq (env : Environment) (disk : Disk) :
    desinstalarApp system env name disk =
      (index (some (loadJson system.json (if env.readsInstalled then disk.files installedJson
        else none))) (some name)).elim (none, disk) fun app =>
          (match app with
            | none | some (.bool false) => pure false
            | some app => desinstalar system env name (loadJson system.json
                (if env.readsInstalled then disk.files installedJson else none)) app :
            Script Disk Bool) disk := by
  rw [desinstalarApp]
  refine (Script.bind_of_some rfl _).trans ?_
  refine (Script.ofOption_bind _ _ _).trans (congrArg (Option.elim _ _) (funext fun app => ?_))
  rcases app with _ | ⟨_ | _⟩ | _ | _ | _ | _ <;> rfl

theorem desinstalarApp_quiet {env : Environment} {disk : Disk}
    (missing : ¬ (env.readsInstalled ∧ truthy (records system disk.files name) = true)) :
    (desinstalarApp system env name disk).2 = disk := by
  rw [desinstalarApp_eq]
  cases reads : env.readsInstalled with
  | false => rfl
  | true =>
      have none : ¬ truthy (records system disk.files name) = true := fun here =>
        missing ⟨reads, here⟩
      rw [if_pos rfl]
      rw [records] at none
      generalize loadJson system.json (disk.files installedJson) = loaded at none ⊢
      cases loaded with
      | table named numbered =>
          rw [Value.fields_table] at none
          rw [index_table, Option.elim_some]
          generalize named name = app at none ⊢
          rcases app with _ | ⟨_ | _⟩ | _ | _ | _ | _
          · rfl
          · rfl
          all_goals exact absurd rfl none
      | string text =>
          -- a string has no records, and its methods have no path
          by_cases method : name ∈ stringLibrary
          · rw [index, if_pos method]
            rfl
          · rw [index_string method]
            rfl
      | bool value => rfl
      | number value => rfl
      | method text => rfl

theorem desinstalarApp_found {env : Environment} {disk : Disk} (reads : env.readsInstalled = true)
    (here : truthy (records system disk.files name) = true) :
    ∃ app, records system disk.files name = some app ∧ desinstalarApp system env name disk =
      desinstalar system env name (loadJson system.json (disk.files installedJson)) app disk := by
  rw [desinstalarApp_eq, reads, if_pos rfl]
  rw [records] at here ⊢
  generalize loadJson system.json (disk.files installedJson) = loaded at here ⊢
  cases loaded with
  | table named numbered =>
      rw [Value.fields_table] at here ⊢
      rw [index_table, Option.elim_some]
      generalize named name = app at here ⊢
      rcases app with _ | ⟨_ | _⟩ | _ | _ | _ | _
      · exact absurd here nofun
      · exact absurd here nofun
      all_goals exact ⟨_, rfl, rfl⟩
  | string text => exact absurd here nofun
  | bool value => exact absurd here nofun
  | number value => exact absurd here nofun
  | method text => exact absurd here nofun

/-- **A command keeps what is good, if it finds nothing or its name is clean.** -/
theorem good_program (posix : Posix runs system.shell) (lawful : system.json.Lawful)
    {comando : Comando} {disk : Disk} (good : Good system runs comando.name disk)
    (clean : comando.Finds system disk.files → Clean comando.name) :
    Good system runs comando.name (comando.program system disk).2 := by
  obtain ⟨orden, name, env⟩ := comando
  cases orden with
  | get =>
      by_cases found : env.readsRepo ∧ (appOf system name disk.files).isSome
      · obtain ⟨app, here⟩ := Option.isSome_iff_exists.mp found.2
        change Good system runs name (instalarApp system env name disk).2
        rw [instalarApp_some found.1 here]
        exact (keeps_instalar posix lawful (clean found) env app disk good).1
      · have quiet : (instalarApp system env name disk).2 = disk := by
          cases reads : env.readsRepo with
          | false => rw [instalarApp_unread reads]
          | true =>
              refine (instalarApp_none env ?_).2
              exact Option.not_isSome_iff_eq_none.mp fun some => found ⟨reads, some⟩
        change Good system runs name (instalarApp system env name disk).2
        rw [quiet]
        exact good
  | remove =>
      by_cases found : env.readsInstalled ∧ truthy (records system disk.files name) = true
      · obtain ⟨app, here, run⟩ := desinstalarApp_found found.1 found.2
        have path := good.paths name app here (here ▸ found.2)
        change Good system runs name (desinstalarApp system env name disk).2
        rw [run]
        exact (keeps_desinstalar posix lawful (clean found) env good.paths path disk good).1
      · change Good system runs name (desinstalarApp system env name disk).2
        rw [desinstalarApp_quiet found]
        exact good

end

/-! ## Runs -/

section

variable {system : System N} {runs : Text → List (List Text)}

/-- The directory of the store is made without a change to the files. -/
theorem initDirs_files (posix : Posix runs system.shell) (files : Files) :
    (initDirs system ⟨files, []⟩).2.files = files := by
  have ordinary : Ordinary (literal "TiendaApps/") := by
    intro c member
    revert c
    decide
  exact posix.mkdir_files _ _ (posix.mkdir _ ordinary) files

/-- **A step is confined, and the paths are kept.** -/
theorem good_step (posix : Posix runs system.shell) (lawful : system.json.Lawful)
    {comando : Comando} {files : Files} (paths : PathsKept system files)
    (clean : comando.Finds system files → Clean comando.name) :
    Good system runs comando.name (ejecutarComando system comando files) := by
  rw [ejecutarComando, initDirs_files posix]
  exact good_program posix lawful ⟨nofun, paths⟩ clean

theorem storeRun_concat (comandos : List Comando) (comando : Comando) (files : Files) :
    storeRun system (comandos ++ [comando]) files =
      (ejecutarComando system comando (storeRun system comandos files)).files :=
  List.foldl_concat ..

/-- Every command of the run that finds its app has a clean name. -/
def CleanRun (system : System N) (files : Files) (comandos : List Comando) : Prop :=
  ∀ before comando, before ++ [comando] <+: comandos →
    comando.Finds system (storeRun system before files) → Clean comando.name

/-- Every effect of every command of the run is confined. -/
def ConfinedRun (system : System N) (runs : Text → List (List Text)) (files : Files)
    (comandos : List Comando) : Prop :=
  ∀ before comando, before ++ [comando] <+: comandos →
    ∀ effect ∈ (ejecutarComando system comando (storeRun system before files)).effects,
      Confined runs comando.name effect

theorem pathsKept_run (posix : Posix runs system.shell) (lawful : system.json.Lawful)
    {files : Files} (start : PathsKept system files) {comandos : List Comando}
    (clean : CleanRun system files comandos) :
    PathsKept system (storeRun system comandos files) := by
  induction comandos using List.reverseRecOn with
  | nil => exact start
  | append_singleton comandos comando ih =>
      have before := ih fun front other inside =>
        clean front other (inside.trans (List.prefix_append ..))
      rw [storeRun_concat]
      exact (good_step posix lawful before (clean comandos comando List.prefix_rfl)).paths

/-- **In a run in which every name that is found is clean, the store stays in the directories of the
names.** The run starts from files in which each record has the path of its app. -/
theorem store_confined (posix : Posix runs system.shell) (lawful : system.json.Lawful)
    {files : Files} (start : PathsKept system files) {comandos : List Comando}
    (clean : CleanRun system files comandos) : ConfinedRun system runs files comandos := by
  intro before comando inside
  have paths := pathsKept_run posix lawful start fun front other more =>
    clean front other (more.trans ((List.prefix_append ..).trans inside))
  exact (good_step posix lawful paths (clean before comando inside)).effects

end

/-! ## A shell that cuts at the blanks -/

/-- One command, of the words of the line. -/
def cutLine (line : Text) : List (List Text) := [words 32 line]

/-- `rm` removes what is in its directory, and other commands leave the files alone. -/
def runLine (line : Text) (files : Files) : Files :=
  match words 32 line with
  | [command, _, directory] => fun path =>
    if command = literal "rm" ∧ directory <+: path then none else files path
  | _ => files

theorem words_line {directory : Text} (ordinary : Ordinary directory) (command option : Text)
    (first : command ≠ [] ∧ 32 ∉ command) (second : option ≠ [] ∧ 32 ∉ option) :
    words 32 (command ++ 32 :: (option ++ 32 :: slash :: directory)) =
      [command, option, slash :: directory] := by
  have blank : (32 : BitVec 8) ∉ slash :: directory := fun member =>
    (List.mem_cons.mp member).elim (by decide) fun inside => ordinary 32 inside (by decide)
  rw [words_append_cons first.1 first.2, words_append_cons second.1 second.2,
    words_of_notMem (List.cons_ne_nil _ _) blank]

theorem posix_cutLine : Posix cutLine runLine where
  mkdir directory ordinary := congrArg (fun line => [line])
    (words_line ordinary (literal "mkdir") (literal "-p") (by decide) (by decide))
  rm directory ordinary := congrArg (fun line => [line])
    (words_line ordinary (literal "rm") (literal "-rf") (by decide) (by decide))
  mkdir_files line directory runs files := by
    have cut : words 32 line = Store.mkdir directory := List.singleton_inj.mp runs
    have other : literal "mkdir" ≠ literal "rm" := by decide
    funext path
    rw [runLine, cut]
    exact if_neg fun both => other both.1
  rm_files line directory runs files path := by
    have cut : words 32 line = Store.rm directory := List.singleton_inj.mp runs
    rw [runLine, cut]
    by_cases inside : directory <+: path
    · exact .inr (if_pos ⟨rfl, inside⟩)
    · exact .inl (if_neg fun both => inside both.2)

noncomputable def relojShell : System ℕ := ⟨.known relojTexts, fun _ => [], runLine⟩

/-- An app is installed and removed. -/
theorem reloj_confined :
    let env : Environment := ⟨true, true, true, true, true, minute⟩
    ConfinedRun relojShell cutLine relojDisk.files
      [⟨.get, literal "reloj", env⟩, ⟨.remove, literal "reloj", env⟩] := by
  intro env
  have posix : Posix cutLine relojShell.shell := posix_cutLine
  have lawful : relojShell.json.Lawful := relojSystem_lawful
  refine store_confined posix lawful ?_ fun before comando inside _ => ?_
  · have installed : loadJson relojShell.json (relojDisk.files installedJson) = object [] :=
      relojDisk_installed
    intro name app here
    rw [installed] at here
    exact absurd here nofun
  · have member := inside.subset (List.mem_append_right before List.mem_cons_self)
    have named : comando.name = literal "reloj" := by
      rcases List.mem_cons.mp member with rfl | last
      · rfl
      · rw [List.mem_singleton.mp last]
    rw [named]
    exact ⟨⟨by decide, by decide, by decide, by decide⟩, by unfold Ordinary; decide⟩

/-- A repository whose app is called `..`. -/
def dotdotTexts : List (Text × Value ℕ) :=
  [(literal ("\x7b\"apps\":\x7b\"..\":" ++
      "\x7b\"code\":\"print(1)\",\"version\":\"1.0\"\x7d\x7d\x7d"),
    object [(literal "apps", object [(dotdot, reloj)])])]

noncomputable def dotdotSystem : System ℕ := ⟨.known dotdotTexts, fun _ => [], runLine⟩

theorem dotdotTexts_unique : (dotdotTexts.map Prod.fst).Nodup := by decide +kernel

theorem dotdotSystem_lawful : dotdotSystem.json.Lawful :=
  Json.lawful_known dotdotTexts_unique (by decide +kernel)

/-- The disk with the repository. -/
def dotdotFiles : Files := fun path =>
  if path = repoJson then dotdotTexts.head?.map Prod.fst else none

/-- An app that is called `..` is written to `/TiendaApps/../main.lua`. -/
theorem dotdot_not_confined : ¬ ∀ (system : System ℕ) runs, Posix runs system.shell →
    system.json.Lawful → ∀ files, PathsKept system files → ∀ comandos,
      ConfinedRun system runs files comandos := by
  intro confined
  let env : Environment := ⟨true, true, true, false, false, minute⟩
  have repo : loadJson dotdotSystem.json (dotdotFiles repoJson) =
      object [(literal "apps", object [(dotdot, reloj)])] :=
    loadJson_known dotdotTexts_unique (.head _) rfl
  have found : appOf dotdotSystem dotdot dotdotFiles = some reloj := by
    rw [appOf, repo]
    rfl
  have absent : dotdotFiles installedJson = none := if_neg (by decide)
  have paths : PathsKept dotdotSystem dotdotFiles := by
    rw [PathsKept, absent]
    exact .empty
  have effects := confined dotdotSystem cutLine posix_cutLine dotdotSystem_lawful dotdotFiles paths
    [⟨.get, dotdot, env⟩] [] _ List.prefix_rfl
  have posix : Posix cutLine dotdotSystem.shell := posix_cutLine
  have ordinary : Ordinary (literal "TiendaApps/../") := by
    unfold Ordinary
    decide
  have made : made dotdotSystem dotdot ⟨dotdotFiles, []⟩ = dotdotFiles :=
    posix.mkdir_files _ _ (posix.mkdir _ ordinary) _
  have read : readBack dotdotSystem env dotdot ⟨dotdotFiles, []⟩ = Value.empty := by
    rw [readBack, made, absent, ite_self]
    rfl
  have closed (opens : false = true) {P : Prop} : P := absurd opens Bool.false_ne_true
  have writable : Writable dotdotSystem env dotdot reloj ⟨dotdotFiles, []⟩ :=
    ⟨fun _ => rfl, fun opens => closed opens, _, _, _, rfl, read, fun opens => closed opens⟩
  obtain ⟨_, _, _, -, -, -, run⟩ := instalar_of_writable writable
  have member : Effect.write (appPath dotdot ++ literal "main.lua") ∈
      (ejecutarComando dotdotSystem ⟨.get, dotdot, env⟩ dotdotFiles).effects := by
    have program : Comando.program dotdotSystem ⟨.get, dotdot, env⟩ =
        instalarApp dotdotSystem env dotdot := rfl
    rw [ejecutarComando, initDirs_files posix, program, instalarApp_some rfl found, run]
    exact .tail _ (.head _)
  have leads : resolve (appPath dotdot ++ literal "main.lua") = [literal "main.lua"] := by decide
  rcases effects _ member with ⟨-, place⟩ | ⟨file, below, -, place⟩
  · exact absurd (leads.symm.trans place) (by decide)
  · exact List.cons_ne_nil _ _ (List.cons.inj (leads.symm.trans place)).2.symm

end CocosOS.Apps.Store
