import CocosOS.Library.LuaScript

/-!
# The store

`cpm get` installs an app under the directory of the store, and `cpm remove` takes it away again.
What is installed is kept in `installed.json`. Files are opened or not as the environment has it,
and where a file cannot be opened for writing nothing is said about it.
-/

set_option autoImplicit false

namespace CocosOS.Apps.Store

open Library.CString Library.Lua

/-- Files by their paths. -/
abbrev Files := Text → Option Text

/-- What the store does to the disk: open a file for writing, or run a line in a shell. -/
inductive Effect where
  | write (path : Text)
  | execute (line : Text)

/-- The files, and what was done so far. -/
structure Disk where
  files : Files
  effects : List Effect

/-- What the store runs on: a JSON library, the text of numbers, and what a line for the shell does
to the files. -/
structure System (N : Type) where
  json : Json N
  numberText : N → Text
  shell : Text → Files → Files

/-- What a command meets: which files can be opened, and what `os.date` answers. -/
structure Environment where
  readsRepo : Bool
  readsInstalled : Bool
  writesMain : Bool
  writesMeta : Bool
  writesInstalled : Bool
  date : Text

/-- `TIENDA_PATH`. -/
def tiendaPath : Text := literal "/TiendaApps/"

/-- `REPO_JSON`. -/
def repoJson : Text := tiendaPath ++ literal "repo.json"

/-- `INSTALLED_JSON`. -/
def installedJson : Text := tiendaPath ++ literal "installed.json"

/-- The directory of an app. -/
def appPath (nombreApp : Text) : Text := tiendaPath ++ nombreApp ++ literal "/"

variable {N : Type}

/-! ## Files -/

/-- `os.execute`. -/
def execute (system : System N) (line : Text) : Script Disk Unit := fun disk =>
  (some (), ⟨system.shell line disk.files, disk.effects ++ [.execute line]⟩)

/-- Open a file for writing, which empties it, and write a text. Where there is no text an error is
raised behind the opening. -/
def escribir (opens : Bool) (path : Text) (text : Option Text) : Script Disk Unit := fun disk =>
  if opens then
    (text.map fun _ => (), ⟨Function.update disk.files path (some (text.getD [])),
      disk.effects ++ [.write path]⟩)
  else (some (), disk)

/-- `cargarArchivo`. -/
def cargarArchivo (system : System N) (opens : Bool) (path : Text) : Script Disk (Value N) :=
  fun disk => (some (loadJson system.json (if opens then disk.files path else none)), disk)

/-- `guardarArchivo`. -/
def guardarArchivo (system : System N) (opens : Bool) (path : Text) (data : Value N) :
    Script Disk Unit :=
  escribir opens path (system.json.encode data)

/-- `initDirs`. -/
def initDirs (system : System N) : Script Disk Unit :=
  execute system (literal "mkdir -p " ++ tiendaPath)

/-! ## Apps -/

/-- `repo.apps and repo.apps[nombreApp]`. It has no result where it raises an error. -/
def repoApp (repo : Value N) (nombreApp : Text) : Option (Option (Value N)) := do
  let apps ← index (some repo) (some (literal "apps"))
  if truthy apps then index apps (some nombreApp) else return apps

/-- The record of an app that is installed. -/
def record (version : Option (Value N)) (date nombreApp : Text) : Value N :=
  .table (fun key =>
    if key = literal "version" then version
    else if key = literal "installed_at" then some (.string date)
    else if key = literal "path" then some (.string (appPath nombreApp))
    else none) fun _ => none

/-- `app.code`, where it can be written. -/
def appCode (system : System N) (app : Value N) : Option Text :=
  (index (some app) (some (literal "code"))).bind (written system.numberText)

/-- `instalarApp` behind the search for the app. -/
def instalar (system : System N) (env : Environment) (nombreApp : Text) (app : Value N) :
    Script Disk Bool := do
  execute system (literal "mkdir -p " ++ appPath nombreApp)
  escribir env.writesMain (appPath nombreApp ++ literal "main.lua") (appCode system app)
  guardarArchivo system env.writesMeta (appPath nombreApp ++ literal "meta.json") app
  let instaladas ← cargarArchivo system env.readsInstalled installedJson
  let version ← .ofOption (index (some app) (some (literal "version")))
  let instaladas ← .ofOption
    (setField instaladas nombreApp (some (record version env.date nombreApp)))
  guardarArchivo system env.writesInstalled installedJson instaladas
  -- the version is put behind a text, which is printed
  let _ ← .ofOption (written system.numberText version)
  return true

/-- `instalarApp`. -/
def instalarApp (system : System N) (env : Environment) (nombreApp : Text) :
    Script Disk Bool := do
  let repo ← cargarArchivo system env.readsRepo repoJson
  let app ← .ofOption (repoApp repo nombreApp)
  match app with
  | none | some (.bool false) => return false
  | some app => instalar system env nombreApp app

/-- `desinstalarApp` behind the search for the app. -/
def desinstalar (system : System N) (env : Environment) (nombreApp : Text)
    (instaladas app : Value N) : Script Disk Bool := do
  let path ← .ofOption (index (some app) (some (literal "path")))
  let path ← .ofOption (written system.numberText path)
  execute system (literal "rm -rf " ++ path)
  let instaladas ← .ofOption (setField instaladas nombreApp none)
  guardarArchivo system env.writesInstalled installedJson instaladas
  return true

/-- `desinstalarApp`. -/
def desinstalarApp (system : System N) (env : Environment) (nombreApp : Text) :
    Script Disk Bool := do
  let instaladas ← cargarArchivo system env.readsInstalled installedJson
  let app ← .ofOption (index (some instaladas) (some nombreApp))
  match app with
  | none | some (.bool false) => return false
  | some app => desinstalar system env nombreApp instaladas app

/-! ## What is written where -/

section

variable (opens : Bool) (path : Text) (text : Option Text) (disk : Disk)

theorem escribir_files (other : Text) : (escribir opens path text disk).2.files other =
    if opens ∧ other = path then some (text.getD []) else disk.files other := by
  rw [escribir]
  cases opens with
  | false => rw [if_neg Bool.false_ne_true, if_neg fun both => Bool.false_ne_true both.1]
  | true =>
      simp only [if_true, Function.update_apply, true_and]

variable {opens} {text}

theorem escribir_of_some (some : opens → text.isSome) : escribir opens path text disk =
    (Option.some (), (escribir opens path text disk).2) := by
  cases opens with
  | false => rfl
  | true =>
      obtain ⟨text, rfl⟩ := Option.isSome_iff_exists.mp (some rfl)
      rfl

theorem escribir_of_none (opened : opens) (none : text = none) : escribir opens path text disk =
    (Option.none, (escribir opens path text disk).2) := by
  rw [escribir, if_pos opened, none]
  rfl

end

/-- The files of an app and the list of the installed ones are at different places. -/
theorem appPath_ne (nombreApp file : Text) : appPath nombreApp ++ file ≠ installedJson := by
  intro same
  rw [appPath, List.append_assoc, List.append_assoc] at same
  have inside : (47 : BitVec 8) ∈ nombreApp ++ (literal "/" ++ file) :=
    List.mem_append_right _ (List.mem_append_left _ (by decide))
  rw [List.append_cancel_left same] at inside
  exact absurd inside (by decide)

theorem main_ne_meta (nombreApp : Text) : appPath nombreApp ++ literal "main.lua" ≠
    appPath nombreApp ++ literal "meta.json" :=
  fun same => absurd (List.append_cancel_left same) (by decide)

end CocosOS.Apps.Store
