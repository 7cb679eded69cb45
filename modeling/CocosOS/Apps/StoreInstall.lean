import CocosOS.Apps.Store

/-!
# Installed apps

`instalarApp` returns true whenever it gets to its end. A file that could not be opened for writing
is passed over, and where `installed.json` could not be read the records of other apps are lost.

So the value that is returned tells whether the app is installed exactly where nothing of this
matters (`honest_iff`).
-/

set_option autoImplicit false

namespace CocosOS.Apps.Store

open Library.CString Library.Lua

variable {N : Type}

/-! ## What it is to be installed -/

/-- The app of this name in the repository that is on the disk. -/
def appOf (system : System N) (nombreApp : Text) (files : Files) : Option (Value N) :=
  match repoApp (loadJson system.json (files repoJson)) nombreApp with
  | some (some app) => if truthy (some app) then some app else none
  | _ => none

/-- The records in `installed.json`, by the names of the apps. -/
def records (system : System N) (files : Files) : Text → Option (Value N) :=
  (loadJson system.json (files installedJson)).fields

/-- The file holds what decodes to this value. -/
def HoldsJson (system : System N) (files : Files) (path : Text) (value : Value N) : Prop :=
  ∃ text, files path = some text ∧ system.json.decode text = some (some value)

/-- `installed.json` holds the record of the app, and the given ones of all other apps. -/
def Recorded (system : System N) (date nombreApp : Text) (app : Value N)
    (previous : Text → Option (Value N)) (files : Files) : Prop :=
  ∃ version named numbered, index (some app) (some (literal "version")) = some version ∧
    HoldsJson system files installedJson (.table named numbered) ∧
    named nombreApp = some (record version date nombreApp) ∧
    ∀ other, other ≠ nombreApp → named other = previous other

/-- The files of the app are there, and it is recorded with all the others. -/
structure Installed (system : System N) (date nombreApp : Text) (app : Value N)
    (previous : Text → Option (Value N)) (files : Files) : Prop where
  main : ∃ code, appCode system app = some code ∧
    files (appPath nombreApp ++ literal "main.lua") = some code
  metadata : HoldsJson system files (appPath nombreApp ++ literal "meta.json") app
  recorded : Recorded system date nombreApp app previous files

/-- True is returned exactly if the app is installed then, and where false is returned
`installed.json` is as before. -/
def Honest (system : System N) (env : Environment) (nombreApp : Text) (disk : Disk) : Prop :=
  let result := instalarApp system env nombreApp disk
  (result.1 = some true ↔ ∃ app, appOf system nombreApp disk.files = some app ∧
    Installed system env.date nombreApp app (records system disk.files) result.2.files) ∧
  (result.1 = some false → result.2.files installedJson = disk.files installedJson)

/-! ## When that is so -/

section

variable (system : System N) (env : Environment) (nombreApp : Text) (app : Value N) (disk : Disk)

/-- The files behind `mkdir`. -/
def made : Files := system.shell (literal "mkdir -p " ++ appPath nombreApp) disk.files

/-- The list of installed apps that `instalarApp` reads. -/
def readBack : Value N :=
  loadJson system.json
    (if env.readsInstalled then made system nombreApp disk installedJson else none)

/-- No error is raised before the message: what is written to the files that are opened can be
written, and the list of installed apps is a table. -/
def Writable : Prop :=
  (env.writesMain → (appCode system app).isSome) ∧
  (env.writesMeta → (system.json.encode app).isSome) ∧
  ∃ version named numbered, index (some app) (some (literal "version")) = some version ∧
    readBack system env nombreApp disk = .table named numbered ∧
    (env.writesInstalled → (system.json.encode (.table (Function.update named nombreApp
      (some (record version env.date nombreApp))) numbered)).isSome)

/-- A file that is not opened holds already what would be written, and the records that are written
back are the previous ones. -/
def Settled : Prop :=
  (∃ code, appCode system app = some code ∧ (env.writesMain ∨
    made system nombreApp disk (appPath nombreApp ++ literal "main.lua") = some code)) ∧
  (env.writesMeta ∨
    HoldsJson system (made system nombreApp disk) (appPath nombreApp ++ literal "meta.json") app) ∧
  if env.writesInstalled then
    ∀ other, other ≠ nombreApp →
      (readBack system env nombreApp disk).fields other = records system disk.files other
  else
    Recorded system env.date nombreApp app (records system disk.files) (made system nombreApp disk)

/-- The version can be put behind a text. -/
def Printable : Prop :=
  ((index (some app) (some (literal "version"))).bind (written system.numberText)).isSome

instance : Decidable (Printable system app) := inferInstanceAs (Decidable (_ = true))

end

/-! ## The stages -/

section

variable {system : System N} {env : Environment} {nombreApp : Text} {app : Value N} {disk : Disk}

variable (system env nombreApp app disk) in
/-- The disk behind the writing of `main.lua`. -/
def behindMain : Disk :=
  (escribir env.writesMain (appPath nombreApp ++ literal "main.lua") (appCode system app)
    ⟨made system nombreApp disk,
      disk.effects ++ [.execute (literal "mkdir -p " ++ appPath nombreApp)]⟩).2

variable (system env nombreApp app disk) in
/-- The disk behind the writing of `meta.json`. -/
def behindMeta : Disk :=
  (guardarArchivo system env.writesMeta (appPath nombreApp ++ literal "meta.json") app
    (behindMain system env nombreApp app disk)).2

theorem behindMeta_installed :
    (behindMeta system env nombreApp app disk).files installedJson =
      made system nombreApp disk installedJson := by
  rw [behindMeta, guardarArchivo, escribir_files, if_neg fun both => appPath_ne _ _ both.2.symm,
    behindMain, escribir_files, if_neg fun both => appPath_ne _ _ both.2.symm]

theorem behindMeta_main : (behindMeta system env nombreApp app disk).files
    (appPath nombreApp ++ literal "main.lua") =
      if env.writesMain then some ((appCode system app).getD [])
      else made system nombreApp disk (appPath nombreApp ++ literal "main.lua") := by
  rw [behindMeta, guardarArchivo, escribir_files, if_neg fun both => main_ne_meta _ both.2,
    behindMain, escribir_files]
  simp

theorem behindMeta_meta : (behindMeta system env nombreApp app disk).files
    (appPath nombreApp ++ literal "meta.json") =
      if env.writesMeta then some ((system.json.encode app).getD [])
      else made system nombreApp disk (appPath nombreApp ++ literal "meta.json") := by
  rw [behindMeta, guardarArchivo, escribir_files, behindMain, escribir_files]
  simp [(main_ne_meta nombreApp).symm]

/-- What `instalar` does behind the writing of `meta.json`. -/
theorem instalar_eq (code : env.writesMain → (appCode system app).isSome)
    (metadata : env.writesMeta → (system.json.encode app).isSome) :
    instalar system env nombreApp app disk =
      (index (some app) (some (literal "version"))).elim
        (none, behindMeta system env nombreApp app disk) fun version =>
          (setField (readBack system env nombreApp disk) nombreApp
            (some (record version env.date nombreApp))).elim
              (none, behindMeta system env nombreApp app disk) fun instaladas =>
                (guardarArchivo system env.writesInstalled installedJson instaladas >>= fun _ =>
                  Script.ofOption (written system.numberText version) >>= fun _ => pure true)
                  (behindMeta system env nombreApp app disk) := by
  rw [instalar]
  refine (Script.bind_of_some rfl _).trans ?_
  refine (Script.bind_of_some (escribir_of_some _ _ code) _).trans ?_
  refine (Script.bind_of_some (escribir_of_some _ _ metadata) _).trans ?_
  refine (Script.bind_of_some rfl _).trans ?_
  change (Script.ofOption _ >>= _) (behindMeta system env nombreApp app disk) = _
  rw [Script.ofOption_bind]
  refine congrArg (Option.elim _ _) (funext fun version => ?_)
  rw [Script.ofOption_bind]
  change (setField (loadJson system.json (if env.readsInstalled then
    (behindMeta system env nombreApp app disk).files installedJson else none)) _ _).elim _ _ = _
  rw [behindMeta_installed]
  rfl

/-- Where the code or the metadata cannot be written, an error is raised and the app is not
installed. -/
theorem instalar_error (date : Text) (previous : Text → Option (Value N))
    (lawful : system.json.Lawful) (fails : ¬ ((env.writesMain → (appCode system app).isSome) ∧
      (env.writesMeta → (system.json.encode app).isSome))) :
    (instalar system env nombreApp app disk).1 = none ∧
      ¬ Installed system date nombreApp app previous
        (instalar system env nombreApp app disk).2.files := by
  by_cases code : env.writesMain → (appCode system app).isSome
  · obtain ⟨opened, none⟩ := Classical.not_imp.mp fun metadata => fails ⟨code, metadata⟩
    rw [Option.not_isSome_iff_eq_none] at none
    have run : instalar system env nombreApp app disk =
        (Option.none, behindMeta system env nombreApp app disk) := by
      rw [instalar]
      refine (Script.bind_of_some rfl _).trans ?_
      refine (Script.bind_of_some (escribir_of_some _ _ code) _).trans ?_
      exact Script.bind_of_none (escribir_of_none _ _ opened none) _
    rw [run]
    refine ⟨rfl, fun installed => ?_⟩
    obtain ⟨text, holds, decodes⟩ := installed.metadata
    rw [behindMeta_meta, if_pos opened, none] at holds
    obtain rfl := Option.some.inj holds
    exact absurd (lawful.decode_nil.symm.trans decodes) nofun
  · obtain ⟨opened, none⟩ := Classical.not_imp.mp code
    rw [Option.not_isSome_iff_eq_none] at none
    have run : instalar system env nombreApp app disk =
        (Option.none, behindMain system env nombreApp app disk) := by
      rw [instalar]
      refine (Script.bind_of_some rfl _).trans ?_
      exact Script.bind_of_none (escribir_of_none _ _ opened none) _
    rw [run]
    refine ⟨rfl, fun installed => ?_⟩
    obtain ⟨text, some, -⟩ := installed.main
    rw [none] at some
    exact absurd some nofun

theorem loadJson_of_holds {files : Files} {path : Text} {named : Text → Option (Value N)}
    {numbered : N → Option (Value N)}
    (holds : HoldsJson system files path (.table named numbered)) :
    loadJson system.json (files path) = .table named numbered := by
  obtain ⟨text, file, decodes⟩ := holds
  rw [loadJson, file, Option.bind_some, decodes]
  rfl

/-- Where `installed.json` is a table, so is what is read. -/
theorem readBack_eq (env : Environment) {named : Text → Option (Value N)}
    {numbered : N → Option (Value N)}
    (holds : HoldsJson system (made system nombreApp disk) installedJson (.table named numbered)) :
    ∃ named numbered, readBack system env nombreApp disk = .table named numbered := by
  rw [readBack]
  cases env.readsInstalled with
  | false => exact ⟨_, _, rfl⟩
  | true => exact ⟨_, _, loadJson_of_holds holds⟩

/-- **Where something cannot be written an error is raised, and the app is not installed.** -/
theorem instalar_of_not_writable (date : Text) (previous : Text → Option (Value N))
    (lawful : system.json.Lawful) (fails : ¬ Writable system env nombreApp app disk) :
    (instalar system env nombreApp app disk).1 = none ∧
      ¬ Installed system date nombreApp app previous
        (instalar system env nombreApp app disk).2.files := by
  by_cases first : (env.writesMain → (appCode system app).isSome) ∧
      (env.writesMeta → (system.json.encode app).isSome)
  swap
  · exact instalar_error date previous lawful first
  rw [instalar_eq first.1 first.2]
  cases readable : index (some app) (some (literal "version")) with
  | none =>
      refine ⟨rfl, fun installed => ?_⟩
      obtain ⟨version, _, _, some, -⟩ := installed.recorded
      exact absurd (readable.symm.trans some) nofun
  | some version =>
      rw [Option.elim_some]
      cases added : setField (readBack system env nombreApp disk) nombreApp
        (some (record version env.date nombreApp)) with
      | none =>
          refine ⟨rfl, fun installed => ?_⟩
          obtain ⟨_, _, _, -, holds, -⟩ := installed.recorded
          rw [Option.elim_none, HoldsJson, behindMeta_installed] at holds
          obtain ⟨named, numbered, table⟩ := readBack_eq env holds
          rw [table] at added
          exact absurd added nofun
      | some instaladas =>
          rw [Option.elim_some]
          obtain ⟨named, numbered, table, rfl⟩ := setField_eq_some_iff.mp added
          obtain ⟨opened, none⟩ : env.writesInstalled ∧ system.json.encode (.table
              (Function.update named nombreApp (some (record version env.date nombreApp)))
                numbered) = none := by
            by_contra writes
            refine fails ⟨first.1, first.2, version, named, numbered, readable, table, ?_⟩
            exact fun opened => Option.isSome_iff_ne_none.mpr fun none => writes ⟨opened, none⟩
          have run := Script.bind_of_none (escribir_of_none installedJson
              (behindMeta system env nombreApp app disk) opened none)
            fun _ => Script.ofOption (written system.numberText version) >>= fun _ => pure true
          refine ⟨congrArg Prod.fst run, fun installed => ?_⟩
          obtain ⟨_, _, _, -, ⟨text, holds, decodes⟩, -⟩ := installed.recorded
          have file := (congrArg (fun run => run.2.files installedJson) run).symm.trans holds
          dsimp only at file
          rw [escribir_files, if_pos ⟨opened, rfl⟩, none] at file
          obtain rfl := Option.some.inj file
          exact absurd (lawful.decode_nil.symm.trans decodes) nofun

/-- **Where all can be written, true is returned exactly if the version can be printed.** -/
theorem instalar_of_writable (writable : Writable system env nombreApp app disk) :
    ∃ version named numbered, index (some app) (some (literal "version")) = some version ∧
      readBack system env nombreApp disk = .table named numbered ∧
      (env.writesInstalled → (system.json.encode (.table (Function.update named nombreApp
        (some (record version env.date nombreApp))) numbered)).isSome) ∧
      instalar system env nombreApp app disk =
        ((written system.numberText version).map fun _ => true,
          (guardarArchivo system env.writesInstalled installedJson (.table (Function.update named
            nombreApp (some (record version env.date nombreApp))) numbered)
              (behindMeta system env nombreApp app disk)).2) := by
  obtain ⟨code, metadata, version, named, numbered, readable, table, writes⟩ := writable
  refine ⟨version, named, numbered, readable, table, writes, ?_⟩
  rw [instalar_eq code metadata, readable, Option.elim_some, table]
  refine (Script.bind_of_some (escribir_of_some _ _ writes) _).trans ?_
  rw [Script.ofOption_bind]
  cases written system.numberText version with
  | none => rfl
  | some text => rfl

/-- A file that was written holds the value. -/
theorem holdsJson_written {files : Files} {path : Text} {value : Value N}
    (lawful : system.json.Lawful) (writes : (system.json.encode value).isSome)
    (file : files path = some ((system.json.encode value).getD [])) :
    HoldsJson system files path value := by
  obtain ⟨text, encodes⟩ := Option.isSome_iff_exists.mp writes
  rw [encodes] at file
  exact ⟨text, file, lawful.decode_encode value text encodes⟩

/-- It holds no other value. -/
theorem holdsJson_unique {files : Files} {path : Text} {value value' : Value N}
    (holds : HoldsJson system files path value) (holds' : HoldsJson system files path value') :
    value = value' := by
  obtain ⟨text, file, decodes⟩ := holds
  obtain ⟨text', file', decodes'⟩ := holds'
  obtain rfl := Option.some.inj (file.symm.trans file')
  exact Option.some.inj (Option.some.inj (decodes.symm.trans decodes'))

/-- Of the files only `installed.json` matters. -/
theorem recorded_congr {date : Text} {previous : Text → Option (Value N)} {files files' : Files}
    (same : files installedJson = files' installedJson) :
    Recorded system date nombreApp app previous files ↔
      Recorded system date nombreApp app previous files' := by
  rw [Recorded, Recorded]
  simp only [HoldsJson, same]

/-- The record that was written is there, with those that were read. -/
theorem recorded_written_iff {date : Text} {previous : Text → Option (Value N)} {files : Files}
    {version : Option (Value N)} {named : Text → Option (Value N)} {numbered : N → Option (Value N)}
    (readable : index (some app) (some (literal "version")) = some version)
    (holds : HoldsJson system files installedJson (.table (Function.update named nombreApp
      (some (record version date nombreApp))) numbered)) :
    Recorded system date nombreApp app previous files ↔
      ∀ other, other ≠ nombreApp → named other = previous other := by
  constructor
  · rintro ⟨version', named', numbered', -, holds', -, others⟩ other different
    obtain ⟨rfl, -⟩ := Value.table.inj (holdsJson_unique holds holds')
    exact (Function.update_of_ne different _ named).symm.trans (others other different)
  · intro others
    refine ⟨version, _, numbered, readable, holds, Function.update_self .., ?_⟩
    intro other different
    rw [Function.update_of_ne different]
    exact others other different

/-- `main.lua` holds the code if it was opened or held it already. -/
theorem main_iff_of_writable (writable : Writable system env nombreApp app disk) :
    (∃ code, appCode system app = some code ∧ (instalar system env nombreApp app
      disk).2.files (appPath nombreApp ++ literal "main.lua") = some code) ↔
      ∃ code, appCode system app = some code ∧ (env.writesMain ∨
        made system nombreApp disk (appPath nombreApp ++ literal "main.lua") = some code) := by
  obtain ⟨version, named, numbered, -, -, -, run⟩ := instalar_of_writable writable
  rw [run, guardarArchivo, escribir_files, if_neg fun both => appPath_ne _ _ both.2,
    behindMeta_main]
  refine exists_congr fun code => and_congr_right fun some => ?_
  rw [some]
  cases env.writesMain <;> simp

/-- `meta.json` holds the app if it was opened or held it already. -/
theorem metadata_iff_of_writable (lawful : system.json.Lawful)
    (writable : Writable system env nombreApp app disk) :
    HoldsJson system (instalar system env nombreApp app disk).2.files
        (appPath nombreApp ++ literal "meta.json") app ↔
      env.writesMeta ∨ HoldsJson system (made system nombreApp disk)
        (appPath nombreApp ++ literal "meta.json") app := by
  obtain ⟨version, named, numbered, -, -, -, run⟩ := instalar_of_writable writable
  have file : (instalar system env nombreApp app disk).2.files
      (appPath nombreApp ++ literal "meta.json") =
        if env.writesMeta then some ((system.json.encode app).getD [])
        else made system nombreApp disk (appPath nombreApp ++ literal "meta.json") := by
    rw [run, guardarArchivo, escribir_files, if_neg fun both => appPath_ne _ _ both.2,
      behindMeta_meta]
  cases opened : env.writesMeta with
  | false =>
      rw [HoldsJson, file, opened, if_neg Bool.false_ne_true]
      simp [HoldsJson]
  | true =>
      rw [opened, if_pos rfl] at file
      exact iff_of_true (holdsJson_written lawful (writable.2.1 opened) file) (.inl rfl)

/-- `installed.json` holds the record if it was opened and the other records were read back, or if
it held all of them already. -/
theorem recorded_iff_of_writable (lawful : system.json.Lawful)
    (writable : Writable system env nombreApp app disk) :
    Recorded system env.date nombreApp app (records system disk.files)
        (instalar system env nombreApp app disk).2.files ↔
      if env.writesInstalled then ∀ other, other ≠ nombreApp →
        (readBack system env nombreApp disk).fields other = records system disk.files other
      else Recorded system env.date nombreApp app (records system disk.files)
        (made system nombreApp disk) := by
  obtain ⟨version, named, numbered, readable, table, writes, run⟩ := instalar_of_writable writable
  have file : (instalar system env nombreApp app disk).2.files installedJson =
      if env.writesInstalled ∧ installedJson = installedJson then
        some ((system.json.encode (.table (Function.update named nombreApp
          (some (record version env.date nombreApp))) numbered)).getD [])
      else made system nombreApp disk installedJson := by
    rw [run, guardarArchivo, escribir_files, behindMeta_installed]
  cases opened : env.writesInstalled with
  | false =>
      rw [if_neg Bool.false_ne_true]
      refine recorded_congr (file.trans (if_neg fun both => ?_))
      exact Bool.false_ne_true (opened.symm.trans both.1)
  | true =>
      rw [if_pos ⟨opened, rfl⟩] at file
      rw [if_pos rfl, table]
      exact recorded_written_iff readable (holdsJson_written lawful (writes opened) file)

/-- **Where all can be written, the app is installed exactly if the rest is settled.** -/
theorem installed_iff_of_writable (lawful : system.json.Lawful)
    (writable : Writable system env nombreApp app disk) :
    Installed system env.date nombreApp app (records system disk.files)
        (instalar system env nombreApp app disk).2.files ↔
      Settled system env nombreApp app disk := by
  have main := main_iff_of_writable writable
  have metadata := metadata_iff_of_writable lawful writable
  have recorded := recorded_iff_of_writable lawful writable
  constructor
  · intro installed
    exact ⟨main.mp installed.main, metadata.mp installed.metadata, recorded.mp installed.recorded⟩
  · rintro ⟨first, second, third⟩
    exact ⟨main.mpr first, metadata.mpr second, recorded.mpr third⟩

end

/-! ## What the return value says -/

section

variable {system : System N} {env : Environment} {nombreApp : Text} {disk : Disk}

/-- Where the repository is not read, false is returned and nothing changes. -/
theorem instalarApp_unread (unread : env.readsRepo = false) :
    instalarApp system env nombreApp disk = (some false, disk) := by
  rw [instalarApp]
  refine (Script.bind_of_some rfl _).trans ?_
  rw [unread]
  rfl

theorem instalarApp_read (reads : env.readsRepo = true) :
    instalarApp system env nombreApp disk =
      (repoApp (loadJson system.json (disk.files repoJson)) nombreApp).elim (none, disk) fun app =>
        (match app with
          | none | some (.bool false) => pure false
          | some app => instalar system env nombreApp app : Script Disk Bool) disk := by
  rw [instalarApp]
  refine (Script.bind_of_some rfl _).trans ?_
  rw [reads, if_pos rfl]
  refine (Script.ofOption_bind _ _ _).trans (congrArg (Option.elim _ _) (funext fun app => ?_))
  rcases app with _ | ⟨_ | _⟩ | _ | _ | _ | _ <;> rfl

/-- Where there is no such app, true is not returned and nothing changes. -/
theorem instalarApp_none (env : Environment)
    (none : appOf system nombreApp disk.files = none) :
    (instalarApp system env nombreApp disk).1 ≠ some true ∧
      (instalarApp system env nombreApp disk).2 = disk := by
  cases reads : env.readsRepo with
  | false =>
      rw [instalarApp_unread reads]
      exact ⟨nofun, rfl⟩
  | true =>
      rw [instalarApp_read reads]
      rw [appOf] at none
      cases searched : repoApp (loadJson system.json (disk.files repoJson)) nombreApp with
      | none => exact ⟨nofun, rfl⟩
      | some app =>
          rw [searched] at none
          rcases app with _ | ⟨_ | _⟩ | _ | _ | _ | _
          · exact ⟨nofun, rfl⟩
          · exact ⟨nofun, rfl⟩
          all_goals exact absurd none nofun

theorem instalarApp_some {app : Value N} (reads : env.readsRepo = true)
    (found : appOf system nombreApp disk.files = some app) :
    instalarApp system env nombreApp disk = instalar system env nombreApp app disk := by
  rw [instalarApp_read reads]
  rw [appOf] at found
  cases searched : repoApp (loadJson system.json (disk.files repoJson)) nombreApp with
  | none =>
      rw [searched] at found
      exact absurd found nofun
  | some other =>
      rw [searched] at found
      rcases other with _ | ⟨_ | _⟩ | _ | _ | _ | _
      · exact absurd found nofun
      · exact absurd found nofun
      all_goals
        obtain rfl := Option.some.inj found
        rfl

/-- **The returned value is honest exactly if, where no error is raised before the message, the
message is printed exactly where every file that was not opened holds already what would be written
and the records of other apps were read.** Where the repository is not read, the app must not be
installed already. -/
theorem honest_iff (system : System N) (lawful : system.json.Lawful) (env : Environment)
    (nombreApp : Text) (disk : Disk) :
    Honest system env nombreApp disk ↔ ∀ app, appOf system nombreApp disk.files = some app →
      if env.readsRepo then
        Writable system env nombreApp app disk →
          (Printable system app ↔ Settled system env nombreApp app disk)
      else
        ¬ Installed system env.date nombreApp app (records system disk.files) disk.files := by
  cases found : appOf system nombreApp disk.files with
  | none =>
      obtain ⟨notTrue, same⟩ := instalarApp_none env found
      refine iff_of_true ⟨iff_of_false notTrue ?_, fun _ => by rw [same]⟩ nofun
      rintro ⟨app, some, -⟩
      exact absurd (found.symm.trans some) nofun
  | some app =>
      rw [Honest, found]
      simp only [Option.some.injEq, forall_eq', exists_eq_left']
      cases reads : env.readsRepo with
      | false =>
          rw [instalarApp_unread reads, if_neg Bool.false_ne_true]
          simp
      | true =>
          rw [instalarApp_some reads found, if_pos rfl]
          by_cases writable : Writable system env nombreApp app disk
          · have returned : (instalar system env nombreApp app disk).1 =
                if Printable system app then some true else none := by
              obtain ⟨version, _, _, readable, -, -, run⟩ := instalar_of_writable writable
              have same : Printable system app ↔ (written system.numberText version).isSome := by
                rw [Printable, readable, Option.bind_some]
              rw [run, if_congr same rfl rfl]
              cases written system.numberText version <;> rfl
            rw [returned, installed_iff_of_writable lawful writable]
            by_cases printable : Printable system app
            · simp [printable, writable]
            · simp [printable, writable]
          · obtain ⟨raised, missing⟩ :=
              instalar_of_not_writable env.date (records system disk.files) lawful writable
            rw [raised]
            exact iff_of_true ⟨iff_of_false nofun missing, nofun⟩ fun holds => absurd holds writable

end

/-! ## A repository with one app -/

/-- An object with these fields. -/
def object (fields : List (Text × Value ℕ)) : Value ℕ := .table (fields.lookup ·) fun _ => none

def reloj : Value ℕ :=
  object [(literal "code", .string (literal "print(1)")),
    (literal "version", .string (literal "1.0"))]

/-- A minute. -/
def minute : Text := literal "01/01/2026 00:00"

/-- The texts of a repository with one app, of the app, and of `installed.json` before and behind
the installation. -/
def relojTexts : List (Text × Value ℕ) :=
  [(literal ("\x7b\"apps\":\x7b\"reloj\":" ++
        "\x7b\"code\":\"print(1)\",\"version\":\"1.0\"\x7d\x7d\x7d"),
      object [(literal "apps", object [(literal "reloj", reloj)])]),
    (literal "\x7b\"code\":\"print(1)\",\"version\":\"1.0\"\x7d", reloj),
    (literal "\x7b\x7d", object []),
    (literal ("\x7b\"reloj\":\x7b\"version\":\"1.0\",\"installed_at\":\"01/01/2026 00:00\"," ++
        "\"path\":\"/TiendaApps/reloj/\"\x7d\x7d"),
      .table (Function.update (fun _ => none) (literal "reloj")
        (some (record (some (.string (literal "1.0"))) minute (literal "reloj")))) fun _ => none)]

/-- A system on which `mkdir` makes no files. -/
noncomputable def relojSystem : System ℕ := ⟨.known relojTexts, fun _ => [], fun _ files => files⟩

def relojDisk : Disk where
  files path :=
    if path = repoJson then relojTexts.head?.map Prod.fst
    else if path = installedJson then some (literal "\x7b\x7d")
    else none
  effects := []

theorem relojTexts_unique : (relojTexts.map Prod.fst).Nodup := by decide +kernel

theorem relojSystem_lawful : relojSystem.json.Lawful :=
  Json.lawful_known relojTexts_unique (by decide +kernel)

theorem relojDisk_repo : loadJson relojSystem.json (relojDisk.files repoJson) =
    object [(literal "apps", object [(literal "reloj", reloj)])] :=
  loadJson_known relojTexts_unique (.head _) rfl

theorem relojDisk_file : relojDisk.files installedJson = some (literal "\x7b\x7d") := by
  have other : installedJson ≠ repoJson := by decide
  simp only [relojDisk, if_neg other, if_true]

theorem relojDisk_installed : loadJson relojSystem.json (relojDisk.files installedJson) =
    object [] := by
  rw [relojDisk_file]
  exact loadJson_known relojTexts_unique (.tail _ (.tail _ (.head _))) rfl

theorem relojDisk_appOf : appOf relojSystem (literal "reloj") relojDisk.files = some reloj := by
  rw [appOf, relojDisk_repo]
  rfl

/-- Where all files are opened the app is installed, and true is returned. -/
theorem reloj_honest :
    Honest relojSystem ⟨true, true, true, true, true, minute⟩ (literal "reloj") relojDisk := by
  refine (honest_iff relojSystem relojSystem_lawful _ _ _).mpr fun app found => ?_
  obtain rfl := Option.some.inj (relojDisk_appOf.symm.trans found)
  rw [if_pos rfl]
  refine fun _ => iff_of_true rfl ⟨⟨_, rfl, .inl rfl⟩, .inl rfl, ?_⟩
  rw [if_pos rfl]
  exact fun _ _ => rfl

/-- Where no file is opened for writing, true is returned as well. -/
theorem unwritten_not_honest : ¬ ∀ (system : System ℕ) env nombreApp disk, system.json.Lawful →
    (∃ text value, disk.files installedJson = some text ∧ system.json.decode text = some value) →
      Honest system env nombreApp disk := by
  intro honest
  let env : Environment := ⟨true, true, false, false, false, minute⟩
  have here := honest relojSystem env (literal "reloj") relojDisk relojSystem_lawful
    ⟨_, _, relojDisk_file, Json.decode_known relojTexts_unique (.tail _ (.tail _ (.head _)))⟩
  have table : readBack relojSystem env (literal "reloj") relojDisk = object [] :=
    relojDisk_installed
  have writable : Writable relojSystem env (literal "reloj") reloj relojDisk :=
    ⟨nofun, nofun, _, _, _, rfl, table, nofun⟩
  obtain ⟨version, _, _, readable, -, -, run⟩ := instalar_of_writable writable
  obtain rfl := Option.some.inj readable
  rw [Honest, instalarApp_some rfl relojDisk_appOf] at here
  obtain ⟨app, found, installed⟩ := here.1.mp (congrArg Prod.fst run)
  obtain rfl := Option.some.inj (relojDisk_appOf.symm.trans found)
  obtain ⟨⟨code, -, opened | holds⟩, -⟩ :=
    (installed_iff_of_writable relojSystem_lawful writable).mp installed
  · exact Bool.false_ne_true opened
  · have absent : relojDisk.files (appPath (literal "reloj") ++ literal "main.lua") = none := by
      have other : appPath (literal "reloj") ++ literal "main.lua" ≠ repoJson := by decide
      simp only [relojDisk, if_neg other, if_neg (appPath_ne (literal "reloj") _)]
    exact absurd (absent.symm.trans holds) nofun

end CocosOS.Apps.Store
