import CocosOS.Apps.StoreConfined

/-!
# Synchronizing the store

`cpm sync` announces that the remote repository is fetched, and saves one without apps. Nothing
else of the store writes the repository. So once `repo.json` could be opened by a `sync`, no app is
ever found again: whatever is installed, removed and synchronized behind it, no `cpm get` installs
anything, and of the apps and files that were there some may go and none comes
(`nothing_installed_after_sync`).
-/

set_option autoImplicit false

namespace CocosOS.Apps.Store

open Library.CString Library.Lua

variable {N : Type}

/-! ## What is left of the store -/

/-- No app is found, and what is there was there before. -/
structure Shrunk (system : System N) (synced files : Files) : Prop where
  noApps : ∀ name, repoApp (loadJson system.json (files repoJson)) name = some none
  recorded : ∀ name app, records system files name = some app →
    records system synced name = some app
  others : ∀ path, path ≠ repoJson → path ≠ installedJson →
    files path = synced path ∨ files path = none

theorem repoJson_ne_installedJson : repoJson ≠ installedJson := by decide

section

variable {system : System N} {synced files files' : Files} {name : Text}

/-- Each file is as before, or it is gone. -/
theorem Shrunk.gone (shrunk : Shrunk system synced files)
    (less : ∀ path, files' path = files path ∨ files' path = none) :
    Shrunk system synced files' where
  noApps := by
    intro name
    rcases less repoJson with same | gone
    · rw [same]
      exact shrunk.noApps name
    · rw [gone]
      rfl
  recorded := by
    intro name app here
    rw [records] at here
    rcases less installedJson with same | gone
    · rw [same] at here
      exact shrunk.recorded name app here
    · rw [gone] at here
      exact absurd here (Option.some_ne_none app).symm
  others := by
    intro path notRepo notInstalled
    rcases less path with same | gone
    · rw [same]
      exact shrunk.others path notRepo notInstalled
    · exact .inr gone

/-- What is loaded behind the writing of a value: the value, or nothing. -/
theorem loadJson_written (lawful : system.json.Lawful) (value : Value N) :
    loadJson system.json (some ((system.json.encode value).getD [])) = value ∨
      loadJson system.json (some ((system.json.encode value).getD [])) = .empty := by
  rw [loadJson, Option.bind_some]
  cases encodes : system.json.encode value with
  | none =>
      right
      rw [Option.getD_none, lawful.decode_nil]
  | some text =>
      rw [Option.getD_some, lawful.decode_encode _ _ encodes]
      by_cases true : truthy (some value) = Bool.true
      · exact .inl (if_pos true)
      · exact .inr (if_neg true)

/-- The list of installed apps is written, with no app that was not there before. -/
theorem Shrunk.installed (lawful : system.json.Lawful) (shrunk : Shrunk system synced files)
    {instaladas : Value N} (fewer : ∀ name app, instaladas.fields name = some app →
      records system synced name = some app) :
    Shrunk system synced
      (Function.update files installedJson (some ((system.json.encode instaladas).getD []))) where
  noApps := by
    rw [Function.update_of_ne repoJson_ne_installedJson]
    exact shrunk.noApps
  recorded := by
    intro name app here
    rw [records, Function.update_self] at here
    rcases loadJson_written lawful instaladas with same | nothing
    · rw [same] at here
      exact fewer name app here
    · rw [nothing] at here
      exact absurd here (Option.some_ne_none app).symm
  others := by
    intro path notRepo notInstalled
    rw [Function.update_of_ne notInstalled]
    exact shrunk.others path notRepo notInstalled

/-! ## To install and to remove -/

/-- Where there are no apps, none is installed. -/
theorem instalarApp_noApps (noApps : repoApp (loadJson system.json (files repoJson)) name =
    some none) (env : Environment) (effects : List Effect) :
    instalarApp system env name ⟨files, effects⟩ = (some false, ⟨files, effects⟩) := by
  cases reads : env.readsRepo with
  | false => exact instalarApp_unread reads
  | true =>
      rw [instalarApp_read reads, noApps]
      rfl

variable {runs : Text → List (List Text)}

/-- To remove an app with a clean name and its path adds nothing. -/
theorem shrunk_desinstalar (posix : Posix runs system.shell) (lawful : system.json.Lawful)
    (clean : Clean name) (env : Environment) {instaladas app : Value N}
    (fewer : ∀ name app, instaladas.fields name = some app →
      records system synced name = some app)
    (here : index (some app) (some (literal "path")) = some (some (.string (appPath name)))) :
    Script.Keeps (fun disk => Shrunk system synced disk.files)
      (desinstalar system env name instaladas app) fun _ => True := by
  obtain ⟨directory, same, ordinary⟩ := clean.ordinary
  have sweeps := posix.rm directory ordinary
  rw [← same] at sweeps
  rw [desinstalar, here]
  refine (Script.Keeps.ofOption fun _ same => (Option.some.inj same).symm).bind fun path found => ?_
  subst found
  refine (Script.Keeps.ofOption fun _ same => (Option.some.inj same).symm).bind fun path found => ?_
  subst found
  have removes : Script.Keeps (fun disk => Shrunk system synced disk.files)
      (execute system (literal "rm -rf " ++ appPath name)) fun _ => True := fun disk shrunk =>
    ⟨shrunk.gone (posix.rm_files _ _ sweeps disk.files), fun _ _ => trivial⟩
  refine removes.bind fun _ _ => ?_
  refine (Script.Keeps.ofOption fun _ removed => removed).bind fun instaladas' removed => ?_
  obtain ⟨named, numbered, rfl, rfl⟩ := setField_eq_some_iff.mp removed
  have writes : Script.Keeps (fun disk => Shrunk system synced disk.files)
      (guardarArchivo system env.writesInstalled installedJson
        (.table (Function.update named name none) numbered)) fun _ => True := by
    refine fun disk shrunk => ⟨?_, fun _ _ => trivial⟩
    cases env.writesInstalled with
    | false => exact shrunk
    | true =>
        refine shrunk.installed lawful fun other app held => ?_
        rw [Value.fields_table, Function.update_apply] at held
        split_ifs at held
        exact fewer other app held
  refine writes.bind fun _ _ => ?_
  exact Script.Keeps.pure trivial

/-- **Behind a `sync`, a command leaves the store no larger.** -/
theorem Shrunk.comando (posix : Posix runs system.shell) (lawful : system.json.Lawful)
    (shrunk : Shrunk system synced files) (paths : PathsKept system files) {comando : Comando}
    (clean : comando.Finds system files → Clean comando.name) :
    Shrunk system synced (ejecutarComando system comando files).files := by
  rw [ejecutarComando, initDirs_files posix]
  obtain ⟨orden, name, env⟩ := comando
  cases orden with
  | get =>
      change Shrunk system synced (instalarApp system env name ⟨files, []⟩).2.files
      rw [instalarApp_noApps (shrunk.noApps name)]
      exact shrunk
  | remove =>
      change Shrunk system synced (desinstalarApp system env name ⟨files, []⟩).2.files
      by_cases found : env.readsInstalled ∧ truthy (records system files name) = true
      · obtain ⟨app, here, run⟩ :=
          @desinstalarApp_found N system name env ⟨files, []⟩ found.1 found.2
        have path := paths name app here (here ▸ found.2)
        rw [run]
        exact (shrunk_desinstalar posix lawful (clean found) env shrunk.recorded path ⟨files, []⟩
          shrunk).1
      · rw [desinstalarApp_quiet found]
        exact shrunk

end

/-! ## To synchronize -/

variable [Zero N]

/-- The repository that `sincronizarRepo` saves. -/
def repoVacio (date : Text) : Value N :=
  .table (fun key =>
    if key = literal "apps" then some .empty
    else if key = literal "last_updated" then some (.string date)
    else if key = literal "total_apps" then some (.number 0)
    else none) fun _ => none

/-- `sincronizarRepo`. -/
def sincronizarRepo (system : System N) (writesRepo : Bool) (date : Text) : Script Disk Unit :=
  guardarArchivo system writesRepo repoJson (repoVacio date)

/-- A command of `cpm`. Those that only print are one. -/
inductive Pedido where
  | comando (comando : Comando)
  | sync (writesRepo : Bool) (date : Text)
  | consulta

/-- The files behind `ejecutarComando`. -/
def ejecutarPedido (system : System N) (files : Files) : Pedido → Files
  | .comando comando => (ejecutarComando system comando files).files
  | .sync writesRepo date =>
    (sincronizarRepo system writesRepo date
      ⟨(initDirs system ⟨files, []⟩).2.files, []⟩).2.files
  | .consulta => (initDirs system ⟨files, []⟩).2.files

/-- The files behind a run of commands, the first one first. -/
def pedidosRun (system : System N) (pedidos : List Pedido) (files : Files) : Files :=
  pedidos.foldl (ejecutarPedido system) files

/-- Every command of the run that finds its app has a clean name. -/
def CleanPedidos (system : System N) (files : Files) (pedidos : List Pedido) : Prop :=
  ∀ before comando, before ++ [.comando comando] <+: pedidos →
    comando.Finds system (pedidosRun system before files) → Clean comando.name

section

variable {system : System N} {synced files : Files} {runs : Text → List (List Text)}

/-- An empty repository is written. -/
theorem Shrunk.repo (lawful : system.json.Lawful)
    (recorded : ∀ name app, records system files name = some app →
      records system synced name = some app)
    (others : ∀ path, path ≠ repoJson → path ≠ installedJson →
      files path = synced path ∨ files path = none) (date : Text) :
    Shrunk system synced
      (Function.update files repoJson (some ((system.json.encode (repoVacio date)).getD []))) where
  noApps := by
    intro name
    rw [Function.update_self]
    rcases loadJson_written lawful (repoVacio date) with same | nothing
    · rw [same]
      rfl
    · rw [nothing]
      rfl
  recorded := by
    intro name app here
    rw [records, Function.update_of_ne repoJson_ne_installedJson.symm] at here
    exact recorded name app here
  others := by
    intro path notRepo notInstalled
    rw [Function.update_of_ne notRepo]
    exact others path notRepo notInstalled

/-- A `sync` that can open `repo.json` empties it, and nothing else changes. -/
theorem shrunk_sync (posix : Posix runs system.shell) (lawful : system.json.Lawful)
    (date : Text) : Shrunk system files (ejecutarPedido system files (.sync true date)) := by
  rw [ejecutarPedido, initDirs_files posix]
  exact .repo lawful (fun _ _ here => here) (fun _ _ _ => .inl rfl) date

/-- A later `sync` adds nothing either. -/
theorem Shrunk.sync (posix : Posix runs system.shell) (lawful : system.json.Lawful)
    (shrunk : Shrunk system synced files) (writesRepo : Bool) (date : Text) :
    Shrunk system synced (ejecutarPedido system files (.sync writesRepo date)) := by
  rw [ejecutarPedido, initDirs_files posix]
  cases writesRepo with
  | false => exact shrunk
  | true => exact .repo lawful shrunk.recorded shrunk.others date

/-- A `sync` does not touch `installed.json`. -/
theorem PathsKept.sync (posix : Posix runs system.shell) (paths : PathsKept system files)
    (writesRepo : Bool) (date : Text) :
    PathsKept system (ejecutarPedido system files (.sync writesRepo date)) := by
  refine paths.gone (.inl ?_)
  rw [ejecutarPedido, initDirs_files posix, sincronizarRepo, guardarArchivo, escribir_files]
  exact if_neg fun both => repoJson_ne_installedJson both.2.symm

/-! ## Runs -/

theorem pedidosRun_append (before after : List Pedido) (files : Files) :
    pedidosRun system (before ++ after) files =
      pedidosRun system after (pedidosRun system before files) :=
  List.foldl_append ..

theorem pedidosRun_concat (pedidos : List Pedido) (pedido : Pedido) (files : Files) :
    pedidosRun system (pedidos ++ [pedido]) files =
      ejecutarPedido system (pedidosRun system pedidos files) pedido :=
  List.foldl_concat ..

theorem CleanPedidos.of_prefix {pedidos pedidos' : List Pedido}
    (clean : CleanPedidos system files pedidos) (shorter : pedidos' <+: pedidos) :
    CleanPedidos system files pedidos' :=
  fun before comando inside => clean before comando (inside.trans shorter)

theorem CleanPedidos.append {before after : List Pedido}
    (clean : CleanPedidos system files (before ++ after)) :
    CleanPedidos system (pedidosRun system before files) after := by
  intro front comando inside finds
  refine clean (before ++ front) comando ?_ ?_
  · rw [List.append_assoc]
    exact (List.prefix_append_right_inj before).mpr inside
  · rw [pedidosRun_append]
    exact finds

/-- In a run of clean commands each record keeps the path of its app. -/
theorem pathsKept_pedidos (posix : Posix runs system.shell) (lawful : system.json.Lawful)
    (start : PathsKept system files) {pedidos : List Pedido}
    (clean : CleanPedidos system files pedidos) :
    PathsKept system (pedidosRun system pedidos files) := by
  induction pedidos using List.reverseRecOn with
  | nil => exact start
  | append_singleton pedidos pedido ih =>
      have before := ih (clean.of_prefix (List.prefix_append ..))
      rw [pedidosRun_concat]
      cases pedido with
      | comando comando =>
          exact (good_step posix lawful before (clean pedidos comando List.prefix_rfl)).paths
      | sync writesRepo date => exact before.sync posix writesRepo date
      | consulta =>
          rw [ejecutarPedido, initDirs_files posix]
          exact before

/-- **Behind a `sync`, a run of clean commands leaves the store no larger.** -/
theorem Shrunk.run (posix : Posix runs system.shell) (lawful : system.json.Lawful)
    (shrunk : Shrunk system synced files) (paths : PathsKept system files)
    {pedidos : List Pedido} (clean : CleanPedidos system files pedidos) :
    Shrunk system synced (pedidosRun system pedidos files) := by
  induction pedidos using List.reverseRecOn with
  | nil => exact shrunk
  | append_singleton pedidos pedido ih =>
      have shorter := clean.of_prefix (List.prefix_append pedidos [pedido])
      have before := ih shorter
      rw [pedidosRun_concat]
      cases pedido with
      | comando comando =>
          exact before.comando posix lawful (pathsKept_pedidos posix lawful paths shorter)
            (clean pedidos comando List.prefix_rfl)
      | sync writesRepo date => exact before.sync posix lawful writesRepo date
      | consulta =>
          rw [ejecutarPedido, initDirs_files posix]
          exact before

/-- **Nothing is installed after a `sync`.** Let a run of commands with clean names start from files
in which each record has the path of its app, and contain a `sync` that could open `repo.json`. At
every point behind it `instalarApp` returns false for every name and changes nothing, each record in
`installed.json` was there at the `sync`, and so was each other file, with the same contents. -/
theorem nothing_installed_after_sync (posix : Posix runs system.shell)
    (lawful : system.json.Lawful) (start : PathsKept system files) {before after : List Pedido}
    {date : Text} (clean : CleanPedidos system files (before ++ .sync true date :: after)) :
    let synced := pedidosRun system before files
    let later := pedidosRun system (before ++ .sync true date :: after) files
    (∀ env name effects,
      instalarApp system env name ⟨later, effects⟩ = (some false, ⟨later, effects⟩)) ∧
    (∀ name app, records system later name = some app → records system synced name = some app) ∧
    ∀ path, path ≠ repoJson → path ≠ installedJson →
      later path = synced path ∨ later path = none := by
  intro synced later
  have paths : PathsKept system synced :=
    pathsKept_pedidos posix lawful start (clean.of_prefix (List.prefix_append ..))
  have emptied : Shrunk system synced (ejecutarPedido system synced (.sync true date)) :=
    shrunk_sync posix lawful date
  have split : CleanPedidos system synced ([.sync true date] ++ after) := clean.append
  have behind : CleanPedidos system (ejecutarPedido system synced (.sync true date)) after :=
    split.append
  have shrunk : Shrunk system synced later := by
    have run := emptied.run posix lawful (paths.sync posix true date) behind
    rw [← pedidosRun_concat, ← pedidosRun_append, List.append_assoc] at run
    exact run
  exact ⟨fun env name effects => instalarApp_noApps (shrunk.noApps name) env effects,
    shrunk.recorded, shrunk.others⟩

end

/-- The texts of the repository with one app, and that of the empty one. -/
def syncTexts : List (Text × Value ℕ) :=
  relojTexts ++ [(literal ("\x7b\"apps\":[],\"last_updated\":\"01/01/2026 00:00\"," ++
    "\"total_apps\":0\x7d"), repoVacio minute)]

noncomputable def syncShell : System ℕ := ⟨.known syncTexts, fun _ => [], runLine⟩

theorem syncTexts_unique : (syncTexts.map Prod.fst).Nodup := by decide +kernel

theorem syncShell_lawful : syncShell.json.Lawful :=
  Json.lawful_known syncTexts_unique (by decide +kernel)

/-- An app is installed, a `sync` comes, the app is removed, and it cannot be installed again. -/
theorem reloj_not_found_after_sync :
    let env : Environment := ⟨true, true, true, true, true, minute⟩
    let reloj : Text := literal "reloj"
    let files := pedidosRun syncShell [.comando ⟨.get, reloj, env⟩, .sync true minute,
      .comando ⟨.remove, reloj, env⟩] relojDisk.files
    instalarApp syncShell env reloj ⟨files, []⟩ = (some false, ⟨files, []⟩) := by
  intro env reloj
  have posix : Posix cutLine syncShell.shell := posix_cutLine
  have installed : loadJson syncShell.json (relojDisk.files installedJson) = object [] := by
    rw [relojDisk_file]
    exact loadJson_known syncTexts_unique (.tail _ (.tail _ (.head _))) rfl
  have paths : PathsKept syncShell relojDisk.files := by
    intro name app here
    rw [installed] at here
    exact absurd here (Option.some_ne_none app).symm
  have clean : CleanPedidos syncShell relojDisk.files ([.comando ⟨.get, reloj, env⟩] ++
      .sync true minute :: [.comando ⟨.remove, reloj, env⟩]) := by
    intro before comando inside finds
    have member := inside.subset (List.mem_append_right before List.mem_cons_self)
    have named : comando.name = reloj := by
      rcases List.mem_cons.mp member with first | later
      · rw [Pedido.comando.inj first]
      · rcases List.mem_cons.mp later with second | last
        · exact absurd second (by simp)
        · rw [Pedido.comando.inj (List.mem_singleton.mp last)]
    rw [named]
    exact ⟨⟨by decide, by decide, by decide, by decide⟩, by unfold Ordinary; decide⟩
  exact (nothing_installed_after_sync posix syncShell_lawful paths clean).1 env reloj []

end CocosOS.Apps.Store
