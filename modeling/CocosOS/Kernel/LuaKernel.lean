import Mathlib.Data.List.Nodup
import Mathlib.Data.List.Perm.Basic
import Mathlib.Logic.Function.Basic
import Mathlib.Tactic.Common
import Mathlib.Tactic.SplitIfs

/-!
# The Lua kernel

`kernel/kernel.lua` starts apps and calls listeners. An app's `init` and a listener are user code,
which may call the kernel again or raise an error. So the system below is the kernel's tables with
a stack of frames: each frame is an `init` that runs, a loop of `Kernel.emit` or `Kernel.boot`, and
user code runs where the top frame has called it. An error drops frames until some user code
catches it, or all of them.

`Kernel.runApp` marks an app as running before it calls its `init`, and `Kernel.boot` after. So an
app whose `init` boot is calling, or has called in vain, can be started a second time
(`started_twice`). While no one asks for that, every `init` is called at most once. Where
`Kernel.boot` returns from its loop, every app that was registered before it is running; where it
returns at its guard, it has started none, so that this is right only if they run already
(`apps_start_once`). They do from the end of the loop until another app is registered
(`careful_boot_again`).
-/

set_option autoImplicit false

namespace CocosOS.Kernel.LuaKernel

variable {V F : Type*}

/-! ## The tables -/

/-- What `Kernel.registerApp` stores. -/
structure App (F : Type*) where
  init : F
  running : Bool

/-- The tables of the kernel. An app is known by the number of its registration; `names` are the
keys of `Kernel.apps`. -/
structure Tables (V F : Type*) where
  records : List (App F)
  apps : V → Option ℕ
  names : List V
  listeners : V → List F
  booted : Bool

namespace Tables

/-- `app.running`. -/
def running (tables : Tables V F) (app : ℕ) : Bool :=
  match tables.records[app]? with
  | some record => record.running
  | none => false

/-- `app.running = true`. -/
def start (tables : Tables V F) (app : ℕ) : Tables V F :=
  { tables with
    records := tables.records.modify app fun record => { record with running := true } }

/-- The app of this name is running. -/
def IsRunning (tables : Tables V F) (name : V) : Prop :=
  ∃ app, tables.apps name = some app ∧ tables.running app = true

/-- Every registered app is running. -/
def AllRunning (tables : Tables V F) : Prop := ∀ name ∈ tables.names, tables.IsRunning name

end Tables

/-- `Kernel.registerApp`, with what it returns. A name or a function that is `nil` or `false` is
`none`. -/
def registerApp [DecidableEq V] (name : Option V) (initFn : Option F)
    (tables : Tables V F) : Bool × Tables V F :=
  match name, initFn with
  | some name, some initFn =>
    (true, { tables with
      records := tables.records ++ [⟨initFn, false⟩]
      apps := Function.update tables.apps name (some tables.records.length)
      names := if name ∈ tables.names then tables.names else tables.names ++ [name] })
  | _, _ => (false, tables)

/-- `Kernel.on`. -/
def addListener [DecidableEq V] (event : V) (fn : F) (tables : Tables V F) : Tables V F :=
  { tables with
    listeners := Function.update tables.listeners event (tables.listeners event ++ [fn]) }

/-! ## The system -/

/-- A call that has not returned. -/
inductive Frame (V F : Type*) where
  /-- The `init` of an app, called by `Kernel.runApp`. -/
  | init (app : ℕ)
  /-- The loop of `Kernel.emit`, with the listeners to come, and whether one is being called. -/
  | emit (rest : List F) (calling : Bool)
  /-- `Kernel.boot` while it emits its event. The names are those registered when it was called. -/
  | announce (registered : List V)
  /-- The loop of `Kernel.boot`, with the names to come, and the app whose `init` it is calling. -/
  | boot (registered rest : List V) (calling : Option ℕ)

/-- User code runs. -/
def userRuns : List (Frame V F) → Bool
  | [] => true
  | .init _ :: _ => true
  | .emit _ calling :: _ => calling
  | .announce _ :: _ => false
  | .boot _ _ calling :: _ => calling.isSome

/-- The app whose `init` a loop of `Kernel.boot` is calling. -/
def Frame.bootCalls : Frame V F → Option ℕ
  | .boot _ _ calling => calling
  | _ => none

/-- The frame is one of `Kernel.boot`. -/
def Frame.isBoot : Frame V F → Bool
  | .announce _ => true
  | .boot .. => true
  | _ => false

/-- The tables and the frames, the innermost first. `invoked` records the calls of `init`
functions, the last first, and `failed` the apps whose `init` boot called and an error left. -/
structure System (V F : Type*) where
  tables : Tables V F
  stack : List (Frame V F)
  invoked : List ℕ
  failed : List ℕ

inductive Action (V F : Type*) where
  | registerApp (name : Option V) (initFn : Option F)
  | runApp (name : V)
  | on (event : V) (fn : F)
  /-- `Kernel.emit`, with the order in which `pairs` gives the listeners. -/
  | emit (event : V) (order : List F)
  /-- `Kernel.boot`, with that order for its event. -/
  | boot (order : List F)
  /-- The user code that runs returns. -/
  | finish
  /-- An error drops so many frames. -/
  | raise (dropped : ℕ)
  /-- The kernel's own code goes on. The names are those of the apps as `pairs` gives them, where
  a loop over the apps begins. -/
  | advance (order : List V)

namespace System

/-- The loop of `Kernel.boot` calls the `init` of an app, or skips it. -/
def visit (system : System V F) (registered rest : List V) (stack : List (Frame V F)) (name : V) :
    System V F :=
  match system.tables.apps name with
  | some app =>
    if system.tables.running app then { system with stack := .boot registered rest none :: stack }
    else { system with
      stack := .boot registered rest (some app) :: stack
      invoked := app :: system.invoked }
  | none => { system with stack := .boot registered rest none :: stack }

/-- The kernel's own code goes on. -/
def advance [DecidableEq V] (system : System V F) (order : List V) : Option (System V F) :=
  match system.stack with
  | .emit [] false :: stack => some { system with stack := stack }
  | .emit (_ :: rest) false :: stack => some { system with stack := .emit rest true :: stack }
  | .announce registered :: stack =>
    if order.Perm system.tables.names then
      some { system with stack := .boot registered order none :: stack }
    else none
  | .boot _ [] none :: stack => some { system with stack := stack }
  | .boot registered (name :: rest) none :: stack =>
    some (system.visit registered rest stack name)
  | _ => none

/-- The user code that runs returns. -/
def finish (system : System V F) : Option (System V F) :=
  match system.stack with
  | .init _ :: stack => some { system with stack := stack }
  | .emit rest true :: stack => some { system with stack := .emit rest false :: stack }
  | .boot registered rest (some app) :: stack =>
    some { system with
      tables := system.tables.start app
      stack := .boot registered rest none :: stack }
  | _ => none

/-- `Kernel.runApp`, up to the call of `init`. -/
def runApp (system : System V F) (name : V) : System V F :=
  match system.tables.apps name with
  | some app =>
    if system.tables.running app then system
    else { system with
      tables := system.tables.start app
      stack := .init app :: system.stack
      invoked := app :: system.invoked }
  | none => system

/-- `Kernel.boot`, up to the call of `Kernel.emit`. -/
def boot (system : System V F) (order : List F) : System V F :=
  if system.tables.booted then system
  else { system with
    tables := { system.tables with booted := true }
    stack := .emit order false :: .announce system.tables.names :: system.stack }

/-- An error drops frames. -/
def raise (system : System V F) (dropped : ℕ) : System V F :=
  { system with
    stack := system.stack.drop dropped
    failed := (system.stack.take dropped).filterMap Frame.bootCalls ++ system.failed }

/-- One step. There is none where the action is not possible. User code catches the errors. -/
def step [DecidableEq V] [DecidableEq F] (bootEvent : V) (system : System V F) :
    Action V F → Option (System V F)
  | .registerApp name initFn =>
    if userRuns system.stack then
      some { system with tables := (registerApp name initFn system.tables).2 }
    else none
  | .runApp name => if userRuns system.stack then some (system.runApp name) else none
  | .on event fn =>
    if userRuns system.stack then
      some { system with tables := addListener event fn system.tables }
    else none
  | .emit event order =>
    if userRuns system.stack ∧ order.Perm (system.tables.listeners event) then
      some { system with stack := .emit order false :: system.stack }
    else none
  | .boot order =>
    if userRuns system.stack ∧ order.Perm (system.tables.listeners bootEvent) then
      some (system.boot order)
    else none
  | .finish => system.finish
  | .raise dropped =>
    if userRuns (system.stack.drop dropped) then some (system.raise dropped) else none
  | .advance order => system.advance order

end System

/-- The kernel when its file has been loaded. -/
def loaded : System V F := ⟨⟨[], fun _ => none, [], fun _ => [], false⟩, [], [], []⟩

/-- The systems that steps of some kind reach. -/
inductive Reachable [DecidableEq V] [DecidableEq F] (bootEvent : V)
    (allowed : System V F → Action V F → Prop) : System V F → Prop where
  | loaded : Reachable bootEvent allowed loaded
  | next {system system' : System V F} (action : Action V F)
      (reached : Reachable bootEvent allowed system) (may : allowed system action)
      (taken : system.step bootEvent action = some system') : Reachable bootEvent allowed system'

/-- No app is registered while the loop of `Kernel.boot` runs. -/
def NoLateApps (system : System V F) : Action V F → Prop
  | .registerApp .. => ∀ registered rest calling, .boot registered rest calling ∉ system.stack
  | _ => True

/-- Nor is an app run while boot is calling its `init`, or after an error left that call. Nor is
boot called when it will not go behind its guard although a registered app is not running. -/
def Careful (system : System V F) (action : Action V F) : Prop :=
  NoLateApps system action ∧
    match action with
    | .runApp name => ∀ app, system.tables.apps name = some app →
        app ∉ system.stack.filterMap Frame.bootCalls ∧ app ∉ system.failed
    | .boot _ => system.tables.booted = true → system.tables.AllRunning
    | _ => True

/-- The step returns from a call of `Kernel.boot`, before which these names were registered: behind
its loop, or at the guard. -/
def BootReturns (system : System V F) (action : Action V F) (registered : List V) : Prop :=
  match action with
  | .advance _ => ∃ stack, system.stack = .boot registered [] none :: stack
  | .boot _ => system.tables.booted = true ∧ registered = system.tables.names
  | _ => False

/-- Apps start once: behind the step no `init` was called twice, and if the step returns from
`Kernel.boot`, every app that was registered before that call runs. -/
structure StartsOnce (system : System V F) (action : Action V F) (system' : System V F) :
    Prop where
  once : system'.invoked.Nodup
  booted : ∀ registered, BootReturns system action registered →
    ∀ name ∈ registered, system'.tables.IsRunning name

/-! ## The tables under the calls -/

namespace Tables

variable (tables : Tables V F)

theorem length_records_start (app : ℕ) :
    (tables.start app).records.length = tables.records.length :=
  List.length_modify ..

theorem running_start_self {app : ℕ} (valid : app < tables.records.length) :
    (tables.start app).running app = true := by
  simp [running, start, valid]

/-- Starting an app stops none. -/
theorem running_start {app other : ℕ} (runs : tables.running other = true) :
    (tables.start app).running other = true := by
  by_cases same : app = other
  · subst same
    refine running_start_self tables ?_
    by_contra outside
    rw [running, List.getElem?_eq_none (Nat.le_of_not_lt outside)] at runs
    exact Bool.false_ne_true runs
  · have unchanged : (tables.start app).records[other]? = tables.records[other]? := by
      simp [start, same]
    rw [running, unchanged]
    exact runs

/-- Registering an app stops none. -/
theorem running_registerApp [DecidableEq V] {name : Option V} {initFn : Option F} {app : ℕ}
    (runs : tables.running app = true) :
    (registerApp name initFn tables).2.running app = true := by
  have valid : app < tables.records.length := by
    by_contra outside
    rw [running, List.getElem?_eq_none (Nat.le_of_not_lt outside)] at runs
    exact Bool.false_ne_true runs
  cases name with
  | none => exact runs
  | some name =>
      cases initFn with
      | none => exact runs
      | some initFn =>
          rw [registerApp, running, List.getElem?_append_left valid]
          exact runs

section Registering

variable [DecidableEq V] (name : V) (initFn : F)

theorem length_records_registerApp :
    (registerApp (some name) (some initFn) tables).2.records.length =
      tables.records.length + 1 := by
  simp [registerApp]

theorem apps_registerApp (other : V) :
    (registerApp (some name) (some initFn) tables).2.apps other =
      if other = name then some tables.records.length else tables.apps other :=
  Function.update_apply ..

theorem mem_names_registerApp (other : V) :
    other ∈ (registerApp (some name) (some initFn) tables).2.names ↔
      other = name ∨ other ∈ tables.names := by
  rw [registerApp]
  dsimp only
  split_ifs with known
  · refine ⟨Or.inr, fun either => ?_⟩
    rcases either with rfl | here
    · exact known
    · exact here
  · simp [or_comm]

end Registering

theorem IsRunning.start {tables : Tables V F} {name : V} (runs : tables.IsRunning name)
    (app : ℕ) : (tables.start app).IsRunning name := by
  obtain ⟨other, found, running⟩ := runs
  exact ⟨other, found, tables.running_start running⟩

end Tables

/-! ## Every init is called once -/

/-- What holds of the tables, the frames and the calls that were made. -/
structure Consistent (system : System V F) : Prop where
  valid : ∀ name app, system.tables.apps name = some app → app < system.tables.records.length
  named : ∀ name, name ∈ system.tables.names ↔ ∃ app, system.tables.apps name = some app
  invokedValid : ∀ app ∈ system.invoked, app < system.tables.records.length
  callsValid : ∀ app ∈ system.stack.filterMap Frame.bootCalls, app < system.tables.records.length
  once : system.invoked.Nodup
  marked : ∀ app ∈ system.invoked, system.tables.running app = true ∨
    app ∈ system.stack.filterMap Frame.bootCalls ∨ app ∈ system.failed
  single : (system.stack.filter Frame.isBoot).length ≤ 1
  booting : system.stack.filter Frame.isBoot ≠ [] →
    system.tables.booted = true ∧ system.failed = []
  failing : system.failed ≠ [] → system.tables.booted = true
  announced : ∀ registered, .announce registered ∈ system.stack →
    registered ⊆ system.tables.names
  looping : ∀ registered rest calling, .boot registered rest calling ∈ system.stack →
    registered ⊆ system.tables.names ∧
    ∀ name ∈ system.tables.names, name ∈ rest ∨ system.tables.IsRunning name ∨
      ∃ app, calling = some app ∧ system.tables.apps name = some app

/-- Only a loop of boot calls the `init` of an app. -/
theorem Frame.bootCalls_of_isBoot {frame : Frame V F} (other : ¬ frame.isBoot = true) :
    frame.bootCalls = none := by
  cases frame with
  | boot => exact absurd rfl other
  | init => rfl
  | emit => rfl
  | announce => rfl

theorem Frame.bootCalls_eq_nil {frames : List (Frame V F)}
    (other : frames.filter Frame.isBoot = []) : frames.filterMap Frame.bootCalls = [] :=
  List.filterMap_eq_nil_iff.mpr fun frame there =>
    Frame.bootCalls_of_isBoot (List.filter_eq_nil_iff.mp other frame there)

namespace Consistent

variable {system : System V F}

theorem loaded : Consistent (LuaKernel.loaded : System V F) where
  valid := nofun
  named := fun _ => iff_of_false List.not_mem_nil nofun
  invokedValid := nofun
  callsValid := nofun
  once := List.nodup_nil
  marked := nofun
  single := Nat.zero_le _
  booting := fun frames => absurd rfl frames
  failing := fun failed => absurd rfl failed
  announced := nofun
  looping := nofun

/-- An app that is neither running nor on its way through boot was not called. -/
theorem not_invoked (inv : Consistent system) {app : ℕ}
    (stopped : ¬ system.tables.running app = true)
    (notCalled : app ∉ system.stack.filterMap Frame.bootCalls) (notFailed : app ∉ system.failed) :
    app ∉ system.invoked := by
  intro called
  rcases inv.marked app called with running | calling | failed
  · exact stopped running
  · exact notCalled calling
  · exact notFailed failed

/-- An app is started. -/
theorem start (inv : Consistent system) (app : ℕ) :
    Consistent { system with tables := system.tables.start app } where
  valid := by
    intro name other found
    rw [Tables.length_records_start]
    exact inv.valid name other found
  named := inv.named
  invokedValid := by
    intro other called
    rw [Tables.length_records_start]
    exact inv.invokedValid other called
  callsValid := by
    intro other calling
    rw [Tables.length_records_start]
    exact inv.callsValid other calling
  once := inv.once
  marked := fun other called => (inv.marked other called).imp_left system.tables.running_start
  single := inv.single
  booting := inv.booting
  failing := inv.failing
  announced := inv.announced
  looping := by
    intro registered rest calling there
    obtain ⟨registered, visited⟩ := inv.looping registered rest calling there
    refine ⟨registered, fun name here => ?_⟩
    exact (visited name here).imp_right fun later => later.imp_left fun runs => runs.start app

/-- An app that was not called is called. -/
theorem invoke (inv : Consistent system) {app : ℕ} (valid : app < system.tables.records.length)
    (fresh : app ∉ system.invoked)
    (marked : system.tables.running app = true ∨
      app ∈ system.stack.filterMap Frame.bootCalls ∨ app ∈ system.failed) :
    Consistent { system with invoked := app :: system.invoked } :=
  { inv with
    invokedValid := by
      intro other called
      rcases List.mem_cons.mp called with rfl | called
      · exact valid
      · exact inv.invokedValid other called
    once := List.nodup_cons.mpr ⟨fresh, inv.once⟩
    marked := by
      intro other called
      rcases List.mem_cons.mp called with rfl | called
      · exact marked
      · exact inv.marked other called }

/-- A frame that is not boot's is pushed. -/
theorem push (inv : Consistent system) {frame : Frame V F} (other : frame.isBoot = false) :
    Consistent { system with stack := frame :: system.stack } := by
  have quiet : frame.bootCalls = none :=
    Frame.bootCalls_of_isBoot (by rw [other]; exact Bool.false_ne_true)
  have calls : (frame :: system.stack).filterMap Frame.bootCalls =
      system.stack.filterMap Frame.bootCalls := List.filterMap_cons_none quiet
  have boots : (frame :: system.stack).filter Frame.isBoot = system.stack.filter Frame.isBoot :=
    List.filter_cons_of_neg (by rw [other]; exact nofun)
  refine { inv with
    callsValid := ?_
    marked := ?_
    single := ?_
    booting := ?_
    announced := ?_
    looping := ?_ }
  · rw [calls]
    exact inv.callsValid
  · rw [calls]
    exact inv.marked
  · rw [boots]
    exact inv.single
  · rw [boots]
    exact inv.booting
  · intro registered there
    rcases List.mem_cons.mp there with rfl | there
    · exact absurd other nofun
    · exact inv.announced registered there
  · intro registered rest calling there
    rcases List.mem_cons.mp there with rfl | there
    · exact absurd other nofun
    · exact inv.looping registered rest calling there

/-- A frame is popped, and if boot called an `init` in it, that app is running. -/
theorem pop (inv : Consistent system) {frame : Frame V F} {stack : List (Frame V F)}
    (top : system.stack = frame :: stack)
    (done : ∀ app, frame.bootCalls = some app → system.tables.running app = true) :
    Consistent { system with stack := stack } := by
  have part : stack.Sublist system.stack := by
    rw [top]
    exact List.sublist_cons_self frame stack
  have calls := part.filterMap Frame.bootCalls
  have boots := part.filter Frame.isBoot
  refine { inv with
    callsValid := ?_
    marked := ?_
    single := ?_
    booting := ?_
    announced := ?_
    looping := ?_ }
  · exact fun app calling => inv.callsValid app (calls.subset calling)
  · intro app called
    rcases inv.marked app called with running | calling | failed
    · exact Or.inl running
    · rw [top] at calling
      obtain ⟨other, there, appears⟩ := List.mem_filterMap.mp calling
      rcases List.mem_cons.mp there with rfl | there
      · exact Or.inl (done app appears)
      · exact Or.inr (Or.inl (List.mem_filterMap.mpr ⟨other, there, appears⟩))
    · exact Or.inr (Or.inr failed)
  · exact Nat.le_trans boots.length_le inv.single
  · intro frames
    refine inv.booting fun none => frames ?_
    rw [none] at boots
    exact List.sublist_nil.mp boots
  · exact fun registered there => inv.announced registered (part.subset there)
  · exact fun registered rest calling there =>
      inv.looping registered rest calling (part.subset there)

/-- Below a frame of boot there is no other. -/
theorem alone (inv : Consistent system) {frame : Frame V F} {stack : List (Frame V F)}
    (top : system.stack = frame :: stack) (boots : frame.isBoot = true) :
    stack.filter Frame.isBoot = [] ∧ system.tables.booted = true ∧ system.failed = [] := by
  have frames : system.stack.filter Frame.isBoot = frame :: stack.filter Frame.isBoot := by
    rw [top, List.filter_cons_of_pos boots]
  have single := inv.single
  rw [frames, List.length_cons] at single
  refine ⟨List.eq_nil_of_length_eq_zero (by omega), inv.booting ?_⟩
  rw [frames]
  exact List.cons_ne_nil _ _

/-- Boot is called. -/
theorem pushAnnounce (inv : Consistent system)
    (notBooted : ¬ system.tables.booted = true) :
    Consistent { system with
      tables := { system.tables with booted := true }
      stack := .announce system.tables.names :: system.stack } := by
  have none : system.stack.filter Frame.isBoot = [] := by
    by_contra frames
    exact notBooted (inv.booting frames).1
  have unfailed : system.failed = [] := by
    by_contra failed
    exact notBooted (inv.failing failed)
  refine ⟨inv.valid, inv.named, inv.invokedValid, inv.callsValid, inv.once, inv.marked, ?_,
    fun _ => ⟨rfl, unfailed⟩, fun _ => rfl, ?_, ?_⟩
  · rw [List.filter_cons_of_pos rfl, none]
    exact Nat.le_refl 1
  · intro registered there
    rcases List.mem_cons.mp there with same | there
    · rw [Frame.announce.inj same]
      exact List.Subset.refl _
    · exact inv.announced registered there
  · intro registered rest calling there
    rcases List.mem_cons.mp there with same | there
    · exact absurd same nofun
    · exact inv.looping registered rest calling there

/-- The loop of boot goes on. -/
theorem pushBoot (inv : Consistent system) {registered rest : List V} {calling : Option ℕ}
    (none : system.stack.filter Frame.isBoot = []) (booted : system.tables.booted = true)
    (unfailed : system.failed = []) (known : registered ⊆ system.tables.names)
    (visited : ∀ name ∈ system.tables.names, name ∈ rest ∨ system.tables.IsRunning name ∨
      ∃ app, calling = some app ∧ system.tables.apps name = some app)
    (valid : ∀ app, calling = some app → app < system.tables.records.length) :
    Consistent { system with stack := .boot registered rest calling :: system.stack } := by
  refine { inv with
    callsValid := ?_
    marked := ?_
    single := ?_
    booting := ?_
    announced := ?_
    looping := ?_ }
  · intro app calls
    obtain ⟨frame, there, appears⟩ := List.mem_filterMap.mp calls
    rcases List.mem_cons.mp there with rfl | there
    · exact valid app appears
    · exact inv.callsValid app (List.mem_filterMap.mpr ⟨frame, there, appears⟩)
  · intro app called
    refine (inv.marked app called).imp_right fun later => later.imp_left fun calls => ?_
    exact ((List.sublist_cons_self _ _).filterMap Frame.bootCalls).subset calls
  · rw [List.filter_cons_of_pos rfl, none]
    exact Nat.le_refl 1
  · exact fun _ => ⟨booted, unfailed⟩
  · intro registered there
    rcases List.mem_cons.mp there with same | there
    · exact absurd same nofun
    · exact inv.announced registered there
  · intro registered' rest' calling' there
    rcases List.mem_cons.mp there with same | there
    · obtain ⟨rfl, rfl, rfl⟩ := Frame.boot.inj same
      exact ⟨known, visited⟩
    · exact inv.looping registered' rest' calling' there

/-- An error drops frames. -/
theorem raise (inv : Consistent system) (dropped : ℕ) : Consistent (system.raise dropped) := by
  have whole := List.take_append_drop dropped system.stack
  have part : (system.stack.drop dropped).Sublist system.stack := List.drop_sublist ..
  have calls : system.stack.filterMap Frame.bootCalls =
      (system.stack.take dropped).filterMap Frame.bootCalls ++
        (system.stack.drop dropped).filterMap Frame.bootCalls := by
    rw [← List.filterMap_append, whole]
  have boots : system.stack.filter Frame.isBoot =
      (system.stack.take dropped).filter Frame.isBoot ++
        (system.stack.drop dropped).filter Frame.isBoot := by
    rw [← List.filter_append, whole]
  refine ⟨inv.valid, inv.named, inv.invokedValid, ?_, inv.once, ?_, ?_, ?_, ?_, ?_, ?_⟩
  · exact fun app calling => inv.callsValid app ((part.filterMap _).subset calling)
  · intro app called
    rcases inv.marked app called with running | calling | failed
    · exact Or.inl running
    · rw [calls] at calling
      rcases List.mem_append.mp calling with left | kept
      · exact Or.inr (Or.inr (List.mem_append_left _ left))
      · exact Or.inr (Or.inl kept)
    · exact Or.inr (Or.inr (List.mem_append_right _ failed))
  · exact Nat.le_trans (part.filter _).length_le inv.single
  · intro frames
    have single := inv.single
    rw [boots, List.length_append] at single
    have some : 0 < ((system.stack.drop dropped).filter Frame.isBoot).length :=
      List.length_pos_of_ne_nil frames
    have above : (system.stack.take dropped).filter Frame.isBoot = [] :=
      List.eq_nil_of_length_eq_zero (by omega)
    obtain ⟨booted, unfailed⟩ := inv.booting fun none => frames (by
      rw [boots] at none
      exact (List.append_eq_nil_iff.mp none).2)
    refine ⟨booted, ?_⟩
    rw [System.raise, Frame.bootCalls_eq_nil above, unfailed, List.append_nil]
  · intro failed
    by_cases before : system.failed = []
    · refine (inv.booting fun none => failed ?_).1
      rw [boots] at none
      rw [System.raise, Frame.bootCalls_eq_nil (List.append_eq_nil_iff.mp none).1, before]
      rfl
    · exact inv.failing before
  · exact fun registered there => inv.announced registered (part.subset there)
  · exact fun registered rest calling there =>
      inv.looping registered rest calling (part.subset there)

/-- An app is registered while no loop of boot runs. -/
theorem registerApp [DecidableEq V] (inv : Consistent system) (name : Option V)
    (initFn : Option F)
    (noLoop : ∀ registered rest calling, .boot registered rest calling ∉ system.stack) :
    Consistent { system with tables := (LuaKernel.registerApp name initFn system.tables).2 } := by
  cases name with
  | none => exact inv
  | some name =>
      cases initFn with
      | none => exact inv
      | some initFn =>
          have grows {app : ℕ} (valid : app < system.tables.records.length) :
              app < (LuaKernel.registerApp (some name) (some initFn)
                system.tables).2.records.length :=
            Nat.lt_of_lt_of_le valid (system.tables.length_records_registerApp name initFn ▸
              Nat.le_succ _)
          refine ⟨?_, ?_, fun app called => grows (inv.invokedValid app called),
            fun app calls => grows (inv.callsValid app calls), inv.once, ?_, inv.single,
            inv.booting, inv.failing, ?_, ?_⟩
          · intro other app found
            rw [system.tables.apps_registerApp] at found
            split_ifs at found with same
            · rw [system.tables.length_records_registerApp, ← Option.some.inj found]
              exact Nat.lt_succ_self _
            · exact grows (inv.valid other app found)
          · intro other
            rw [system.tables.mem_names_registerApp, system.tables.apps_registerApp, inv.named]
            split_ifs with same
            · exact iff_of_true (Or.inl same) ⟨_, rfl⟩
            · exact or_iff_right same
          · intro app called
            exact (inv.marked app called).imp_left system.tables.running_registerApp
          · intro registered there
            exact fun other here => (system.tables.mem_names_registerApp name initFn other).mpr
              (Or.inr (inv.announced registered there here))
          · exact fun registered rest calling there =>
              absurd there (noLoop registered rest calling)

end Consistent

/-! ## The steps -/

section Steps

variable {system system' : System V F}

/-- Running an app, if it is neither running nor on its way through boot, calls it for the first
time. -/
theorem Consistent.runApp (inv : Consistent system) (name : V)
    (careful : ∀ app, system.tables.apps name = some app →
      app ∉ system.stack.filterMap Frame.bootCalls ∧ app ∉ system.failed) :
    Consistent (system.runApp name) := by
  rw [System.runApp]
  cases found : system.tables.apps name with
  | none => exact inv
  | some app =>
      dsimp only
      split_ifs with running
      · exact inv
      · obtain ⟨notCalled, notFailed⟩ := careful app found
        have valid := inv.valid name app found
        have fresh := inv.not_invoked running notCalled notFailed
        have started := system.tables.running_start_self valid
        refine ((inv.start app).invoke ?_ fresh (Or.inl started)).push rfl
        rw [Tables.length_records_start]
        exact valid

/-- The loop of boot goes on, from one name to the next. -/
theorem Consistent.visit (inv : Consistent system) {registered rest : List V} {name : V}
    {stack : List (Frame V F)}
    (top : system.stack = .boot registered (name :: rest) none :: stack) :
    Consistent (system.visit registered rest stack name) := by
  obtain ⟨none, booted, unfailed⟩ := inv.alone top rfl
  obtain ⟨known, visited⟩ := inv.looping registered (name :: rest) .none
    (by rw [top]; exact List.mem_cons_self)
  have popped := inv.pop top nofun
  rw [System.visit]
  cases found : system.tables.apps name with
  | none =>
      refine popped.pushBoot none booted unfailed known (fun other here => ?_) nofun
      rcases visited other here with later | runs | ⟨_, same, _⟩
      · rcases List.mem_cons.mp later with rfl | later
        · obtain ⟨app, there⟩ := (inv.named other).mp here
          exact absurd (found.symm.trans there) nofun
        · exact Or.inl later
      · exact Or.inr (Or.inl runs)
      · exact absurd same nofun
  | some app =>
      dsimp only
      split_ifs with running
      · refine popped.pushBoot none booted unfailed known (fun other here => ?_) nofun
        rcases visited other here with later | runs | ⟨_, same, _⟩
        · rcases List.mem_cons.mp later with rfl | later
          · exact Or.inr (Or.inl ⟨app, found, running⟩)
          · exact Or.inl later
        · exact Or.inr (Or.inl runs)
        · exact absurd same nofun
      · have notCalled : app ∉ system.stack.filterMap Frame.bootCalls := by
          rw [top, List.filterMap_cons_none rfl, Frame.bootCalls_eq_nil none]
          exact List.not_mem_nil
        have notFailed : app ∉ system.failed := by
          rw [unfailed]
          exact List.not_mem_nil
        have valid := inv.valid name app found
        have calling : Consistent { system with
            stack := .boot registered rest (some app) :: stack } := by
          refine popped.pushBoot none booted unfailed known (fun other here => ?_)
            fun other same => Option.some.inj same ▸ valid
          rcases visited other here with later | runs | ⟨_, same, _⟩
          · rcases List.mem_cons.mp later with rfl | later
            · exact Or.inr (Or.inr ⟨app, rfl, found⟩)
            · exact Or.inl later
          · exact Or.inr (Or.inl runs)
          · exact absurd same nofun
        refine calling.invoke valid (inv.not_invoked running notCalled notFailed) ?_
        exact Or.inr (Or.inl List.mem_cons_self)

/-- The kernel's own code goes on. -/
theorem Consistent.advance [DecidableEq V] (inv : Consistent system) {order : List V}
    (taken : system.advance order = some system') : Consistent system' := by
  rw [System.advance] at taken
  split at taken
  · next stack top =>
      obtain rfl := Option.some.inj taken
      exact inv.pop top nofun
  · next listener rest stack top =>
      obtain rfl := Option.some.inj taken
      exact (inv.pop top nofun).push rfl
  · next registered stack top =>
      split_ifs at taken with ordered
      obtain rfl := Option.some.inj taken
      obtain ⟨none, booted, unfailed⟩ := inv.alone top rfl
      have known := inv.announced registered (by rw [top]; exact List.mem_cons_self)
      exact (inv.pop top nofun).pushBoot none booted unfailed known
        (fun name here => Or.inl (ordered.mem_iff.mpr here)) nofun
  · next registered stack top =>
      obtain rfl := Option.some.inj taken
      exact inv.pop top nofun
  · next registered name rest stack top =>
      obtain rfl := Option.some.inj taken
      exact inv.visit top
  · exact absurd taken nofun

/-- User code returns. If boot had called it, its app is running now. -/
theorem Consistent.finish (inv : Consistent system) (taken : system.finish = some system') :
    Consistent system' := by
  rw [System.finish] at taken
  split at taken
  · next app stack top =>
      obtain rfl := Option.some.inj taken
      exact inv.pop top nofun
  · next rest stack top =>
      obtain rfl := Option.some.inj taken
      exact (inv.pop top nofun).push rfl
  · next registered rest app stack top =>
      obtain rfl := Option.some.inj taken
      obtain ⟨none, booted, unfailed⟩ := inv.alone top rfl
      obtain ⟨known, visited⟩ := inv.looping registered rest (some app)
        (by rw [top]; exact List.mem_cons_self)
      have valid := inv.callsValid app (by rw [top]; exact List.mem_cons_self)
      have started := system.tables.running_start_self valid
      refine ((inv.start app).pop top fun other calls => ?_).pushBoot none booted unfailed known
        (fun name here => ?_) nofun
      · rw [← Option.some.inj calls]
        exact started
      · rcases visited name here with later | runs | ⟨_, same, found⟩
        · exact Or.inl later
        · exact Or.inr (Or.inl (runs.start app))
        · rw [← Option.some.inj same] at found
          exact Or.inr (Or.inl ⟨app, found, started⟩)
  · exact absurd taken nofun

/-- **A careful step keeps the tables consistent.** -/
theorem Consistent.step [DecidableEq V] [DecidableEq F] (inv : Consistent system) {bootEvent : V}
    {action : Action V F} (careful : Careful system action)
    (taken : system.step bootEvent action = some system') : Consistent system' := by
  cases action with
  | registerApp name initFn =>
      rw [System.step] at taken
      split_ifs at taken
      obtain rfl := Option.some.inj taken
      exact inv.registerApp name initFn careful.1
  | runApp name =>
      rw [System.step] at taken
      split_ifs at taken
      obtain rfl := Option.some.inj taken
      exact inv.runApp name careful.2
  | on event fn =>
      rw [System.step] at taken
      split_ifs at taken
      obtain rfl := Option.some.inj taken
      exact { inv with }
  | emit event order =>
      rw [System.step] at taken
      split_ifs at taken
      obtain rfl := Option.some.inj taken
      exact inv.push rfl
  | boot order =>
      rw [System.step] at taken
      split_ifs at taken
      obtain rfl := Option.some.inj taken
      rw [System.boot]
      split_ifs with booted
      · exact inv
      · exact (inv.pushAnnounce booted).push rfl
  | finish => exact inv.finish taken
  | raise dropped =>
      rw [System.step] at taken
      split_ifs at taken
      obtain rfl := Option.some.inj taken
      exact inv.raise dropped
  | advance order => exact inv.advance taken

/-- Where the loop of boot has come to its end, every registered app runs. -/
theorem Consistent.allRunning (inv : Consistent system) {registered : List V}
    {stack : List (Frame V F)} (top : system.stack = .boot registered [] none :: stack) :
    registered ⊆ system.tables.names ∧ system.tables.AllRunning := by
  obtain ⟨known, visited⟩ := inv.looping registered [] none
    (by rw [top]; exact List.mem_cons_self)
  refine ⟨fun _ member => known member, fun name member => ?_⟩
  rcases visited name member with later | runs | ⟨_, same, _⟩
  · exact absurd later List.not_mem_nil
  · exact runs
  · exact absurd same nofun

/-- **No call but a registration stops an app, or adds one.** -/
theorem allRunning_step [DecidableEq V] [DecidableEq F] {bootEvent : V} {action : Action V F}
    (other : ∀ name initFn, action ≠ .registerApp name initFn)
    (taken : system.step bootEvent action = some system') (runs : system.tables.AllRunning) :
    system'.tables.AllRunning := by
  have started (app : ℕ) : (system.tables.start app).AllRunning :=
    fun name member => (runs name member).start app
  cases action with
  | registerApp name initFn => exact absurd rfl (other name initFn)
  | runApp name =>
      rw [System.step, System.runApp] at taken
      split_ifs at taken
      split at taken
      · split_ifs at taken
        · exact Option.some.inj taken ▸ runs
        · exact Option.some.inj taken ▸ started _
      · exact Option.some.inj taken ▸ runs
  | on event fn =>
      rw [System.step] at taken
      split_ifs at taken
      exact Option.some.inj taken ▸ runs
  | emit event order =>
      rw [System.step] at taken
      split_ifs at taken
      exact Option.some.inj taken ▸ runs
  | boot order =>
      rw [System.step, System.boot] at taken
      split_ifs at taken
      · exact Option.some.inj taken ▸ runs
      · exact Option.some.inj taken ▸ runs
  | finish =>
      rw [System.step, System.finish] at taken
      split at taken
      · exact Option.some.inj taken ▸ runs
      · exact Option.some.inj taken ▸ runs
      · exact Option.some.inj taken ▸ started _
      · exact absurd taken nofun
  | raise dropped =>
      rw [System.step] at taken
      split_ifs at taken
      exact Option.some.inj taken ▸ runs
  | advance order =>
      rw [System.step, System.advance] at taken
      split at taken
      · exact Option.some.inj taken ▸ runs
      · exact Option.some.inj taken ▸ runs
      · split_ifs at taken
        exact Option.some.inj taken ▸ runs
      · exact Option.some.inj taken ▸ runs
      · rw [System.visit] at taken
        split at taken
        · split_ifs at taken
          · exact Option.some.inj taken ▸ runs
          · exact Option.some.inj taken ▸ runs
        · exact Option.some.inj taken ▸ runs
      · exact absurd taken nofun

theorem consistent_of_reachable [DecidableEq V] [DecidableEq F] {bootEvent : V}
    (reached : Reachable bootEvent Careful system) : Consistent system := by
  induction reached with
  | loaded => exact Consistent.loaded
  | next action reached careful taken ih => exact ih.step careful taken

/-- A step that is no registration. -/
def Goes [DecidableEq V] [DecidableEq F] (bootEvent : V) (system system' : System V F) : Prop :=
  ∃ action, (∀ name initFn, action ≠ .registerApp name initFn) ∧
    system.step bootEvent action = some system'

/-- **Boot may be called again.** Once the loop of boot has come to its end, a further call of boot
finds every app running, as long as none has been registered since. -/
theorem careful_boot_again [DecidableEq V] [DecidableEq F] {bootEvent : V}
    (reached : Reachable bootEvent Careful system) {registered : List V}
    {stack : List (Frame V F)} (top : system.stack = .boot registered [] none :: stack)
    (later : Relation.ReflTransGen (Goes bootEvent) system system') (order : List F) :
    Careful system' (.boot order) := by
  suffices runs : system'.tables.AllRunning from ⟨trivial, fun _ => runs⟩
  induction later with
  | refl => exact ((consistent_of_reachable reached).allRunning top).2
  | tail _ goes ih =>
      obtain ⟨action, other, taken⟩ := goes
      exact allRunning_step other taken ih

/-- **Apps start once**: in every run in which no app is registered while the loop of boot runs,
none is run by name while boot is calling its `init` or after an error left that call, and boot is
not called again while a registered app is not running. -/
theorem apps_start_once [DecidableEq V] [DecidableEq F] {bootEvent : V}
    (reached : Reachable bootEvent Careful system) {action : Action V F}
    (careful : Careful system action) (taken : system.step bootEvent action = some system') :
    StartsOnce system action system' := by
  have inv := consistent_of_reachable reached
  refine ⟨(inv.step careful taken).once, fun registered returns name member => ?_⟩
  cases action with
  | advance order =>
      obtain ⟨stack, top⟩ := returns
      obtain ⟨known, runs⟩ := inv.allRunning top
      rw [System.step, System.advance, top] at taken
      exact Option.some.inj taken ▸ runs name (known member)
  | boot order =>
      obtain ⟨booted, rfl⟩ := returns
      rw [System.step, System.boot, if_pos booted] at taken
      split_ifs at taken
      exact Option.some.inj taken ▸ careful.2 booted name member
  | registerApp | runApp | on | emit | finish | raise => exact returns.elim

end Steps

/-- An app that is booted. -/
theorem booted_app_starts_once : ∃ system system' : System String Unit,
    Reachable "boot" Careful system ∧ system.step "boot" (.advance []) = some system' ∧
    system.invoked = [0] ∧ system'.stack = [] ∧ StartsOnce system (.advance []) system' := by
  have reached : Reachable "boot" Careful _ :=
    .next .finish (.next (.advance []) (.next (.advance ["app"]) (.next (.advance [])
      (.next (.boot []) (.next (.registerApp (some "app") (some ())) .loaded ⟨nofun, trivial⟩ rfl)
      ⟨trivial, nofun⟩ rfl) ⟨trivial, trivial⟩ rfl) ⟨trivial, trivial⟩ rfl)
      ⟨trivial, trivial⟩ rfl) ⟨trivial, trivial⟩ rfl
  exact ⟨_, _, reached, rfl, rfl, rfl, apps_start_once reached ⟨trivial, trivial⟩ rfl⟩

/-- The `init` of an app that boot calls runs its own app. -/
theorem started_twice : ¬ ∀ (system : System String Unit) (action : Action String Unit)
    (system' : System String Unit), Reachable "boot" NoLateApps system →
    NoLateApps system action → system.step "boot" action = some system' →
    StartsOnce system action system' := by
  intro startsOnce
  have reached : Reachable "boot" NoLateApps _ :=
    .next (.advance []) (.next (.advance ["app"]) (.next (.advance [])
      (.next (.boot []) (.next (.registerApp (some "app") (some ())) .loaded nofun rfl)
      trivial rfl) trivial rfl) trivial rfl) trivial rfl
  have twice := startsOnce _ (.runApp "app") _ reached trivial rfl
  exact (List.nodup_cons.mp twice.once).1 List.mem_cons_self

end CocosOS.Kernel.LuaKernel
