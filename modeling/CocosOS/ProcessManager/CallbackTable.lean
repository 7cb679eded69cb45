import Mathlib.Data.Int.Notation
import Mathlib.Data.List.Basic
import Mathlib.Logic.Function.Basic
import Mathlib.Tactic.Common
import Mathlib.Tactic.SplitIfs

/-!
# The table of functions

`process_manager/process_manager.c` keeps a table of functions. `scheduler_tick` calls each
function whose entry waits, and while such a function runs it may create and kill entries. The
system below is the table, the point that `scheduler_tick` has reached, and a log of what
happened; between two of its own steps the functions may do what they like.

`scheduler_tick` makes an entry wait again after its function returned, without looking at what
the function did to it. So a function that kills its own entry revives it, with no function
(`finish_of_killed`). While no function does so, and no entry is created without a function,
killed entries stay dead (`killed_entries_stay_dead`).
-/

set_option autoImplicit false

namespace CocosOS.ProcessManager.CallbackTable

variable {F : Type*}

/-! ## The calls -/

def MAX_PROCESSES : ℕ := 10

/-- `process_state`. The header spells the second one `RUNNIG`. -/
inductive EntryState where
  | STOPPED
  | RUNNING
  | WAITING
  deriving DecidableEq, Repr

/-- `process_t`. A null function is `none`. -/
structure Entry (F : Type*) where
  pid : ℤ
  state : EntryState
  func : Option F

/-- What `memset` leaves of an entry, and what the table holds at the start. -/
def Entry.zero : Entry F := ⟨0, .STOPPED, none⟩

/-- `process_table` and `process_count`. -/
structure Table (F : Type*) where
  entries : ℕ → Entry F
  count : ℕ

namespace Table

def set (table : Table F) (i : ℕ) (entry : Entry F) : Table F :=
  { table with entries := Function.update table.entries i entry }

def setState (table : Table F) (i : ℕ) (state : EntryState) : Table F :=
  table.set i { table.entries i with state := state }

theorem entries_set (table : Table F) (i : ℕ) (entry : Entry F) (j : ℕ) :
    (table.set i entry).entries j = if j = i then entry else table.entries j :=
  Function.update_apply ..

/-- A change of its state leaves the function of an entry alone. -/
theorem func_setState (table : Table F) (i : ℕ) (state : EntryState) (j : ℕ) :
    ((table.setState i state).entries j).func = (table.entries j).func := by
  rw [setState, entries_set]
  split_ifs with same
  · rw [same]
  · rfl

end Table

/-- `create_process`, with what it returns. -/
def createProcess (func : Option F) (table : Table F) : ℤ × Table F :=
  if table.count ≥ MAX_PROCESSES then (-1, table)
  else (table.count, { table.set table.count ⟨table.count, .WAITING, func⟩ with
    count := table.count + 1 })

/-- `kill_process`. -/
def killProcess (pid : ℤ) (table : Table F) : Table F :=
  if pid < 0 ∨ pid ≥ table.count then table
  else (table.setState pid.toNat .STOPPED).set pid.toNat Entry.zero

/-! ## The system -/

/-- Where `scheduler_tick` is: not called, before the test of its loop, or inside the function of
an entry. -/
inductive Control where
  | idle
  | testing (i : ℕ)
  | calling (i : ℕ)
  deriving DecidableEq, Repr

/-- Code other than `scheduler_tick` itself runs. -/
def Control.Elsewhere : Control → Prop
  | .testing _ => False
  | _ => True

instance : DecidablePred Control.Elsewhere := fun control => by
  cases control <;> unfold Control.Elsewhere <;> infer_instance

inductive Event (F : Type*) where
  | created (i : ℕ) (func : Option F)
  | killed (i : ℕ)
  | called (i : ℕ)

/-- The log has the latest event first. -/
structure System (F : Type*) where
  table : Table F
  control : Control
  log : List (Event F)

inductive Action (F : Type*) where
  | create (func : Option F)
  | kill (pid : ℤ)
  /-- `scheduler_tick` is called. -/
  | tick
  /-- The test of its loop, and the call of the function if the entry waits. -/
  | test
  /-- The function returns. -/
  | finish

/-- One step. There is none where the action is not possible. -/
def step (system : System F) : Action F → Option (System F)
  | .create func =>
    if system.control.Elsewhere then
      let result := createProcess func system.table
      some { system with
        table := result.2
        log := if result.1 = -1 then system.log
          else .created system.table.count func :: system.log }
    else none
  | .kill pid =>
    if system.control.Elsewhere then
      some { system with
        table := killProcess pid system.table
        log := if pid < 0 ∨ pid ≥ system.table.count then system.log
          else .killed pid.toNat :: system.log }
    else none
  | .tick => if system.control = .idle then some { system with control := .testing 0 } else none
  | .test =>
    match system.control with
    | .testing i =>
      if i < system.table.count then
        if (system.table.entries i).state = .WAITING then
          some ⟨system.table.setState i .RUNNING, .calling i, .called i :: system.log⟩
        else some { system with control := .testing (i + 1) }
      else some { system with control := .idle }
    | _ => none
  | .finish =>
    match system.control with
    | .calling i =>
      some { system with
        table := system.table.setState i .WAITING
        control := .testing (i + 1) }
    | _ => none

def start : System F := ⟨⟨fun _ => Entry.zero, 0⟩, .idle, []⟩

/-- The systems that steps of some kind reach. -/
inductive Reachable (allowed : System F → Action F → Prop) : System F → Prop where
  | start : Reachable allowed start
  | next {system system' : System F} (action : Action F) (reached : Reachable allowed system)
      (may : allowed system action) (taken : step system action = some system') :
      Reachable allowed system'

/-- The entry was created once, with this function. -/
def CreatedWith (log : List (Event F)) (i : ℕ) (func : F) : Prop :=
  ∀ created, .created i created ∈ log ↔ created = some func

/-- Killed entries are dead: what waits has the function it was created with, and no entry was
called after it was killed. -/
structure KilledStayDead (system : System F) : Prop where
  waiting : ∀ i, (system.table.entries i).state = .WAITING →
    ∃ func, (system.table.entries i).func = some func ∧ CreatedWith system.log i func
  notCalled : system.log.Pairwise fun later earlier =>
    ∀ i, later = .called i → earlier ≠ .killed i

/-- An entry has a function when it is created, and no function kills its own entry. -/
def Careful (system : System F) : Action F → Prop
  | .create func => func ≠ none
  | .kill pid => ∀ i : ℕ, system.control = .calling i → pid ≠ i
  | _ => True

/-! ## What the steps do -/

section Steps

variable {system system' : System F}

theorem step_create {func : Option F} (taken : step system (.create func) = some system') :
    system' = system ∨ system.table.count < MAX_PROCESSES ∧
      system' = { system with
        table := { system.table.set system.table.count ⟨system.table.count, .WAITING, func⟩ with
          count := system.table.count + 1 }
        log := .created system.table.count func :: system.log } := by
  rw [step] at taken
  by_cases elsewhere : system.control.Elsewhere
  · rw [if_pos elsewhere] at taken
    obtain rfl := Option.some.inj taken
    by_cases full : system.table.count ≥ MAX_PROCESSES
    · left
      simp [createProcess, full]
    · have result : ¬ (system.table.count : ℤ) = -1 := by omega
      right
      exact ⟨Nat.lt_of_not_le full, by simp only [createProcess, if_neg full, if_neg result]⟩
  · rw [if_neg elsewhere] at taken
    exact absurd taken nofun

theorem killProcess_of_outside {pid : ℤ} {table : Table F}
    (outside : pid < 0 ∨ pid ≥ table.count) : killProcess pid table = table := if_pos outside

theorem killProcess_of_inside {i : ℕ} {table : Table F} (inside : i < table.count) :
    killProcess i table = (table.setState i .STOPPED).set i Entry.zero := by
  rw [killProcess, if_neg (by omega), Int.toNat_natCast]

theorem step_kill {pid : ℤ} (taken : step system (.kill pid) = some system') :
    system' = system ∨ ∃ i : ℕ, pid = i ∧ i < system.table.count ∧
      system' = { system with
        table := (system.table.setState i .STOPPED).set i Entry.zero
        log := .killed i :: system.log } := by
  rw [step] at taken
  by_cases elsewhere : system.control.Elsewhere
  · rw [if_pos elsewhere] at taken
    obtain rfl := Option.some.inj taken
    by_cases outside : pid < 0 ∨ pid ≥ system.table.count
    · left
      rw [killProcess_of_outside outside, if_pos outside]
    · obtain ⟨i, rfl⟩ : ∃ i : ℕ, pid = i := ⟨pid.toNat, by omega⟩
      have inside : i < system.table.count := by omega
      right
      exact ⟨i, rfl, inside, by rw [killProcess_of_inside inside, if_neg outside,
        Int.toNat_natCast]⟩
  · rw [if_neg elsewhere] at taken
    exact absurd taken nofun

end Steps

/-! ## Killed entries -/

/-- What holds of the table in every run of careful steps. -/
structure Consistent (system : System F) : Prop where
  bounded : system.table.count ≤ MAX_PROCESSES
  fresh : ∀ i, system.table.count ≤ i →
    system.table.entries i = Entry.zero ∧ (∀ func, .created i func ∉ system.log) ∧
      .killed i ∉ system.log
  dead : ∀ i, .killed i ∈ system.log → system.table.entries i = Entry.zero
  alive : ∀ i < system.table.count, .killed i ∉ system.log →
    ∃ func, (system.table.entries i).func = some func ∧ CreatedWith system.log i func
  executing : ∀ i, system.control = .calling i →
    i < system.table.count ∧ .killed i ∉ system.log
  notCalled : system.log.Pairwise fun later earlier =>
    ∀ i, later = .called i → earlier ≠ .killed i

namespace Consistent

variable {system system' : System F}

theorem start : Consistent (CallbackTable.start : System F) where
  bounded := Nat.zero_le _
  fresh := fun _ _ => ⟨rfl, fun _ => List.not_mem_nil, List.not_mem_nil⟩
  dead := fun _ killed => absurd killed List.not_mem_nil
  alive := fun _ inside => absurd inside (Nat.not_lt_zero _)
  executing := nofun
  notCalled := List.Pairwise.nil

/-- An entry that waits was created and not killed. -/
theorem of_waiting (inv : Consistent system) {i : ℕ}
    (waiting : (system.table.entries i).state = .WAITING) :
    i < system.table.count ∧ .killed i ∉ system.log := by
  have nonzero : system.table.entries i ≠ Entry.zero := by
    intro zero
    rw [zero] at waiting
    exact absurd waiting nofun
  refine ⟨?_, fun killed => nonzero (inv.dead i killed)⟩
  by_contra outside
  exact nonzero (inv.fresh i (Nat.le_of_not_lt outside)).1

theorem killedStayDead (inv : Consistent system) : KilledStayDead system :=
  ⟨fun i waiting => inv.alive i (inv.of_waiting waiting).1 (inv.of_waiting waiting).2,
    inv.notCalled⟩

/-- Only the state of an entry that is not dead changes, and where `scheduler_tick` is. -/
theorem changeState (inv : Consistent system) {i : ℕ} (inside : i < system.table.count)
    (alive : .killed i ∉ system.log) (state : EntryState) (control : Control)
    (executing : ∀ j, control = .calling j → j = i) :
    Consistent { system with table := system.table.setState i state, control := control } where
  bounded := inv.bounded
  fresh := by
    intro j outside
    have other : j ≠ i := Nat.ne_of_gt (Nat.lt_of_lt_of_le inside outside)
    have same : (system.table.setState i state).entries j = system.table.entries j := by
      rw [Table.setState, Table.entries_set, if_neg other]
    refine ⟨?_, (inv.fresh j outside).2⟩
    exact same.trans (inv.fresh j outside).1
  dead := by
    intro j killed
    have other : j ≠ i := by
      rintro rfl
      exact alive killed
    refine Eq.trans ?_ (inv.dead j killed)
    exact (Table.entries_set ..).trans (if_neg other)
  alive := by
    intro j here unkilled
    obtain ⟨func, held, created⟩ := inv.alive j here unkilled
    exact ⟨func, (Table.func_setState ..).trans held, created⟩
  executing := by
    intro j calling
    rw [executing j calling]
    exact ⟨inside, alive⟩
  notCalled := inv.notCalled

theorem changeControl (inv : Consistent system) {control : Control}
    (executing : ∀ j, control ≠ .calling j) : Consistent { system with control := control } :=
  { inv with executing := fun j calling => absurd calling (executing j) }

/-- An entry that was not killed is called. -/
theorem logCalled (inv : Consistent system) {i : ℕ} (alive : .killed i ∉ system.log) :
    Consistent { system with log := .called i :: system.log } where
  bounded := inv.bounded
  fresh := fun j outside => by simpa using inv.fresh j outside
  dead := fun j killed => inv.dead j (by simpa using killed)
  alive := fun j here unkilled => by
    simpa [CreatedWith] using inv.alive j here (by simpa using unkilled)
  executing := fun j calling => by simpa using inv.executing j calling
  notCalled := by
    refine List.Pairwise.cons (fun earlier before j same => ?_) inv.notCalled
    rintro rfl
    cases same
    exact alive before

theorem create (inv : Consistent system) {func : F}
    (created : step system (.create (some func)) = some system') : Consistent system' := by
  rcases step_create created with rfl | ⟨room, rfl⟩
  · exact inv
  obtain ⟨zero, uncreated, unkilled⟩ := inv.fresh system.table.count (Nat.le_refl _)
  constructor
  · exact room
  · intro j outside
    have other : j ≠ system.table.count := Nat.ne_of_gt outside
    simpa [Table.entries_set, other] using inv.fresh j (Nat.le_of_lt outside)
  · intro j killed
    have killed' : .killed j ∈ system.log := by simpa using killed
    have other : j ≠ system.table.count := by
      rintro rfl
      exact unkilled killed'
    simpa [Table.entries_set, other] using inv.dead j killed'
  · intro j inside unkilled'
    by_cases new : j = system.table.count
    · subst new
      refine ⟨func, by simp [Table.entries_set], fun other => ?_⟩
      simp [uncreated]
    · have old : j < system.table.count := by
        have inside' : j < system.table.count + 1 := inside
        omega
      simpa [Table.entries_set, new, CreatedWith] using
        inv.alive j old (by simpa using unkilled')
  · intro j calling
    obtain ⟨inside, alive⟩ := inv.executing j calling
    exact ⟨Nat.lt_succ_of_lt inside, by simpa using alive⟩
  · exact List.Pairwise.cons (fun _ _ _ same => absurd same nofun) inv.notCalled

theorem kill (inv : Consistent system) {pid : ℤ} (careful : Careful system (.kill pid))
    (killed : step system (.kill pid) = some system') : Consistent system' := by
  rcases step_kill killed with rfl | ⟨i, rfl, inside, rfl⟩
  · exact inv
  constructor
  · exact inv.bounded
  · intro j outside
    have other : j ≠ i := Nat.ne_of_gt (Nat.lt_of_lt_of_le inside outside)
    simpa [Table.setState, Table.entries_set, other] using inv.fresh j outside
  · intro j killed
    by_cases same : j = i
    · simp [same, Table.entries_set]
    · have killed' : .killed j ∈ system.log := by simpa [same] using killed
      simpa [Table.setState, Table.entries_set, same] using inv.dead j killed'
  · intro j here alive
    have alive' : j ≠ i ∧ .killed j ∉ system.log := by simpa using alive
    simpa [Table.setState, Table.entries_set, alive'.1, CreatedWith] using
      inv.alive j here alive'.2
  · intro j calling
    obtain ⟨here, alive⟩ := inv.executing j calling
    have other : j ≠ i := fun same => careful j calling (congrArg _ same.symm)
    exact ⟨here, by simp [alive, other]⟩
  · exact List.Pairwise.cons (fun _ _ _ same => absurd same nofun) inv.notCalled

/-- **A careful step keeps killed entries dead.** -/
theorem step (inv : Consistent system) {action : Action F} (careful : Careful system action)
    (taken : CallbackTable.step system action = some system') : Consistent system' := by
  cases action with
  | create func =>
      cases func with
      | none => exact absurd rfl careful
      | some func => exact inv.create taken
  | kill pid => exact inv.kill careful taken
  | tick =>
      rw [CallbackTable.step] at taken
      split_ifs at taken
      obtain rfl := Option.some.inj taken
      exact inv.changeControl nofun
  | test =>
      rw [CallbackTable.step] at taken
      split at taken
      · next i testing =>
          split_ifs at taken with inside waiting
          · obtain rfl := Option.some.inj taken
            have alive := (inv.of_waiting waiting).2
            exact (inv.logCalled alive).changeState inside (by simpa using alive) _ _
              fun j calling => (Control.calling.inj calling).symm
          · obtain rfl := Option.some.inj taken
            exact inv.changeControl nofun
          · obtain rfl := Option.some.inj taken
            exact inv.changeControl nofun
      · exact absurd taken nofun
  | finish =>
      rw [CallbackTable.step] at taken
      split at taken
      · next i calling =>
          obtain rfl := Option.some.inj taken
          obtain ⟨inside, alive⟩ := inv.executing i calling
          exact inv.changeState inside alive _ _ nofun
      · exact absurd taken nofun

end Consistent

theorem consistent_of_reachable {system : System F} (reached : Reachable Careful system) :
    Consistent system := by
  induction reached with
  | start => exact Consistent.start
  | next action reached careful taken ih => exact ih.step careful taken

/-- **Killed entries stay dead** in every run in which no entry is created without a function and
no function kills its own entry. -/
theorem killed_entries_stay_dead {system : System F} (reached : Reachable Careful system) :
    KilledStayDead system := (consistent_of_reachable reached).killedStayDead

/-- An entry that is killed between two ticks. -/
theorem killed_between_ticks : ∃ system : System Unit,
    Reachable Careful system ∧ .killed 0 ∈ system.log ∧ KilledStayDead system := by
  have reached : Reachable Careful _ :=
    .next .test (.next .tick (.next (.kill 0) (.next .test (.next .finish (.next .test
      (.next .tick (.next (.create (some ())) .start nofun rfl) trivial rfl) trivial rfl)
      trivial rfl) trivial rfl) nofun rfl) trivial rfl) trivial rfl
  exact ⟨_, reached, List.mem_cons_self .., killed_entries_stay_dead reached⟩

/-! ## A function that kills its own entry -/

/-- **A function that returns after its entry was killed revives the entry**, with no function
in it. -/
theorem finish_of_killed {system finished : System F} {i : ℕ}
    (calling : system.control = .calling i) (dead : system.table.entries i = Entry.zero)
    (taken : step system .finish = some finished) :
    (finished.table.entries i).state = .WAITING ∧ (finished.table.entries i).func = none := by
  simp only [step, calling, Option.some.injEq] at taken
  subst taken
  constructor
  · simp [Table.setState, Table.entries_set]
  · rw [Table.func_setState, dead, Entry.zero]

/-- The only entry kills itself in its function, and the next tick calls it again. -/
theorem killed_entry_called : ¬ ∀ system : System Unit,
    Reachable (fun _ _ => True) system → KilledStayDead system := by
  intro stayDead
  have called : Reachable (fun _ _ => True) _ :=
    .next .test (.next .tick (.next .test (.next .finish (.next (.kill 0) (.next .test
      (.next .tick (.next (.create (some ())) .start trivial rfl) trivial rfl) trivial rfl)
      trivial rfl) trivial rfl) trivial rfl) trivial rfl) trivial rfl
  exact (List.pairwise_cons.mp (stayDead _ called).notCalled).1 (.killed 0)
    (List.mem_cons_self ..) 0 rfl rfl

end CocosOS.ProcessManager.CallbackTable
