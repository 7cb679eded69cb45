import CocosOS.ProcessManager.ProcessTable

/-!
# Killed and sleeping processes

The marks that `process_kill` and `process_sleep` leave are states of a process, and
`scheduler_switch` writes states without looking at them: it makes the outgoing process wait,
whatever it was, and falls back on the head of the list, whatever that is.

So a killed process stays killed only while no switch finds it current, and none falls back on
it (`kill_permanent_iff`). A process that calls `process_sleep` is made waiting by the switch of
that very call (`state_after_sleep`), or goes on if the switch falls back on it. From then on it
waits like any other (`Displaced`), so that it stays away until its tick only while others go before
it at every switch (`sleep_lasts_iff`).
-/

set_option autoImplicit false

namespace CocosOS.ProcessManager

open Library.ByteMemory Library.CString Library.LinkedList

/-! ## Calls that switch -/

namespace ProcessSystem

/-- The table in which a call calls `scheduler_switch`, if it does. -/
def atSwitch (table : ProcessTable) : ProcessCall → Option ProcessTable
  | .sleep ms now _ => some (fallAsleep ms now table)
  | .yield _ => some table
  | .tick now _ => wakeSleepers now table
  | .create .. | .kill _ => none

/-- The call calls `scheduler_switch`. -/
def Switches : ProcessCall → Prop
  | .sleep .. | .yield _ | .tick .. => True
  | .create .. | .kill _ => False

end ProcessSystem

namespace ProcessInv

open ProcessSystem

variable {idle : Word} {system : ProcessSystem}

/-- What happens before a switch keeps the shape of the table. -/
theorem sameShape_atSwitch (inv : ProcessInv idle system) {call : ProcessCall}
    {table : ProcessTable} (atTable : atSwitch system.table call = some table) :
    system.table.SameShape table := by
  cases call with
  | create => exact absurd atTable nofun
  | kill => exact absurd atTable nofun
  | sleep ms now saved =>
      obtain rfl := Option.some.inj atTable
      exact system.table.sameShape_fallAsleep ms now
  | yield saved =>
      obtain rfl := Option.some.inj atTable
      exact .refl _
  | tick now saved =>
      obtain ⟨table', returned, woken⟩ := ProcessTable.wakeSleepers_spec inv.lists now
      obtain rfl := Option.some.inj (returned.symm.trans atTable)
      exact woken.shape

/-- A call that switches ends with a switch to the elected process, in a table that differs from
the one before the call in the state of the current process and of sleepers at most. -/
theorem switch (inv : ProcessInv idle system) {call : ProcessCall} {table : ProcessTable}
    (switches : atSwitch system.table call = some table) :
    ProcessInv idle ⟨system.created, table⟩ ∧
    table.currentProcess = system.table.currentProcess ∧
    (∀ proc, proc ≠ system.table.currentProcess → system.table.state proc ≠ .sleeping →
      table.state proc = system.table.state proc) ∧
    ∃ saved, system.step call =
      some ⟨system.created, table.switchTo (table.elect system.created) saved⟩ := by
  cases call with
  | create => exact absurd switches nofun
  | kill => exact absurd switches nofun
  | sleep ms now saved =>
      obtain rfl := Option.some.inj switches
      have inv' := inv.fallAsleep ms now
      refine ⟨inv', rfl, fun proc other _ => ?_, saved, ?_⟩
      · rw [ProcessManager.fallAsleep, ProcessTable.state_setState, if_neg other,
          ProcessTable.state_setWakeupTick]
      · exact step_eq_some.mpr ⟨trivial, ProcessTable.schedulerSwitch_eq inv'.lists saved, rfl⟩
  | yield saved =>
      obtain rfl := Option.some.inj switches
      refine ⟨inv, rfl, fun _ _ _ => rfl, saved, ?_⟩
      exact step_eq_some.mpr ⟨trivial, ProcessTable.schedulerSwitch_eq inv.lists saved, rfl⟩
  | tick now saved =>
      obtain ⟨table', returned, woken⟩ := ProcessTable.wakeSleepers_spec inv.lists now
      obtain rfl := Option.some.inj (returned.symm.trans switches)
      have inv' := inv.woken woken
      refine ⟨inv', woken.current, fun proc _ awake => ?_, saved, ?_⟩
      · rw [woken.state, if_neg fun due => awake due.2.1]
      · refine step_eq_some.mpr ⟨trivial, ?_, rfl⟩
        rw [perform, ProcessManager.schedulerTick, returned]
        exact ProcessTable.schedulerSwitch_eq inv'.lists saved

theorem exists_atSwitch (inv : ProcessInv idle system) {call : ProcessCall}
    (switches : Switches call) : ∃ table, atSwitch system.table call = some table := by
  cases call with
  | create => exact switches.elim
  | kill => exact switches.elim
  | sleep => exact ⟨_, rfl⟩
  | yield => exact ⟨_, rfl⟩
  | tick now saved =>
      obtain ⟨table, returned, _⟩ := ProcessTable.wakeSleepers_spec inv.lists now
      exact ⟨table, returned⟩

theorem switches_of_atSwitch {call : ProcessCall} {table table' : ProcessTable}
    (switches : atSwitch table call = some table') : Switches call := by
  cases call with
  | create => exact absurd switches nofun
  | kill => exact absurd switches nofun
  | sleep => trivial
  | yield => trivial
  | tick => trivial

/-- A call that does not switch leaves the current process and revives no zombie. -/
theorem stay (inv : ProcessInv idle system) {call : ProcessCall} (stays : ¬ Switches call)
    {system' : ProcessSystem} (stepped : system.step call = some system') :
    system'.table.currentProcess = system.table.currentProcess ∧
    system.created ⊆ system'.created ∧
    ∀ proc ∈ system.created, system.table.state proc = .zombie →
      system'.table.state proc = .zombie := by
  cases call with
  | create answers entryPoint name priority =>
      have made := afterCreate stepped
      refine ⟨made.current, made.created ▸ List.subset_cons_self _ _, fun proc member zombie => ?_⟩
      rwa [ProcessTable.state, made.old proc member]
  | kill pid =>
      have killed := inv.afterKill stepped
      refine ⟨killed.current, killed.created ▸ List.Subset.refl _, fun proc member zombie => ?_⟩
      rw [killed.state proc member, zombie, ite_self]
  | sleep => exact absurd trivial stays
  | yield => exact absurd trivial stays
  | tick => exact absurd trivial stays

end ProcessInv

/-! ## Killing -/

open ProcessSystem

/-- In every state of the continuation the process is a zombie, and from the first switch on it
is not current. -/
def StaysKilled (proc : Word) (system : ProcessSystem) (rest : List ProcessCall) : Prop :=
  ∀ before system', before <+: rest → system.after before = some system' →
    system'.table.state proc = .zombie ∧
    ((∃ call ∈ before, Switches call) → system'.table.currentProcess ≠ proc)

/-- At every switch of the continuation the process is not current, and if it is the head of the
list, some process waits with a priority below 255. -/
def NeverRevived (proc : Word) (system : ProcessSystem) (rest : List ProcessCall) : Prop :=
  ∀ before call system' table, before ++ [call] <+: rest → system.after before = some system' →
    atSwitch system'.table call = some table →
    table.currentProcess ≠ proc ∧
    (table.processList = proc → ∃ other ∈ system'.created, table.Candidate other)

namespace ProcessTable

variable {table : ProcessTable} {nodes : List Word} {proc : Word}

/-- A switch that does not find a zombie current and does not fall back on it leaves it alone. -/
theorem zombie_switchTo (lists : table.Lists nodes) (zombie : table.state proc = .zombie)
    (other : table.currentProcess ≠ proc)
    (fallback : table.processList = proc → ∃ other ∈ nodes, table.Candidate other)
    (saved : CpuState) :
    (table.switchTo (table.elect nodes) saved).state proc = .zombie ∧
    (table.switchTo (table.elect nodes) saved).currentProcess ≠ proc := by
  have notElected : table.elect nodes ≠ proc := by
    intro elected
    rcases (elect_eq_iff lists proc).mp elected with ⟨_, waits, _⟩ | ⟨none, head⟩
    · exact absurd (waits.symm.trans zombie) nofun
    · obtain ⟨candidate, member, waits⟩ := fallback head.symm
      exact none candidate member waits
  rw [state_switchTo, if_neg (Ne.symm notElected), if_neg (Ne.symm other), zombie, ite_self,
    currentProcess_switchTo]
  exact ⟨rfl, notElected⟩

/-- A process that is a zombie away from the processor after a switch was not current before it,
and the switch had no need to fall back on it. -/
theorem not_revived_of_zombie {saved : CpuState}
    (stays : (table.switchTo (table.elect nodes) saved).state proc = .zombie)
    (away : (table.switchTo (table.elect nodes) saved).currentProcess ≠ proc) :
    table.currentProcess ≠ proc ∧
    (table.processList = proc → ∃ other ∈ nodes, table.Candidate other) := by
  rw [currentProcess_switchTo] at away
  constructor
  · rintro rfl
    rw [state_switchTo, if_neg away, if_neg away.symm, if_pos rfl] at stays
    exact absurd stays nofun
  · intro head
    by_contra none
    refine away ((elect_of_none fun other member candidate => ?_).trans head)
    exact none ⟨other, member, candidate⟩

end ProcessTable

namespace ProcessInv

variable {idle : Word} {system : ProcessSystem} {proc : Word}

/-- Along a continuation whose switches do not revive it, a killed process stays killed. -/
theorem staysKilled (inv : ProcessInv idle system) (member : proc ∈ system.created)
    (zombie : system.table.state proc = .zombie) {rest : List ProcessCall}
    (never : NeverRevived proc system rest) : StaysKilled proc system rest := by
  have along : ∀ before system', before <+: rest → system.after before = some system' →
      proc ∈ system'.created ∧ system'.table.state proc = .zombie ∧
      ((∃ call ∈ before, Switches call) → system'.table.currentProcess ≠ proc) := by
    intro before
    induction before using List.reverseRecOn with
    | nil =>
        rintro _ _ ⟨⟩
        exact ⟨member, zombie, fun ⟨_, inNil, _⟩ => absurd inNil List.not_mem_nil⟩
    | append_singleton before call ih =>
        intro system' part run
        obtain ⟨middle, earlier, stepped⟩ := after_concat_eq_some.mp run
        obtain ⟨listed, killed, away⟩ := ih middle ((List.prefix_append _ _).trans part) earlier
        have inv' := inv.after earlier
        by_cases switches : Switches call
        · obtain ⟨table, atTable⟩ := inv'.exists_atSwitch switches
          obtain ⟨invTable, current, kept, saved, result⟩ := inv'.switch atTable
          obtain rfl := Option.some.inj (result.symm.trans stepped)
          obtain ⟨other, fallback⟩ := never before call middle table part earlier atTable
          have still := (kept proc (current ▸ other.symm) (killed ▸ nofun)).trans killed
          obtain ⟨zombie', away'⟩ :=
            ProcessTable.zombie_switchTo invTable.lists still other fallback saved
          exact ⟨listed, zombie', fun _ => away'⟩
        · obtain ⟨current, more, kept⟩ := inv'.stay switches stepped
          refine ⟨more listed, kept proc listed killed, fun ⟨other, inCalls, isSwitch⟩ => ?_⟩
          rw [current]
          refine away ⟨other, (List.mem_append.mp inCalls).resolve_right fun last => ?_, isSwitch⟩
          exact switches (List.mem_singleton.mp last ▸ isSwitch)
  exact fun before system' part run => (along before system' part run).2

/-- A process that stays killed is not revived at any switch. -/
theorem neverRevived (inv : ProcessInv idle system) {rest : List ProcessCall}
    (stays : StaysKilled proc system rest) : NeverRevived proc system rest := by
  intro before call middle table part run atTable
  obtain ⟨invTable, _, _, saved, result⟩ := (inv.after run).switch atTable
  obtain ⟨zombie, away⟩ := stays (before ++ [call]) _ part
    (after_concat_eq_some.mpr ⟨middle, run, result⟩)
  have later := away ⟨call, List.mem_append_right _ (List.mem_singleton_self _),
    switches_of_atSwitch atTable⟩
  exact ProcessTable.not_revived_of_zombie zombie later

/-- `process_kill` of the pid of a process makes it a zombie. -/
theorem kill_zombie (inv : ProcessInv idle system) (member : proc ∈ system.created)
    {system' : ProcessSystem}
    (killed : system.step (.kill (system.table.procs proc).pid) = some system') :
    system'.created = system.created ∧ system'.table.state proc = .zombie := by
  have after := inv.afterKill killed
  exact ⟨after.created, (after.state proc member).trans (if_pos rfl)⟩

end ProcessInv

variable {idle pageDir : Word} {calls : List ProcessCall} {system : ProcessSystem}

/-- **Kill is permanent exactly when no switch revives the process.** After any run, a process
of the list is killed by its pid. It stays a zombie for the rest of the run, and away from the
processor after the first switch, if and only if at every `scheduler_switch` of the rest it is
not the current process, and whenever it is the head of the list some process waits with a
priority below 255. -/
theorem kill_permanent_iff (nonnull : idle ≠ 0) (procs : Word → Process)
    (run : (booted idle pageDir procs).after calls = some system) {proc : Word}
    (member : proc ∈ system.created) {killed : ProcessSystem}
    (kill : system.step (.kill (system.table.procs proc).pid) = some killed)
    (rest : List ProcessCall) :
    StaysKilled proc killed rest ↔ NeverRevived proc killed rest := by
  have inv := (ProcessInv.booted nonnull procs).after run
  obtain ⟨created, zombie⟩ := inv.kill_zombie member kill
  have inv' : ProcessInv idle killed :=
    inv.after (after_concat_eq_some.mpr ⟨system, after_nil system, kill⟩)
  constructor
  · exact fun stays => inv'.neverRevived stays
  · exact fun never => inv'.staysKilled (created ▸ member) zombie never

/-- A process that is killed while it is neither current nor the head of the list stays killed
over a switch. -/
theorem kill_permanent_behind :
    ∃ system killed, freshSystem.after [createAt 0x2000, createAt 0x3000] = some system ∧
      system.step (.kill 1) = some killed ∧ StaysKilled 0x2000 killed [.yield .zeroed] := by
  obtain ⟨killed, run'⟩ := Option.isSome_iff_exists.mp (by decide +kernel :
    (freshSystem.after ([createAt 0x2000, createAt 0x3000] ++ [.kill 1])).isSome)
  obtain ⟨system, run, kill⟩ := after_concat_eq_some.mp run'
  have member : 0x2000 ∈ system.created := by
    rw [eq_of_run run created [0x3000, 0x2000, 0x1000] (by decide +kernel)]
    decide
  have pid := eq_of_run run (fun reached => (reached.table.procs 0x2000).pid) 1
    (by decide +kernel)
  have stays := kill_permanent_iff (by decide : (0x1000 : Word) ≠ 0) _ run member (pid ▸ kill)
    [.yield .zeroed]
  refine ⟨system, killed, run, kill, stays.mpr ?_⟩
  rintro before call system' table ⟨tail, same⟩ earlier atTable
  cases before with
  | nil =>
      obtain rfl := Option.some.inj earlier
      obtain ⟨rfl, _⟩ := List.cons.inj same
      obtain rfl := Option.some.inj atTable
      have current := eq_of_run run' (fun reached => reached.table.currentProcess) 0x1000
        (by decide +kernel)
      have head := eq_of_run run' (fun reached => reached.table.processList) 0x3000
        (by decide +kernel)
      rw [current, head]
      exact ⟨by decide, fun isHead => absurd isHead (by decide)⟩
  | cons first before => simp at same

/-- A process that kills itself is made waiting by the next switch. -/
theorem killed_current_revived :
    ¬ ∀ (idle pageDir : Word) (procs : Word → Process) (calls : List ProcessCall)
      (system : ProcessSystem), idle ≠ 0 →
      (booted idle pageDir procs).after calls = some system →
      ∀ proc ∈ system.created, proc ≠ idle →
      ∀ killed, system.step (.kill (system.table.procs proc).pid) = some killed →
      ∀ rest, StaysKilled proc killed rest := by
  intro permanent
  obtain ⟨revived, run''⟩ := Option.isSome_iff_exists.mp (by decide +kernel :
    (freshSystem.after ([createAt 0x2000, .yield .zeroed] ++ [.kill 1] ++
      [.yield .zeroed])).isSome)
  obtain ⟨killed, run', yield⟩ := after_concat_eq_some.mp run''
  obtain ⟨system, run, kill⟩ := after_concat_eq_some.mp run'
  have member : 0x2000 ∈ system.created := by
    rw [eq_of_run run created [0x2000, 0x1000] (by decide +kernel)]
    decide
  have pid := eq_of_run run (fun reached => (reached.table.procs 0x2000).pid) 1
    (by decide +kernel)
  have later : killed.after ([] ++ [.yield .zeroed]) = some revived :=
    after_concat_eq_some.mpr ⟨killed, after_nil killed, yield⟩
  have stays := permanent _ _ _ _ system (by decide : (0x1000 : Word) ≠ 0) run 0x2000 member
    (by decide) killed (pid ▸ kill) [.yield .zeroed] _ revived List.prefix_rfl later
  have state := eq_of_run run'' (fun reached => reached.table.state 0x2000) .waiting
    (by decide +kernel)
  exact absurd (state.symm.trans stays.1) nofun

/-! ## Sleeping -/

/-- A `scheduler_tick` at the given tick or later. -/
def DueTick (wake : ℕ) : ProcessCall → Prop
  | .tick now _ => wake ≤ now.toNat
  | .create .. | .kill _ | .sleep .. | .yield _ => False

/-- After the first of the calls, and until a due tick is among them, the process is not
current. -/
def StaysAway (proc : Word) (wake : ℕ) (system : ProcessSystem) (calls : List ProcessCall) :
    Prop :=
  ∀ before system', before <+: calls → before ≠ [] → (∀ call ∈ before, ¬ DueTick wake call) →
    system.after before = some system' → system'.table.currentProcess ≠ proc

/-- What keeps the processor from a process at a switch. If it is marked as sleeping or killed, the
switch must not fall back on it. If it waits, a waiting process of a priority below 255 has to go
before it, or it has priority 255 itself and is not the head of the list. -/
def ProcessTable.HeldOff (table : ProcessTable) (nodes : List Word) (proc : Word)
    (marked : Prop) : Prop :=
  (marked → ¬ table.FallsBackOn nodes proc) ∧
  (¬ marked → (∃ other ∈ nodes, table.Candidate other ∧ table.GoesBefore nodes other proc) ∨
    table.rank proc = 255 ∧ table.processList ≠ proc)

/-- A sleeper is marked at the switch of its own `process_sleep`, the first of the calls, and again
from a `process_kill` of its pid on. In between it waits. -/
def Marked (pid : Word) (before : List ProcessCall) : Prop :=
  before = [] ∨ ProcessCall.kill pid ∈ before

/-- At every switch of the calls before a due tick, the process is kept from the processor. -/
def OthersGoFirst (proc : Word) (wake : ℕ) (system : ProcessSystem) (calls : List ProcessCall) :
    Prop :=
  ∀ before call middle table, before ++ [call] <+: calls →
    (∀ other ∈ before ++ [call], ¬ DueTick wake other) → system.after before = some middle →
    atSwitch middle.table call = some table →
    table.HeldOff middle.created proc (Marked (system.table.procs proc).pid before)

namespace ProcessTable

variable {table : ProcessTable} {nodes : List Word} {proc : Word} {marked : Prop}

theorem heldOff_iff_of_marked (lists : table.Lists nodes) (isMarked : marked)
    (idles : ¬ table.Waits proc) :
    table.HeldOff nodes proc marked ↔ table.elect nodes ≠ proc := by
  rw [HeldOff, imp_iff_right isMarked, and_iff_left fun unmarked => absurd isMarked unmarked,
    Ne, elect_eq_iff_of_not_waits lists idles]

theorem heldOff_iff_of_waits (lists : table.Lists nodes) (unmarked : ¬ marked)
    (member : proc ∈ nodes) (waits : table.Waits proc) :
    table.HeldOff nodes proc marked ↔ table.elect nodes ≠ proc := by
  rw [HeldOff, and_iff_right fun isMarked => absurd isMarked unmarked, imp_iff_right unmarked,
    elect_ne_iff_of_waits lists member waits]

/-- What a process that sleeps finds when its own switch gives the processor away: it waits. -/
theorem state_after_sleep {table' : ProcessTable} (lists : table.Lists nodes) {ms now : Word}
    {saved : CpuState} (returned : processSleep ms now saved table = some table')
    (away : table'.currentProcess ≠ table.currentProcess) :
    table'.state table.currentProcess = .waiting := by
  have asleep := (table.sameShape_fallAsleep ms now).lists lists
  rw [processSleep, schedulerSwitch_eq asleep] at returned
  obtain rfl := Option.some.inj returned
  rw [currentProcess_switchTo] at away
  have current : (fallAsleep ms now table).currentProcess = table.currentProcess := rfl
  rw [state_switchTo, current, if_neg away, if_neg away.symm, if_pos rfl]

end ProcessTable

/-- The process, of this pid, was made to wait by the switch of its own `process_sleep`, the first
of the calls since: it is away from the processor, and waits unless one of the calls killed it. -/
structure Displaced (proc pid : Word) (calls : List ProcessCall) (system : ProcessSystem) :
    Prop where
  member : proc ∈ system.created
  samePid : (system.table.procs proc).pid = pid
  away : system.table.currentProcess ≠ proc
  waits : ProcessCall.kill pid ∉ calls → system.table.Waits proc
  zombie : ProcessCall.kill pid ∈ calls → system.table.state proc = .zombie

namespace Displaced

variable {proc pid : Word}

/-- `process_sleep` displaces the process that calls it, or leaves it current. -/
theorem sleep (inv : ProcessInv idle system) {ms now : Word} {saved : CpuState}
    {system' : ProcessSystem} (step : system.step (.sleep ms now saved) = some system')
    (away : system'.table.currentProcess ≠ system.table.currentProcess) :
    Displaced system.table.currentProcess (system.table.procs system.table.currentProcess).pid
      [.sleep ms now saved] system' := by
  obtain ⟨_, returned, created⟩ := step_eq_some.mp step
  have asleep := (inv.fallAsleep ms now).lists
  have shape : system.table.SameShape system'.table := by
    rw [← Option.some.inj ((ProcessTable.schedulerSwitch_eq asleep saved).symm.trans returned)]
    exact (system.table.sameShape_fallAsleep ms now).trans (ProcessTable.sameShape_switchTo ..)
  refine ⟨created ▸ inv.current, shape.pid _, away, fun _ => ?_, fun killed => ?_⟩
  · exact ProcessTable.state_after_sleep inv.lists returned away
  · exact absurd (List.mem_singleton.mp killed) nofun

/-- The state of a displaced process is the one that the calls since have left. -/
theorem not_sleeping {calls : List ProcessCall} (displaced : Displaced proc pid calls system) :
    system.table.state proc ≠ .sleeping := by
  intro sleeps
  by_cases killed : ProcessCall.kill pid ∈ calls
  · exact absurd (sleeps.symm.trans (displaced.zombie killed)) nofun
  · exact absurd (sleeps.symm.trans (displaced.waits killed)) nofun

/-- A call that keeps the state of the process and its pid, and does not kill it. -/
theorem keep {calls : List ProcessCall} (displaced : Displaced proc pid calls system)
    {call : ProcessCall} (other : ProcessCall.kill pid ≠ call) {system' : ProcessSystem}
    (member : proc ∈ system'.created)
    (same : (system'.table.procs proc).pid = (system.table.procs proc).pid)
    (away : system'.table.currentProcess ≠ proc)
    (kept : system'.table.state proc = system.table.state proc) :
    Displaced proc pid (calls ++ [call]) system' where
  member := member
  samePid := same.trans displaced.samePid
  away := away
  waits := fun spared => kept.trans
    (displaced.waits fun killed => spared (List.mem_append_left _ killed))
  zombie := fun killed => kept.trans (displaced.zombie
    ((List.mem_append.mp killed).resolve_right fun last => other (List.mem_singleton.mp last)))

/-- **A displaced process stays so while it is not elected.** -/
theorem step {calls : List ProcessCall} (displaced : Displaced proc pid calls system)
    (inv : ProcessInv idle system) {call : ProcessCall} {system' : ProcessSystem}
    (step : system.step call = some system') (away : system'.table.currentProcess ≠ proc) :
    Displaced proc pid (calls ++ [call]) system' := by
  have created := (step_eq_some.mp step).2.2
  have member : proc ∈ system'.created := created ▸ List.mem_append_right _ displaced.member
  by_cases switches : Switches call
  · obtain ⟨table, atTable⟩ := inv.exists_atSwitch switches
    obtain ⟨_, current, kept, saved, result⟩ := inv.switch atTable
    obtain rfl := Option.some.inj (result.symm.trans step)
    have shape := (inv.sameShape_atSwitch atTable).trans
      (ProcessTable.sameShape_switchTo (table.elect system.created) saved)
    refine displaced.keep (fun same => (same ▸ switches : Switches (.kill pid))) member
      (shape.pid proc) away ?_
    -- neither the outgoing process nor the incoming one
    have outgoing : proc ≠ table.currentProcess := current ▸ displaced.away.symm
    rw [ProcessTable.currentProcess_switchTo] at away
    rw [ProcessTable.state_switchTo, if_neg (Ne.symm away), if_neg outgoing, ite_self]
    exact kept proc displaced.away.symm displaced.not_sleeping
  · cases call with
    | create answers entryPoint name priority =>
        have same := (afterCreate step).old proc displaced.member
        have spared : ProcessCall.kill pid ≠ .create answers entryPoint name priority := nofun
        exact displaced.keep spared member (congrArg Process.pid same) away
          (congrArg Process.state same)
    | kill other =>
        have killed := inv.afterKill step
        have state := killed.state proc displaced.member
        rw [displaced.samePid] at state
        by_cases own : other = pid
        · obtain rfl := own
          rw [if_pos rfl] at state
          refine ⟨member, (killed.shape.pid proc).trans displaced.samePid, away, ?_, fun _ => state⟩
          exact fun spared => absurd (List.mem_append_right _ (List.mem_singleton_self _)) spared
        · rw [if_neg (Ne.symm own)] at state
          exact displaced.keep (fun same => own (ProcessCall.kill.inj same).symm) member
            (killed.shape.pid proc) away state
    | sleep => exact absurd trivial switches
    | yield => exact absurd trivial switches
    | tick => exact absurd trivial switches

/-- **A process that goes to sleep is displaced, as long as it is not elected.** -/
theorem after (inv : ProcessInv idle system) {ms now : Word} {saved : CpuState}
    {calls : List ProcessCall}
    (away : ∀ part middle, part <+: .sleep ms now saved :: calls → part ≠ [] →
      system.after part = some middle →
      middle.table.currentProcess ≠ system.table.currentProcess)
    {system' : ProcessSystem} (run : system.after (.sleep ms now saved :: calls) = some system') :
    Displaced system.table.currentProcess (system.table.procs system.table.currentProcess).pid
      (.sleep ms now saved :: calls) system' := by
  have last := away _ system' List.prefix_rfl (List.cons_ne_nil _ _) run
  induction calls using List.reverseRecOn generalizing system' with
  | nil =>
      have run' : system.after ([] ++ [.sleep ms now saved]) = some system' := run
      obtain ⟨_, start, step⟩ := after_concat_eq_some.mp run'
      obtain rfl := Option.some.inj start
      exact sleep inv step last
  | append_singleton calls call ih =>
      have run' : system.after ((.sleep ms now saved :: calls) ++ [call]) = some system' := run
      obtain ⟨middle, earlier, step⟩ := after_concat_eq_some.mp run'
      have part : (.sleep ms now saved :: calls) <+: .sleep ms now saved :: (calls ++ [call]) :=
        List.prefix_append _ [call]
      have before := ih (fun shorter middle sub => away shorter middle (sub.trans part)) earlier
        (away _ middle part (List.cons_ne_nil _ _) earlier)
      exact before.step (inv.after earlier) step last

end Displaced

namespace ProcessInv

variable {wake : ℕ} {ms now : Word} {saved : CpuState} {rest : List ProcessCall}

/-- At a switch, a sleeper that was not elected before is elected unless it is held off. -/
theorem heldOff_iff (inv : ProcessInv idle system) {before : List ProcessCall}
    {call : ProcessCall} (part : before ++ [call] <+: .sleep ms now saved :: rest)
    (away : ∀ shorter middle, shorter <+: before → shorter ≠ [] →
      system.after shorter = some middle →
      middle.table.currentProcess ≠ system.table.currentProcess)
    {middle : ProcessSystem} (run : system.after before = some middle) {table : ProcessTable}
    (atTable : atSwitch middle.table call = some table) :
    table.HeldOff middle.created system.table.currentProcess
        (Marked (system.table.procs system.table.currentProcess).pid before) ↔
      table.elect middle.created ≠ system.table.currentProcess := by
  obtain ⟨invTable, _, kept, _⟩ := (inv.after run).switch atTable
  cases before with
  | nil =>
      -- its own switch: it sleeps
      obtain rfl := Option.some.inj run
      obtain ⟨rfl, _⟩ := List.cons_prefix_cons.mp part
      obtain rfl := Option.some.inj atTable
      refine ProcessTable.heldOff_iff_of_marked invTable.lists (.inl rfl) fun waits => ?_
      have sleeps : (ProcessManager.fallAsleep ms now system.table).state
          system.table.currentProcess = .sleeping := by
        rw [ProcessManager.fallAsleep, ProcessTable.state_setState, if_pos rfl]
      exact absurd (sleeps.symm.trans waits) nofun
  | cons first before =>
      obtain ⟨rfl, _⟩ := List.cons_prefix_cons.mp part
      have displaced := Displaced.after inv away run
      have same := kept _ displaced.away.symm displaced.not_sleeping
      by_cases killed : ProcessCall.kill
          (system.table.procs system.table.currentProcess).pid ∈ .sleep ms now saved :: before
      · refine ProcessTable.heldOff_iff_of_marked invTable.lists (.inr killed) fun waits => ?_
        exact absurd (waits.symm.trans (same.trans (displaced.zombie killed))) nofun
      · refine ProcessTable.heldOff_iff_of_waits invTable.lists ?_ displaced.member
          (same.trans (displaced.waits killed))
        exact fun marked => killed (marked.resolve_left (List.cons_ne_nil _ _))

/-- A sleeper that is held off at every switch stays away. -/
theorem staysAway (inv : ProcessInv idle system)
    (first : OthersGoFirst system.table.currentProcess wake system (.sleep ms now saved :: rest)) :
    StaysAway system.table.currentProcess wake system (.sleep ms now saved :: rest) := by
  have along : ∀ before, before <+: .sleep ms now saved :: rest →
      (∀ call ∈ before, ¬ DueTick wake call) → ∀ shorter middle, shorter <+: before →
      shorter ≠ [] → system.after shorter = some middle →
      middle.table.currentProcess ≠ system.table.currentProcess := by
    intro before
    induction before using List.reverseRecOn with
    | nil => exact fun _ _ _ _ sub nonempty => absurd (List.prefix_nil.mp sub) nonempty
    | append_singleton before call ih =>
        intro part early shorter reached sub nonempty run
        have ih := ih ((List.prefix_append _ _).trans part)
          fun other member => early other (List.mem_append_left _ member)
        rcases List.prefix_concat_iff.mp sub with rfl | earlier
        · obtain ⟨middle, run', stepped⟩ := after_concat_eq_some.mp run
          have inv' := inv.after run'
          by_cases switches : Switches call
          · obtain ⟨table, atTable⟩ := inv'.exists_atSwitch switches
            obtain ⟨_, _, _, saved', result⟩ := inv'.switch atTable
            obtain rfl := Option.some.inj (result.symm.trans stepped)
            rw [ProcessTable.currentProcess_switchTo]
            exact (inv.heldOff_iff part ih run' atTable).mp
              (first before call middle table part early run' atTable)
          · -- The first call switches, so that this one is not the first.
            have later : before ≠ [] := by
              rintro rfl
              obtain ⟨rfl, _⟩ := List.cons_prefix_cons.mp part
              exact switches trivial
            rw [(inv'.stay switches stepped).1]
            exact ih before middle List.prefix_rfl later run'
        · exact ih shorter reached earlier nonempty run
  exact fun before system' part nonempty early run =>
    along before part early before system' List.prefix_rfl nonempty run

/-- A sleeper that stays away is held off at every switch. -/
theorem othersGoFirst (inv : ProcessInv idle system)
    (stays : StaysAway system.table.currentProcess wake system (.sleep ms now saved :: rest)) :
    OthersGoFirst system.table.currentProcess wake system (.sleep ms now saved :: rest) := by
  intro before call middle table part early run atTable
  obtain ⟨_, _, _, saved', result⟩ := (inv.after run).switch atTable
  refine (inv.heldOff_iff part (fun shorter reached sub nonempty run' => ?_) run atTable).mpr ?_
  · refine stays shorter reached (sub.trans ((List.prefix_append _ _).trans part)) nonempty ?_ run'
    exact fun other member => early other (List.mem_append_left _ (sub.subset member))
  · have away := stays (before ++ [call]) _ part
      (List.append_ne_nil_of_right_ne_nil _ (List.cons_ne_nil _ _)) early
      (after_concat_eq_some.mpr ⟨middle, run, result⟩)
    rwa [ProcessTable.currentProcess_switchTo] at away

end ProcessInv

/-- **Sleep lasts exactly as long as the others go first.** After any run, the current process
calls `process_sleep(ms)` at the tick `now`. It is not current again before a `scheduler_tick` at
`now + ms` or later if and only if the others keep it from the processor at every
`scheduler_switch` before such a tick. At the switch of `process_sleep` itself, and after a
`process_kill` of the process, it is enough that the process is not the head of the list or that
some process waits with a priority below 255. At every other switch the sleeper waits, so that a
waiting process has to go before it: with a lower priority, or the same and further ahead in the
list; or its own priority is 255 and it is not the head. -/
theorem sleep_lasts_iff (nonnull : idle ≠ 0) (procs : Word → Process)
    (run : (booted idle pageDir procs).after calls = some system) (ms now : Word)
    (saved : CpuState) (rest : List ProcessCall) :
    StaysAway system.table.currentProcess (now.toNat + ms.toNat) system
      (.sleep ms now saved :: rest) ↔
    OthersGoFirst system.table.currentProcess (now.toNat + ms.toNat) system
      (.sleep ms now saved :: rest) := by
  have inv := (ProcessInv.booted nonnull procs).after run
  exact ⟨fun stays => inv.othersGoFirst stays, fun first => inv.staysAway first⟩

/-- A process that sleeps while the idle process waits is away after the call. -/
theorem sleep_lasts_first :
    ∃ system, freshSystem.after [createAt 0x2000, .yield .zeroed] = some system ∧
      StaysAway system.table.currentProcess 10 system [.sleep 10 0 .zeroed] := by
  obtain ⟨system, run⟩ := Option.isSome_iff_exists.mp (by decide +kernel :
    (freshSystem.after [createAt 0x2000, .yield .zeroed]).isSome)
  have lasts := sleep_lasts_iff (by decide : (0x1000 : Word) ≠ 0) _ run 10 0 .zeroed []
  refine ⟨system, run, lasts.mpr ?_⟩
  rintro before call system' table ⟨tail, same⟩ _ earlier atTable
  cases before with
  | nil =>
      obtain rfl := Option.some.inj earlier
      obtain ⟨rfl, _⟩ := List.cons.inj same
      obtain rfl := Option.some.inj atTable
      -- the idle process waits behind it in the list
      refine ⟨fun _ none => none.2 0x1000 ?_ ?_, fun unmarked => absurd (.inl rfl) unmarked⟩
      · rw [eq_of_run run created [0x2000, 0x1000] (by decide +kernel)]
        decide
      · exact ⟨eq_of_run run (fun reached => (fallAsleep 10 0 reached.table).state 0x1000) .waiting
          (by decide +kernel), of_decide_eq_true (eq_of_run run (fun reached =>
            decide ((fallAsleep 10 0 reached.table).rank 0x1000 < 255)) true (by decide +kernel))⟩
  | cons first before => simp at same

/-- The tick at which a call reads the tick counter. -/
def readTick : ProcessCall → Option Word
  | .sleep _ now _ | .tick now _ => some now
  | .create .. | .kill _ | .yield _ => none

/-- The tick counter never decreases and stays below `2 ^ 31`. -/
def TicksInOrder (calls : List ProcessCall) : Prop :=
  (calls.filterMap readTick).Pairwise (fun earlier later => earlier ≤ later) ∧
  ∀ now ∈ calls.filterMap readTick, now.toNat < 2 ^ 31

/-- A process that sleeps for ten ticks runs again at the next `process_yield` of the idle
process, at the same tick. -/
theorem sleeper_runs_early :
    ¬ ∀ (idle pageDir : Word) (procs : Word → Process) (calls : List ProcessCall)
      (system : ProcessSystem), idle ≠ 0 →
      (booted idle pageDir procs).after calls = some system →
      system.table.currentProcess ≠ idle →
      ∀ (ms now : Word) (saved : CpuState) (rest : List ProcessCall),
      1 ≤ ms.toNat → ms.toNat < 2 ^ 31 → TicksInOrder (calls ++ .sleep ms now saved :: rest) →
      StaysAway system.table.currentProcess (now.toNat + ms.toNat) system
        (.sleep ms now saved :: rest) := by
  intro lasts
  obtain ⟨early, whole⟩ := Option.isSome_iff_exists.mp (by decide +kernel :
    (freshSystem.after ([createAt 0x2000, .yield .zeroed] ++
      [.sleep 10 0 .zeroed, .yield .zeroed])).isSome)
  obtain ⟨system, run, sleeping⟩ := Option.bind_eq_some_iff.mp (after_append _ _ _ ▸ whole)
  have current := eq_of_run run (fun reached => reached.table.currentProcess) 0x2000
    (by decide +kernel)
  have again := eq_of_run whole (fun reached => reached.table.currentProcess) 0x2000
    (by decide +kernel)
  have ticks : TicksInOrder ([createAt 0x2000, .yield .zeroed] ++
      [.sleep 10 0 .zeroed, .yield .zeroed]) :=
    ⟨List.pairwise_singleton _ (0 : Word), List.forall_mem_singleton.mpr (by decide)⟩
  have away := lasts _ _ _ _ system (by decide : (0x1000 : Word) ≠ 0) run
    (current ▸ by decide) 10 0 .zeroed [.yield .zeroed] (by decide) (by decide) ticks
    [.sleep 10 0 .zeroed, .yield .zeroed] early List.prefix_rfl (List.cons_ne_nil _ _)
    (List.forall_mem_cons.mpr ⟨id, List.forall_mem_singleton.mpr id⟩) sleeping
  exact away (again.trans current.symm)

end CocosOS.ProcessManager
