import CocosOS.ProcessManager.Dispatch

/-!
# Starvation

A switch makes the outgoing process wait and dispatches the first of the waiting ones of lowest
priority. So two processes that neither sleep nor are killed take turns, and whatever is behind
both of them is never dispatched: at every switch one of the two waits
(`Contended.elect_ne`). Since the idle process has the priority 0, comes before every other process
and never sleeps, it is one of the two as soon as it has been preempted. The other one is the most
urgent process that keeps running (`idle_and_one_starve_others`).
-/

set_option autoImplicit false

namespace CocosOS.ProcessManager

open Library.ByteMemory Library.FirstMinimum Library.LinkedList ProcessSystem

variable {idle pageDir : Word} {system : ProcessSystem} {first second proc : Word}

/-! ## Who is preferred -/

/-- When both wait, a switch prefers `first`: its priority is below 255, and lower than that of
`proc`, or the same and it is nearer to the head of the list. -/
structure Ahead (system : ProcessSystem) (first proc : Word) : Prop where
  mem_first : first ∈ system.created
  mem : proc ∈ system.created
  below : system.table.rank first < 255
  order : system.table.rank first < system.table.rank proc ∨
    system.table.rank first = system.table.rank proc ∧ [first, proc].Sublist system.created

/-- The process can run: it waits or it does run. -/
def Ready (table : ProcessTable) (proc : Word) : Prop :=
  table.state proc = .waiting ∨ table.state proc = .running

/-- What comes before a later item in a list without repetitions is in front of it. -/
theorem mem_of_pair_sublist {items front back : List Word} {item later : Word}
    (nodup : items.Nodup) (split : items = front ++ later :: back)
    (pair : [item, later].Sublist items) : item ∈ front := by
  obtain ⟨start, rest, parts, inStart, tail⟩ := List.cons_sublist_iff.mp pair
  have inRest : later ∈ rest := List.singleton_sublist.mp tail
  rw [parts] at nodup
  rcases List.append_eq_append_iff.mp (parts.symm.trans split) with
    ⟨between, frontEq, _⟩ | ⟨between, startEq, restEq⟩
  · exact frontEq ▸ List.mem_append_left _ inStart
  · cases between with
    | nil => rwa [startEq, List.append_nil] at inStart
    | cons head between =>
        -- then the later item would be in both parts
        obtain rfl : later = head := (List.cons_eq_cons.mp restEq).1
        have inStart' : later ∈ start :=
          startEq ▸ List.mem_append_right _ List.mem_cons_self
        exact absurd rfl ((List.nodup_append.mp nodup).2.2 later inStart' later inRest)

/-- A process is not elected while one that is ahead of it waits. -/
theorem Ahead.elect_ne (ahead : Ahead system first proc)
    (lists : system.table.Lists system.created) (waits : system.table.Waits first) :
    system.table.elect system.created ≠ proc := by
  intro elected
  rcases (ProcessTable.elect_eq_iff lists proc).mp elected with ⟨minimum, _⟩ | ⟨none, _⟩
  · rcases ahead.order with lower | ⟨same, before⟩
    · exact absurd (minimum.le ahead.mem_first waits) (Nat.not_le_of_lt lower)
    · obtain ⟨_, front, back, split, inFront, _⟩ := minimum
      have nodup := lists.segment.nodup lists.nonnull
      have nearer := mem_of_pair_sublist nodup split before
      exact absurd (inFront first nearer waits) (same ▸ Nat.lt_irrefl _)
  · exact none first ahead.mem_first ⟨waits, ahead.below⟩

/-! ## What a call leaves -/

/-- A call keeps the priorities of the processes there are. -/
theorem ProcessInv.rank_step (inv : ProcessInv idle system) {call : ProcessCall}
    {system' : ProcessSystem} (step : system.step call = some system')
    (member : proc ∈ system.created) : system'.table.rank proc = system.table.rank proc := by
  cases call with
  | create answers entryPoint name priority =>
      rw [ProcessTable.rank, (afterCreate step).old proc member, ProcessTable.rank]
  | kill | sleep | yield | tick =>
      obtain ⟨-, shape⟩ := inv.sameShape_step rfl step
      rw [ProcessTable.rank, shape.priority]
      rfl

theorem Ahead.step (ahead : Ahead system first proc) (inv : ProcessInv idle system)
    {call : ProcessCall} {system' : ProcessSystem} (step : system.step call = some system') :
    Ahead system' first proc := by
  have created := (step_eq_some.mp step).2.2
  have old : system.created.Sublist system'.created := created ▸ List.sublist_append_right ..
  refine ⟨old.subset ahead.mem_first, old.subset ahead.mem, ?_, ?_⟩
  · rw [inv.rank_step step ahead.mem_first]
    exact ahead.below
  · rw [inv.rank_step step ahead.mem_first, inv.rank_step step ahead.mem]
    exact ahead.order.imp_right fun both => ⟨both.1, both.2.trans old⟩

/-- The call is neither a `process_sleep` of the process nor a `process_kill` of it. -/
def Spares (proc : Word) (system : ProcessSystem) : ProcessCall → Prop
  | .sleep .. => system.table.currentProcess ≠ proc
  | .kill pid => pid ≠ (system.table.procs proc).pid
  | .create .. | .yield _ | .tick .. => True

/-- A switch leaves a ready process ready. -/
theorem Ready.switchTo {table : ProcessTable} (ready : Ready table proc) (best : Word)
    (saved : CpuState) : Ready (table.switchTo best saved) proc := by
  rw [Ready, ProcessTable.state_switchTo]
  split_ifs
  · exact ready
  · exact .inr rfl
  · exact .inl rfl
  · exact ready

theorem Ready.atSwitch (ready : Ready system.table proc) (inv : ProcessInv idle system)
    {call : ProcessCall} (spares : Spares proc system call) {table : ProcessTable}
    (atTable : atSwitch system.table call = some table) : Ready table proc := by
  cases call with
  | create => exact absurd atTable (by simp [ProcessSystem.atSwitch])
  | kill => exact absurd atTable (by simp [ProcessSystem.atSwitch])
  | sleep ms now saved =>
      obtain rfl := Option.some.inj atTable
      rwa [Ready, fallAsleep, ProcessTable.state_setState, if_neg (Ne.symm spares),
        ProcessTable.state_setWakeupTick]
  | yield saved =>
      obtain rfl := Option.some.inj atTable
      exact ready
  | tick now saved =>
      obtain ⟨table', returned, woken⟩ := ProcessTable.wakeSleepers_spec inv.lists now
      obtain rfl := Option.some.inj (returned.symm.trans atTable)
      rw [Ready, woken.state]
      split_ifs
      · exact .inl rfl
      · exact ready

/-- **A call that spares a ready process leaves it ready.** -/
theorem Ready.step (ready : Ready system.table proc) (inv : ProcessInv idle system)
    (member : proc ∈ system.created) {call : ProcessCall} (spares : Spares proc system call)
    {system' : ProcessSystem} (step : system.step call = some system') :
    Ready system'.table proc := by
  by_cases switches : Switches call
  · obtain ⟨table, atTable⟩ := inv.exists_atSwitch switches
    obtain ⟨_, _, _, saved, result⟩ := inv.switch atTable
    obtain rfl := Option.some.inj (result.symm.trans step)
    exact (ready.atSwitch inv spares atTable).switchTo _ saved
  · cases call with
    | create answers entryPoint name priority =>
        rwa [Ready, ProcessTable.state, (afterCreate step).old proc member]
    | kill pid =>
        have other : (system.table.procs proc).pid ≠ pid := Ne.symm spares
        rwa [Ready, (inv.afterKill step).state proc member, if_neg other]
    | sleep => exact absurd trivial switches
    | yield => exact absurd trivial switches
    | tick => exact absurd trivial switches

/-! ## Two processes that keep running -/

/-- Two ready processes are ahead of a third one, which does not run. -/
structure Contended (first second proc : Word) (system : ProcessSystem) : Prop where
  different : first ≠ second
  ahead₁ : Ahead system first proc
  ahead₂ : Ahead system second proc
  ready₁ : Ready system.table first
  ready₂ : Ready system.table second
  away : system.table.currentProcess ≠ proc

/-- One of two ready processes waits, so the third one is not elected. -/
theorem Contended.elect_ne (contended : Contended first second proc system)
    (inv : ProcessInv idle system) : system.table.elect system.created ≠ proc := by
  rcases contended.ready₁ with waits | running
  · exact contended.ahead₁.elect_ne inv.lists waits
  · rcases contended.ready₂ with waits | running'
    · exact contended.ahead₂.elect_ne inv.lists waits
    · have here := inv.running first contended.ahead₁.mem_first running
      have here' := inv.running second contended.ahead₂.mem_first running'
      exact absurd (here.trans here'.symm) contended.different

theorem Contended.step (contended : Contended first second proc system)
    (inv : ProcessInv idle system) {call : ProcessCall} (spares₁ : Spares first system call)
    (spares₂ : Spares second system call) {system' : ProcessSystem}
    (step : system.step call = some system') : Contended first second proc system' where
  different := contended.different
  ahead₁ := contended.ahead₁.step inv step
  ahead₂ := contended.ahead₂.step inv step
  ready₁ := contended.ready₁.step inv contended.ahead₁.mem_first spares₁ step
  ready₂ := contended.ready₂.step inv contended.ahead₂.mem_first spares₂ step
  away := by
    by_cases switches : Switches call
    · obtain ⟨table, atTable⟩ := inv.exists_atSwitch switches
      obtain ⟨invTable, current, _, saved, result⟩ := inv.switch atTable
      obtain rfl := Option.some.inj (result.symm.trans step)
      have shape := inv.sameShape_atSwitch atTable
      have same : ∀ proc, table.rank proc = system.table.rank proc := fun proc =>
        congrArg BitVec.toNat (shape.priority proc)
      have ahead : ∀ {other}, Ahead system other proc →
          Ahead ⟨system.created, table⟩ other proc := fun ahead =>
        ⟨ahead.mem_first, ahead.mem, (same _).symm ▸ ahead.below,
          (same _).symm ▸ (same _).symm ▸ ahead.order⟩
      have there : Contended first second proc ⟨system.created, table⟩ :=
        ⟨contended.different, ahead contended.ahead₁, ahead contended.ahead₂,
          contended.ready₁.atSwitch inv spares₁ atTable,
          contended.ready₂.atSwitch inv spares₂ atTable, current ▸ contended.away⟩
      rw [ProcessTable.currentProcess_switchTo]
      exact there.elect_ne invTable
    · rw [(inv.stay switches step).1]
      exact contended.away

/-- None of the calls puts the process to sleep or kills it. -/
def KeepsRunning (proc : Word) (system : ProcessSystem) (calls : List ProcessCall) : Prop :=
  ∀ before call middle, before ++ [call] <+: calls → system.after before = some middle →
    Spares proc middle call

theorem KeepsRunning.prior {calls : List ProcessCall} {call : ProcessCall}
    (keeps : KeepsRunning proc system (calls ++ [call])) : KeepsRunning proc system calls :=
  fun before call middle part => keeps before call middle (part.trans (List.prefix_append ..))

/-- **The third process does not run** for as long as the other two keep running. -/
theorem Contended.after (contended : Contended first second proc system)
    (inv : ProcessInv idle system) {calls : List ProcessCall}
    (keeps₁ : KeepsRunning first system calls) (keeps₂ : KeepsRunning second system calls)
    {later : ProcessSystem} (run : system.after calls = some later) :
    Contended first second proc later := by
  induction calls using List.reverseRecOn generalizing later with
  | nil => exact Option.some.inj run ▸ contended
  | append_singleton calls call ih =>
      obtain ⟨middle, earlier, step⟩ := after_concat_eq_some.mp run
      have before := ih keeps₁.prior keeps₂.prior earlier
      exact before.step (inv.after earlier) (keeps₁ calls call middle List.prefix_rfl earlier)
        (keeps₂ calls call middle List.prefix_rfl earlier) step

/-! ## The idle process and another one -/

/-- **The idle process and one other process starve the rest.** After any run of calls that give
no process the priority 0 of the idle process, let the idle process and some process `first` be
ready, and let neither of them sleep or be killed in the calls that follow. Then no process that is
behind `first`, and not current already, is ever dispatched: however long it has been waiting,
whatever the others do and whatever is created. -/
theorem idle_and_one_starve_others (nonnull : idle ≠ 0) (procs : Word → Process)
    {calls : List ProcessCall} (ordinary : ∀ call ∈ calls, Ordinary call)
    (run : (booted idle pageDir procs).after calls = some system) (other : first ≠ idle)
    (readyIdle : Ready system.table idle) (ready : Ready system.table first)
    {rest : List ProcessCall} (keepsIdle : KeepsRunning idle system rest)
    (keeps : KeepsRunning first system rest) {later : ProcessSystem}
    (continued : system.after rest = some later) (ahead : Ahead system first proc)
    (notIdle : proc ≠ idle) (away : system.table.currentProcess ≠ proc) :
    later.table.currentProcess ≠ proc := by
  have inv := (ProcessInv.booted nonnull procs).after run
  have idleFirst := (IdleFirst.booted procs).after (.booted nonnull procs) ordinary run
  have aheadIdle : Ahead system idle proc := by
    refine ⟨inv.mem_idle, ahead.mem, ?_, .inl ?_⟩
    · rw [idleFirst.first]
      exact Nat.zero_lt_succ 254
    · rw [idleFirst.first]
      exact idleFirst.others proc ahead.mem notIdle
  have contended : Contended first idle proc system :=
    ⟨other, ahead, aheadIdle, ready, readyIdle, away⟩
  exact (contended.after inv keeps keepsIdle continued).away

/-- Calls of `process_yield` keep every process running. -/
theorem keepsRunning_of_yields {calls : List ProcessCall}
    (yields : ∀ call ∈ calls, ∃ saved, call = .yield saved) :
    KeepsRunning proc system calls := by
  intro before call middle part _
  obtain ⟨saved, rfl⟩ := yields call
    (part.subset (List.mem_append_right _ (List.mem_singleton_self _)))
  trivial

/-- Two new processes of one priority: the older one waits through three yields. -/
theorem idle_and_newest_starve_oldest :
    ∃ later, freshSystem.after ([createAt 0x2000, createAt 0x3000] ++
        List.replicate 3 (.yield .zeroed)) = some later ∧
      later.table.currentProcess ≠ 0x2000 := by
  obtain ⟨later, whole⟩ := Option.isSome_iff_exists.mp (by decide +kernel :
    (freshSystem.after ([createAt 0x2000, createAt 0x3000] ++
      List.replicate 3 (.yield .zeroed))).isSome)
  obtain ⟨system, run, continued⟩ :=
    Option.bind_eq_some_iff.mp ((after_append ..).symm.trans whole)
  have yields : ∀ call ∈ List.replicate 3 (ProcessCall.yield .zeroed),
      ∃ saved, call = .yield saved := fun call member => ⟨_, List.eq_of_mem_replicate member⟩
  have created := eq_of_run run created [0x3000, 0x2000, 0x1000] (by decide +kernel)
  have low := eq_of_run run (fun reached => reached.table.rank 0x3000) 1 (by decide +kernel)
  have low' := eq_of_run run (fun reached => reached.table.rank 0x2000) 1 (by decide +kernel)
  have ahead : Ahead system 0x3000 0x2000 := by
    refine ⟨?_, ?_, by rw [low]; decide, .inr ⟨by rw [low, low'], ?_⟩⟩
    · rw [created]
      decide
    · rw [created]
      decide
    · rw [created]
      exact (List.prefix_append [0x3000, 0x2000] [0x1000]).sublist
  refine ⟨later, whole, idle_and_one_starve_others (by decide : (0x1000 : Word) ≠ 0) _ ?_ run
    (by decide : (0x3000 : Word) ≠ 0x1000) (.inr ?_) (.inl ?_) (keepsRunning_of_yields yields)
    (keepsRunning_of_yields yields) continued ahead (by decide) ?_⟩
  · exact List.forall_mem_cons.mpr ⟨ordinary_createAt 0x2000,
      List.forall_mem_singleton.mpr (ordinary_createAt 0x3000)⟩
  · exact eq_of_run run (fun reached => reached.table.state 0x1000) .running (by decide +kernel)
  · exact eq_of_run run (fun reached => reached.table.state 0x3000) .waiting (by decide +kernel)
  · rw [eq_of_run run (fun reached => reached.table.currentProcess) 0x1000 (by decide +kernel)]
    decide

end CocosOS.ProcessManager
