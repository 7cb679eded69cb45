import CocosOS.ProcessManager.ProcessLifetimes

/-!
# What a switch dispatches

`scheduler_switch` looks for a waiting process of the lowest priority below `0xFF`, the value it
begins with, and falls back on the head of the list. So a process of priority 255 is never found
(`priority_choice_iff`), and what the fallback dispatches need not be waiting
(`only_waiting_dispatched_iff`). The idle process has the priority 0 that comes before all others:
when it waits at a switch, it gets the processor (`idle_last_iff`).

The statements are about the table in which a call calls `scheduler_switch` (`atSwitch`), after any
run from `process_init`.
-/

set_option autoImplicit false

namespace CocosOS.ProcessManager

open Library.ByteMemory Library.CString Library.FirstMinimum Library.LinkedList ProcessSystem

/-! ## One switch -/

namespace ProcessTable

variable {table : ProcessTable} {nodes : List Word}

/-- The head of a list that is not empty is its first node. -/
theorem Lists.exists_cons (lists : table.Lists nodes) (nonempty : nodes ≠ []) :
    ∃ rest, nodes = table.processList :: rest := by
  cases nodes with
  | nil => exact absurd rfl nonempty
  | cons node rest => exact ⟨rest, by rw [lists.segment.1]⟩

/-- **The elected process is the first of the waiting ones of lowest priority** exactly if there is
a candidate, or the head waits. -/
theorem elect_isFirstMinimum_iff (lists : table.Lists nodes) (nonempty : nodes ≠ []) :
    IsFirstMinimum table.Waits table.rank nodes (table.elect nodes) ↔
      (∃ proc ∈ nodes, table.Candidate proc) ∨ table.Waits table.processList := by
  rcases (elect_eq_iff lists _).mp rfl with ⟨first, candidate⟩ | ⟨none, head⟩
  · exact iff_of_true first (.inl ⟨_, first.mem, candidate⟩)
  · rw [head]
    constructor
    · exact fun first => .inr first.1
    · rintro (⟨proc, member, candidate⟩ | waits)
      · exact absurd candidate (none proc member)
      · obtain ⟨rest, rfl⟩ := lists.exists_cons nonempty
        refine ⟨waits, [], rest, rfl, List.forall_mem_nil _, fun other member isWaiting => ?_⟩
        -- without a candidate, every waiting process has priority 255
        refine (rank_le _).trans (not_lt.mp fun below => ?_)
        exact none other (List.mem_cons_of_mem _ member) ⟨isWaiting, below⟩

/-- **The elected process is current or waits** exactly if there is a candidate, or the head is
current or waits. -/
theorem elect_waits_iff (lists : table.Lists nodes) :
    (table.elect nodes ≠ table.currentProcess → table.Waits (table.elect nodes)) ↔
      (∃ proc ∈ nodes, table.Candidate proc) ∨ table.processList = table.currentProcess ∨
        table.Waits table.processList := by
  rcases (elect_eq_iff lists _).mp rfl with ⟨first, candidate⟩ | ⟨none, head⟩
  · exact iff_of_true (fun _ => first.1) (.inl ⟨_, first.mem, candidate⟩)
  · have noCandidate : ¬ ∃ proc ∈ nodes, table.Candidate proc :=
      fun ⟨proc, member, candidate⟩ => none proc member candidate
    rw [head, or_iff_right noCandidate]
    exact or_iff_not_imp_left.symm

/-- The idle process, at the end of the list, comes before all others: it is elected and another
process is passed over exactly if both wait. -/
theorem elect_last_iff (lists : table.Lists nodes) {idle : Word} {front : List Word}
    (last : nodes = front ++ [idle]) (first : table.rank idle = 0)
    (others : ∀ proc ∈ front, 1 ≤ table.rank proc) :
    (table.elect nodes = idle → ∀ proc ∈ front, ¬ table.Waits proc) ↔
      (table.Waits idle → ∀ proc ∈ front, ¬ table.Waits proc) := by
  constructor
  · intro alone waits proc member
    refine alone (elect_of_first lists ⟨waits, front, [], last, fun other before _ => ?_,
      List.forall_mem_nil _⟩ ⟨waits, first.trans_lt (by decide)⟩) proc member
    rw [first]
    exact others other before
  · intro alone elected
    rcases (elect_eq_iff lists idle).mp elected with ⟨minimum, _⟩ | ⟨_, head⟩
    · exact alone minimum.1
    · -- the last node is the head, so it is the only one
      intro proc member
      have nodup := lists.segment.nodup lists.nonnull
      cases front with
      | nil => exact absurd member List.not_mem_nil
      | cons node front =>
          have same : node = idle := by
            rw [last] at lists
            exact lists.segment.1.symm.trans head.symm
          rw [last, same] at nodup
          exact absurd nodup (by simp)

end ProcessTable

/-! ## Switches of a run -/

variable {idle pageDir : Word} {calls : List ProcessCall} {system : ProcessSystem}

/-- **The priority choice is right exactly if priority 255 need not be found.** At every
`scheduler_switch` of a run at which some process waits, the process that is made current is the
first of the waiting ones of lowest priority, if and only if one waits with a priority below 255 or
the head of the list waits. -/
theorem priority_choice_iff (nonnull : idle ≠ 0) (procs : Word → Process)
    (run : (booted idle pageDir procs).after calls = some system) {call : ProcessCall}
    {table : ProcessTable} (atTable : atSwitch system.table call = some table)
    (_someWaits : ∃ proc ∈ system.created, table.Waits proc) {system' : ProcessSystem}
    (step : system.step call = some system') :
    IsFirstMinimum table.Waits table.rank system.created system'.table.currentProcess ↔
      (∃ proc ∈ system.created, table.Waits proc ∧ table.rank proc < 255) ∨
        table.Waits table.processList := by
  have inv := (ProcessInv.booted nonnull procs).after run
  obtain ⟨invTable, _, _, saved, result⟩ := inv.switch atTable
  obtain rfl := Option.some.inj (result.symm.trans step)
  rw [ProcessTable.currentProcess_switchTo]
  exact ProcessTable.elect_isFirstMinimum_iff invTable.lists inv.nonempty

/-- The process that waits behind a head that does not, with a priority below 255. -/
theorem priority_choice_behindZombie :
    ∃ system system', freshSystem.after [createAt 0x2000, createAt 0x3000, .kill 2] = some system ∧
      system.step (.yield .zeroed) = some system' ∧
      IsFirstMinimum system.table.Waits system.table.rank system.created
        system'.table.currentProcess := by
  obtain ⟨system', run'⟩ := Option.isSome_iff_exists.mp (by decide +kernel :
    (freshSystem.after ([createAt 0x2000, createAt 0x3000, .kill 2] ++ [.yield .zeroed])).isSome)
  obtain ⟨system, run, step⟩ := after_concat_eq_some.mp run'
  have candidate : ∃ proc ∈ system.created, system.table.Candidate proc := by
    rw [eq_of_run run created [0x3000, 0x2000, 0x1000] (by decide +kernel)]
    exact ⟨0x2000, by decide, eq_of_run run (fun reached => reached.table.state 0x2000) .waiting
      (by decide +kernel), eq_of_run run (fun reached => decide (reached.table.rank 0x2000 < 255))
      true (by decide +kernel) |> of_decide_eq_true⟩
  obtain ⟨proc, member, waits, _⟩ := id candidate
  exact ⟨system, system', run, step, (priority_choice_iff (by decide : (0x1000 : Word) ≠ 0) _ run
    rfl ⟨proc, member, waits⟩ step).mpr (.inl candidate)⟩

/-- A process of the lowest urgency. -/
def createLast (proc : Word) : ProcessCall :=
  .create ⟨proc, 0x6000, 0x6000, 0x10000⟩ 0x400 idleName 255

/-- A zombie at the head of the list is preferred to a waiting process of priority 255. -/
theorem priority_255_passed_over :
    ¬ ∀ (idle pageDir : Word) (procs : Word → Process) (calls : List ProcessCall)
      (system : ProcessSystem), idle ≠ 0 →
      (booted idle pageDir procs).after calls = some system →
      ∀ (call : ProcessCall) (table : ProcessTable), atSwitch system.table call = some table →
      (∃ proc ∈ system.created, table.Waits proc) →
      ∀ system', system.step call = some system' →
        IsFirstMinimum table.Waits table.rank system.created system'.table.currentProcess := by
  intro always
  obtain ⟨system', run'⟩ := Option.isSome_iff_exists.mp (by decide +kernel :
    (freshSystem.after ([createLast 0x2000, createAt 0x3000, .kill 2] ++
      [.yield .zeroed])).isSome)
  obtain ⟨system, run, step⟩ := after_concat_eq_some.mp run'
  have waits := eq_of_run run (fun reached => reached.table.state 0x2000) .waiting
    (by decide +kernel)
  have member : 0x2000 ∈ system.created := by
    rw [eq_of_run run created [0x3000, 0x2000, 0x1000] (by decide +kernel)]
    decide
  have zombie := eq_of_run run (fun reached => reached.table.state 0x3000) .zombie
    (by decide +kernel)
  have first := always _ _ _ _ system (by decide : (0x1000 : Word) ≠ 0) run (.yield .zeroed)
    system.table rfl ⟨0x2000, member, waits⟩ system' step
  have chosen := first.1
  rw [eq_of_run run' (fun reached => reached.table.currentProcess) 0x3000 (by decide +kernel)]
    at chosen
  exact absurd (zombie.symm.trans chosen) nofun

/-- What is asked of a switch that leads from one table to another: a process that is dispatched
was waiting, and when none is and the current process runs, nothing changes. -/
def DispatchesWaiting (nodes : List Word) (table table' : ProcessTable) : Prop :=
  (table'.currentProcess ≠ table.currentProcess → table.Waits table'.currentProcess) ∧
  ((∀ proc ∈ nodes, ¬ table.Waits proc) → table.state table.currentProcess = .running →
    table'.currentProcess = table.currentProcess ∧
    ∀ proc, table'.state proc = table.state proc)

/-- **Only waiting processes are dispatched exactly if the fallback finds one or changes nothing.**
At every `scheduler_switch` of a run, the process that is dispatched was waiting, and nothing
changes when none is and the current process runs, if and only if some process waits with a
priority below 255, or the head of the list is the current process or waits. -/
theorem only_waiting_dispatched_iff (nonnull : idle ≠ 0) (procs : Word → Process)
    (run : (booted idle pageDir procs).after calls = some system) {call : ProcessCall}
    {table : ProcessTable} (atTable : atSwitch system.table call = some table)
    {system' : ProcessSystem} (step : system.step call = some system') :
    DispatchesWaiting system.created table system'.table ↔
      (∃ proc ∈ system.created, table.Waits proc ∧ table.rank proc < 255) ∨
        table.processList = table.currentProcess ∨ table.Waits table.processList := by
  have inv := (ProcessInv.booted nonnull procs).after run
  obtain ⟨invTable, _, _, saved, result⟩ := inv.switch atTable
  obtain rfl := Option.some.inj (result.symm.trans step)
  have dispatched := ProcessTable.elect_waits_iff invTable.lists
  rw [DispatchesWaiting, ProcessTable.currentProcess_switchTo]
  refine ⟨fun both => dispatched.mp both.1, fun condition => ⟨dispatched.mpr condition, ?_⟩⟩
  intro none _
  -- nobody waits, so the head is elected, and it is the current process
  have noCandidate : ∀ proc ∈ system.created, ¬ table.Candidate proc :=
    fun proc member candidate => none proc member candidate.1
  have current : table.processList = table.currentProcess := by
    obtain ⟨rest, nodes⟩ := invTable.lists.exists_cons inv.nonempty
    rcases condition with ⟨proc, member, candidate⟩ | same | waits
    · exact absurd candidate (noCandidate proc member)
    · exact same
    · exact absurd waits (none _ (nodes ▸ List.mem_cons_self))
  rw [ProcessTable.elect_of_none noCandidate, current, ProcessTable.switchTo_current]
  exact ⟨rfl, fun _ => rfl⟩

/-- A new process is dispatched by the first switch. -/
theorem only_waiting_dispatched_new :
    ∃ system system', freshSystem.after [createAt 0x2000] = some system ∧
      system.step (.yield .zeroed) = some system' ∧
      system'.table.currentProcess = 0x2000 ∧
      DispatchesWaiting system.created system.table system'.table := by
  obtain ⟨system', run'⟩ := Option.isSome_iff_exists.mp (by decide +kernel :
    (freshSystem.after ([createAt 0x2000] ++ [.yield .zeroed])).isSome)
  obtain ⟨system, run, step⟩ := after_concat_eq_some.mp run'
  have head := eq_of_run run (fun reached => reached.table.processList) 0x2000
    (by decide +kernel)
  have waits := eq_of_run run (fun reached => reached.table.state 0x2000) .waiting
    (by decide +kernel)
  refine ⟨system, system', run, step, eq_of_run run' (fun reached => reached.table.currentProcess)
    0x2000 (by decide +kernel), ?_⟩
  refine (only_waiting_dispatched_iff (by decide : (0x1000 : Word) ≠ 0) _ run rfl step).mpr
    (.inr (.inr ?_))
  rw [head]
  exact waits

/-- A process that was killed is dispatched. -/
theorem zombie_dispatched :
    ¬ ∀ (idle pageDir : Word) (procs : Word → Process) (calls : List ProcessCall)
      (system : ProcessSystem), idle ≠ 0 →
      (booted idle pageDir procs).after calls = some system →
      ∀ (call : ProcessCall) (table : ProcessTable), atSwitch system.table call = some table →
      ∀ system', system.step call = some system' →
        DispatchesWaiting system.created table system'.table := by
  intro always
  obtain ⟨system', run'⟩ := Option.isSome_iff_exists.mp (by decide +kernel :
    (freshSystem.after ([createAt 0x2000, .kill 1] ++ [.yield .zeroed])).isSome)
  obtain ⟨system, run, step⟩ := after_concat_eq_some.mp run'
  have zombie := eq_of_run run (fun reached => reached.table.state 0x2000) .zombie
    (by decide +kernel)
  have before := eq_of_run run (fun reached => reached.table.currentProcess) 0x1000
    (by decide +kernel)
  have after := eq_of_run run' (fun reached => reached.table.currentProcess) 0x2000
    (by decide +kernel)
  have dispatched := (always _ _ _ _ system (by decide : (0x1000 : Word) ≠ 0) run (.yield .zeroed)
    system.table rfl system' step).1
  rw [before, after] at dispatched
  exact absurd (zombie.symm.trans (dispatched (by decide))) nofun

/-! ## The idle process -/

/-- A process that the call creates has a priority of its own, behind that of the idle process. -/
def Ordinary : ProcessCall → Prop
  | .create _ _ _ priority => 1 ≤ priority.toNat
  | .kill _ | .sleep .. | .yield _ | .tick .. => True

theorem ordinary_createAt (proc : Word) : Ordinary (createAt proc) := Nat.le_refl 1

/-- The idle process comes before all others. -/
structure IdleFirst (idle : Word) (system : ProcessSystem) : Prop where
  first : system.table.rank idle = 0
  others : ∀ proc ∈ system.created, proc ≠ idle → 1 ≤ system.table.rank proc

namespace ProcessInv

theorem mem_idle (inv : ProcessInv idle system) : idle ∈ system.created :=
  List.mem_of_getLast? inv.last

/-- A call that creates no process keeps the shape of the table. -/
theorem sameShape_step (inv : ProcessInv idle system) {call : ProcessCall}
    (old : added call = []) {system' : ProcessSystem} (step : system.step call = some system') :
    system'.created = system.created ∧ system.table.SameShape system'.table := by
  by_cases switches : Switches call
  · obtain ⟨table, atTable⟩ := inv.exists_atSwitch switches
    obtain ⟨_, _, _, saved, result⟩ := inv.switch atTable
    obtain rfl := Option.some.inj (result.symm.trans step)
    exact ⟨rfl, (inv.sameShape_atSwitch atTable).trans (ProcessTable.sameShape_switchTo ..)⟩
  · cases call with
    | create => exact absurd old (List.cons_ne_nil _ _)
    | kill pid => exact ⟨(inv.afterKill step).created, (inv.afterKill step).shape⟩
    | sleep => exact absurd trivial switches
    | yield => exact absurd trivial switches
    | tick => exact absurd trivial switches

end ProcessInv

namespace IdleFirst

theorem of_sameShape (idleFirst : IdleFirst idle system) {table : ProcessTable}
    (shape : system.table.SameShape table) : IdleFirst idle ⟨system.created, table⟩ where
  first := by
    rw [ProcessTable.rank, shape.priority]
    exact idleFirst.first
  others := fun proc member other => by
    rw [ProcessTable.rank, shape.priority]
    exact idleFirst.others proc member other

theorem booted (procs : Word → Process) : IdleFirst idle (.booted idle pageDir procs) where
  first := by
    change (Function.update procs idle _ idle).priority.toNat = 0
    rw [Function.update_self]
    rfl
  others := fun proc member other => absurd (List.mem_singleton.mp member) other

/-- **Every ordinary call leaves the idle process in front.** -/
theorem step (idleFirst : IdleFirst idle system) (inv : ProcessInv idle system)
    {call : ProcessCall} (ordinary : Ordinary call) {system' : ProcessSystem}
    (step : system.step call = some system') : IdleFirst idle system' := by
  cases call with
  | create answers entryPoint name priority =>
      have made := afterCreate step
      have old : ∀ proc ∈ system.created,
          system'.table.rank proc = system.table.rank proc := by
        intro proc member
        rw [ProcessTable.rank, made.old proc member, ProcessTable.rank]
      refine ⟨(old idle inv.mem_idle).trans idleFirst.first, fun proc member other => ?_⟩
      rw [made.created] at member
      rcases List.mem_cons.mp member with rfl | listed
      · rw [ProcessTable.rank, made.new]
        exact ordinary
      · rw [old proc listed]
        exact idleFirst.others proc listed other
  | kill | sleep | yield | tick =>
      obtain ⟨created, shape⟩ := inv.sameShape_step rfl step
      have kept := idleFirst.of_sameShape shape
      rw [← created] at kept
      exact kept

/-- **It stays in front along every run of ordinary calls.** -/
theorem after (idleFirst : IdleFirst idle system) (inv : ProcessInv idle system)
    {calls : List ProcessCall} (ordinary : ∀ call ∈ calls, Ordinary call)
    {system' : ProcessSystem} (run : system.after calls = some system') :
    IdleFirst idle system' := by
  induction calls using List.reverseRecOn generalizing system' with
  | nil => exact Option.some.inj run ▸ idleFirst
  | append_singleton calls call ih =>
      obtain ⟨middle, earlier, last⟩ := after_concat_eq_some.mp run
      have before := ih (fun other member => ordinary other (List.mem_append_left _ member)) earlier
      exact before.step (inv.after earlier)
        (ordinary call (List.mem_append_right _ (List.mem_singleton_self _))) last

end IdleFirst

/-- No switch of the calls leaves the idle process current while another process waits. -/
def IdleLast (idle : Word) (system : ProcessSystem) (calls : List ProcessCall) : Prop :=
  ∀ before call middle table after, before ++ [call] <+: calls →
    system.after before = some middle → atSwitch middle.table call = some table →
    middle.step call = some after → after.table.currentProcess = idle →
    ∀ proc ∈ middle.created, proc ≠ idle → ¬ table.Waits proc

/-- At no switch of the calls do the idle process and another process wait together. -/
def IdleNeverCompetes (idle : Word) (system : ProcessSystem) (calls : List ProcessCall) : Prop :=
  ∀ before call middle table, before ++ [call] <+: calls →
    system.after before = some middle → atSwitch middle.table call = some table →
    table.Waits idle → ∀ proc ∈ middle.created, proc ≠ idle → ¬ table.Waits proc

/-- At a switch, the idle process is preferred to a waiting one exactly if it waits itself. -/
theorem IdleFirst.elect_iff (idleFirst : IdleFirst idle system) (inv : ProcessInv idle system) :
    (system.table.elect system.created = idle →
      ∀ proc ∈ system.created, proc ≠ idle → ¬ system.table.Waits proc) ↔
      (system.table.Waits idle →
        ∀ proc ∈ system.created, proc ≠ idle → ¬ system.table.Waits proc) := by
  obtain ⟨front, nodes⟩ := List.getLast?_eq_some_iff.mp inv.last
  have nodup := inv.lists.segment.nodup inv.lists.nonnull
  rw [nodes] at nodup
  have notIdle : idle ∉ front := fun member =>
    (List.nodup_append.mp nodup).2.2 idle member idle (List.mem_singleton_self idle) rfl
  -- the others are the processes in front of the last
  have others : ∀ proc, proc ∈ front ↔ proc ∈ system.created ∧ proc ≠ idle := by
    intro proc
    rw [nodes, List.mem_append, List.mem_singleton]
    constructor
    · exact fun member => ⟨.inl member, ne_of_mem_of_not_mem member notIdle⟩
    · exact fun member => member.1.resolve_right member.2
  have atLast := ProcessTable.elect_last_iff inv.lists nodes idleFirst.first fun proc member =>
    idleFirst.others proc ((others proc).mp member).1 ((others proc).mp member).2
  simp only [others, and_imp] at atLast
  exact atLast

/-- **Idle runs only when nothing else can exactly if it never waits beside another process.** In
every run of calls that give no process the priority 0 of the idle process, `scheduler_switch`
never makes the idle process current while another process waits, if and only if at every
`scheduler_switch` of the run the idle process does not wait, or no other process does. -/
theorem idle_last_iff (nonnull : idle ≠ 0) (procs : Word → Process)
    (ordinary : ∀ call ∈ calls, Ordinary call) :
    IdleLast idle (booted idle pageDir procs) calls ↔
      IdleNeverCompetes idle (booted idle pageDir procs) calls := by
  have atSwitches : ∀ before call middle table, before ++ [call] <+: calls →
      (booted idle pageDir procs).after before = some middle →
      atSwitch middle.table call = some table →
      ProcessInv idle ⟨middle.created, table⟩ ∧ IdleFirst idle ⟨middle.created, table⟩ ∧
      ∃ saved, middle.step call =
        some ⟨middle.created, table.switchTo (table.elect middle.created) saved⟩ := by
    intro before call middle table part run atTable
    have start : ProcessInv idle (booted idle pageDir procs) := .booted nonnull procs
    have inv := start.after run
    have idleFirst := (IdleFirst.booted procs).after start (fun other member =>
      ordinary other (part.subset (List.mem_append_left _ member))) run
    obtain ⟨invTable, _, _, switched⟩ := inv.switch atTable
    exact ⟨invTable, idleFirst.of_sameShape (inv.sameShape_atSwitch atTable), switched⟩
  constructor
  · intro last before call middle table part run atTable
    obtain ⟨inv, idleFirst, saved, result⟩ := atSwitches before call middle table part run atTable
    refine (idleFirst.elect_iff inv).mp fun elected => ?_
    exact last before call middle table _ part run atTable result
      ((ProcessTable.currentProcess_switchTo _ saved).trans elected)
  · intro never before call middle table after part run atTable step current
    obtain ⟨inv, idleFirst, saved, result⟩ := atSwitches before call middle table part run atTable
    obtain rfl := Option.some.inj (result.symm.trans step)
    refine (idleFirst.elect_iff inv).mpr (never before call middle table part run atTable) ?_
    exact (ProcessTable.currentProcess_switchTo _ saved).symm.trans current

/-- The idle process, which runs, gives way to a new one. -/
theorem idle_last_firstYield :
    IdleLast 0x1000 freshSystem [createAt 0x2000, .yield .zeroed] ∧
      (freshSystem.after [createAt 0x2000, .yield .zeroed]).map
        (fun reached => reached.table.currentProcess) = some 0x2000 := by
  refine ⟨(idle_last_iff (by decide : (0x1000 : Word) ≠ 0) _ ?_).mpr ?_, by decide +kernel⟩
  · exact List.forall_mem_cons.mpr
      ⟨ordinary_createAt 0x2000, List.forall_mem_singleton.mpr trivial⟩
  · intro before call middle table part run atTable waits
    match before with
    | [] =>
        obtain ⟨rfl, _⟩ := List.cons_prefix_cons.mp part
        exact absurd atTable nofun
    | [first] =>
        obtain ⟨rfl, later⟩ := List.cons_prefix_cons.mp part
        obtain ⟨rfl, _⟩ := List.cons_prefix_cons.mp later
        obtain rfl := Option.some.inj atTable
        have running := eq_of_run run (fun reached => reached.table.state 0x1000) .running
          (by decide +kernel)
        exact absurd (waits.symm.trans running) nofun
    | _ :: _ :: before =>
        have short := part.length_le
        simp at short

/-- The idle process, once it has been preempted, passes over a new process. -/
theorem idle_passes_over :
    ¬ ∀ (idle pageDir : Word) (procs : Word → Process) (calls : List ProcessCall), idle ≠ 0 →
      (∀ call ∈ calls, Ordinary call) → IdleLast idle (booted idle pageDir procs) calls := by
  intro always
  obtain ⟨after, run'⟩ := Option.isSome_iff_exists.mp (by decide +kernel :
    (freshSystem.after ([createAt 0x2000, .yield .zeroed, createAt 0x3000] ++
      [.yield .zeroed])).isSome)
  obtain ⟨middle, run, step⟩ := after_concat_eq_some.mp run'
  have ordinary : ∀ call ∈ [createAt 0x2000, .yield .zeroed, createAt 0x3000] ++
      [ProcessCall.yield .zeroed], Ordinary call :=
    List.forall_mem_cons.mpr ⟨ordinary_createAt 0x2000, List.forall_mem_cons.mpr ⟨trivial,
      List.forall_mem_cons.mpr ⟨ordinary_createAt 0x3000,
        List.forall_mem_singleton.mpr trivial⟩⟩⟩
  have member : 0x3000 ∈ middle.created := by
    rw [eq_of_run run created [0x3000, 0x2000, 0x1000] (by decide +kernel)]
    decide
  have waits := eq_of_run run (fun reached => reached.table.state 0x3000) .waiting
    (by decide +kernel)
  have current := eq_of_run run' (fun reached => reached.table.currentProcess) 0x1000
    (by decide +kernel)
  exact always _ _ _ _ (by decide : (0x1000 : Word) ≠ 0) ordinary _ _ middle middle.table after
    List.prefix_rfl run rfl step current 0x3000 member (by decide) waits

end CocosOS.ProcessManager
