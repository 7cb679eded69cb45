import CocosOS.ProcessManager.ProcessLifetimes

/-!
# Waking up around the wrap of the tick counter

The tick counter of `timer.c` is an unsigned word that wraps. `process_sleep` records the tick at
which to wake up as the sum of the counter and the milliseconds, which wraps as well, and
`scheduler_tick` compares it with the counter as numbers. Nothing but another `process_sleep` of
the same process changes the record (`SleepsNoMore.wakeupTick`).

A process keeps the mark of `process_sleep` only while it stays current (`SleeperCurrent.after`), so
there are two ways out of it in a `scheduler_tick`: the loop finds the record due, or the switch
behind the loop gives the processor to another process and makes the sleeper wait, whatever the
record (`SleeperCurrent.waits_iff`). The sleeper is woken on time exactly if the sum and the counter
wrap together in the first case, and if the time has passed in the second (`wakes_on_time_iff`).
-/

set_option autoImplicit false

namespace CocosOS.ProcessManager

open Library.ByteMemory Library.LinkedList Library.WordArithmetic ProcessSystem

/-! ## The counter -/

/-- `timer_tick`: the counter. -/
def timerTick (ticks : Word) : Word := ticks + 1

theorem timerTick_iterate (ticks : Word) (elapsed : ℕ) :
    timerTick^[elapsed] ticks = ticks + BitVec.ofNat 32 elapsed := by
  induction elapsed with
  | zero => exact (BitVec.add_zero ticks).symm
  | succ elapsed ih =>
      rw [Function.iterate_succ_apply', ih, timerTick, BitVec.ofNat_add, BitVec.add_assoc]
      rfl

/-! ## The record -/

namespace ProcessTable

@[simp] theorem wakeupTick_switchTo (table : ProcessTable) (best : Word) (saved : CpuState)
    (proc : Word) : (table.switchTo best saved).wakeupTick proc = table.wakeupTick proc := by
  by_cases same : best = table.currentProcess
  · rw [same, switchTo_current]
  · rw [switchTo_of_ne same, wakeupTick_saveContext]
    refine (wakeupTick_setState (table.setState table.currentProcess .waiting) best .running
      proc).trans ?_
    rw [wakeupTick_setState]

/-- `process_sleep` records the sum. -/
theorem wakeupTick_fallAsleep (table : ProcessTable) (ms now proc : Word) :
    (fallAsleep ms now table).wakeupTick proc =
      if proc = table.currentProcess then now + ms else table.wakeupTick proc := by
  rw [fallAsleep, wakeupTick_setState, wakeupTick_setWakeupTick]

/-- The loop of `scheduler_tick` leaves the records alone. -/
theorem wakeupTick_wakeLoop {now : Word} {fuel : ℕ} {first : Word} {table table' : ProcessTable}
    (returned : wakeLoop now fuel first table = some table') (proc : Word) :
    table'.wakeupTick proc = table.wakeupTick proc := by
  induction fuel generalizing first table with
  | zero => exact absurd returned nofun
  | succ fuel ih =>
      rw [wakeLoop] at returned
      split_ifs at returned
      · rw [Option.some.inj returned]
      · rw [ih returned, wakeupTick_setState]
      · exact ih returned

end ProcessTable

/-- In none of the calls is it the process that calls `process_sleep`. -/
def SleepsNoMore (proc : Word) (system : ProcessSystem) (calls : List ProcessCall) : Prop :=
  ∀ before ms now saved middle, before ++ [.sleep ms now saved] <+: calls →
    system.after before = some middle → middle.table.currentProcess ≠ proc

theorem sleepsNoMore_nil (proc : Word) (system : ProcessSystem) : SleepsNoMore proc system [] :=
  fun _ _ _ _ _ part => absurd (List.prefix_nil.mp part) (List.append_ne_nil_of_right_ne_nil _
    (List.cons_ne_nil _ _))

variable {idle pageDir : Word} {calls : List ProcessCall} {system : ProcessSystem}

/-- A call keeps the record of a process, unless it is its own `process_sleep`. -/
theorem ProcessInv.wakeupTick_step (inv : ProcessInv idle system) {proc : Word}
    (member : proc ∈ system.created) {call : ProcessCall}
    (other : ∀ ms now saved, call = .sleep ms now saved → system.table.currentProcess ≠ proc)
    {system' : ProcessSystem} (step : system.step call = some system') :
    system'.table.wakeupTick proc = system.table.wakeupTick proc := by
  have returned := (step_eq_some.mp step).2.1
  cases call with
  | create answers entryPoint name priority =>
      exact congrArg Process.wakeupTick ((afterCreate step).old proc member)
  | kill pid => exact (inv.afterKill step).wakeupTick proc
  | sleep ms now saved =>
      have lists := (inv.fallAsleep ms now).lists
      rw [perform, processSleep, ProcessTable.schedulerSwitch_eq lists] at returned
      rw [← Option.some.inj returned, ProcessTable.wakeupTick_switchTo,
        ProcessTable.wakeupTick_fallAsleep, if_neg (other ms now saved rfl).symm]
  | yield saved =>
      rw [perform, processYield, ProcessTable.schedulerSwitch_eq inv.lists] at returned
      rw [← Option.some.inj returned, ProcessTable.wakeupTick_switchTo]
  | tick now saved =>
      obtain ⟨table, woken, switched⟩ := Option.bind_eq_some_iff.mp returned
      obtain ⟨table', spec, isWoken⟩ := ProcessTable.wakeSleepers_spec inv.lists now
      obtain rfl := Option.some.inj (spec.symm.trans woken)
      rw [ProcessTable.schedulerSwitch_eq (isWoken.shape.lists inv.lists)] at switched
      rw [← Option.some.inj switched, ProcessTable.wakeupTick_switchTo]
      exact ProcessTable.wakeupTick_wakeLoop woken proc

/-- **The record stays until the process sleeps again.** -/
theorem SleepsNoMore.wakeupTick {proc : Word} (once : SleepsNoMore proc system calls)
    (inv : ProcessInv idle system) (member : proc ∈ system.created) {later : ProcessSystem}
    (run : system.after calls = some later) :
    proc ∈ later.created ∧ later.table.wakeupTick proc = system.table.wakeupTick proc := by
  induction calls using List.reverseRecOn generalizing later with
  | nil => exact Option.some.inj run ▸ ⟨member, rfl⟩
  | append_singleton calls call ih =>
      obtain ⟨middle, earlier, step⟩ := after_concat_eq_some.mp run
      have before : SleepsNoMore proc system calls := fun before ms now saved reached part =>
        once before ms now saved reached (part.trans (List.prefix_append ..))
      obtain ⟨listed, kept⟩ := ih before earlier
      refine ⟨?_, ((inv.after earlier).wakeupTick_step listed ?_ step).trans kept⟩
      · rw [(step_eq_some.mp step).2.2]
        exact List.mem_append_right _ listed
      · rintro ms now saved rfl
        exact once calls ms now saved middle List.prefix_rfl earlier

/-! ## The mark -/

/-- Only the current process is marked as sleeping. -/
def SleeperCurrent (system : ProcessSystem) : Prop :=
  ∀ proc ∈ system.created, system.table.state proc = .sleeping →
    proc = system.table.currentProcess

namespace SleeperCurrent

theorem booted (procs : Word → Process) : SleeperCurrent (.booted idle pageDir procs) :=
  fun _ member _ => List.mem_singleton.mp member

theorem beforeSwitch (sleepers : SleeperCurrent system) (inv : ProcessInv idle system)
    {call : ProcessCall} {table : ProcessTable}
    (atTable : atSwitch system.table call = some table) :
    SleeperCurrent ⟨system.created, table⟩ := by
  obtain ⟨_, current, kept, _⟩ := inv.switch atTable
  intro proc member sleeps
  by_contra other
  have away : proc ≠ system.table.currentProcess := current ▸ other
  have awake : system.table.state proc ≠ .sleeping :=
    fun asleep => away (sleepers proc member asleep)
  exact awake ((kept proc away awake).symm.trans sleeps)

/-- A switch overwrites the mark of the process that it takes the processor from. -/
theorem switchTo (sleepers : SleeperCurrent system) (best : Word) (saved : CpuState) :
    SleeperCurrent ⟨system.created, system.table.switchTo best saved⟩ := by
  intro proc member sleeps
  rw [ProcessTable.state_switchTo] at sleeps
  rw [ProcessTable.currentProcess_switchTo]
  split_ifs at sleeps with same _ outgoing
  · exact (sleepers proc member sleeps).trans same.symm
  · exact absurd (sleepers proc member sleeps) outgoing

/-- **No call leaves a sleeper that is not current.** -/
theorem step (sleepers : SleeperCurrent system) (inv : ProcessInv idle system)
    {call : ProcessCall} {system' : ProcessSystem} (step : system.step call = some system') :
    SleeperCurrent system' := by
  by_cases switches : Switches call
  · obtain ⟨table, atTable⟩ := inv.exists_atSwitch switches
    obtain ⟨_, _, _, saved, result⟩ := inv.switch atTable
    obtain rfl := Option.some.inj (result.symm.trans step)
    exact (sleepers.beforeSwitch inv atTable).switchTo _ saved
  · intro proc member sleeps
    rw [(inv.stay switches step).1]
    cases call with
    | create answers entryPoint name priority =>
        have made := afterCreate step
        rw [ProcessTable.state] at sleeps
        rw [made.created] at member
        rcases List.mem_cons.mp member with rfl | listed
        · have waits : (newProcess answers entryPoint name priority system.table).state =
              .waiting := rfl
          rw [made.new] at sleeps
          exact absurd (waits.symm.trans sleeps) (by decide)
        · rw [made.old proc listed] at sleeps
          exact sleepers proc listed sleeps
    | kill pid =>
        have killed := inv.afterKill step
        rw [killed.created] at member
        rw [killed.state proc member] at sleeps
        split_ifs at sleeps
        exact sleepers proc member sleeps
    | sleep => exact absurd trivial switches
    | yield => exact absurd trivial switches
    | tick => exact absurd trivial switches

/-- **In no run is a process marked as sleeping that is not current.** -/
theorem after (sleepers : SleeperCurrent system) (inv : ProcessInv idle system)
    {system' : ProcessSystem} (run : system.after calls = some system') :
    SleeperCurrent system' := by
  induction calls using List.reverseRecOn generalizing system' with
  | nil => exact Option.some.inj run ▸ sleepers
  | append_singleton calls call ih =>
      obtain ⟨middle, earlier, last⟩ := after_concat_eq_some.mp run
      exact (ih earlier).step (inv.after earlier) last

end SleeperCurrent

/-! ## Waking up -/

/-- **What makes a sleeper wait.** A process that is asleep before a `scheduler_tick` waits after it
if its record has come, or if the switch behind the loop does not fall back on it, whatever its
record. -/
theorem SleeperCurrent.waits_iff (sleepers : SleeperCurrent system) (inv : ProcessInv idle system)
    {proc : Word} (member : proc ∈ system.created) (asleep : system.table.state proc = .sleeping)
    {now : Word} {saved : CpuState} {system' : ProcessSystem}
    (tick : system.step (.tick now saved) = some system') :
    system'.table.state proc = .waiting ↔
      system.table.wakeupTick proc ≤ now ∨ ¬ system.table.FallsBackOn system.created proc := by
  obtain ⟨table, returned, woken⟩ := ProcessTable.wakeSleepers_spec inv.lists now
  have atTable : atSwitch system.table (.tick now saved) = some table := returned
  obtain ⟨invTable, current, _, saved', result⟩ := inv.switch atTable
  obtain rfl := Option.some.inj (result.symm.trans tick)
  have isCurrent : proc = table.currentProcess := (sleepers proc member asleep).trans current.symm
  rw [ProcessTable.state_switchTo]
  by_cases due : system.table.wakeupTick proc ≤ now
  · -- it waits behind the loop, and the switch leaves it so
    have waits : table.state proc = .waiting := by
      rw [woken.state, if_pos ⟨member, asleep, due⟩]
    refine iff_of_true ?_ (.inl due)
    split_ifs with stays elected
    · exact waits
    · exact absurd (elected.symm.trans isCurrent) stays
    · rfl
  · -- the loop changes nothing, as no other process sleeps
    have unchanged : ∀ other, table.state other = system.table.state other := by
      intro other
      rw [woken.state, if_neg]
      rintro ⟨listed, sleeps, come⟩
      rw [sleepers other listed sleeps, ← sleepers proc member asleep] at come
      exact due come
    have idles : ¬ table.Waits proc := fun waits =>
      absurd (asleep.symm.trans ((unchanged proc).symm.trans waits)) nofun
    have candidates : ∀ other, table.Candidate other ↔ system.table.Candidate other := by
      intro other
      rw [ProcessTable.Candidate, ProcessTable.Candidate, ProcessTable.Waits, ProcessTable.Waits,
        unchanged, ProcessTable.rank, ProcessTable.rank, woken.shape.priority]
    have elected := ProcessTable.elect_eq_iff_of_not_waits invTable.lists idles
    rw [ProcessTable.FallsBackOn, woken.shape.processList] at elected
    simp only [candidates] at elected
    rw [or_iff_right due, ProcessTable.FallsBackOn, ← elected, isCurrent]
    by_cases stays : table.elect system.created = table.currentProcess
    · rw [if_pos stays, unchanged, ← isCurrent, asleep]
      exact iff_of_false nofun fun other => other (stays.trans isCurrent.symm)
    · rw [if_neg stays, if_neg (Ne.symm stays), if_pos rfl]
      exact iff_of_true rfl stays

/-- **A sleeper is woken on time exactly if it keeps the processor and its record and the counter
wrap together, or loses it and the time has passed.** After any run, the current process calls
`process_sleep(ms)` when the counter is at `ticks`, and it is still asleep, and has not called
`process_sleep` again, when `scheduler_tick` is called `elapsed` ticks after that. Then this
`scheduler_tick` makes it wait just when at least `ms` ticks have passed, if and only if the
following holds in the state before it. Where the process is the head of the list and none waits
with a priority below 255, the sum of `ticks` and `ms` exceeds a word just when the sum of `ticks`
and `elapsed` does; otherwise at least `ms` ticks have passed. -/
theorem wakes_on_time_iff (nonnull : idle ≠ 0) (procs : Word → Process)
    (run : (booted idle pageDir procs).after calls = some system) {ms ticks : Word}
    {saved : CpuState} {asleep : ProcessSystem}
    (sleep : system.step (.sleep ms ticks saved) = some asleep) {rest : List ProcessCall}
    {later : ProcessSystem} (continued : asleep.after rest = some later)
    (once : SleepsNoMore system.table.currentProcess asleep rest)
    (still : later.table.state system.table.currentProcess = .sleeping) {elapsed : ℕ}
    (small : elapsed < 2 ^ 32) {saved' : CpuState} {ticked : ProcessSystem}
    (tick : later.step (.tick (timerTick^[elapsed] ticks) saved') = some ticked) :
    (ticked.table.state system.table.currentProcess = .waiting ↔ ms.toNat ≤ elapsed) ↔
      (later.table.FallsBackOn later.created system.table.currentProcess →
        (ticks.toNat + ms.toNat < 2 ^ 32 ↔ ticks.toNat + elapsed < 2 ^ 32)) ∧
      (¬ later.table.FallsBackOn later.created system.table.currentProcess →
        ms.toNat ≤ elapsed) := by
  have start : ProcessInv idle (booted idle pageDir procs) := .booted nonnull procs
  have inv := start.after run
  have slept := after_concat_eq_some.mpr ⟨system, after_nil system, sleep⟩
  have inv' : ProcessInv idle asleep := inv.after slept
  have sleepers : SleeperCurrent later :=
    (((SleeperCurrent.booted procs).after start run).after inv slept).after inv' continued
  -- the record is the sum
  obtain ⟨-, returned, created⟩ := step_eq_some.mp sleep
  have member : system.table.currentProcess ∈ asleep.created := created ▸ inv.current
  have recorded : asleep.table.wakeupTick system.table.currentProcess = ticks + ms := by
    have lists := (inv.fallAsleep ms ticks).lists
    rw [perform, processSleep, ProcessTable.schedulerSwitch_eq lists] at returned
    rw [← Option.some.inj returned, ProcessTable.wakeupTick_switchTo,
      ProcessTable.wakeupTick_fallAsleep, if_pos rfl]
  obtain ⟨listed, kept⟩ := once.wakeupTick inv' member continued
  -- the loop compares it with the counter
  have waits := sleepers.waits_iff (inv'.after continued) listed still tick
  rw [kept.trans recorded, timerTick_iterate] at waits
  have value : (BitVec.ofNat 32 elapsed).toNat = elapsed :=
    BitVec.toNat_ofNat .. ▸ Nat.mod_eq_of_lt small
  have wraps := add_le_add_left_iff ticks ms (BitVec.ofNat 32 elapsed)
  rw [BitVec.le_def (x := ms), value] at wraps
  rw [waits]
  by_cases alone : later.table.FallsBackOn later.created system.table.currentProcess
  · rw [or_iff_left (not_not_intro alone), imp_iff_right alone,
      and_iff_left fun lost => absurd alone lost]
    exact wraps
  · rw [imp_iff_right alone, and_iff_right fun keeps => absurd keeps alone]
    exact iff_true_left (.inr alone)

/-- The idle process alone sleeps for three ticks, away from the wrap. -/
theorem wakes_on_time_third : ∃ asleep ticked,
    freshSystem.step (.sleep 3 7 .zeroed) = some asleep ∧
    asleep.step (.tick (timerTick^[3] 7) .zeroed) = some ticked ∧
    ticked.table.state 0x1000 = .waiting := by
  obtain ⟨asleep, run⟩ := Option.isSome_iff_exists.mp (by decide +kernel :
    (freshSystem.after ([] ++ [.sleep 3 7 .zeroed])).isSome)
  obtain ⟨system, start, sleep⟩ := after_concat_eq_some.mp run
  obtain rfl := Option.some.inj start
  have still := eq_of_run run (fun reached => reached.table.state 0x1000) .sleeping
    (by decide +kernel)
  have allowed : asleep.Allowed (.tick (timerTick^[3] 7) .zeroed) := trivial
  obtain ⟨ticked, tick, _⟩ :=
    ((ProcessInv.booted (by decide : (0x1000 : Word) ≠ 0) _).after run).step allowed
  refine ⟨asleep, ticked, sleep, tick, ?_⟩
  exact ((wakes_on_time_iff (by decide : (0x1000 : Word) ≠ 0) _ start sleep rfl
    (sleepsNoMore_nil _ asleep) still (by decide) tick).mpr
    ⟨fun _ => by decide, fun _ => by decide⟩).mpr (Nat.le_refl 3)

/-- A process that goes to sleep for three ticks at the tick `2 ^ 32 - 2` is woken after one. -/
theorem woken_before_wrap :
    ¬ ∀ (idle pageDir : Word) (procs : Word → Process) (calls : List ProcessCall)
      (system : ProcessSystem), idle ≠ 0 →
      (booted idle pageDir procs).after calls = some system →
      ∀ (ms ticks : Word) (saved : CpuState) (asleep : ProcessSystem), ms.toNat < 2 ^ 31 →
      system.step (.sleep ms ticks saved) = some asleep →
      ∀ (rest : List ProcessCall) (later : ProcessSystem), asleep.after rest = some later →
      SleepsNoMore system.table.currentProcess asleep rest →
      later.table.state system.table.currentProcess = .sleeping →
      ∀ elapsed < 2 ^ 31, ∀ (saved' : CpuState) (ticked : ProcessSystem),
      later.step (.tick (timerTick^[elapsed] ticks) saved') = some ticked →
      (ticked.table.state system.table.currentProcess = .waiting ↔ ms.toNat ≤ elapsed) := by
  intro always
  obtain ⟨ticked, run'⟩ := Option.isSome_iff_exists.mp (by decide +kernel :
    (freshSystem.after ([.sleep 3 0xFFFFFFFE .zeroed] ++
      [.tick (timerTick^[1] 0xFFFFFFFE) .zeroed])).isSome)
  obtain ⟨asleep, run, tick⟩ := after_concat_eq_some.mp run'
  have slept : freshSystem.after ([] ++ [.sleep 3 0xFFFFFFFE .zeroed]) = some asleep := run
  obtain ⟨system, start, sleep⟩ := after_concat_eq_some.mp slept
  obtain rfl := Option.some.inj start
  have still := eq_of_run run (fun reached => reached.table.state 0x1000) .sleeping
    (by decide +kernel)
  have waits := eq_of_run run' (fun reached => reached.table.state 0x1000) .waiting
    (by decide +kernel)
  have wakes := always _ _ _ [] freshSystem (by decide : (0x1000 : Word) ≠ 0) start 3 0xFFFFFFFE
    .zeroed asleep (by decide) sleep [] asleep rfl (sleepsNoMore_nil _ asleep) still 1 (by decide)
    .zeroed ticked tick
  exact absurd (wakes.mp waits) (by decide)

end CocosOS.ProcessManager
