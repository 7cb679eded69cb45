import CocosOS.ProcessManager.ProcessTable

/-!
# The timer interrupt

`irq0_handler` saves the registers and calls `irq0_handler_c`, which calls `scheduler_tick` of the
process manager, then writes `0x20` to port `0x20` and returns; `iret` ends the handler. The
interrupt controller withholds a timer interrupt from its delivery until that write, and no
interrupt comes while the handler runs. `scheduler_tick` may switch to another process, which goes
on where it was left: behind its own `scheduler_tick` if a timer interrupt took the processor from
it, outside the handler if it gave the processor away, and at its entry point if it has never run.

The write comes after the switch, and only where the processor returns to a handler. So the timer
stays alive in a run exactly if every timer interrupt goes on in the interrupted process or
switches to one that another timer interrupt has suspended (`timer_alive_iff`).
-/

set_option autoImplicit false

namespace CocosOS.Interrupts

open Library.ByteMemory ProcessManager ProcessSystem

/-! ## The machine -/

/-- Where a process executes, or goes on when it is switched to. -/
inductive Point where
  /-- At its entry point. -/
  | entry
  /-- Outside the handler of the timer interrupt. -/
  | outside
  /-- In the handler, before it calls `scheduler_tick`. -/
  | entered
  /-- In the handler, behind that call. -/
  | ticked
  /-- In the handler, behind the write to the controller. -/
  | acknowledged
  deriving DecidableEq, Repr

/-- The processes, whether a timer interrupt is in service, and where each process is. -/
structure Machine where
  processes : ProcessSystem
  inService : Bool
  point : Word → Point

inductive MachineEvent where
  /-- The controller delivers a timer interrupt. -/
  | interrupt
  /-- The handler calls `scheduler_tick`. -/
  | tick (now : Word) (saved : CpuState)
  /-- The handler writes to the controller. -/
  | acknowledge
  /-- The handler returns. -/
  | iret
  /-- The process that executes calls a function of the process manager. -/
  | call (call : ProcessCall)

namespace Machine

/-- The process that executes. -/
def current (machine : Machine) : Word := machine.processes.table.currentProcess

/-- A process executes outside the handler. -/
def Outside (machine : Machine) : Prop := machine.point machine.current = .outside

def setPoint (machine : Machine) (proc : Word) (point : Point) : Machine :=
  { machine with point := Function.update machine.point proc point }

/-- The processes after a call, with the current one where it goes on. -/
def resume (machine : Machine) (processes : ProcessSystem) : Machine :=
  let proc := processes.table.currentProcess
  { machine with
    processes := processes
    point := if machine.point proc = .entry then Function.update machine.point proc .outside
      else machine.point }

/-- The place of a new process. -/
def place (machine : Machine) : ProcessCall → Machine
  | .create answers _ _ _ => machine.setPoint answers.proc .entry
  | _ => machine

/-- The call is one that processes make, and not the handler. -/
def OfProcess : ProcessCall → Bool
  | .tick .. => false
  | _ => true

/-- One event. There is none where it is not possible. -/
def step (machine : Machine) : MachineEvent → Option Machine
  | .interrupt =>
    if machine.point machine.current = .outside ∧ machine.inService = false then
      some ({ machine with inService := true }.setPoint machine.current .entered)
    else none
  | .tick now saved =>
    if machine.point machine.current = .entered then
      (machine.processes.step (.tick now saved)).map
        (machine.setPoint machine.current .ticked).resume
    else none
  | .acknowledge =>
    if machine.point machine.current = .ticked then
      some ({ machine with inService := false }.setPoint machine.current .acknowledged)
    else none
  | .iret =>
    if machine.point machine.current = .acknowledged then
      some (machine.setPoint machine.current .outside)
    else none
  | .call call =>
    if machine.point machine.current = .outside ∧ OfProcess call then
      (machine.processes.step call).map (machine.place call).resume
    else none

/-- The events in order. -/
def after (machine : Machine) (events : List MachineEvent) : Option Machine :=
  events.foldlM step machine

/-- The machine that `process_init` leaves. -/
def booted (idle pageDir : Word) (procs : Word → Process) : Machine :=
  ⟨.booted idle pageDir procs, false,
    Function.update (fun _ => .entry) idle .outside⟩

/-- While a process executes outside the handler, no timer interrupt is in service, so that the
next one can be delivered. -/
def TimerAlive (machine : Machine) : Prop :=
  machine.Outside → machine.inService = false ∧ ∃ machine', machine.step .interrupt = some machine'

/-- A timer interrupt switches to no process but one that a timer interrupt has suspended. -/
def KeepsTimer (machine : Machine) : MachineEvent → Prop
  | .tick now _ => ∀ woken next, wakeSleepers now machine.processes.table = some woken →
      woken.NextInLine machine.processes.created next →
      next = machine.current ∨ machine.point next = .ticked
  | _ => True

end Machine

/-! ## Where the processes are -/

namespace Machine

@[simp] theorem current_setPoint (machine : Machine) (proc : Word) (point : Point) :
    (machine.setPoint proc point).current = machine.current := rfl

theorem point_setPoint (machine : Machine) (proc : Word) (point : Point) (other : Word) :
    (machine.setPoint proc point).point other =
      if other = proc then point else machine.point other := Function.update_apply ..

@[simp] theorem current_resume (machine : Machine) (processes : ProcessSystem) :
    (machine.resume processes).current = processes.table.currentProcess := rfl

/-- Only a process at its entry point moves when it is switched to. -/
theorem point_resume_of_ne {machine : Machine} {processes : ProcessSystem} {proc : Word}
    (other : proc ≠ processes.table.currentProcess ∨ machine.point proc ≠ .entry) :
    (machine.resume processes).point proc = machine.point proc := by
  rw [resume]
  dsimp only
  split_ifs with first
  · refine Function.update_of_ne (fun same => ?_) ..
    rcases other with ne | started
    · exact ne same
    · exact started (same ▸ first)
  · rfl

theorem point_resume_of_entry {machine : Machine} {processes : ProcessSystem}
    (first : machine.point processes.table.currentProcess = .entry) :
    (machine.resume processes).point processes.table.currentProcess = .outside := by
  rw [resume]
  dsimp only
  rw [if_pos first, Function.update_self]

end Machine

/-- What holds of the machine in every run. -/
structure MachineInv (idle : Word) (machine : Machine) : Prop where
  processes : ProcessInv idle machine.processes
  suspended : ∀ proc ≠ machine.current,
    machine.point proc ≠ .entered ∧ machine.point proc ≠ .acknowledged
  started : machine.point machine.current ≠ .entry
  entered : machine.point machine.current = .entered → machine.inService = true
  acknowledged : machine.point machine.current = .acknowledged → machine.inService = false

namespace MachineInv

open Machine

variable {idle : Word} {machine machine' : Machine}

theorem booted {pageDir : Word} (nonnull : idle ≠ 0) (procs : Word → Process) :
    MachineInv idle (Machine.booted idle pageDir procs) := by
  have here : (Machine.booted idle pageDir procs).point idle = .outside :=
    Function.update_self (β := fun _ => Point) idle .outside fun _ => .entry
  have current : (Machine.booted idle pageDir procs).current = idle := rfl
  refine ⟨.booted nonnull procs, fun proc other => ?_, ?_, ?_, ?_⟩
  · have ne : proc ≠ idle := other
    have there : (Machine.booted idle pageDir procs).point proc = .entry :=
      Function.update_of_ne (β := fun _ => Point) ne .outside fun _ => .entry
    rw [there]
    exact ⟨nofun, nofun⟩
  · rw [current, here]
    exact nofun
  · rw [current, here]
    exact nofun
  · rw [current, here]
    exact nofun

/-- The current process moves on in the handler or out of it. -/
theorem setPoint (inv : MachineInv idle machine) (point : Point) (started : point ≠ .entry)
    (inService : Bool) (entered : point = .entered → inService = true)
    (acknowledged : point = .acknowledged → inService = false) :
    MachineInv idle ({ machine with inService := inService }.setPoint machine.current point) := by
  have here : ({ machine with inService := inService }.setPoint machine.current point).point
      machine.current = point := Function.update_self ..
  refine ⟨inv.processes, fun proc other => ?_, ?_, ?_, ?_⟩
  · have ne : proc ≠ machine.current := other
    rw [point_setPoint, if_neg ne]
    exact inv.suspended proc ne
  · exact fun first => started (here.symm.trans first)
  · exact fun enters => entered (here.symm.trans enters)
  · exact fun ends => acknowledged (here.symm.trans ends)

/-- The processor goes on in a process that is suspended, or stays where it is. -/
theorem of_resume {processes : ProcessSystem} (inv : ProcessInv idle processes)
    (calm : ∀ proc, machine.point proc ≠ .entered ∧ machine.point proc ≠ .acknowledged) :
    MachineInv idle (machine.resume processes) := by
  have here : (machine.resume processes).point processes.table.currentProcess ≠ .entry ∧
      (machine.resume processes).point processes.table.currentProcess ≠ .entered ∧
      (machine.resume processes).point processes.table.currentProcess ≠ .acknowledged := by
    by_cases first : machine.point processes.table.currentProcess = .entry
    · rw [point_resume_of_entry first]
      exact ⟨nofun, nofun, nofun⟩
    · rw [point_resume_of_ne (Or.inr first)]
      exact ⟨first, calm _⟩
  refine ⟨inv, fun proc other => ?_, here.1, ?_, ?_⟩
  · have ne : proc ≠ processes.table.currentProcess := other
    rw [point_resume_of_ne (Or.inl ne)]
    exact calm proc
  · exact fun entered => absurd entered here.2.1
  · exact fun ends => absurd ends here.2.2

/-- **A tick goes on in the process that is next in line** when the due sleepers have been woken. -/
theorem step_tick (inv : MachineInv idle machine) {now : Word} {saved : CpuState}
    (taken : machine.step (.tick now saved) = some machine') :
    machine.point machine.current = .entered ∧
      ∃ woken processes, wakeSleepers now machine.processes.table = some woken ∧
        (∀ next, woken.NextInLine machine.processes.created next ↔
          processes.table.currentProcess = next) ∧
        ProcessInv idle processes ∧
        machine' = (machine.setPoint machine.current .ticked).resume processes := by
  rw [Machine.step] at taken
  split_ifs at taken with entered
  obtain ⟨processes, stepped, rfl⟩ := Option.map_eq_some_iff.mp taken
  refine ⟨entered, ?_⟩
  obtain ⟨processes', stepped', inv'⟩ :=
    inv.processes.step (show machine.processes.Allowed (.tick now saved) from trivial)
  obtain rfl := Option.some.inj (stepped'.symm.trans stepped)
  obtain ⟨woken, wakes, isWoken⟩ := ProcessTable.wakeSleepers_spec inv.processes.lists now
  have lists := (inv.processes.woken isWoken).lists
  refine ⟨woken, processes', wakes, fun next => ?_, inv', rfl⟩
  obtain ⟨_, returned, _⟩ := step_eq_some.mp stepped
  rw [perform, schedulerTick, wakes] at returned
  have switched := (ProcessTable.schedulerSwitch_eq lists saved).symm.trans returned
  rw [← Option.some.inj switched, ProcessTable.currentProcess_switchTo]
  exact (ProcessTable.elect_eq_iff lists next).symm

/-- The call of a function outside the handler. -/
theorem step_call (inv : MachineInv idle machine) {call : ProcessCall}
    (taken : machine.step (.call call) = some machine') :
    machine.point machine.current = .outside ∧
      (machine.place call).current = machine.current ∧
      (machine.place call).point machine.current = .outside ∧
      (∀ proc ≠ machine.current, (machine.place call).point proc ≠ .entered ∧
        (machine.place call).point proc ≠ .acknowledged) ∧
      ∃ processes, ProcessInv idle processes ∧
        machine' = (machine.place call).resume processes := by
  rw [Machine.step] at taken
  split_ifs at taken with may
  obtain ⟨processes, stepped, rfl⟩ := Option.map_eq_some_iff.mp taken
  obtain ⟨outside, _⟩ := may
  have allowed := (step_eq_some.mp stepped).1
  have inv' : ProcessInv idle processes := by
    obtain ⟨processes', stepped', inv'⟩ := inv.processes.step allowed
    rw [Option.some.inj (stepped.symm.trans stepped')]
    exact inv'
  cases call with
  | create answers entryPoint name priority =>
      have ne : machine.current ≠ answers.proc :=
        ne_of_mem_of_not_mem inv.processes.current allowed.2.1
      refine ⟨outside, rfl, ?_, fun proc other => ?_, processes, inv', rfl⟩
      · rw [place, point_setPoint, if_neg ne, outside]
      · rw [place, point_setPoint]
        split_ifs with new
        · exact ⟨nofun, nofun⟩
        · exact inv.suspended proc other
  | kill pid => exact ⟨outside, rfl, outside, inv.suspended, processes, inv', rfl⟩
  | sleep ms now saved => exact ⟨outside, rfl, outside, inv.suspended, processes, inv', rfl⟩
  | yield saved => exact ⟨outside, rfl, outside, inv.suspended, processes, inv', rfl⟩
  | tick now saved => exact ⟨outside, rfl, outside, inv.suspended, processes, inv', rfl⟩

/-- In the handler, only the process that has been interrupted moves. -/
theorem calm_ticked (inv : MachineInv idle machine) (proc : Word) :
    (machine.setPoint machine.current .ticked).point proc ≠ .entered ∧
      (machine.setPoint machine.current .ticked).point proc ≠ .acknowledged := by
  rw [point_setPoint]
  split_ifs with same
  · exact ⟨nofun, nofun⟩
  · exact inv.suspended proc same

/-- **Every event keeps the invariant.** -/
theorem step (inv : MachineInv idle machine) {event : MachineEvent}
    (taken : machine.step event = some machine') : MachineInv idle machine' := by
  cases event with
  | interrupt =>
      rw [Machine.step] at taken
      split_ifs at taken
      obtain rfl := Option.some.inj taken
      exact inv.setPoint .entered nofun true (fun _ => rfl) nofun
  | tick now saved =>
      obtain ⟨_, woken, processes, _, _, inv', rfl⟩ := inv.step_tick taken
      exact of_resume inv' inv.calm_ticked
  | acknowledge =>
      rw [Machine.step] at taken
      split_ifs at taken
      obtain rfl := Option.some.inj taken
      exact inv.setPoint .acknowledged nofun false nofun fun _ => rfl
  | iret =>
      rw [Machine.step] at taken
      split_ifs at taken
      obtain rfl := Option.some.inj taken
      exact inv.setPoint .outside nofun machine.inService nofun nofun
  | call call =>
      obtain ⟨outside, same, here, calm, processes, inv', rfl⟩ := inv.step_call taken
      refine of_resume inv' fun proc => ?_
      by_cases current : proc = machine.current
      · rw [current, here]
        exact ⟨nofun, nofun⟩
      · exact calm proc current

/-- **The invariant holds along every run.** -/
theorem after (inv : MachineInv idle machine) {events : List MachineEvent}
    (run : machine.after events = some machine') : MachineInv idle machine' := by
  induction events generalizing machine with
  | nil => exact Option.some.inj run ▸ inv
  | cons event events ih =>
      obtain ⟨middle, taken, rest⟩ := Option.bind_eq_some_iff.mp run
      exact ih (inv.step taken) rest

/-! ## The timer -/

theorem timerAlive_iff : TimerAlive machine ↔
    (machine.Outside → machine.inService = false) := by
  refine ⟨fun alive outside => (alive outside).1, fun clear outside => ⟨clear outside, ?_⟩⟩
  exact ⟨_, if_pos ⟨outside, clear outside⟩⟩

theorem not_outside_setPoint (point : Point) (inside : point ≠ .outside) (inService : Bool) :
    ¬ ({ machine with inService := inService }.setPoint machine.current point).Outside := by
  intro outside
  exact inside ((Function.update_self ..).symm.trans outside)

/-- **An event that meets the condition leaves the timer alive.** -/
theorem timerAlive_step (inv : MachineInv idle machine) (alive : TimerAlive machine)
    {event : MachineEvent} (keeps : machine.KeepsTimer event)
    (taken : machine.step event = some machine') : TimerAlive machine' := by
  rw [timerAlive_iff] at alive ⊢
  cases event with
  | interrupt =>
      rw [Machine.step] at taken
      split_ifs at taken
      obtain rfl := Option.some.inj taken
      exact fun outside => absurd outside (not_outside_setPoint .entered nofun true)
  | tick now saved =>
      obtain ⟨_, woken, processes, wakes, next, _, rfl⟩ := inv.step_tick taken
      intro outside
      have ticked : (machine.setPoint machine.current .ticked).point
          processes.table.currentProcess = .ticked := by
        rw [point_setPoint]
        split_ifs with same
        · rfl
        · exact (keeps woken _ wakes ((next _).mpr rfl)).resolve_left same
      rw [Outside, current_resume,
        point_resume_of_ne (Or.inr (by rw [ticked]; exact nofun)), ticked] at outside
      exact absurd outside nofun
  | acknowledge =>
      rw [Machine.step] at taken
      split_ifs at taken
      obtain rfl := Option.some.inj taken
      exact fun _ => rfl
  | iret =>
      rw [Machine.step] at taken
      split_ifs at taken with acknowledged
      obtain rfl := Option.some.inj taken
      exact fun _ => inv.acknowledged acknowledged
  | call call =>
      obtain ⟨outside, same, _, _, processes, _, rfl⟩ := inv.step_call taken
      have unchanged : ((machine.place call).resume processes).inService = machine.inService := by
        cases call <;> rfl
      rw [unchanged]
      exact fun _ => alive outside

/-- **An event that leaves the timer alive meets the condition.** -/
theorem keepsTimer_of_alive (inv : MachineInv idle machine) {event : MachineEvent}
    (taken : machine.step event = some machine') (alive : TimerAlive machine') :
    machine.KeepsTimer event := by
  cases event with
  | tick now saved =>
      obtain ⟨entered, woken, processes, wakes, next, _, rfl⟩ := inv.step_tick taken
      intro woken' elected wakes' inLine
      obtain rfl := Option.some.inj (wakes.symm.trans wakes')
      obtain rfl := (next elected).mp inLine
      rw [timerAlive_iff] at alive
      by_contra lost
      obtain ⟨other, unticked⟩ := not_or.mp lost
      have there : (machine.setPoint machine.current .ticked).point
          processes.table.currentProcess = machine.point processes.table.currentProcess := by
        rw [point_setPoint, if_neg other]
      have outside : ((machine.setPoint machine.current .ticked).resume processes).Outside := by
        rw [Outside, current_resume]
        cases place : machine.point processes.table.currentProcess with
        | entry => exact point_resume_of_entry (there.trans place)
        | outside =>
            rw [point_resume_of_ne (Or.inr (by rw [there, place]; exact nofun)), there, place]
        | entered => exact absurd place (inv.suspended _ other).1
        | ticked => exact absurd place unticked
        | acknowledged => exact absurd place (inv.suspended _ other).2
      exact Bool.false_ne_true ((alive outside).symm.trans (inv.entered entered))
  | interrupt => trivial
  | acknowledge => trivial
  | iret => trivial
  | call call => trivial

end MachineInv

namespace Machine

theorem after_concat {machine machine' : Machine} {events : List MachineEvent}
    {event : MachineEvent} :
    machine.after (events ++ [event]) = some machine' ↔
      ∃ middle, machine.after events = some middle ∧ middle.step event = some machine' := by
  rw [after, List.foldlM_append]
  simp [Option.bind_eq_some_iff, after]

/-- The parts of a run are runs. -/
theorem after_prefix {machine machine' : Machine} {events before : List MachineEvent}
    (run : machine.after events = some machine') (prior : before <+: events) :
    ∃ middle, machine.after before = some middle := by
  obtain ⟨rest, rfl⟩ := prior
  rw [after, List.foldlM_append] at run
  obtain ⟨middle, earlier, _⟩ := Option.bind_eq_some_iff.mp run
  exact ⟨middle, earlier⟩

end Machine

open Machine

/-- **The timer stays alive in a run exactly if every timer interrupt goes on in the interrupted
process or in one that a timer interrupt has suspended.** -/
theorem timer_alive_iff {idle pageDir : Word} (nonnull : idle ≠ 0) (procs : Word → Process)
    {events : List MachineEvent} {final : Machine}
    (run : (Machine.booted idle pageDir procs).after events = some final) :
    (∀ before machine, before <+: events →
      (Machine.booted idle pageDir procs).after before = some machine → TimerAlive machine) ↔
    ∀ before event machine, before ++ [event] <+: events →
      (Machine.booted idle pageDir procs).after before = some machine →
        machine.KeepsTimer event := by
  have inv : MachineInv idle (Machine.booted idle pageDir procs) := .booted nonnull procs
  constructor
  · intro alive before event machine prior reached
    obtain ⟨machine', reached'⟩ := after_prefix run prior
    obtain ⟨middle, earlier, taken⟩ := after_concat.mp reached'
    obtain rfl := Option.some.inj (earlier.symm.trans reached)
    exact (inv.after earlier).keepsTimer_of_alive taken (alive _ _ prior reached')
  · intro keeps before
    induction before using List.reverseRecOn with
    | nil =>
        intro machine _ reached
        obtain rfl := Option.some.inj reached
        exact MachineInv.timerAlive_iff.mpr fun _ => rfl
    | append_singleton before event ih =>
        intro machine' prior reached
        obtain ⟨machine, earlier, taken⟩ := after_concat.mp reached
        have prior' := (List.prefix_append before [event]).trans prior
        exact (inv.after earlier).timerAlive_step (ih machine prior' earlier)
          (keeps before event machine prior earlier) taken

/-- A timer interrupt that finds a new process switches to it, and the controller is left
waiting. -/
theorem exists_lost_run : ∃ final,
    (Machine.booted 0x1000 0x5000 fun _ => .zeroed).after
      [.call (createAt 0x2000), .interrupt, .tick 0 .zeroed] = some final ∧
    ¬ TimerAlive final := by
  obtain ⟨final, run⟩ := Option.isSome_iff_exists.mp (by decide +kernel :
    ((Machine.booted 0x1000 0x5000 fun _ => .zeroed).after
      [.call (createAt 0x2000), .interrupt, .tick 0 .zeroed]).isSome)
  have seen : ((Machine.booted 0x1000 0x5000 fun _ => .zeroed).after
      [.call (createAt 0x2000), .interrupt, .tick 0 .zeroed]).map
        (fun machine => (machine.point machine.current, machine.inService)) =
      some (.outside, true) := by decide +kernel
  rw [run] at seen
  obtain ⟨outside, waiting⟩ := Prod.mk.inj (Option.some.inj seen)
  exact ⟨final, run, fun alive => Bool.false_ne_true ((alive outside).1.symm.trans waiting)⟩

/-- Not every timer interrupt keeps the timer. -/
theorem timer_alive_newProcess :
    ¬ ∀ before event machine,
      before ++ [event] <+: [.call (createAt 0x2000), .interrupt, .tick 0 .zeroed] →
      (Machine.booted 0x1000 0x5000 fun _ => .zeroed).after before = some machine →
      machine.KeepsTimer event := by
  intro keeps
  obtain ⟨final, run, dead⟩ := exists_lost_run
  have alive := (timer_alive_iff (by decide : (0x1000 : Word) ≠ 0) _ run).mpr keeps
  exact dead (alive _ final List.prefix_rfl run)

/-- The timer does not stay alive in every run. -/
theorem timer_lost : ¬ ∀ (idle pageDir : Word) (procs : Word → Process)
    (events : List MachineEvent) (machine : Machine), idle ≠ 0 →
    (Machine.booted idle pageDir procs).after events = some machine → TimerAlive machine := by
  intro alive
  obtain ⟨final, run, dead⟩ := exists_lost_run
  exact dead (alive _ _ _ _ final (by decide) run)

end CocosOS.Interrupts
