import CocosOS.Scheduler.RoundRobin

/-!
# On which stack a task resumes

`context_switch` saves the stack pointer of the outgoing task and loads that of the incoming one
into `edx`, where it stays: no instruction moves it to `esp`. The switch therefore returns on the
stack it was called on. The incoming task resumes on its own stack only where that is the same
one (`tasks_resume_iff`): a task alone in its ring, or one that happens to be suspended with the
stack pointer of the call.
-/

set_option autoImplicit false

namespace CocosOS.Scheduler

open Library.ByteMemory Library.LinkedList

variable {tasks : List Word} {saved : Word → Word} {machine : Machine}

/-- The processor when the switch of a tick is about to return. -/
def atReturn (returnAddress : Word) (machine : Machine) : Cpu :=
  switched returnAddress machine.current
    (Task.esp machine.mem (machine.links machine.current)) machine.cpu

/-- What a tick owes to the two tasks, when its switch is about to return: the stack pointer is
the one stored in the task that is now current, which is the one it was suspended with, and the
outgoing task has the one it entered the switch with. -/
structure ResumesOnOwnStack (returnAddress : Word) (saved : Word → Word) (machine : Machine) :
    Prop where
  restored : (atReturn returnAddress machine).esp =
    Task.esp (atReturn returnAddress machine).mem (machine.links machine.current)
  own : Task.esp (atReturn returnAddress machine).mem (machine.links machine.current) =
    suspend saved machine (machine.links machine.current)
  kept : Task.esp (atReturn returnAddress machine).mem machine.current = machine.cpu.esp - 12

/-- The saving half always works. -/
theorem Scheduled.suspended_atReturn (scheduled : Scheduled tasks saved machine)
    (nonempty : tasks ≠ []) (apart : StackApart tasks machine.cpu) (returnAddress : Word)
    {task : Word} (member : task ∈ tasks) :
    Task.esp (atReturn returnAddress machine).mem task = suspend saved machine task := by
  rw [← (scheduled.tick apart returnAddress).suspended task member,
    Scheduled.tick_mem_of_current (scheduled.current_ne_zero nonempty)]
  rfl

/-- One tick: the restoring half works if the stack pointer of the next task is that of the
call already. -/
theorem Scheduled.resumesOnOwnStack_iff (scheduled : Scheduled tasks saved machine)
    (nonempty : tasks ≠ []) (apart : StackApart tasks machine.cpu) (returnAddress : Word) :
    ResumesOnOwnStack returnAddress saved machine ↔
      machine.links machine.current = machine.current ∨
      saved (machine.links machine.current) = machine.cpu.esp - 12 := by
  have nonzero := scheduled.current_ne_zero nonempty
  have next := scheduled.suspended_atReturn nonempty apart returnAddress
    (scheduled.links_mem nonempty)
  have current := scheduled.suspended_atReturn nonempty apart returnAddress
    (scheduled.current_mem nonempty)
  have esp : (atReturn returnAddress machine).esp = machine.cpu.esp - 12 := switched_esp
  simp only [suspend, if_neg nonzero, Function.update_self] at next current
  by_cases same : machine.links machine.current = machine.current
  · refine iff_of_true ⟨?_, ?_, current⟩ (.inl same)
    · rw [esp, next, same, Function.update_self]
    · rw [next, suspend, if_neg nonzero]
  · rw [or_iff_right same]
    constructor
    · intro resumes
      have restored := resumes.restored
      rw [esp, next, Function.update_of_ne same] at restored
      exact restored.symm
    · intro suspended
      refine ⟨?_, ?_, current⟩
      · rw [esp, next, Function.update_of_ne same, suspended]
      · rw [next, suspend, if_neg nonzero]

/-- **A task resumes on its own stack only if that is the stack of the call.** In every state of
every run, the switch of a tick restores the stack pointer of the next task if and only if the
next task is the current one or is suspended with the stack pointer with which the current one
enters the switch. -/
theorem tasks_resume_iff (run : SchedulerRun tasks saved machine) (nonempty : tasks ≠ [])
    (apart : StackApart tasks machine.cpu) (returnAddress : Word) :
    ResumesOnOwnStack returnAddress saved machine ↔
      machine.links machine.current = machine.current ∨
      saved (machine.links machine.current) = machine.cpu.esp - 12 :=
  run.scheduled.resumesOnOwnStack_iff nonempty apart returnAddress

/-- A task alone resumes on its own stack. -/
theorem loneTask_resumes :
    ∃ saved machine, SchedulerRun [0x1000] saved machine ∧ ResumesOnOwnStack 0 saved machine := by
  have fresh : Task.Fresh [] 0x1000 := ⟨⟨by decide, by decide⟩, List.forall_mem_nil _⟩
  have run := (SchedulerRun.init ⟨0, 0, 0x9000, 0, fun _ => 0⟩ fun _ => 0).add fresh
  have apart : StackApart [0x1000] ⟨0, 0, 0x9000, 0, fun _ => 0⟩ :=
    List.forall_mem_singleton.mpr ⟨by decide, .inl (by decide)⟩
  exact ⟨_, _, run, (tasks_resume_iff run (List.cons_ne_nil _ _) apart 0).mpr
    (.inl (by decide +kernel))⟩

/-- The first tick of two tasks returns on the stack that the processor was on. -/
theorem twoTasks_resume_elsewhere :
    ¬ ∀ (tasks : List Word) (saved : Word → Word) (machine : Machine),
      SchedulerRun tasks saved machine → tasks ≠ [] → StackApart tasks machine.cpu →
      ∀ returnAddress, ResumesOnOwnStack returnAddress saved machine := by
  intro resume
  obtain ⟨saved, run⟩ := twoTasks_run
  have scheduled := run.scheduled
  have nonempty : ([0x2000, 0x1000] : List Word) ≠ [] := List.cons_ne_nil _ _
  have esp : twoTasks.cpu.esp = 0x9000 := rfl
  have apart := twoTasks_stackApart twoTasks.cpu (by rw [esp]; decide)
  have next : twoTasks.links twoTasks.current = 0x2000 := by decide +kernel
  have current : twoTasks.current = 0x1000 := by decide +kernel
  have stored : Task.esp twoTasks.mem 0x2000 = 0x6000 := by decide +kernel
  have condition := (scheduled.resumesOnOwnStack_iff nonempty apart 0).mp
    (resume _ _ _ run nonempty apart 0)
  rw [next, current, esp, ← scheduled.suspended 0x2000 List.mem_cons_self, stored] at condition
  exact absurd condition (by decide)

end CocosOS.Scheduler
