import CocosOS.Library.LinkedList
import CocosOS.Scheduler.ContextSwitch
import Mathlib.Data.List.Pairwise

/-!
# The round-robin scheduler

`scheduler_add` links a task in behind the current one, and `scheduler_tick` makes the next one
current and switches to it. A task is a structure of two words in memory, the saved stack
pointer and the link.

In a run tasks are added and ticks happen in any order, and between them the tasks do anything
that leaves the task structures alone. In every state the links form one ring that holds every
added task once (`Scheduled`, `SchedulerRun.scheduled`). So as many ticks as there are tasks
make each of them current once and lead back to the first (`ticks_visit_each_once`).
-/

set_option autoImplicit false

namespace CocosOS.Scheduler

open Library.ByteMemory Library.LinkedList

/-! ## Tasks -/

namespace Task

/-- `sizeof(task_t)`. -/
def size : ℕ := 8

def esp (mem : Mem) (task : Word) : Word := load32 mem task

def next (mem : Mem) (task : Word) : Word := load32 mem (task + 4)

def setNext (task value : Word) (mem : Mem) : Mem := store32 mem (task + 4) value

/-- A task structure lies in memory and is not at the null pointer. -/
def Valid (task : Word) : Prop := task ≠ 0 ∧ task.toNat + size ≤ 2 ^ 32

/-- Two task structures share no byte. -/
def Disjoint (task other : Word) : Prop :=
  task.toNat + size ≤ other.toNat ∨ other.toNat + size ≤ task.toNat

theorem Disjoint.symm {task other : Word} (disjoint : Disjoint task other) :
    Disjoint other task := Or.symm disjoint

instance : Std.Symm Disjoint := ⟨fun _ _ => Disjoint.symm⟩

theorem Disjoint.ne {task other : Word} (disjoint : Disjoint task other) : task ≠ other := by
  rintro rfl
  unfold Disjoint size at disjoint
  omega

theorem toNat_link {task : Word} (valid : Valid task) : (task + 4).toNat = task.toNat + 4 := by
  have fits := valid.2
  unfold size at fits
  bv_omega

/-- Storing a link changes the links of the tasks in one place. -/
theorem next_setNext {task other : Word} (valid : Valid task) (valid' : Valid other)
    (apart : task = other ∨ Disjoint task other) (value : Word) (mem : Mem) :
    next (setNext task value mem) other = Function.update (next mem) task value other := by
  rcases apart with rfl | disjoint
  · rw [Function.update_self]
    exact load32_store32 ..
  · have link := toNat_link valid
    have link' := toNat_link valid'
    have fits := valid.2
    have fits' := valid'.2
    rw [Function.update_of_ne disjoint.ne.symm]
    unfold Disjoint size at *
    exact load32_store32_of_apart (by omega) (by omega) (by omega)

/-- Storing a link changes no saved stack pointer. -/
theorem esp_setNext {task other : Word} (valid : Valid task) (valid' : Valid other)
    (apart : task = other ∨ Disjoint task other) (value : Word) (mem : Mem) :
    esp (setNext task value mem) other = esp mem other := by
  have link := toNat_link valid
  have fits := valid.2
  have fits' := valid'.2
  unfold Disjoint size at *
  refine load32_store32_of_apart (by omega) (by omega) ?_
  rcases apart with rfl | disjoint <;> omega

/-- The fields of a task depend only on its bytes. -/
theorem next_congr {mem mem' : Mem} {task : Word} (valid : Valid task)
    (same : SameOn task size mem mem') : next mem' task = next mem task := by
  have link := toNat_link valid
  have fits := valid.2
  unfold size at fits
  refine load32_congr (by omega) (same.mono fun x inside => ?_)
  unfold Covers size at *
  omega

theorem esp_congr {mem mem' : Mem} {task : Word} (valid : Valid task)
    (same : SameOn task size mem mem') : esp mem' task = esp mem task := by
  have fits := valid.2
  unfold size at fits
  refine load32_congr (by omega) (same.mono fun x inside => ?_)
  unfold Covers size at *
  omega

/-- Task structures in memory, each in a place of its own. -/
structure Placed (tasks : List Word) : Prop where
  valid : ∀ task ∈ tasks, Valid task
  disjoint : tasks.Pairwise Disjoint

/-- A task structure apart from others. -/
def Fresh (tasks : List Word) (task : Word) : Prop :=
  Valid task ∧ ∀ other ∈ tasks, Disjoint task other

namespace Placed

variable {tasks : List Word}

theorem cons (placed : Placed tasks) {task : Word} (fresh : Fresh tasks task) :
    Placed (task :: tasks) where
  valid := List.forall_mem_cons.mpr ⟨fresh.1, placed.valid⟩
  disjoint := List.pairwise_cons.mpr ⟨fresh.2, placed.disjoint⟩

theorem nodup (placed : Placed tasks) : tasks.Nodup := placed.disjoint.imp Disjoint.ne

theorem apart (placed : Placed tasks) {task other : Word} (member : task ∈ tasks)
    (member' : other ∈ tasks) : task = other ∨ Disjoint task other :=
  (eq_or_ne task other).imp_right fun ne => placed.disjoint.forall member member' ne

theorem next_setNext (placed : Placed tasks) {task other : Word} (member : task ∈ tasks)
    (member' : other ∈ tasks) (value : Word) (mem : Mem) :
    next (setNext task value mem) other = Function.update (next mem) task value other :=
  Task.next_setNext (placed.valid _ member) (placed.valid _ member')
    (placed.apart member member') value mem

theorem esp_setNext (placed : Placed tasks) {task other : Word} (member : task ∈ tasks)
    (member' : other ∈ tasks) (value : Word) (mem : Mem) :
    esp (setNext task value mem) other = esp mem other :=
  Task.esp_setNext (placed.valid _ member) (placed.valid _ member')
    (placed.apart member member') value mem

end Placed

end Task

/-! ## The scheduler -/

/-- The variable `current`, and the processor with memory. -/
structure Machine where
  current : Word
  cpu : Cpu

namespace Machine

def mem (machine : Machine) : Mem := machine.cpu.mem

/-- The links of the tasks. -/
def links (machine : Machine) : Word → Word := Task.next machine.mem

def withMem (machine : Machine) (mem : Mem) : Machine :=
  { machine with cpu := { machine.cpu with mem := mem } }

end Machine

/-- `scheduler_add`. -/
def schedulerAdd (task : Word) (machine : Machine) : Machine :=
  if machine.current = 0 then
    { machine.withMem (Task.setNext task task machine.mem) with current := task }
  else
    let mem := Task.setNext task (Task.next machine.mem machine.current) machine.mem
    machine.withMem (Task.setNext machine.current task mem)

/-- `scheduler_tick`. The field `esp` is the first of a task, so that `&prev->esp` is `prev`. -/
def schedulerTick (returnAddress : Word) (machine : Machine) : Machine :=
  if machine.current = 0 then
    machine
  else
    let prev := machine.current
    let current := Task.next machine.mem prev
    { current := current
      cpu := callSwitch returnAddress prev (Task.esp machine.mem current) machine.cpu }

/-! ## Runs -/

/-- The stack has room for the frame of the switch, apart from the task structures. -/
def StackApart (tasks : List Word) (cpu : Cpu) : Prop :=
  ∀ task ∈ tasks, 12 ≤ cpu.esp.toNat ∧
    (task.toNat + Task.size ≤ cpu.esp.toNat - 12 ∨ cpu.esp.toNat ≤ task.toNat)

/-- The stack pointers the tasks are suspended with, after a tick: the one the current task
enters the switch with is saved for it. -/
def suspend (saved : Word → Word) (machine : Machine) : Word → Word :=
  if machine.current = 0 then saved
  else Function.update saved machine.current (machine.cpu.esp - 12)

/-- The runs of the scheduler, with the tasks added so far and, for each of them, its initial
stack pointer or the one it was last suspended with. -/
inductive SchedulerRun : List Word → (Word → Word) → Machine → Prop
  | init (cpu : Cpu) (saved : Word → Word) : SchedulerRun [] saved ⟨0, cpu⟩
  | add {tasks : List Word} {saved : Word → Word} {machine : Machine}
      (run : SchedulerRun tasks saved machine) {task : Word} (fresh : Task.Fresh tasks task) :
      SchedulerRun (task :: tasks) (Function.update saved task (Task.esp machine.mem task))
        (schedulerAdd task machine)
  | tick {tasks : List Word} {saved : Word → Word} {machine : Machine}
      (run : SchedulerRun tasks saved machine) (returnAddress : Word)
      (apart : StackApart tasks machine.cpu) :
      SchedulerRun tasks (suspend saved machine) (schedulerTick returnAddress machine)
  | work {tasks : List Word} {saved : Word → Word} {machine : Machine}
      (run : SchedulerRun tasks saved machine) {cpu : Cpu}
      (kept : ∀ task ∈ tasks, SameOn task Task.size machine.mem cpu.mem) :
      SchedulerRun tasks saved { machine with cpu := cpu }

/-- What holds in every state of a run. -/
structure Scheduled (tasks : List Word) (saved : Word → Word) (machine : Machine) : Prop where
  placed : Task.Placed tasks
  idle : tasks = [] → machine.current = 0
  ring : tasks ≠ [] → ∃ ring, IsRing machine.links machine.current ring ∧ ring.Perm tasks
  suspended : ∀ task ∈ tasks, Task.esp machine.mem task = saved task

namespace Scheduled

variable {tasks : List Word} {saved : Word → Word} {machine : Machine}

theorem current_mem (scheduled : Scheduled tasks saved machine) (nonempty : tasks ≠ []) :
    machine.current ∈ tasks := by
  obtain ⟨ring, isRing, perm⟩ := scheduled.ring nonempty
  exact perm.mem_iff.mp isRing.first_mem

theorem current_eq_zero_iff (scheduled : Scheduled tasks saved machine) :
    machine.current = 0 ↔ tasks = [] := by
  refine ⟨fun zero => ?_, scheduled.idle⟩
  by_contra nonempty
  exact (scheduled.placed.valid _ (scheduled.current_mem nonempty)).1 zero

theorem current_ne_zero (scheduled : Scheduled tasks saved machine) (nonempty : tasks ≠ []) :
    machine.current ≠ 0 :=
  fun zero => nonempty (scheduled.current_eq_zero_iff.mp zero)

/-- The link of a task is a task. -/
theorem links_mem (scheduled : Scheduled tasks saved machine) (nonempty : tasks ≠ []) :
    machine.links machine.current ∈ tasks := by
  obtain ⟨ring, isRing, perm⟩ := scheduled.ring nonempty
  exact perm.mem_iff.mp (List.mem_rotate.mp isRing.rotate.first_mem)

/-- Code that leaves the task structures alone. -/
theorem work (scheduled : Scheduled tasks saved machine) {cpu : Cpu}
    (kept : ∀ task ∈ tasks, SameOn task Task.size machine.mem cpu.mem) :
    Scheduled tasks saved { machine with cpu := cpu } where
  placed := scheduled.placed
  idle := scheduled.idle
  ring := by
    intro nonempty
    obtain ⟨ring, isRing, perm⟩ := scheduled.ring nonempty
    exact ⟨ring, isRing.congr fun task member =>
      Task.next_congr (scheduled.placed.valid _ (perm.mem_iff.mp member))
        (kept _ (perm.mem_iff.mp member)), perm⟩
  suspended := fun task member =>
    (Task.esp_congr (scheduled.placed.valid _ member) (kept _ member)).trans
      (scheduled.suspended _ member)

/-! ### Adding a task -/

theorem add (scheduled : Scheduled tasks saved machine) {task : Word}
    (fresh : Task.Fresh tasks task) :
    Scheduled (task :: tasks) (Function.update saved task (Task.esp machine.mem task))
      (schedulerAdd task machine) := by
  have placed := scheduled.placed.cons fresh
  have outside : task ∉ tasks := fun member => (fresh.2 task member).ne rfl
  have suspended : ∀ other ∈ task :: tasks, Task.esp machine.mem other =
      Function.update saved task (Task.esp machine.mem task) other := by
    refine List.forall_mem_cons.mpr ⟨by rw [Function.update_self], ?_⟩
    intro other member
    rw [Function.update_of_ne (ne_of_mem_of_not_mem member outside)]
    exact scheduled.suspended other member
  by_cases none : machine.current = 0
  · obtain rfl := scheduled.current_eq_zero_iff.mp none
    rw [schedulerAdd, if_pos none]
    refine ⟨placed, nofun, fun _ => ⟨[task], IsRing.singleton ?_, .refl _⟩, ?_⟩
    · exact (placed.next_setNext List.mem_cons_self List.mem_cons_self _ _).trans
        (Function.update_self ..)
    · intro other member
      rw [← suspended other member]
      exact placed.esp_setNext List.mem_cons_self member _ _
  · have nonempty : tasks ≠ [] := fun empty => none (scheduled.idle empty)
    have current := List.mem_cons_of_mem task (scheduled.current_mem nonempty)
    obtain ⟨ring, isRing, perm⟩ := scheduled.ring nonempty
    obtain ⟨rest, rfl⟩ := isRing.eq_cons
    have notIn : task ∉ machine.current :: rest := fun member => outside (perm.mem_iff.mp member)
    have perm' : (machine.current :: task :: rest).Perm (task :: tasks) :=
      (List.Perm.swap _ _ _).trans (perm.cons task)
    rw [schedulerAdd, if_neg none]
    refine ⟨placed, nofun, fun _ => ⟨_, (isRing.insert notIn).congr ?_, perm'⟩, ?_⟩
    · -- The two stores are the two new links.
      intro node member
      have node' := perm'.mem_iff.mp member
      refine (placed.next_setNext current node' _ _).trans ?_
      rw [Function.update_apply, Function.update_apply]
      exact if_congr Iff.rfl rfl (placed.next_setNext List.mem_cons_self node' _ _)
    · intro other member
      rw [← suspended other member]
      exact (placed.esp_setNext current member _ _).trans
        (placed.esp_setNext List.mem_cons_self member _ _)

/-! ### Ticks -/

theorem tick_of_current (nonzero : machine.current ≠ 0) (returnAddress : Word) :
    schedulerTick returnAddress machine =
      ⟨machine.links machine.current,
        callSwitch returnAddress machine.current
          (Task.esp machine.mem (machine.links machine.current)) machine.cpu⟩ :=
  if_neg nonzero

theorem tick_mem_of_current (nonzero : machine.current ≠ 0) (returnAddress : Word) :
    (schedulerTick returnAddress machine).mem =
      (switched returnAddress machine.current
        (Task.esp machine.mem (machine.links machine.current)) machine.cpu).mem := by
  rw [tick_of_current nonzero]
  rfl

/-- A tick changes no task structure but the word of the outgoing one. -/
theorem sameOn_tick (scheduled : Scheduled tasks saved machine) (nonempty : tasks ≠ [])
    (apart : StackApart tasks machine.cpu) (returnAddress : Word) {task start : Word} {length : ℕ}
    (member : task ∈ tasks) (part : ∀ x, Covers start length x → Covers task Task.size x)
    (unsaved : Apart machine.current 4 start length) :
    SameOn start length machine.mem (schedulerTick returnAddress machine).mem := by
  have current := scheduled.current_mem nonempty
  have fits := (scheduled.placed.valid _ current).2
  obtain ⟨room, beside⟩ := apart _ member
  unfold Task.size at *
  rw [tick_mem_of_current (scheduled.current_ne_zero nonempty)]
  refine sameOn_switched room (by omega) (fun x inFrame inRange => ?_) unsaved
  have inTask := part x inRange
  have address := frame_toNat room
  unfold Covers at *
  omega

/-- A tick leaves every link. -/
theorem tick_next (scheduled : Scheduled tasks saved machine) (nonempty : tasks ≠ [])
    (apart : StackApart tasks machine.cpu) (returnAddress : Word) {task : Word}
    (member : task ∈ tasks) :
    (schedulerTick returnAddress machine).links task = machine.links task := by
  have current := scheduled.current_mem nonempty
  have validCurrent := (scheduled.placed.valid _ current).2
  have valid := scheduled.placed.valid _ member
  have link := Task.toNat_link valid
  have fits := valid.2
  have places := scheduled.placed.apart current member
  unfold Task.size Task.Disjoint at *
  refine load32_congr (by omega) (scheduled.sameOn_tick nonempty apart returnAddress member ?_ ?_)
  · intro x inside
    unfold Covers Task.size at *
    omega
  · intro x saving reading
    unfold Covers at *
    rcases places with same | disjoint
    · rw [← same] at link reading
      omega
    · unfold Task.size at disjoint
      omega

/-- A tick leaves the saved stack pointers of the other tasks. -/
theorem tick_esp_of_ne (scheduled : Scheduled tasks saved machine) (nonempty : tasks ≠ [])
    (apart : StackApart tasks machine.cpu) (returnAddress : Word) {task : Word}
    (member : task ∈ tasks) (other : task ≠ machine.current) :
    Task.esp (schedulerTick returnAddress machine).mem task = Task.esp machine.mem task := by
  have current := scheduled.current_mem nonempty
  have disjoint := (scheduled.placed.apart current member).resolve_left other.symm
  refine Task.esp_congr (scheduled.placed.valid _ member)
    (scheduled.sameOn_tick nonempty apart returnAddress member (fun _ inside => inside) ?_)
  intro x saving reading
  unfold Covers Task.Disjoint Task.size at *
  omega

/-- A tick saves the stack pointer of the outgoing task. -/
theorem tick_esp_current (scheduled : Scheduled tasks saved machine) (nonempty : tasks ≠ [])
    (apart : StackApart tasks machine.cpu) (returnAddress : Word) :
    Task.esp (schedulerTick returnAddress machine).mem machine.current = machine.cpu.esp - 12 := by
  have room := (apart _ (scheduled.current_mem nonempty)).1
  rw [tick_mem_of_current (scheduled.current_ne_zero nonempty)]
  exact load32_switched room

theorem tick (scheduled : Scheduled tasks saved machine) (apart : StackApart tasks machine.cpu)
    (returnAddress : Word) :
    Scheduled tasks (suspend saved machine) (schedulerTick returnAddress machine) := by
  by_cases none : machine.current = 0
  · rwa [schedulerTick, if_pos none, suspend, if_pos none]
  · have nonempty : tasks ≠ [] := fun empty => none (scheduled.idle empty)
    refine ⟨scheduled.placed, fun empty => absurd empty nonempty, fun _ => ?_, ?_⟩
    · obtain ⟨ring, isRing, perm⟩ := scheduled.ring nonempty
      have rotated : (ring.rotate 1).Perm tasks := (List.rotate_perm ring 1).trans perm
      rw [tick_of_current none]
      refine ⟨ring.rotate 1, isRing.rotate.congr fun task member => ?_, rotated⟩
      rw [← tick_of_current none]
      exact scheduled.tick_next nonempty apart returnAddress (rotated.mem_iff.mp member)
    · intro task member
      rw [suspend, if_neg none]
      by_cases same : task = machine.current
      · rw [same, Function.update_self]
        exact scheduled.tick_esp_current nonempty apart returnAddress
      · rw [Function.update_of_ne same, ← scheduled.suspended task member]
        exact scheduled.tick_esp_of_ne nonempty apart returnAddress member same

end Scheduled

/-- **The ring holds in every state of every run.** -/
theorem SchedulerRun.scheduled {tasks : List Word} {saved : Word → Word} {machine : Machine}
    (run : SchedulerRun tasks saved machine) : Scheduled tasks saved machine := by
  induction run with
  | init cpu saved =>
      exact ⟨⟨List.forall_mem_nil _, .nil⟩, fun _ => rfl, fun nonempty => absurd rfl nonempty,
        List.forall_mem_nil _⟩
  | add _ fresh ih => exact ih.add fresh
  | tick _ returnAddress apart ih => exact ih.tick apart returnAddress
  | work _ kept ih => exact ih.work kept

/-! ## Going round -/

/-- Ticks in a row, with no task added, and the tasks each of them makes current. -/
inductive Ticking (tasks : List Word) (start : Machine) : List Word → Machine → Prop
  | start : Ticking tasks start [] start
  | tick {visited : List Word} {machine : Machine} (ticking : Ticking tasks start visited machine)
      (returnAddress : Word) (apart : StackApart tasks machine.cpu) :
      Ticking tasks start (visited ++ [(schedulerTick returnAddress machine).current])
        (schedulerTick returnAddress machine)
  | work {visited : List Word} {machine : Machine} (ticking : Ticking tasks start visited machine)
      {cpu : Cpu} (kept : ∀ task ∈ tasks, SameOn task Task.size machine.mem cpu.mem) :
      Ticking tasks start visited { machine with cpu := cpu }

variable {tasks : List Word} {saved : Word → Word} {start machine : Machine} {visited : List Word}

/-- Ticks prolong a run. -/
theorem Ticking.run (ticking : Ticking tasks start visited machine)
    (run : SchedulerRun tasks saved start) : ∃ saved', SchedulerRun tasks saved' machine := by
  induction ticking with
  | start => exact ⟨saved, run⟩
  | tick _ returnAddress apart ih =>
      obtain ⟨saved', run'⟩ := ih
      exact ⟨_, run'.tick returnAddress apart⟩
  | work _ kept ih =>
      obtain ⟨saved', run'⟩ := ih
      exact ⟨saved', run'.work kept⟩

/-- Ticks walk along the links, which stay what they were. -/
theorem Ticking.walk (ticking : Ticking tasks start visited machine)
    (run : SchedulerRun tasks saved start) (nonempty : tasks ≠ []) :
    Walk start.links start.current visited machine.current ∧
      ∀ task ∈ tasks, machine.links task = start.links task := by
  induction ticking with
  | start => exact ⟨.refl _, fun _ _ => rfl⟩
  | tick ticking returnAddress apart ih =>
      obtain ⟨walk, same⟩ := ih
      obtain ⟨_, run'⟩ := ticking.run run
      have scheduled := run'.scheduled
      refine ⟨?_, fun task member => ?_⟩
      · rw [Scheduled.tick_of_current (scheduled.current_ne_zero nonempty),
          same _ (scheduled.current_mem nonempty)]
        exact walk.step
      · exact (scheduled.tick_next nonempty apart returnAddress member).trans (same task member)
  | work ticking kept ih =>
      obtain ⟨walk, same⟩ := ih
      obtain ⟨_, run'⟩ := ticking.run run
      refine ⟨walk, fun task member => ?_⟩
      exact (Task.next_congr (run'.scheduled.placed.valid _ member) (kept _ member)).trans
        (same task member)

/-- **Round robin.** In every state of every run, the links lead from the current task through
every task added so far, each once, and back. As many ticks as there are tasks, with none added
in between, make each task current once, and then the ring is where it started. -/
theorem ticks_visit_each_once (run : SchedulerRun tasks saved start) :
    tasks.Nodup ∧ (tasks = [] → start.current = 0) ∧
    (tasks ≠ [] → ∃ ring, IsRing start.links start.current ring ∧ ring.Perm tasks) ∧
    ∀ visited machine, Ticking tasks start visited machine → visited.length = tasks.length →
      visited.Perm tasks ∧ machine.current = start.current ∧
      ∀ ring, IsRing start.links start.current ring → ring.Perm tasks →
        IsRing machine.links machine.current ring := by
  have scheduled := run.scheduled
  refine ⟨scheduled.placed.nodup, scheduled.idle, scheduled.ring, ?_⟩
  intro visited machine ticking length
  by_cases empty : tasks = []
  · obtain ⟨_, run'⟩ := ticking.run run
    subst empty
    have current := run'.scheduled.idle rfl
    rw [List.length_nil] at length
    refine ⟨List.length_eq_zero_iff.mp length ▸ .refl _, by rw [current, scheduled.idle rfl], ?_⟩
    intro ring isRing perm
    exact absurd perm.eq_nil isRing.nonempty
  · obtain ⟨walk, same⟩ := ticking.walk run empty
    obtain ⟨ring, isRing, perm⟩ := scheduled.ring empty
    obtain ⟨rfl, back⟩ := isRing.walk_around walk (length.trans perm.length_eq.symm)
    refine ⟨(List.rotate_perm ring 1).trans perm, back, fun ring' isRing' perm' => ?_⟩
    rw [back]
    exact isRing'.congr fun task member => same task (perm'.mem_iff.mp member)

/-- Two tasks with stacks of their own, while the processor is on a third. -/
def twoTasks : Machine :=
  let mem := store32 (store32 (fun _ => 0) 0x1000 0x5000) 0x2000 0x6000
  schedulerAdd 0x2000 (schedulerAdd 0x1000 ⟨0, ⟨0, 0, 0x9000, 0, mem⟩⟩)

theorem twoTasks_run : ∃ saved, SchedulerRun [0x2000, 0x1000] saved twoTasks := by
  have one : Task.Fresh [] 0x1000 := ⟨⟨by decide, by decide⟩, List.forall_mem_nil _⟩
  have other : Task.Fresh [0x1000] 0x2000 :=
    ⟨⟨by decide, by decide⟩, List.forall_mem_singleton.mpr (.inr (by decide))⟩
  exact ⟨_, ((SchedulerRun.init _ fun _ => 0).add one).add other⟩

theorem twoTasks_stackApart (cpu : Cpu) (below : 0x3000 ≤ cpu.esp.toNat) :
    StackApart [0x2000, 0x1000] cpu := by
  unfold StackApart Task.size
  rw [List.forall_mem_cons, List.forall_mem_singleton]
  refine ⟨⟨by omega, .inl ?_⟩, by omega, .inl ?_⟩
  · change 0x2000 + 8 ≤ _
    omega
  · change 0x1000 + 8 ≤ _
    omega

/-- Two ticks of two tasks. -/
theorem twoTasks_visit_each_once :
    ∃ visited machine, Ticking [0x2000, 0x1000] twoTasks visited machine ∧
      visited.Perm [0x2000, 0x1000] ∧ machine.current = twoTasks.current := by
  obtain ⟨saved, run⟩ := twoTasks_run
  have esp : twoTasks.cpu.esp = 0x9000 := rfl
  have apart : StackApart [0x2000, 0x1000] twoTasks.cpu :=
    twoTasks_stackApart _ (by rw [esp]; decide)
  have apart' : StackApart [0x2000, 0x1000] (schedulerTick 0 twoTasks).cpu := by
    have nonzero := run.scheduled.current_ne_zero (List.cons_ne_nil _ _)
    rw [Scheduled.tick_of_current nonzero]
    refine twoTasks_stackApart _ ?_
    rw [callSwitch_esp, esp]
    decide
  have ticking := (Ticking.start.tick 0 apart).tick 0 apart'
  have around := (ticks_visit_each_once run).2.2.2 _ _ ticking (by simp)
  exact ⟨_, _, ticking, around.1, around.2.1⟩

end CocosOS.Scheduler
