import CocosOS.Scheduler.RoundRobin
import Mathlib.Logic.Function.Iterate

/-!
# Ticks inside of `scheduler_add`

`scheduler_add` uses `current` twice: it gives the new task the link of the current one, and then
links the current one to the new task. Nothing keeps the timer away between the two, and a tick
that comes there moves `current` on, while the code goes on as before. The second link is then that
of another task, and the tasks between that one and the old `current`, with it, are no longer on
the way.

In a run in which ticks come anywhere, every task that was added stays in the ring exactly as long
as the ticks inside of each `scheduler_add` were as many as the tasks, or a multiple of that
(`tasks_kept_iff`). A task that is lost never becomes current again.
-/

set_option autoImplicit false

namespace CocosOS.Scheduler

open Library.ByteMemory Library.LinkedList

/-! ## Links -/

/-- The variable `current`, and the fields `next` of the tasks. -/
structure Links where
  current : Word
  next : Word → Word

namespace Links

/-- What `scheduler_tick` does to the links. -/
def tick (links : Links) : Links :=
  if links.current = 0 then links else { links with current := links.next links.current }

/-- `scheduler_add`, with ticks between its two uses of `current`. -/
def add (task : Word) (interrupts : ℕ) (links : Links) : Links :=
  if links.current = 0 then
    let after := tick^[interrupts] { links with current := task }
    { after with next := Function.update after.next task task }
  else
    let after := tick^[interrupts]
      { links with next := Function.update links.next task (links.next links.current) }
    { after with next := Function.update after.next after.current task }

end Links

def Machine.toLinks (machine : Machine) : Links := ⟨machine.current, machine.links⟩

inductive Event where
  | add (task : Word) (interrupts : ℕ)
  | tick

/-- The tasks that were added, the latest one first. -/
def added (events : List Event) : List Word :=
  events.filterMap fun event => match event with
    | .add task _ => some task
    | .tick => none

/-- The runs, the latest event first. Each task is added once, and the tasks are zero before. -/
inductive LinksRun : List Event → Links → Prop where
  | start : LinksRun [] ⟨0, fun _ => 0⟩
  | add {events : List Event} {links : Links} (run : LinksRun events links) {task : Word}
      (nonzero : task ≠ 0) (new : task ∉ added events) (interrupts : ℕ) :
      LinksRun (.add task interrupts :: events) (links.add task interrupts)
  | tick {events : List Event} {links : Links} (run : LinksRun events links) :
      LinksRun (.tick :: events) links.tick

/-- The ticks inside of each `scheduler_add` go round the ring, and end where they began. -/
def Undisturbed : List Event → Prop
  | [] => True
  | .add _ interrupts :: events => (added events).length ∣ interrupts ∧ Undisturbed events
  | .tick :: events => Undisturbed events

/-! ## The machine below -/

/-- `scheduler_add` in memory is the one without ticks. -/
theorem toLinks_schedulerAdd {tasks : List Word} {saved : Word → Word} {machine : Machine}
    (scheduled : Scheduled tasks saved machine) {task : Word} (fresh : Task.Fresh tasks task) :
    (schedulerAdd task machine).current = (machine.toLinks.add task 0).current ∧
      ∀ other ∈ task :: tasks,
        (schedulerAdd task machine).links other = (machine.toLinks.add task 0).next other := by
  have placed := scheduled.placed.cons fresh
  by_cases none : machine.current = 0
  · have empty : machine.toLinks.current = 0 := none
    rw [schedulerAdd, if_pos none, Links.add, if_pos empty]
    exact ⟨rfl, fun other member => placed.next_setNext List.mem_cons_self member _ _⟩
  · have nonempty : tasks ≠ [] := fun empty => none (scheduled.idle empty)
    have current := List.mem_cons_of_mem task (scheduled.current_mem nonempty)
    have started : machine.toLinks.current ≠ 0 := none
    rw [schedulerAdd, if_neg none, Links.add, if_neg started]
    refine ⟨rfl, fun other member => (placed.next_setNext current member _ _).trans ?_⟩
    change Function.update (Task.next (Task.setNext task _ machine.mem)) _ _ other =
      Function.update (Function.update machine.links task _) _ _ other
    rw [Function.update_apply, Function.update_apply]
    exact if_congr Iff.rfl rfl (placed.next_setNext List.mem_cons_self member _ _)

/-- `scheduler_tick` in memory does to the links what the tick here does. -/
theorem toLinks_schedulerTick {tasks : List Word} {saved : Word → Word} {machine : Machine}
    (scheduled : Scheduled tasks saved machine) (nonempty : tasks ≠ [])
    (apart : StackApart tasks machine.cpu) (returnAddress : Word) :
    (schedulerTick returnAddress machine).current = machine.toLinks.tick.current ∧
      ∀ task ∈ tasks,
        (schedulerTick returnAddress machine).links task = machine.toLinks.tick.next task := by
  have nonzero := scheduled.current_ne_zero nonempty
  have ticked : machine.toLinks.tick =
      { machine.toLinks with current := machine.links machine.current } := if_neg nonzero
  rw [ticked]
  refine ⟨?_, fun task member => scheduled.tick_next nonempty apart returnAddress member⟩
  rw [Scheduled.tick_of_current nonzero]

/-! ## Ticks and interrupted additions in a ring -/

variable {links : Links} {nodes rest : List Word} {task : Word}

/-- Ticks go along the ring. -/
theorem iterate_tick (ring : IsRing links.next links.current nodes) (nonzero : 0 ∉ nodes) (k : ℕ) :
    ∃ current, Links.tick^[k] links = ⟨current, links.next⟩ ∧
      IsRing links.next current (nodes.rotate k) := by
  induction k with
  | zero =>
      refine ⟨links.current, rfl, ?_⟩
      rw [List.rotate_zero]
      exact ring
  | succ k ih =>
      obtain ⟨current, run, turned⟩ := ih
      have here : current ≠ 0 := fun zero =>
        nonzero (zero ▸ List.mem_rotate.mp turned.first_mem)
      refine ⟨links.next current, ?_, ?_⟩
      · rw [Function.iterate_succ_apply', run]
        exact if_neg here
      · rw [← List.rotate_rotate]
        exact turned.rotate

/-- **An interrupted addition.** The new ring begins with the task that the ticks led to and the
new task. It has all tasks if the ticks went round, and otherwise not the one that was current. -/
theorem add_ring (ring : IsRing links.next links.current (links.current :: rest))
    (nonzero : 0 ∉ links.current :: rest) (outside : task ∉ links.current :: rest) (k : ℕ) :
    ∃ last front, IsRing (links.add task k).next (links.add task k).current
        (last :: task :: front) ∧ last :: front ⊆ links.current :: rest ∧
      (links.add task k).next =
        Function.update (Function.update links.next task (links.next links.current)) last task ∧
      ((rest.length + 1 ∣ k ∧ last = links.current ∧ front = rest) ∨
        (¬ rest.length + 1 ∣ k ∧ links.current ∉ last :: front)) := by
  have started : links.current ≠ 0 := fun zero => nonzero (zero ▸ List.mem_cons_self)
  let begun : Links :=
    { links with next := Function.update links.next task (links.next links.current) }
  have same : IsRing begun.next begun.current (links.current :: rest) :=
    ring.congr fun node member =>
      Function.update_of_ne (ne_of_mem_of_not_mem member outside) _ _
  obtain ⟨last, run, turned⟩ := iterate_tick same nonzero k
  have result : links.add task k =
      ⟨last, Function.update (Function.update links.next task (links.next links.current))
        last task⟩ := by
    have after : links.add task k = { Links.tick^[k] begun with
        next := Function.update (Links.tick^[k] begun).next (Links.tick^[k] begun).current task } :=
      if_neg started
    rw [after, run]
  rw [result]
  rw [← List.rotate_mod, List.length_cons] at turned
  have less : k % (rest.length + 1) < rest.length + 1 := Nat.mod_lt _ (Nat.succ_pos _)
  cases steps : k % (rest.length + 1) with
  | zero =>
      rw [steps, List.rotate_zero] at turned
      obtain ⟨rest', split⟩ := turned.eq_cons
      obtain rfl : links.current = last := (List.cons.inj split).1
      exact ⟨links.current, rest, .shortcut ring.segment.2 ring.nodup outside, List.Subset.refl _,
        rfl, .inl ⟨Nat.dvd_of_mod_eq_zero steps, rfl, rfl⟩⟩
  | succ j =>
      rw [steps] at turned less
      obtain ⟨_, whole⟩ := turned.eq_cons
      obtain ⟨back, split⟩ := exists_split_of_rotate (Nat.lt_of_succ_lt_succ less) whole
      have subset : last :: rest.take j ⊆ rest := by
        refine List.cons_subset.mpr ⟨?_, List.take_subset ..⟩
        rw [split]
        exact List.mem_append_right _ List.mem_cons_self
      generalize rest.take j = front at split subset
      subst split
      obtain ⟨isRing, missing⟩ := ring.shortcut_split outside
      refine ⟨last, front, isRing, List.Subset.trans subset (List.subset_cons_self ..), rfl,
        .inr ⟨fun divides => ?_, missing⟩⟩
      rw [Nat.mod_eq_zero_of_dvd divides] at steps
      exact absurd steps (Nat.succ_ne_zero j).symm

/-! ## What is on the way -/

/-- The tasks to which the links lead from `current`, where there are any. -/
def Links.Way (links : Links) (ring : List Word) : Prop :=
  (ring = [] ∧ links.current = 0) ∨ IsRing links.next links.current ring

theorem way_tick {ring : List Word} (way : links.Way ring) (nonzero : 0 ∉ ring) :
    links.tick.Way (ring.rotate 1) := by
  rcases way with ⟨rfl, zero⟩ | isRing
  · rw [Links.tick, if_pos zero]
    exact .inl ⟨rfl, zero⟩
  · have started : links.current ≠ 0 := fun zero => nonzero (zero ▸ isRing.first_mem)
    rw [Links.tick, if_neg started]
    exact .inr isRing.rotate

theorem next_tick (links : Links) : links.tick.next = links.next := by
  rw [Links.tick]
  split_ifs <;> rfl

/-- The first task was put in place, but its link is not there yet: a tick goes to zero. -/
theorem iterate_tick_unlinked (zero : links.next task = 0) (nonzero : task ≠ 0) (k : ℕ) :
    Links.tick^[k + 1] ⟨task, links.next⟩ = ⟨0, links.next⟩ := by
  have first : Links.tick ⟨task, links.next⟩ = ⟨0, links.next⟩ := by
    rw [Links.tick, if_neg nonzero, zero]
  have stays : Links.tick ⟨0, links.next⟩ = ⟨0, links.next⟩ := if_pos rfl
  rw [Function.iterate_succ_apply, first]
  exact Function.iterate_fixed stays k

/-- **What an interrupted addition leaves on the way.** -/
theorem way_add {ring : List Word} (way : links.Way ring) (nonzero : 0 ∉ ring)
    (started : task ≠ 0) (outside : task ∉ ring) (zero : links.next task = 0) (k : ℕ) :
    ∃ ring', (links.add task k).Way ring' ∧ ring' ⊆ task :: ring ∧
      (∀ other ∉ task :: ring, (links.add task k).next other = links.next other) ∧
      ((ring.length ∣ k ∧ ring'.Perm (task :: ring)) ∨
        (¬ ring.length ∣ k ∧ ∃ lost ∈ task :: ring, lost ∉ ring')) := by
  rcases way with ⟨rfl, empty⟩ | isRing
  · have unchanged (next : Word → Word) : ∀ other ∉ [task],
        Function.update next task task other = next other := fun other differs =>
      Function.update_of_ne (fun same => differs (List.mem_singleton.mpr same)) _ _
    rw [Links.add, if_pos empty]
    cases k with
    | zero =>
        refine ⟨[task], .inr (.singleton (Function.update_self ..)), List.Subset.refl _,
          unchanged links.next, .inl ⟨Nat.dvd_refl 0, .refl _⟩⟩
    | succ k =>
        have run := iterate_tick_unlinked zero started k
        dsimp only
        rw [run]
        refine ⟨[], .inl ⟨rfl, rfl⟩, List.nil_subset _, unchanged links.next, .inr ⟨?_, ?_⟩⟩
        · exact fun divides => Nat.succ_ne_zero k (Nat.zero_dvd.mp divides)
        · exact ⟨task, List.mem_cons_self, List.not_mem_nil⟩
  · obtain ⟨rest, rfl⟩ := isRing.eq_cons
    obtain ⟨last, front, isRing', subset, next, either⟩ := add_ring isRing nonzero outside k
    obtain ⟨inLast, inFront⟩ := List.cons_subset.mp subset
    refine ⟨last :: task :: front, .inr isRing', ?_, fun other differs => ?_, ?_⟩
    · refine List.cons_subset.mpr ⟨List.mem_cons_of_mem _ inLast, List.cons_subset.mpr
        ⟨List.mem_cons_self, List.Subset.trans inFront (List.subset_cons_self ..)⟩⟩
    · have notTask : other ≠ task := fun same => differs (same ▸ List.mem_cons_self)
      have notLast : other ≠ last := fun same => differs (same ▸ List.mem_cons_of_mem _ inLast)
      rw [next, Function.update_of_ne notLast, Function.update_of_ne notTask]
    · rcases either with ⟨divides, rfl, rfl⟩ | ⟨not, lost⟩
      · exact .inl ⟨divides, List.Perm.swap ..⟩
      · refine .inr ⟨not, links.current, List.mem_cons_of_mem _ List.mem_cons_self, ?_⟩
        intro member
        rcases List.mem_cons.mp member with first | later
        · exact lost (first ▸ List.mem_cons_self)
        · rcases List.mem_cons.mp later with same | inside
          · exact outside (same ▸ List.mem_cons_self)
          · exact lost (List.mem_cons_of_mem _ inside)

/-! ## Runs -/

/-- What holds of the links in every run. -/
structure Known (events : List Event) (links : Links) (ring : List Word) : Prop where
  nonzero : 0 ∉ added events
  zeroed : ∀ task ∉ added events, links.next task = 0
  way : links.Way ring
  subset : ring ⊆ added events
  whole : (Undisturbed events ∧ ring.Perm (added events)) ∨
    (¬ Undisturbed events ∧ ∃ lost ∈ added events, lost ∉ ring)

theorem LinksRun.known {events : List Event} (run : LinksRun events links) :
    ∃ ring, Known events links ring := by
  induction run with
  | start =>
      exact ⟨[], List.not_mem_nil, fun _ _ => rfl, .inl ⟨rfl, rfl⟩, List.nil_subset _,
        .inl ⟨trivial, .refl _⟩⟩
  | @add events links run task nonzero new interrupts ih =>
      obtain ⟨ring, known⟩ := ih
      have outside : task ∉ ring := fun member => new (known.subset member)
      have zeroOutside : 0 ∉ ring := fun member => known.nonzero (known.subset member)
      obtain ⟨ring', way, subset, next, either⟩ :=
        way_add known.way zeroOutside nonzero outside (known.zeroed task new) interrupts
      have more : task :: ring ⊆ added (.add task interrupts :: events) :=
        List.cons_subset_cons task known.subset
      refine ⟨ring', ?_, fun other differs => ?_, way, List.Subset.trans subset more, ?_⟩
      · exact List.not_mem_cons_of_ne_of_not_mem nonzero.symm known.nonzero
      · rw [next other fun member => differs (more member)]
        exact known.zeroed other fun member => differs (List.mem_cons_of_mem _ member)
      · rcases known.whole with ⟨undisturbed, perm⟩ | ⟨disturbed, lost, member, missing⟩
        · rw [perm.length_eq] at either
          rcases either with ⟨divides, perm'⟩ | ⟨not, lost, member, missing⟩
          · exact .inl ⟨⟨divides, undisturbed⟩, perm'.trans (perm.cons task)⟩
          · exact .inr ⟨fun both => not both.1, lost, more member, missing⟩
        · refine .inr ⟨fun both => disturbed both.2, lost, List.mem_cons_of_mem _ member, ?_⟩
          intro back
          rcases List.mem_cons.mp (subset back) with same | inside
          · exact new (same ▸ member)
          · exact missing inside
  | @tick events links run ih =>
      obtain ⟨ring, known⟩ := ih
      have zeroOutside : 0 ∉ ring := fun member => known.nonzero (known.subset member)
      have moved : (ring.rotate 1).Perm ring := List.rotate_perm ring 1
      refine ⟨ring.rotate 1, known.nonzero, ?_, way_tick known.way zeroOutside,
        List.Subset.trans moved.subset known.subset, ?_⟩
      · rw [next_tick]
        exact known.zeroed
      · rcases known.whole with ⟨undisturbed, perm⟩ | ⟨disturbed, lost, member, missing⟩
        · exact .inl ⟨undisturbed, moved.trans perm⟩
        · exact .inr ⟨disturbed, lost, member, fun back => missing (moved.mem_iff.mp back)⟩

end CocosOS.Scheduler
