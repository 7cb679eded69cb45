import CocosOS.Library.FirstMinimum
import CocosOS.Library.LinkedList
import CocosOS.Library.WordArithmetic
import CocosOS.ProcessManager.Process

/-!
# The process table

In every state of every run, the process list is a finite list that ends in the idle process and
holds the current one, the pids in it are distinct, and only the current process can be running
(`process_table_invariant`). The list is the list of the processes that were created, newest
first, so that the loops over it end.

What the calls do is said on that list. `scheduler_switch` elects a process
(`schedulerSwitch_eq`): the first of those that wait with the lowest priority below 255, or the
head of the list if none does (`elect_eq_iff`). So a process that waits is passed over as long as
another goes before it (`elect_ne_iff_of_waits`), and one that does not wait is elected only where
the switch falls back on it (`elect_eq_iff_of_not_waits`). `process_kill` marks the first process
with the pid (`processKill_eq`), and the first half of `scheduler_tick` makes the sleepers wait
whose tick has come (`wakeSleepers_eq`).
-/

set_option autoImplicit false

namespace CocosOS.ProcessManager

open Library.ByteMemory Library.CString Library.FirstMinimum Library.LinkedList
  Library.WordArithmetic

/-! ## What the changes of a table leave alone -/

namespace ProcessTable

/-- The same list of the same processes: only states, wake-up ticks, contexts and the current
process differ. -/
structure SameShape (table table' : ProcessTable) : Prop where
  processList : table'.processList = table.processList
  nextPid : table'.nextPid = table.nextPid
  links : table'.links = table.links
  pid : ∀ proc, (table'.procs proc).pid = (table.procs proc).pid
  priority : ∀ proc, (table'.procs proc).priority = (table.procs proc).priority

theorem SameShape.refl (table : ProcessTable) : SameShape table table :=
  ⟨rfl, rfl, rfl, fun _ => rfl, fun _ => rfl⟩

theorem SameShape.trans {table table' table'' : ProcessTable} (first : SameShape table table')
    (second : SameShape table' table'') : SameShape table table'' where
  processList := second.processList.trans first.processList
  nextPid := second.nextPid.trans first.nextPid
  links := second.links.trans first.links
  pid := fun proc => (second.pid proc).trans (first.pid proc)
  priority := fun proc => (second.priority proc).trans (first.priority proc)

theorem modify_procs (table : ProcessTable) (proc : Word) (change : Process → Process)
    (other : Word) :
    (table.modify proc change).procs other =
      if other = proc then change (table.procs proc) else table.procs other :=
  Function.update_apply ..

/-- A change that keeps link, pid and priority of a process keeps the shape. -/
theorem sameShape_modify (table : ProcessTable) (proc : Word) {change : Process → Process}
    (next : ∀ process, (change process).next = process.next)
    (pid : ∀ process, (change process).pid = process.pid)
    (priority : ∀ process, (change process).priority = process.priority) :
    SameShape table (table.modify proc change) := by
  refine ⟨rfl, rfl, funext fun other => ?_, fun other => ?_, fun other => ?_⟩
  · rw [links, modify_procs]
    split_ifs with same
    · rw [next, same, links]
    · rfl
  · rw [modify_procs]
    split_ifs with same
    · rw [pid, same]
    · rfl
  · rw [modify_procs]
    split_ifs with same
    · rw [priority, same]
    · rfl

theorem sameShape_setState (table : ProcessTable) (proc : Word) (state : ProcessState) :
    SameShape table (table.setState proc state) :=
  sameShape_modify table proc (fun _ => rfl) (fun _ => rfl) fun _ => rfl

theorem sameShape_setWakeupTick (table : ProcessTable) (proc tick : Word) :
    SameShape table (table.setWakeupTick proc tick) :=
  sameShape_modify table proc (fun _ => rfl) (fun _ => rfl) fun _ => rfl

theorem sameShape_saveContext (table : ProcessTable) (proc : Word) (context : CpuState) :
    SameShape table (table.saveContext proc context) :=
  sameShape_modify table proc (fun _ => rfl) (fun _ => rfl) fun _ => rfl

theorem sameShape_fallAsleep (table : ProcessTable) (ms now : Word) :
    SameShape table (fallAsleep ms now table) :=
  (table.sameShape_setWakeupTick table.currentProcess (now + ms)).trans
    (sameShape_setState _ table.currentProcess .sleeping)

/-- The state of a process. -/
def state (table : ProcessTable) (proc : Word) : ProcessState := (table.procs proc).state

@[simp] theorem state_setState (table : ProcessTable) (proc : Word) (state : ProcessState)
    (other : Word) :
    (table.setState proc state).state other =
      if other = proc then state else table.state other := by
  rw [ProcessTable.state, setState, modify_procs]
  split_ifs <;> rfl

@[simp] theorem state_setWakeupTick (table : ProcessTable) (proc tick other : Word) :
    (table.setWakeupTick proc tick).state other = table.state other := by
  rw [state, setWakeupTick, modify_procs]
  split_ifs with same
  · rw [same, state]
  · rfl

@[simp] theorem state_saveContext (table : ProcessTable) (proc : Word) (context : CpuState)
    (other : Word) : (table.saveContext proc context).state other = table.state other := by
  rw [state, saveContext, modify_procs]
  split_ifs with same
  · rw [same, state]
  · rfl

/-- The tick at which a process wants to be woken up. -/
def wakeupTick (table : ProcessTable) (proc : Word) : Word := (table.procs proc).wakeupTick

@[simp] theorem wakeupTick_setState (table : ProcessTable) (proc : Word) (state : ProcessState)
    (other : Word) : (table.setState proc state).wakeupTick other = table.wakeupTick other := by
  rw [wakeupTick, setState, modify_procs]
  split_ifs with same
  · rw [same, wakeupTick]
  · rfl

@[simp] theorem wakeupTick_saveContext (table : ProcessTable) (proc : Word) (context : CpuState)
    (other : Word) :
    (table.saveContext proc context).wakeupTick other = table.wakeupTick other := by
  rw [wakeupTick, saveContext, modify_procs]
  split_ifs with same
  · rw [same, wakeupTick]
  · rfl

@[simp] theorem wakeupTick_setWakeupTick (table : ProcessTable) (proc tick other : Word) :
    (table.setWakeupTick proc tick).wakeupTick other =
      if other = proc then tick else table.wakeupTick other := by
  rw [wakeupTick, setWakeupTick, modify_procs]
  split_ifs <;> rfl

/-- The process list is this list of nodes. -/
structure Lists (table : ProcessTable) (nodes : List Word) : Prop where
  segment : Segment table.links table.processList nodes 0
  nonnull : 0 ∉ nodes

theorem SameShape.lists {table table' : ProcessTable} {nodes : List Word}
    (shape : SameShape table table') (lists : table.Lists nodes) : table'.Lists nodes :=
  ⟨by rw [shape.links, shape.processList]; exact lists.segment, lists.nonnull⟩

/-- A list that ends has fewer nodes than there are addresses. -/
theorem Lists.length_lt {table : ProcessTable} {nodes : List Word} (lists : table.Lists nodes) :
    nodes.length < scanFuel :=
  length_lt_of_nodup (lists.segment.nodup lists.nonnull) lists.nonnull

end ProcessTable

/-! ## Election -/

namespace ProcessTable

def Waits (table : ProcessTable) (proc : Word) : Prop := table.state proc = .waiting

instance (table : ProcessTable) : DecidablePred table.Waits :=
  fun _ => inferInstanceAs (Decidable (_ = _))

/-- The priority as a number. The lower it is, the sooner the turn of the process. -/
def rank (table : ProcessTable) (proc : Word) : ℕ := (table.procs proc).priority.toNat

/-- The process waits with a priority that the loop of `scheduler_switch` considers. -/
def Candidate (table : ProcessTable) (proc : Word) : Prop :=
  table.Waits proc ∧ table.rank proc < 255

/-- The process that a switch makes current: the first of the waiting ones with the lowest
priority, if that is below 255, or the head of the list if there is none. -/
def NextInLine (table : ProcessTable) (nodes : List Word) (proc : Word) : Prop :=
  (IsFirstMinimum table.Waits table.rank nodes proc ∧ table.Candidate proc) ∨
  ((∀ other ∈ nodes, ¬ table.Candidate other) ∧ proc = table.processList)

/-- Of two waiting processes a switch prefers this one: its priority is lower, or it is the same and
the process stands further ahead in the list. -/
def GoesBefore (table : ProcessTable) (nodes : List Word) (other proc : Word) : Prop :=
  table.rank other < table.rank proc ∨
  table.rank other = table.rank proc ∧ nodes.idxOf other < nodes.idxOf proc

/-- The process is the head of the list, and none waits with a priority below 255. -/
def FallsBackOn (table : ProcessTable) (nodes : List Word) (proc : Word) : Prop :=
  table.processList = proc ∧ ∀ other ∈ nodes, ¬ table.Candidate other

/-- What `scheduler_switch` elects from the nodes of the list. -/
def elect (table : ProcessTable) (nodes : List Word) : Word :=
  let best := (scan table.Waits table.rank (0, 255) nodes).1
  if best = 0 then table.processList else best

variable {table : ProcessTable} {nodes : List Word}

/-- The loop of `scheduler_switch` goes through the nodes of the list. -/
theorem pickLoop_eq {first : Word} (segment : Segment table.links first nodes 0)
    (nonnull : 0 ∉ nodes) {fuel : ℕ} (enough : nodes.length < fuel) (best : Word)
    (bestPriority : BitVec 8) :
    pickLoop table.procs fuel first best bestPriority =
      some (scan table.Waits table.rank (best, bestPriority.toNat) nodes).1 := by
  induction nodes generalizing first fuel best bestPriority with
  | nil =>
      obtain ⟨fuel, rfl⟩ := Nat.exists_eq_succ_of_ne_zero (Nat.ne_zero_of_lt enough)
      rw [pickLoop, if_pos (segment_nil.mp segment), scan_nil]
  | cons node nodes ih =>
      obtain ⟨fuel, rfl⟩ := Nat.exists_eq_succ_of_ne_zero (Nat.ne_zero_of_lt enough)
      obtain ⟨rfl, rest⟩ := segment_cons.mp segment
      have here : first ≠ 0 := fun null => nonnull (null ▸ List.mem_cons_self)
      have later := ih rest (List.not_mem_of_not_mem_cons nonnull)
        (Nat.lt_of_succ_lt_succ enough)
      have better : (table.procs first).state = .waiting ∧
          (table.procs first).priority < bestPriority ↔
          table.Waits first ∧ table.rank first < bestPriority.toNat := Iff.rfl
      rw [pickLoop, if_neg here, scan_cons, scanRound]
      simp only [better]
      split_ifs <;> exact later ..

/-- **`scheduler_switch` switches to the elected process.** -/
theorem schedulerSwitch_eq (lists : table.Lists nodes) (saved : CpuState) :
    schedulerSwitch saved table = some (table.switchTo (table.elect nodes) saved) := by
  rw [schedulerSwitch, pickLoop_eq lists.segment lists.nonnull lists.length_lt]
  rfl

theorem elect_of_first (lists : table.Lists nodes) {proc : Word}
    (first : IsFirstMinimum table.Waits table.rank nodes proc)
    (candidate : table.Candidate proc) : table.elect nodes = proc := by
  rw [elect, first.scan candidate.2]
  exact if_neg fun null : proc = 0 => lists.nonnull (null ▸ first.mem)

theorem elect_of_none (none : ∀ other ∈ nodes, ¬ table.Candidate other) :
    table.elect nodes = table.processList := by
  rw [elect, scan_of_none fun node member waits =>
    not_lt.mp fun below => none node member ⟨waits, below⟩]
  exact if_pos rfl

/-- **The elected process is the next in line.** -/
theorem elect_eq_iff (lists : table.Lists nodes) (proc : Word) :
    table.elect nodes = proc ↔ table.NextInLine nodes proc := by
  constructor
  · rintro rfl
    by_cases some : ∃ other ∈ nodes, table.Candidate other
    · obtain ⟨other, member, waits, below⟩ := some
      obtain ⟨best, first⟩ : ∃ best, IsFirstMinimum table.Waits table.rank nodes best :=
        exists_isFirstMinimum ⟨other, member, waits⟩
      have candidate : table.Candidate best :=
        ⟨first.1, Nat.lt_of_le_of_lt (first.le member waits) below⟩
      rw [elect_of_first lists first candidate]
      exact .inl ⟨first, candidate⟩
    · have none : ∀ other ∈ nodes, ¬ table.Candidate other :=
        fun other member candidate => some ⟨other, member, candidate⟩
      exact .inr ⟨none, elect_of_none none⟩
  · rintro (⟨first, candidate⟩ | ⟨none, rfl⟩)
    · exact elect_of_first lists first candidate
    · exact elect_of_none none

theorem rank_le (proc : Word) : table.rank proc ≤ 255 :=
  Nat.le_of_lt_succ (table.procs proc).priority.isLt

/-- **A waiting process is passed over exactly if another one goes before it,** or its priority is
255 and it is not the head of the list. -/
theorem elect_ne_iff_of_waits (lists : table.Lists nodes) {proc : Word} (member : proc ∈ nodes)
    (waits : table.Waits proc) :
    table.elect nodes ≠ proc ↔
      (∃ other ∈ nodes, table.Candidate other ∧ table.GoesBefore nodes other proc) ∨
      table.rank proc = 255 ∧ table.processList ≠ proc := by
  rw [Ne, elect_eq_iff lists, NextInLine, not_or]
  rcases lt_or_eq_of_le (table.rank_le proc) with below | last
  · -- a candidate itself, so that the fallback is out of the question
    have fallback : ¬ ((∀ other ∈ nodes, ¬ table.Candidate other) ∧ proc = table.processList) :=
      fun none => none.1 proc member ⟨waits, below⟩
    rw [and_iff_left fallback, and_iff_left ⟨waits, below⟩, not_isFirstMinimum_iff member waits,
      or_iff_left fun last => below.ne last.1]
    refine exists_congr fun other => and_congr_right fun _ => ?_
    constructor
    · rintro ⟨more, before⟩
      refine ⟨⟨more, ?_⟩, before⟩
      rcases before with lower | ⟨same, _⟩
      · exact lower.trans below
      · exact same ▸ below
    · exact fun ⟨candidate, before⟩ => ⟨candidate.1, before⟩
  · -- every candidate goes before it, so that only the fallback elects it
    have notCandidate : ¬ table.Candidate proc := fun candidate => candidate.2.ne last
    rw [and_iff_right fun first => notCandidate first.2, not_and, and_iff_right last]
    constructor
    · intro passed
      by_cases some : ∃ other ∈ nodes, table.Candidate other
      · obtain ⟨other, listed, candidate⟩ := some
        exact .inl ⟨other, listed, candidate, .inl (last ▸ candidate.2)⟩
      · exact .inr fun head => passed (fun other listed candidate =>
          some ⟨other, listed, candidate⟩) head.symm
    · rintro (⟨other, listed, candidate, _⟩ | behind) none
      · exact absurd candidate (none other listed)
      · exact behind.symm

/-- **A process that does not wait is elected exactly if the switch falls back on it.** -/
theorem elect_eq_iff_of_not_waits (lists : table.Lists nodes) {proc : Word}
    (idles : ¬ table.Waits proc) :
    table.elect nodes = proc ↔ table.FallsBackOn nodes proc := by
  rw [elect_eq_iff lists, NextInLine, or_iff_right fun first => idles first.2.1, FallsBackOn,
    and_comm, eq_comm]

/-- The elected process is in the list, if the list is not empty. -/
theorem elect_mem (lists : table.Lists nodes) (nonempty : nodes ≠ []) :
    table.elect nodes ∈ nodes := by
  rcases (elect_eq_iff lists _).mp rfl with ⟨first, _⟩ | ⟨_, head⟩
  · exact first.mem
  · rw [head]
    cases nodes with
    | nil => exact absurd rfl nonempty
    | cons node nodes => exact lists.segment.1 ▸ List.mem_cons_self

/-! ### The switch -/

theorem switchTo_current (saved : CpuState) :
    table.switchTo table.currentProcess saved = table :=
  if_pos rfl

@[simp] theorem currentProcess_switchTo (best : Word) (saved : CpuState) :
    (table.switchTo best saved).currentProcess = best := by
  rw [switchTo]
  split_ifs with same
  · exact same.symm
  · rfl

theorem switchTo_of_ne {best : Word} (other : best ≠ table.currentProcess) (saved : CpuState) :
    table.switchTo best saved =
      ({ (table.setState table.currentProcess .waiting).setState best .running with
        currentProcess := best } : ProcessTable).saveContext table.currentProcess saved :=
  if_neg other

theorem state_switchTo (best : Word) (saved : CpuState) (proc : Word) :
    (table.switchTo best saved).state proc =
      if best = table.currentProcess then table.state proc
      else if proc = best then .running
      else if proc = table.currentProcess then .waiting
      else table.state proc := by
  by_cases same : best = table.currentProcess
  · rw [if_pos same, same, switchTo_current]
  · rw [if_neg same, switchTo_of_ne same, state_saveContext]
    refine (state_setState (table.setState table.currentProcess .waiting) best .running
      proc).trans ?_
    rw [state_setState]

theorem sameShape_switchTo (best : Word) (saved : CpuState) :
    SameShape table (table.switchTo best saved) := by
  by_cases same : best = table.currentProcess
  · rw [same, switchTo_current]
    exact .refl table
  · rw [switchTo_of_ne same]
    have states := (table.sameShape_setState table.currentProcess .waiting).trans
      (sameShape_setState _ best .running)
    have current : SameShape ((table.setState table.currentProcess .waiting).setState best .running)
        { (table.setState table.currentProcess .waiting).setState best .running with
          currentProcess := best } := ⟨rfl, rfl, rfl, fun _ => rfl, fun _ => rfl⟩
    exact (states.trans current).trans (sameShape_saveContext ..)

end ProcessTable

/-! ## The other loops -/

namespace ProcessTable

variable {table : ProcessTable} {nodes : List Word}

theorem killLoop_eq (pid : Word) {first : Word} (segment : Segment table.links first nodes 0)
    (nonnull : 0 ∉ nodes) {fuel : ℕ} (enough : nodes.length < fuel) :
    killLoop pid fuel first table =
      some (match nodes.find? fun node => (table.procs node).pid = pid with
        | none => table
        | some proc => table.setState proc .zombie) := by
  induction nodes generalizing first fuel with
  | nil =>
      obtain ⟨fuel, rfl⟩ := Nat.exists_eq_succ_of_ne_zero (Nat.ne_zero_of_lt enough)
      rw [killLoop, if_pos (segment_nil.mp segment), List.find?_nil]
  | cons node nodes ih =>
      obtain ⟨fuel, rfl⟩ := Nat.exists_eq_succ_of_ne_zero (Nat.ne_zero_of_lt enough)
      obtain ⟨rfl, rest⟩ := segment_cons.mp segment
      have here : first ≠ 0 := fun null => nonnull (null ▸ List.mem_cons_self)
      have later := ih rest (List.not_mem_of_not_mem_cons nonnull)
        (Nat.lt_of_succ_lt_succ enough)
      rw [killLoop, if_neg here]
      by_cases found : (table.procs first).pid = pid
      · rw [if_pos found, List.find?_cons_of_pos (by simpa using found)]
      · rw [if_neg found, later, List.find?_cons_of_neg (by simpa using found)]

/-- **`process_kill` marks the first process with the pid.** -/
theorem processKill_eq (lists : table.Lists nodes) (pid : Word) :
    processKill pid table =
      some (match nodes.find? fun node => (table.procs node).pid = pid with
        | none => table
        | some proc => table.setState proc .zombie) :=
  killLoop_eq pid lists.segment lists.nonnull lists.length_lt

/-- The process sleeps and its tick has come. -/
def Due (table : ProcessTable) (now proc : Word) : Prop :=
  table.state proc = .sleeping ∧ (table.procs proc).wakeupTick ≤ now

instance (table : ProcessTable) (now : Word) : DecidablePred (table.Due now) :=
  fun _ => inferInstanceAs (Decidable (_ ∧ _))

theorem due_setState_of_ne {now proc other : Word} (ne : other ≠ proc) {state : ProcessState} :
    (table.setState proc state).Due now other ↔ table.Due now other := by
  have same : (table.setState proc state).procs other = table.procs other := by
    rw [setState, modify_procs, if_neg ne]
  rw [Due, Due, ProcessTable.state, ProcessTable.state, same]

/-- What the loop of `scheduler_tick` makes of a table: the due processes among the nodes wait. -/
structure Woken (now : Word) (nodes : List Word) (table table' : ProcessTable) : Prop where
  shape : SameShape table table'
  current : table'.currentProcess = table.currentProcess
  state : ∀ proc, table'.state proc =
    if proc ∈ nodes ∧ table.Due now proc then .waiting else table.state proc

theorem wakeLoop_spec (now : Word) {first : Word} (segment : Segment table.links first nodes 0)
    (nonnull : 0 ∉ nodes) (nodup : nodes.Nodup) {fuel : ℕ} (enough : nodes.length < fuel) :
    ∃ table', wakeLoop now fuel first table = some table' ∧ Woken now nodes table table' := by
  induction nodes generalizing first fuel table with
  | nil =>
      obtain ⟨fuel, rfl⟩ := Nat.exists_eq_succ_of_ne_zero (Nat.ne_zero_of_lt enough)
      refine ⟨table, by rw [wakeLoop, if_pos (segment_nil.mp segment)], .refl table, rfl, ?_⟩
      exact fun proc => (if_neg fun due => List.not_mem_nil due.1).symm
  | cons node nodes ih =>
      obtain ⟨fuel, rfl⟩ := Nat.exists_eq_succ_of_ne_zero (Nat.ne_zero_of_lt enough)
      obtain ⟨rfl, rest⟩ := segment_cons.mp segment
      obtain ⟨outside, nodup'⟩ := List.nodup_cons.mp nodup
      have here : first ≠ 0 := fun null => nonnull (null ▸ List.mem_cons_self)
      have nonnull' := List.not_mem_of_not_mem_cons nonnull
      have enough' := Nat.lt_of_succ_lt_succ enough
      by_cases due : table.Due now first
      · have shape := table.sameShape_setState first .waiting
        have rest' : Segment (table.setState first .waiting).links (table.links first) nodes 0 := by
          rwa [shape.links]
        obtain ⟨table', returned, woken⟩ := ih rest' nonnull' nodup' enough'
        refine ⟨table', ?_, shape.trans woken.shape, woken.current, fun proc => ?_⟩
        · rw [wakeLoop, if_neg here]
          exact (if_pos due).trans returned
        · rw [woken.state, state_setState]
          by_cases same : proc = first
          · rw [same, if_neg fun later => outside later.1, if_pos rfl,
              if_pos ⟨List.mem_cons_self, due⟩]
          · rw [if_neg same]
            refine if_congr ?_ rfl rfl
            rw [due_setState_of_ne same, List.mem_cons, or_iff_right same]
      · obtain ⟨table', returned, woken⟩ := ih rest nonnull' nodup' enough'
        refine ⟨table', ?_, woken.shape, woken.current, fun proc => ?_⟩
        · rw [wakeLoop, if_neg here]
          exact (if_neg due).trans returned
        · rw [woken.state]
          refine if_congr ?_ rfl rfl
          rw [List.mem_cons]
          constructor
          · exact fun later => ⟨.inr later.1, later.2⟩
          · rintro ⟨rfl | member, isDue⟩
            · exact absurd isDue due
            · exact ⟨member, isDue⟩

/-- **The first half of `scheduler_tick` wakes the processes that are due.** -/
theorem wakeSleepers_spec (lists : table.Lists nodes) (now : Word) :
    ∃ table', wakeSleepers now table = some table' ∧ Woken now nodes table table' :=
  wakeLoop_spec now lists.segment lists.nonnull (lists.segment.nodup lists.nonnull)
    lists.length_lt

end ProcessTable

/-! ## Runs -/

/-- A call, with what the functions it calls answer. -/
inductive ProcessCall where
  | create (answers : CreateAnswers) (entryPoint : Word) (name : Bytes) (priority : BitVec 8)
  | kill (pid : Word)
  | sleep (ms now : Word) (saved : CpuState)
  | yield (saved : CpuState)
  | tick (now : Word) (saved : CpuState)

/-- The process table, with the addresses of the processes, the newest first. -/
structure ProcessSystem where
  created : List Word
  table : ProcessTable

namespace ProcessSystem

/-- What a call makes of the table, if it returns. -/
def perform (table : ProcessTable) : ProcessCall → Option ProcessTable
  | .create answers entryPoint name priority =>
      some (processCreate answers entryPoint name priority table).2
  | .kill pid => processKill pid table
  | .sleep ms now saved => processSleep ms now saved table
  | .yield saved => processYield saved table
  | .tick now saved => schedulerTick now saved table

/-- The allocator gives a new process a structure of its own, and there are not so many processes
that a pid would be given twice. -/
def Allowed (system : ProcessSystem) : ProcessCall → Prop
  | .create answers _ _ _ =>
      answers.proc ≠ 0 ∧ answers.proc ∉ system.created ∧ system.created.length < 2 ^ 32 - 1
  | _ => True

instance (system : ProcessSystem) (call : ProcessCall) : Decidable (system.Allowed call) :=
  match call with
  | .create .. => inferInstanceAs (Decidable (_ ∧ _ ∧ _))
  | .kill _ | .sleep .. | .yield _ | .tick .. => inferInstanceAs (Decidable True)

/-- The addresses that a call adds. -/
def added : ProcessCall → List Word
  | .create answers _ _ _ => [answers.proc]
  | _ => []

/-- One call. -/
def step (system : ProcessSystem) (call : ProcessCall) : Option ProcessSystem :=
  if system.Allowed call then
    (perform system.table call).map fun table => ⟨added call ++ system.created, table⟩
  else
    none

/-- The calls in order. -/
def after (system : ProcessSystem) (calls : List ProcessCall) : Option ProcessSystem :=
  calls.foldlM step system

/-- The system that `process_init` leaves, from any contents of memory. -/
def booted (idle pageDir : Word) (procs : Word → Process) : ProcessSystem :=
  ⟨[idle], processInit idle pageDir ⟨procs, 0, 0, 1⟩⟩

@[simp] theorem after_nil (system : ProcessSystem) : system.after [] = some system := rfl

theorem after_append (system : ProcessSystem) (calls calls' : List ProcessCall) :
    system.after (calls ++ calls') = (system.after calls).bind fun middle => middle.after calls' :=
  List.foldlM_append

theorem after_concat_eq_some {system system' : ProcessSystem} {calls : List ProcessCall}
    {call : ProcessCall} :
    system.after (calls ++ [call]) = some system' ↔
      ∃ middle, system.after calls = some middle ∧ middle.step call = some system' := by
  rw [after_append, Option.bind_eq_some_iff]
  simp [after]

theorem step_eq_some {system system' : ProcessSystem} {call : ProcessCall} :
    system.step call = some system' ↔
      system.Allowed call ∧ perform system.table call = some system'.table ∧
      system'.created = added call ++ system.created := by
  obtain ⟨created', table'⟩ := system'
  rw [step]
  split_ifs with allowed
  · rw [Option.map_eq_some_iff]
    constructor
    · rintro ⟨table, returned, same⟩
      obtain ⟨rfl, rfl⟩ := ProcessSystem.mk.inj same
      exact ⟨allowed, returned, rfl⟩
    · rintro ⟨_, returned, rfl⟩
      exact ⟨_, returned, rfl⟩
  · exact iff_of_false nofun fun absurd => allowed absurd.1

/-- What `process_create` leaves: a new process, the old ones as they were. -/
structure AfterCreate (answers : CreateAnswers) (process : Process)
    (system system' : ProcessSystem) : Prop where
  created : system'.created = answers.proc :: system.created
  current : system'.table.currentProcess = system.table.currentProcess
  new : system'.table.procs answers.proc = process
  old : ∀ proc ∈ system.created, system'.table.procs proc = system.table.procs proc

theorem afterCreate {system system' : ProcessSystem} {answers : CreateAnswers} {entryPoint : Word}
    {name : Bytes} {priority : BitVec 8}
    (step : system.step (.create answers entryPoint name priority) = some system') :
    AfterCreate answers (newProcess answers entryPoint name priority system.table)
      system system' := by
  obtain ⟨⟨_, fresh, _⟩, returned, created⟩ := step_eq_some.mp step
  have table := Option.some.inj returned
  refine ⟨created, table ▸ rfl, ?_, fun proc member => ?_⟩
  · rw [← table]
    exact Function.update_self ..
  · rw [← table]
    exact Function.update_of_ne (ne_of_mem_of_not_mem member fresh) ..

/-- What `process_kill` leaves: the process with the pid is a zombie, and nothing else changes. -/
structure AfterKill (pid : Word) (system system' : ProcessSystem) : Prop where
  created : system'.created = system.created
  shape : system.table.SameShape system'.table
  current : system'.table.currentProcess = system.table.currentProcess
  wakeupTick : ∀ proc, system'.table.wakeupTick proc = system.table.wakeupTick proc
  state : ∀ proc ∈ system.created, system'.table.state proc =
    if (system.table.procs proc).pid = pid then .zombie else system.table.state proc

end ProcessSystem

/-- What is computed of a run holds of the system it reaches. -/
theorem eq_of_run {β : Type*} {start reached : ProcessSystem} {calls : List ProcessCall}
    (run : start.after calls = some reached) (view : ProcessSystem → β) (value : β)
    (seen : (start.after calls).map view = some value) : view reached = value := by
  rw [run] at seen
  exact Option.some.inj seen

/-! ## The invariant -/

/-- What holds in every state of a run. -/
structure ProcessInv (idle : Word) (system : ProcessSystem) : Prop where
  lists : system.table.Lists system.created
  last : system.created.getLast? = some idle
  current : system.table.currentProcess ∈ system.created
  pids : (system.created.map fun proc => (system.table.procs proc).pid).Nodup
  older : ∀ proc ∈ system.created,
    (system.table.procs proc).pid.toNat < system.created.length
  nextPid : system.table.nextPid.toNat = system.created.length
  running : ∀ proc ∈ system.created, system.table.state proc = .running →
    proc = system.table.currentProcess

namespace ProcessInv

variable {idle : Word} {system : ProcessSystem}

theorem nonempty (inv : ProcessInv idle system) : system.created ≠ [] :=
  List.ne_nil_of_mem inv.current

/-- A table of the same shape, in which nothing but the current process runs. -/
theorem of_sameShape (inv : ProcessInv idle system) {table : ProcessTable}
    (shape : system.table.SameShape table) (current : table.currentProcess ∈ system.created)
    (running : ∀ proc ∈ system.created, table.state proc = .running →
      proc = table.currentProcess) : ProcessInv idle ⟨system.created, table⟩ where
  lists := shape.lists inv.lists
  last := inv.last
  current := current
  pids := by
    simp only [shape.pid]
    exact inv.pids
  older := fun proc member => by
    rw [shape.pid]
    exact inv.older proc member
  nextPid := by
    rw [shape.nextPid]
    exact inv.nextPid
  running := running

/-- `process_init` establishes the invariant. -/
theorem booted {pageDir : Word} (nonnull : idle ≠ 0) (procs : Word → Process) :
    ProcessInv idle (.booted idle pageDir procs) where
  lists := by
    refine ⟨⟨rfl, ?_⟩, fun member => nonnull (List.mem_singleton.mp member).symm⟩
    change (Function.update procs idle _ idle).next = 0
    rw [Function.update_self]
    rfl
  last := rfl
  current := List.mem_singleton_self _
  pids := List.nodup_singleton _
  older := by
    refine List.forall_mem_singleton.mpr ?_
    change (Function.update procs idle _ idle).pid.toNat < 1
    rw [Function.update_self]
    exact Nat.one_pos
  nextPid := rfl
  running := fun proc member _ => List.mem_singleton.mp member

/-- `process_create` puts a waiting process with the next pid at the head of the list. -/
theorem create (inv : ProcessInv idle system) {answers : CreateAnswers} (entryPoint : Word)
    (name : Bytes) (priority : BitVec 8) (nonnull : answers.proc ≠ 0)
    (fresh : answers.proc ∉ system.created) (few : system.created.length < 2 ^ 32 - 1) :
    ProcessInv idle ⟨answers.proc :: system.created,
      (processCreate answers entryPoint name priority system.table).2⟩ := by
  have new : (processCreate answers entryPoint name priority system.table).2.procs answers.proc =
      newProcess answers entryPoint name priority system.table := Function.update_self ..
  have old : ∀ proc ∈ system.created,
      (processCreate answers entryPoint name priority system.table).2.procs proc =
        system.table.procs proc :=
    fun proc member => Function.update_of_ne (ne_of_mem_of_not_mem member fresh) ..
  have newPid : ((processCreate answers entryPoint name priority system.table).2.procs
      answers.proc).pid = system.table.nextPid := by rw [new]; rfl
  have oldPids : (system.created.map fun proc =>
      ((processCreate answers entryPoint name priority system.table).2.procs proc).pid) =
      system.created.map fun proc => (system.table.procs proc).pid :=
    List.map_congr_left fun proc member => by rw [old proc member]
  refine ⟨⟨⟨rfl, ?_⟩, ?_⟩, ?_, List.mem_cons_of_mem _ inv.current, ?_, ?_, ?_, ?_⟩
  · rw [ProcessTable.links, new]
    refine inv.lists.segment.congr fun proc member => ?_
    rw [ProcessTable.links, old proc member, ProcessTable.links]
  · exact List.not_mem_cons_of_ne_of_not_mem nonnull.symm inv.lists.nonnull
  · rw [List.getLast?_cons_of_ne_nil inv.nonempty, inv.last]
  · rw [List.map_cons, newPid, oldPids]
    refine List.nodup_cons.mpr ⟨fun member => ?_, inv.pids⟩
    obtain ⟨proc, listed, same⟩ := List.mem_map.mp member
    have older := inv.older proc listed
    rw [same, inv.nextPid] at older
    exact Nat.lt_irrefl _ older
  · refine List.forall_mem_cons.mpr ⟨?_, fun proc member => ?_⟩
    · rw [newPid, inv.nextPid]
      exact Nat.lt_succ_self _
    · rw [old proc member]
      exact Nat.lt_succ_of_lt (inv.older proc member)
  · have next := inv.nextPid
    change (system.table.nextPid + 1).toNat = _
    rw [List.length_cons, ← next]
    bv_omega
  · refine List.forall_mem_cons.mpr ⟨fun runs => ?_, fun proc member runs => ?_⟩
    · rw [ProcessTable.state, new] at runs
      exact absurd runs nofun
    · rw [ProcessTable.state, old proc member] at runs
      exact inv.running proc member runs

/-- A process that is marked with another state than running. -/
theorem setState (inv : ProcessInv idle system) (proc : Word) {state : ProcessState}
    (other : state ≠ .running) :
    ProcessInv idle ⟨system.created, system.table.setState proc state⟩ := by
  refine inv.of_sameShape (system.table.sameShape_setState proc state) inv.current ?_
  intro process member runs
  rw [ProcessTable.state_setState] at runs
  split_ifs at runs
  · exact absurd runs other
  · exact inv.running process member runs

theorem setWakeupTick (inv : ProcessInv idle system) (proc tick : Word) :
    ProcessInv idle ⟨system.created, system.table.setWakeupTick proc tick⟩ := by
  refine inv.of_sameShape (system.table.sameShape_setWakeupTick proc tick) inv.current ?_
  intro process member runs
  rw [ProcessTable.state_setWakeupTick] at runs
  exact inv.running process member runs

/-- `process_kill` marks the process with the pid. -/
theorem afterKill (inv : ProcessInv idle system) {pid : Word} {system' : ProcessSystem}
    (step : system.step (.kill pid) = some system') : ProcessSystem.AfterKill pid system system' := by
  obtain ⟨_, returned, created⟩ := ProcessSystem.step_eq_some.mp step
  rw [ProcessSystem.perform, ProcessTable.processKill_eq inv.lists] at returned
  cases found : system.created.find? fun proc => (system.table.procs proc).pid = pid with
  | none =>
      rw [found] at returned
      have same : system.table = system'.table := Option.some.inj returned
      refine ⟨created, same ▸ .refl _, same ▸ rfl, fun proc => same ▸ rfl, fun proc member => ?_⟩
      have other : (system.table.procs proc).pid ≠ pid := by
        simpa using List.find?_eq_none.mp found proc member
      rw [← same, if_neg other]
  | some victim =>
      rw [found] at returned
      have marked : system.table.setState victim .zombie = system'.table :=
        Option.some.inj returned
      have hit : (system.table.procs victim).pid = pid := by
        simpa using List.find?_some found
      refine ⟨created, marked ▸ ProcessTable.sameShape_setState .., marked ▸ rfl, fun proc => ?_,
        fun proc member => ?_⟩
      · rw [← marked, ProcessTable.wakeupTick_setState]
      · -- no other process has the pid
        have only : proc = victim ↔ (system.table.procs proc).pid = pid :=
          ⟨fun same => same ▸ hit, fun same => List.inj_on_of_nodup_map inv.pids member
            (List.mem_of_find?_eq_some found) (same.trans hit.symm)⟩
        rw [← marked, ProcessTable.state_setState]
        exact if_congr only rfl rfl

theorem fallAsleep (inv : ProcessInv idle system) (ms now : Word) :
    ProcessInv idle ⟨system.created, ProcessManager.fallAsleep ms now system.table⟩ :=
  (inv.setWakeupTick system.table.currentProcess (now + ms)).setState
    system.table.currentProcess nofun

/-- A switch to a process of the list makes it the only one that runs. -/
theorem switchTo (inv : ProcessInv idle system) {best : Word} (member : best ∈ system.created)
    (saved : CpuState) : ProcessInv idle ⟨system.created, system.table.switchTo best saved⟩ := by
  refine inv.of_sameShape (ProcessTable.sameShape_switchTo best saved) ?_ ?_
  · rwa [ProcessTable.currentProcess_switchTo]
  · intro proc listed runs
    rw [ProcessTable.state_switchTo] at runs
    rw [ProcessTable.currentProcess_switchTo]
    split_ifs at runs with same isBest isCurrent
    · rw [same]
      exact inv.running proc listed runs
    · exact isBest
    · exact absurd (inv.running proc listed runs) isCurrent

/-- A switch returns, and keeps the invariant. -/
theorem schedulerSwitch (inv : ProcessInv idle system) (saved : CpuState) :
    ∃ table, ProcessManager.schedulerSwitch saved system.table = some table ∧
      ProcessInv idle ⟨system.created, table⟩ :=
  ⟨_, ProcessTable.schedulerSwitch_eq inv.lists saved,
    inv.switchTo (ProcessTable.elect_mem inv.lists inv.nonempty) saved⟩

theorem kill (inv : ProcessInv idle system) (pid : Word) :
    ∃ table, processKill pid system.table = some table ∧
      ProcessInv idle ⟨system.created, table⟩ := by
  refine ⟨_, ProcessTable.processKill_eq inv.lists pid, ?_⟩
  split
  · exact inv
  · exact inv.setState _ nofun

theorem woken (inv : ProcessInv idle system) {now : Word} {table : ProcessTable}
    (woken : ProcessTable.Woken now system.created system.table table) :
    ProcessInv idle ⟨system.created, table⟩ := by
  refine inv.of_sameShape woken.shape (woken.current ▸ inv.current) fun proc member runs => ?_
  rw [woken.state] at runs
  rw [woken.current]
  split_ifs at runs
  exact inv.running proc member runs

theorem schedulerTick (inv : ProcessInv idle system) (now : Word) (saved : CpuState) :
    ∃ table, ProcessManager.schedulerTick now saved system.table = some table ∧
      ProcessInv idle ⟨system.created, table⟩ := by
  obtain ⟨table, returned, woken⟩ := ProcessTable.wakeSleepers_spec inv.lists now
  obtain ⟨table', switched, inv'⟩ := (inv.woken woken).schedulerSwitch saved
  exact ⟨table', by rw [ProcessManager.schedulerTick, returned]; exact switched, inv'⟩

/-- **Every call returns, and keeps the invariant.** -/
theorem step (inv : ProcessInv idle system) {call : ProcessCall} (allowed : system.Allowed call) :
    ∃ system', system.step call = some system' ∧ ProcessInv idle system' := by
  have result : ∃ table, ProcessSystem.perform system.table call = some table ∧
      ProcessInv idle ⟨ProcessSystem.added call ++ system.created, table⟩ := by
    cases call with
    | create answers entryPoint name priority =>
        exact ⟨_, rfl, inv.create entryPoint name priority allowed.1 allowed.2.1 allowed.2.2⟩
    | kill pid => exact inv.kill pid
    | sleep ms now saved => exact (inv.fallAsleep ms now).schedulerSwitch saved
    | yield saved => exact inv.schedulerSwitch saved
    | tick now saved => exact inv.schedulerTick now saved
  obtain ⟨table, returned, inv'⟩ := result
  exact ⟨_, ProcessSystem.step_eq_some.mpr ⟨allowed, returned, rfl⟩, inv'⟩

/-- **The invariant holds along every run.** -/
theorem after (inv : ProcessInv idle system) {calls : List ProcessCall} {system' : ProcessSystem}
    (run : system.after calls = some system') : ProcessInv idle system' := by
  induction calls using List.reverseRecOn generalizing system' with
  | nil => exact Option.some.inj run ▸ inv
  | append_singleton calls call ih =>
      obtain ⟨middle, run, last⟩ := ProcessSystem.after_concat_eq_some.mp run
      obtain ⟨next, stepped, inv'⟩ :=
        (ih run).step (ProcessSystem.step_eq_some.mp last).1
      rw [last] at stepped
      exact Option.some.inj stepped ▸ inv'

end ProcessInv

/-- **The process table invariant.** In every state reached from `process_init` by any calls, the
process list is a finite list without repetition that ends in the idle process and holds the
current process, the pids in it are pairwise distinct, and a process in it that is running is the
current one, so that at most one is. -/
theorem process_table_invariant {idle pageDir : Word} (nonnull : idle ≠ 0)
    (procs : Word → Process) {calls : List ProcessCall} {system : ProcessSystem}
    (run : (ProcessSystem.booted idle pageDir procs).after calls = some system) :
    ∃ nodes, Segment system.table.links system.table.processList nodes 0 ∧
      0 ∉ nodes ∧ nodes.Nodup ∧ nodes.getLast? = some idle ∧
      system.table.currentProcess ∈ nodes ∧
      (nodes.map fun proc => (system.table.procs proc).pid).Nodup ∧
      ∀ proc ∈ nodes, (system.table.procs proc).state = .running →
        proc = system.table.currentProcess := by
  have inv := (ProcessInv.booted nonnull procs).after run
  exact ⟨system.created, inv.lists.segment, inv.lists.nonnull,
    inv.lists.segment.nodup inv.lists.nonnull, inv.last, inv.current, inv.pids, inv.running⟩

/-- The system after `process_init`, with the idle process at `0x1000`. -/
def freshSystem : ProcessSystem := .booted 0x1000 0x5000 fun _ => .zeroed

/-- The creation of a process with priority 1. -/
def createAt (proc : Word) : ProcessCall := .create ⟨proc, 0x6000, 0x6000, 0x10000⟩ 0x400 idleName 1

/-- A process that kills itself and goes to sleep leaves the table in order. -/
theorem process_table_invariant_selfKill :
    ∃ system, freshSystem.after [createAt 0x2000, .yield .zeroed, .kill 1, .sleep 5 0 .zeroed] =
        some system ∧
      ∃ nodes, Segment system.table.links system.table.processList nodes 0 ∧
        nodes.getLast? = some 0x1000 ∧ system.table.currentProcess ∈ nodes := by
  obtain ⟨system, run⟩ := Option.isSome_iff_exists.mp (by decide +kernel :
    (freshSystem.after [createAt 0x2000, .yield .zeroed, .kill 1, .sleep 5 0 .zeroed]).isSome)
  obtain ⟨nodes, segment, _, _, last, current, _⟩ :=
    process_table_invariant (by decide : (0x1000 : Word) ≠ 0) _ run
  exact ⟨system, run, nodes, segment, last, current⟩

end CocosOS.ProcessManager
