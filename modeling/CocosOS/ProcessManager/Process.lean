import CocosOS.Library.ByteMemory
import CocosOS.Library.CString

/-!
# The processes of the kernel

The functions of `process.c`. A process is a structure at an address; the kernel keeps the head
of a list of them and the current one. The functions call others: `Memory_alloc` and
`paging_create_directory` for a new process, the tick counter, and `switch_context`, which saves
the registers of the outgoing process. What these answer is an argument of the model.

The loops over the list end at the null pointer. They take fuel, and run out of it only on a
list that goes on for more nodes than there are addresses, that is, on one that never ends.
-/

set_option autoImplicit false

namespace CocosOS.ProcessManager

open Library.ByteMemory Library.CString

/-! ## Data -/

/-- `process_state_t`. -/
inductive ProcessState where
  | stopped
  | waiting
  | running
  | sleeping
  | zombie
  deriving DecidableEq, Repr

/-- `cpu_state_t`. -/
structure CpuState where
  eax : Word
  ebx : Word
  ecx : Word
  edx : Word
  esi : Word
  edi : Word
  ebp : Word
  esp : Word
  eip : Word
  eflags : Word
  cs : Word
  ds : Word
  es : Word
  fs : Word
  gs : Word
  cr3 : Word
  deriving DecidableEq, Repr

/-- `process_t`. -/
structure Process where
  pid : Word
  ppid : Word
  name : Bytes
  state : ProcessState
  priority : BitVec 8
  wakeupTick : Word
  pageDir : Word
  stackTop : Word
  context : CpuState
  next : Word

/-- What `memset` to zero makes of the registers. -/
def CpuState.zeroed : CpuState := ⟨0, 0, 0, 0, 0, 0, 0, 0, 0, 0, 0, 0, 0, 0, 0, 0⟩

/-- What `memset` to zero makes of a process. -/
def Process.zeroed : Process where
  pid := 0
  ppid := 0
  name := fun _ => 0
  state := .stopped
  priority := 0
  wakeupTick := 0
  pageDir := 0
  stackTop := 0
  context := .zeroed
  next := 0

/-- The process structures in memory, and the static variables. -/
structure ProcessTable where
  procs : Word → Process
  processList : Word
  currentProcess : Word
  nextPid : Word

def PROCESS_NAME_MAX : ℕ := 32

def PROCESS_STACK_SIZE : Word := 0x40000

/-- There are not more nodes in a list that ends than addresses. -/
def scanFuel : ℕ := 2 ^ 32

namespace ProcessTable

/-- The links of the list. -/
def links (table : ProcessTable) (proc : Word) : Word := (table.procs proc).next

def modify (table : ProcessTable) (proc : Word) (change : Process → Process) : ProcessTable :=
  { table with procs := Function.update table.procs proc (change (table.procs proc)) }

def setState (table : ProcessTable) (proc : Word) (state : ProcessState) : ProcessTable :=
  table.modify proc fun process => { process with state := state }

def setWakeupTick (table : ProcessTable) (proc tick : Word) : ProcessTable :=
  table.modify proc fun process => { process with wakeupTick := tick }

def saveContext (table : ProcessTable) (proc : Word) (context : CpuState) : ProcessTable :=
  table.modify proc fun process => { process with context := context }

end ProcessTable

/-! ## Creation -/

/-- The characters of `"idle"`. -/
def idleName : Bytes := fun index => [0x69, 0x64, 0x6C, 0x65].getD index 0

/-- `process_init`, with the process structure and the directory it is given. -/
def processInit (idle pageDir : Word) (table : ProcessTable) : ProcessTable :=
  { table with
    procs := Function.update table.procs idle
      { Process.zeroed with
        pid := 0
        ppid := 0
        name := idleName
        state := .running
        priority := 0
        pageDir := pageDir }
    processList := idle
    currentProcess := idle }

/-- What the functions called by `process_create` answer: `Memory_alloc` for the process and for
its stack, and `paging_create_directory` with the physical address of the directory. -/
structure CreateAnswers where
  proc : Word
  pageDir : Word
  physicalAddress : Word
  stackTop : Word
  deriving DecidableEq, Repr

/-- The new process of `process_create`. -/
def newProcess (answers : CreateAnswers) (entryPoint : Word) (name : Bytes)
    (priority : BitVec 8) (table : ProcessTable) : Process :=
  { Process.zeroed with
    pid := table.nextPid
    ppid := (table.procs table.currentProcess).pid
    name := strncpy (fun _ => 0) 0 name (PROCESS_NAME_MAX - 1)
    state := .waiting
    priority := priority
    pageDir := answers.pageDir
    stackTop := answers.stackTop
    context := { CpuState.zeroed with
      esp := answers.stackTop + PROCESS_STACK_SIZE - 4
      eip := entryPoint
      eflags := 0x202
      cr3 := answers.physicalAddress }
    next := table.processList }

/-- `process_create`: the new pid, and the table. -/
def processCreate (answers : CreateAnswers) (entryPoint : Word) (name : Bytes)
    (priority : BitVec 8) (table : ProcessTable) : Word × ProcessTable :=
  (table.nextPid,
    { table with
      procs := Function.update table.procs answers.proc
        (newProcess answers entryPoint name priority table)
      processList := answers.proc
      nextPid := table.nextPid + 1 })

/-! ## Switching -/

/-- The loop of `scheduler_switch`: the best process so far and its priority. -/
def pickLoop (procs : Word → Process) : ℕ → Word → Word → BitVec 8 → Option Word
  | 0, _, _, _ => none
  | fuel + 1, next, best, bestPriority =>
      if next = 0 then
        some best
      else if (procs next).state = .waiting ∧ (procs next).priority < bestPriority then
        pickLoop procs fuel (procs next).next next (procs next).priority
      else
        pickLoop procs fuel (procs next).next best bestPriority

/-- The end of `scheduler_switch`: make a process current, unless it is already. -/
def ProcessTable.switchTo (best : Word) (saved : CpuState) (table : ProcessTable) :
    ProcessTable :=
  if best = table.currentProcess then
    table
  else
    let old := table.currentProcess
    let table := (table.setState old .waiting).setState best .running
    { table with currentProcess := best }.saveContext old saved

/-- `scheduler_switch`. The registers `saved` are those of the outgoing process. -/
def schedulerSwitch (saved : CpuState) (table : ProcessTable) : Option ProcessTable := do
  let best ← pickLoop table.procs scanFuel table.processList 0 0xFF
  let best := if best = 0 then table.processList else best
  return table.switchTo best saved

/-! ## The other calls -/

/-- The loop of `process_kill`. -/
def killLoop (pid : Word) : ℕ → Word → ProcessTable → Option ProcessTable
  | 0, _, _ => none
  | fuel + 1, proc, table =>
      if proc = 0 then
        some table
      else if (table.procs proc).pid = pid then
        some (table.setState proc .zombie)
      else
        killLoop pid fuel (table.links proc) table

/-- `process_kill`. -/
def processKill (pid : Word) (table : ProcessTable) : Option ProcessTable :=
  killLoop pid scanFuel table.processList table

/-- What `process_sleep` does to the current process before it switches; `now` is the tick. -/
def fallAsleep (ms now : Word) (table : ProcessTable) : ProcessTable :=
  (table.setWakeupTick table.currentProcess (now + ms)).setState table.currentProcess .sleeping

/-- `process_sleep`. -/
def processSleep (ms now : Word) (saved : CpuState) (table : ProcessTable) :
    Option ProcessTable :=
  schedulerSwitch saved (fallAsleep ms now table)

/-- `process_yield`. -/
def processYield (saved : CpuState) (table : ProcessTable) : Option ProcessTable :=
  schedulerSwitch saved table

/-- The loop of `scheduler_tick`. -/
def wakeLoop (now : Word) : ℕ → Word → ProcessTable → Option ProcessTable
  | 0, _, _ => none
  | fuel + 1, proc, table =>
      if proc = 0 then
        some table
      else if (table.procs proc).state = .sleeping ∧ (table.procs proc).wakeupTick ≤ now then
        wakeLoop now fuel (table.links proc) (table.setState proc .waiting)
      else
        wakeLoop now fuel (table.links proc) table

/-- What `scheduler_tick` does to the sleeping processes before it switches. -/
def wakeSleepers (now : Word) (table : ProcessTable) : Option ProcessTable :=
  wakeLoop now scanFuel table.processList table

/-- `scheduler_tick`. -/
def schedulerTick (now : Word) (saved : CpuState) (table : ProcessTable) :
    Option ProcessTable := do
  let table ← wakeSleepers now table
  schedulerSwitch saved table

end CocosOS.ProcessManager
