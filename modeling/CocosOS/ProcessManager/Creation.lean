import CocosOS.Kernel.Memory.KernelBoot
import CocosOS.ProcessManager.Process

/-!
# The creation of a process, in memory

`process_create` asks for memory three times: for the process structure, for the page directory and
for the stack. Here its statements are stores into the memory that the allocator works on, at the
offsets that the 32-bit target gives the fields of `process_t`.

Where all three requests are answered, what it does to the table is `processCreate`
(`table_processCreate`). It does not look at the answers. Whichever is `NULL`, it clears the memory
at address zero and enters the process all the same (`creation_unclean`).
-/

set_option autoImplicit false

namespace CocosOS.ProcessManager

open Library.ByteMemory Library.CString Kernel.Memory

/-! ## Process structures -/

/-- The value of an enumerator of `process_state_t`. -/
def ProcessState.code : ProcessState → Word
  | .stopped => 0
  | .waiting => 1
  | .running => 2
  | .sleeping => 3
  | .zombie => 4

/-- The enumerator of a value. -/
def ProcessState.ofCode (code : Word) : ProcessState :=
  if code = 0 then .stopped
  else if code = 1 then .waiting
  else if code = 2 then .running
  else if code = 3 then .sleeping
  else .zombie

@[simp] theorem ProcessState.ofCode_code (state : ProcessState) : ofCode state.code = state := by
  cases state <;> rfl

namespace ProcessStruct

/-- `sizeof(process_t)`. -/
def sizeof : Word := 148

/-! `offsetof(process_t, field)`. -/

def pid : Word := 0

def ppid : Word := 4

def name : Word := 8

def state : Word := 40

def priority : Word := 44

def wakeupTick : Word := 56

def pageDir : Word := 60

def stackTop : Word := 64

def context : Word := 68

def next : Word := 144

/-! `offsetof(process_t, context.field)`. -/

def esp : Word := context + 28

def eip : Word := context + 32

def eflags : Word := context + 36

def cr3 : Word := context + 60

/-- A field of one word. -/
def get (mem : Mem) (proc offset : Word) : Word := load32 mem (proc + offset)

def set (proc offset value : Word) (mem : Mem) : Mem := store32 mem (proc + offset) value

/-- `proc->priority = priority`. -/
def setPriority (proc : Word) (value : Byte) (mem : Mem) : Mem :=
  store8 mem (proc + priority) value

/-- The first `n` bytes of `proc->name`. -/
def setName (proc : Word) (bytes : Bytes) (n : ℕ) (mem : Mem) : Mem :=
  copyBytes mem (proc + name) bytes 0 n

end ProcessStruct

open ProcessStruct

/-! ## The functions -/

/-- The machine with the static variables of `process.c`. -/
structure ProcessMachine extends Machine where
  processList : Word
  currentProcess : Word
  nextPid : Word

namespace ProcessMachine

def withMem (s : ProcessMachine) (mem : Mem) : ProcessMachine := { s with mem := mem }

/-- What `process_create` stores before it asks for a directory. -/
def enterProcess (proc : Word) (nameBytes : Bytes) (prio : Byte) (s : ProcessMachine) (mem : Mem) :
    Mem :=
  let mem := fill mem proc 0 sizeof
  let mem := set proc pid s.nextPid mem
  let mem := set proc ppid (get mem s.currentProcess pid) mem
  let mem := setName proc (strncpy (fun _ => 0) 0 nameBytes (PROCESS_NAME_MAX - 1))
    (PROCESS_NAME_MAX - 1) mem
  let mem := set proc state ProcessState.waiting.code mem
  setPriority proc prio mem

/-- The statements of `process_create` before it asks for a directory. The characters are those
that `name` points to. -/
def allocProcess (alloc : MemoryAlloc) (nameBytes : Bytes) (prio : Byte) (s : ProcessMachine) :
    Except Stop (Word × ProcessMachine) := do
  let (proc, machine) ← callAlloc alloc sizeof s.toMachine
  pure (proc, { s.withMem (enterProcess proc nameBytes prio s machine.mem) with
    nextPid := s.nextPid + 1 })

/-- `proc->page_dir = paging_create_directory()`. -/
def allocDirectory (alloc : MemoryAlloc) (proc : Word) (s : ProcessMachine) :
    Except Stop ProcessMachine := do
  let (dir, machine) ← pagingCreateDirectory alloc s.toMachine
  pure (s.withMem (set proc pageDir dir machine.mem))

/-- What `process_create` stores for the stack. -/
def enterStack (proc stack : Word) (mem : Mem) : Mem :=
  let mem := set proc stackTop stack mem
  fill mem (get mem proc stackTop) 0 PROCESS_STACK_SIZE

/-- The statements of `process_create` for the stack. -/
def allocStack (alloc : MemoryAlloc) (proc : Word) (s : ProcessMachine) :
    Except Stop ProcessMachine := do
  let (stack, machine) ← callAlloc alloc PROCESS_STACK_SIZE s.toMachine
  pure (s.withMem (enterStack proc stack machine.mem))

/-- The last assignments of `process_create` to the fields. -/
def enterContext (proc entryPoint : Word) (list : Word) (mem : Mem) : Mem :=
  let mem := set proc esp (get mem proc stackTop + PROCESS_STACK_SIZE - 4) mem
  let mem := set proc eip entryPoint mem
  let mem := set proc eflags 0x202 mem
  let mem := set proc cr3 (PageDirectory.physicalAddress mem (get mem proc pageDir)) mem
  set proc next list mem

/-- `process_create`. -/
def processCreate (alloc : MemoryAlloc) (entryPoint : Word) (nameBytes : Bytes) (prio : Byte)
    (s : ProcessMachine) : Except Stop (Word × ProcessMachine) := do
  let (proc, s) ← allocProcess alloc nameBytes prio s
  let s ← allocDirectory alloc proc s
  let s ← allocStack alloc proc s
  let mem := enterContext proc entryPoint s.processList s.mem
  pure (get mem proc pid, { s.withMem mem with processList := proc })

/-- What `process_init` stores before it asks for a directory. -/
def enterIdle (idle : Word) (mem : Mem) : Mem :=
  let mem := fill mem idle 0 sizeof
  let mem := set idle pid 0 mem
  let mem := set idle ppid 0 mem
  let mem := setName idle idleName 5 mem
  let mem := set idle state ProcessState.running.code mem
  setPriority idle 0 mem

/-- `process_init`. -/
def processInit (alloc : MemoryAlloc) (s : ProcessMachine) : Except Stop ProcessMachine := do
  let (idle, machine) ← callAlloc alloc sizeof s.toMachine
  let s ← allocDirectory alloc idle (s.withMem (enterIdle idle machine.mem))
  pure { s with processList := idle, currentProcess := idle }

end ProcessMachine

/-! ## Which bytes are stored -/

namespace ProcessStruct

variable {mem : Mem} {proc offset x : Word}

@[simp] theorem get_set_self (mem : Mem) (proc offset value : Word) :
    get (set proc offset value mem) proc offset = value :=
  load32_store32 ..

theorem set_apply (fits : proc.toNat + 148 ≤ 2 ^ 32) (inside : offset.toNat + 4 ≤ 148)
    (value : Word) (outside : ¬ Covers proc 148 x) : set proc offset value mem x = mem x :=
  store32_add_apply fits inside outside

theorem setPriority_apply (fits : proc.toNat + 148 ≤ 2 ^ 32) (value : Byte)
    (outside : ¬ Covers proc 148 x) : setPriority proc value mem x = mem x := by
  refine store8_apply_of_ne ?_
  rintro rfl
  have place : (proc + priority).toNat = proc.toNat + 44 :=
    toNat_add_of_fits fits (by decide)
  exact outside ⟨by omega, by omega⟩

theorem setName_apply (fits : proc.toNat + 148 ≤ 2 ^ 32) (bytes : Bytes) {n : ℕ} (short : n ≤ 32)
    (outside : ¬ Covers proc 148 x) : setName proc bytes n mem x = mem x := by
  have place : (proc + name).toNat = proc.toNat + 8 := toNat_add_of_fits fits (by decide)
  refine copyBytes_of_not_covers fun inside => outside ⟨?_, ?_⟩
  · exact Nat.le_trans (by omega) inside.1
  · exact Nat.lt_of_lt_of_le inside.2 (by omega)

theorem get_set_of_apart (fits : proc.toNat + 148 ≤ 2 ^ 32) (inside : offset.toNat + 4 ≤ 148)
    {other : Word} (inside' : other.toNat + 4 ≤ 148)
    (apart : offset.toNat + 4 ≤ other.toNat ∨ other.toNat + 4 ≤ offset.toNat) (value : Word) :
    get (set proc offset value mem) proc other = get mem proc other := by
  have place : (proc + offset).toNat = proc.toNat + offset.toNat :=
    toNat_add_of_fits fits (by omega)
  have place' : (proc + other).toNat = proc.toNat + other.toNat :=
    toNat_add_of_fits fits (by omega)
  exact load32_store32_of_apart (by omega) (by omega) (by omega)

theorem get_setPriority (fits : proc.toNat + 148 ≤ 2 ^ 32) (inside : offset.toNat + 4 ≤ 148)
    (apart : offset.toNat + 4 ≤ 44 ∨ 45 ≤ offset.toNat) (value : Byte) :
    get (setPriority proc value mem) proc offset = get mem proc offset := by
  have place : (proc + offset).toNat = proc.toNat + offset.toNat :=
    toNat_add_of_fits fits (by omega)
  have byte : (proc + priority).toNat = proc.toNat + 44 := toNat_add_of_fits fits (by decide)
  refine load32_congr (by omega) (sameOn_store8 (not_covers_iff.mpr ?_))
  omega

theorem get_setName (fits : proc.toNat + 148 ≤ 2 ^ 32) (inside : offset.toNat + 4 ≤ 148)
    (apart : offset.toNat + 4 ≤ 8 ∨ 40 ≤ offset.toNat) (bytes : Bytes) {n : ℕ} (short : n ≤ 32) :
    get (setName proc bytes n mem) proc offset = get mem proc offset := by
  have place : (proc + offset).toNat = proc.toNat + offset.toNat :=
    toNat_add_of_fits fits (by omega)
  have start : (proc + name).toNat = proc.toNat + 8 := toNat_add_of_fits fits (by decide)
  refine load32_congr (by omega) fun x inside => copyBytes_of_not_covers (not_covers_iff.mpr ?_)
  have lower := inside.1
  have upper := inside.2
  omega

theorem get_fill (fits : proc.toNat + 148 ≤ 2 ^ 32) (inside : offset.toNat + 4 ≤ 148) :
    get (fill mem proc 0 sizeof) proc offset = 0 := by
  have place : (proc + offset).toNat = proc.toNat + offset.toNat :=
    toNat_add_of_fits fits (by omega)
  refine load32_fill_zero (by omega) fun x covered => ?_
  have lower := covered.1
  have upper := covered.2
  exact ⟨by omega, show x.toNat < proc.toNat + 148 by omega⟩

/-- A zero that is stored leaves zeros alone. -/
theorem set_zero_apply (zero : mem x = 0) : set proc offset 0 mem x = 0 := by
  rw [set, store32]
  split_ifs <;> simp [zero]

end ProcessStruct

namespace ProcessMachine

variable {alloc : MemoryAlloc} {proc x : Word} {nameBytes : Bytes} {prio : Byte}
  {s : ProcessMachine} {mem : Mem}

section Frames

variable (fits : proc.toNat + 148 ≤ 2 ^ 32) (outside : ¬ Covers proc 148 x)
include fits outside

theorem enterProcess_apply : enterProcess proc nameBytes prio s mem x = mem x := by
  rw [enterProcess, setPriority_apply fits _ outside, set_apply fits (by decide) _ outside,
    setName_apply fits _ (by decide) outside, set_apply fits (by decide) _ outside,
    set_apply fits (by decide) _ outside]
  exact fill_apply_of_not_covers outside

theorem enterIdle_apply : enterIdle proc mem x = mem x := by
  rw [enterIdle, setPriority_apply fits _ outside, set_apply fits (by decide) _ outside,
    setName_apply fits _ (by decide) outside, set_apply fits (by decide) _ outside,
    set_apply fits (by decide) _ outside]
  exact fill_apply_of_not_covers outside

theorem enterContext_apply (entryPoint list : Word) :
    enterContext proc entryPoint list mem x = mem x := by
  rw [enterContext, set_apply fits (by decide) _ outside, set_apply fits (by decide) _ outside,
    set_apply fits (by decide) _ outside, set_apply fits (by decide) _ outside,
    set_apply fits (by decide) _ outside]

end Frames

theorem enterStack_eq (proc stack : Word) (mem : Mem) :
    enterStack proc stack mem =
      fill (set proc stackTop stack mem) stack 0 PROCESS_STACK_SIZE := by
  rw [enterStack, get_set_self]

/-! ## What the requests are answered with -/

theorem allocProcess_eq_ok {s₁ : ProcessMachine} :
    allocProcess alloc nameBytes prio s = .ok (proc, s₁) ↔
      ∃ mem₁, alloc sizeof s.mem = some (proc, mem₁) ∧
        s₁ = { s.withMem (enterProcess proc nameBytes prio s mem₁) with
          nextPid := s.nextPid + 1 } := by
  rw [allocProcess, bind_eq_ok]
  constructor
  · rintro ⟨⟨p, machine⟩, call, made⟩
    obtain ⟨mem₁, answer, rfl⟩ := callAlloc_eq_ok.mp call
    obtain ⟨rfl, rfl⟩ := Prod.mk.inj (Except.ok.inj made)
    exact ⟨mem₁, answer, rfl⟩
  · rintro ⟨mem₁, answer, rfl⟩
    exact ⟨_, callAlloc_eq_ok.mpr ⟨mem₁, answer, rfl⟩, rfl⟩

theorem allocDirectory_eq_ok {s₂ : ProcessMachine} :
    allocDirectory alloc proc s = .ok s₂ ↔
      ∃ dir mem₂, alloc PageDirectory.sizeof s.mem = some (dir, mem₂) ∧
        s₂ = s.withMem (set proc pageDir dir (PageDirectory.create dir mem₂)) := by
  rw [allocDirectory, bind_eq_ok]
  constructor
  · rintro ⟨⟨dir, machine⟩, call, made⟩
    obtain ⟨mem₂, answer, rfl⟩ := pagingCreateDirectory_eq_ok.mp call
    exact ⟨dir, mem₂, answer, (Except.ok.inj made).symm⟩
  · rintro ⟨dir, mem₂, answer, rfl⟩
    exact ⟨_, pagingCreateDirectory_eq_ok.mpr ⟨mem₂, answer, rfl⟩, rfl⟩

theorem allocStack_eq_ok {s₃ : ProcessMachine} :
    allocStack alloc proc s = .ok s₃ ↔
      ∃ stack mem₃, alloc PROCESS_STACK_SIZE s.mem = some (stack, mem₃) ∧
        s₃ = s.withMem (enterStack proc stack mem₃) := by
  rw [allocStack, bind_eq_ok]
  constructor
  · rintro ⟨⟨stack, machine⟩, call, made⟩
    obtain ⟨mem₃, answer, rfl⟩ := callAlloc_eq_ok.mp call
    exact ⟨stack, mem₃, answer, (Except.ok.inj made).symm⟩
  · rintro ⟨stack, mem₃, answer, rfl⟩
    exact ⟨_, callAlloc_eq_ok.mpr ⟨mem₃, answer, rfl⟩, rfl⟩

theorem allocDirectory_statics {s₂ : ProcessMachine}
    (call : allocDirectory alloc proc s = .ok s₂) :
    s₂.processList = s.processList ∧ s₂.currentProcess = s.currentProcess ∧
      s₂.nextPid = s.nextPid := by
  obtain ⟨dir, mem₂, -, rfl⟩ := allocDirectory_eq_ok.mp call
  exact ⟨rfl, rfl, rfl⟩

theorem allocStack_statics {s₃ : ProcessMachine} (call : allocStack alloc proc s = .ok s₃) :
    s₃.processList = s.processList ∧ s₃.currentProcess = s.currentProcess ∧
      s₃.nextPid = s.nextPid := by
  obtain ⟨stack, mem₃, -, rfl⟩ := allocStack_eq_ok.mp call
  exact ⟨rfl, rfl, rfl⟩

/-- `process_create` is its three requests, and the assignments at its end. -/
theorem processCreate_eq_ok {entryPoint newPid : Word} {s' : ProcessMachine} :
    processCreate alloc entryPoint nameBytes prio s = .ok (newPid, s') ↔
      ∃ proc s₁ s₂ s₃, allocProcess alloc nameBytes prio s = .ok (proc, s₁) ∧
        allocDirectory alloc proc s₁ = .ok s₂ ∧ allocStack alloc proc s₂ = .ok s₃ ∧
        newPid = get (enterContext proc entryPoint s₃.processList s₃.mem) proc pid ∧
        s' = { s₃.withMem (enterContext proc entryPoint s₃.processList s₃.mem) with
          processList := proc } := by
  rw [processCreate, bind_eq_ok]
  constructor
  · rintro ⟨⟨proc, s₁⟩, first, rest⟩
    obtain ⟨s₂, second, rest⟩ := bind_eq_ok.mp rest
    obtain ⟨s₃, third, last⟩ := bind_eq_ok.mp rest
    obtain ⟨rfl, rfl⟩ := Prod.mk.inj (Except.ok.inj last)
    exact ⟨proc, s₁, s₂, s₃, first, second, third, rfl, rfl⟩
  · rintro ⟨proc, s₁, s₂, s₃, first, second, third, rfl, rfl⟩
    exact ⟨_, first, bind_eq_ok.mpr ⟨_, second, bind_eq_ok.mpr ⟨_, third, rfl⟩⟩⟩

/-- A call of `process_create` takes a pid and puts what it was given at the head of the list. -/
theorem processCreate_statics {entryPoint newPid : Word} {s' : ProcessMachine}
    (call : processCreate alloc entryPoint nameBytes prio s = .ok (newPid, s')) :
    s'.nextPid = s.nextPid + 1 ∧ s'.currentProcess = s.currentProcess ∧
      ∃ mem₁, alloc sizeof s.mem = some (s'.processList, mem₁) := by
  obtain ⟨proc, s₁, s₂, s₃, first, second, third, -, rfl⟩ := processCreate_eq_ok.mp call
  obtain ⟨mem₁, answer, rfl⟩ := allocProcess_eq_ok.mp first
  obtain ⟨dir, mem₂, -, rfl⟩ := allocDirectory_eq_ok.mp second
  obtain ⟨stack, mem₃, -, rfl⟩ := allocStack_eq_ok.mp third
  exact ⟨rfl, rfl, mem₁, answer⟩

/-- The pid of a process structure is read back from there. -/
theorem get_pid_enterProcess (fits : proc.toNat + 148 ≤ 2 ^ 32) :
    get (enterProcess proc nameBytes prio s mem) proc pid = s.nextPid := by
  rw [enterProcess, get_setPriority fits (by decide) (by decide),
    get_set_of_apart fits (by decide) (by decide) (by decide),
    get_setName fits (by decide) (by decide) _ (by decide),
    get_set_of_apart fits (by decide) (by decide) (by decide), get_set_self]

end ProcessMachine

/-! ## The table in memory -/

namespace ProcessStruct

def readName (mem : Mem) (proc : Word) : Bytes := fun index =>
  if index < PROCESS_NAME_MAX then mem (proc + name + BitVec.ofNat 32 index) else 0

def readContext (mem : Mem) (proc : Word) : CpuState where
  eax := get mem proc context
  ebx := get mem proc (context + 4)
  ecx := get mem proc (context + 8)
  edx := get mem proc (context + 12)
  esi := get mem proc (context + 16)
  edi := get mem proc (context + 20)
  ebp := get mem proc (context + 24)
  esp := get mem proc esp
  eip := get mem proc eip
  eflags := get mem proc eflags
  cs := get mem proc (context + 40)
  ds := get mem proc (context + 44)
  es := get mem proc (context + 48)
  fs := get mem proc (context + 52)
  gs := get mem proc (context + 56)
  cr3 := get mem proc cr3

/-- The process structure at an address. -/
def readProcess (mem : Mem) (proc : Word) : Process where
  pid := get mem proc pid
  ppid := get mem proc ppid
  name := readName mem proc
  state := .ofCode (get mem proc state)
  priority := mem (proc + priority)
  wakeupTick := get mem proc wakeupTick
  pageDir := get mem proc pageDir
  stackTop := get mem proc stackTop
  context := readContext mem proc
  next := get mem proc next

variable {mem mem' : Mem} {proc offset : Word} (fits : proc.toNat + 148 ≤ 2 ^ 32)
include fits

theorem toNat_nameAddr {index : ℕ} (inside : index < PROCESS_NAME_MAX) :
    (proc + name + BitVec.ofNat 32 index).toNat = proc.toNat + 8 + index := by
  have start : (proc + name).toNat = proc.toNat + 8 := toNat_add_of_fits fits (by decide)
  have room : (proc + name).toNat + PROCESS_NAME_MAX ≤ 2 ^ 32 := by
    rw [start, PROCESS_NAME_MAX]
    omega
  rw [toNat_add_ofNat room inside, start]

theorem toNat_priorityAddr : (proc + priority).toNat = proc.toNat + 44 :=
  toNat_add_of_fits fits (by decide)

/-- A process structure depends only on its bytes. -/
theorem readProcess_congr (same : SameOn proc 148 mem mem') :
    readProcess mem' proc = readProcess mem proc := by
  have words : ∀ {offset : Word}, offset.toNat + 4 ≤ 148 →
      get mem' proc offset = get mem proc offset :=
    fun inside => load32_add_congr fits same inside
  have names : readName mem' proc = readName mem proc := by
    funext index
    unfold readName
    split_ifs with inside
    · have place := toNat_nameAddr fits inside
      refine same _ ⟨by omega, ?_⟩
      rw [PROCESS_NAME_MAX] at inside
      omega
    · rfl
  have byte : mem' (proc + priority) = mem (proc + priority) := by
    have place := toNat_priorityAddr fits
    exact same _ ⟨by omega, by omega⟩
  simp (disch := decide) only [readProcess, readContext, names, byte, words]

/-- A cleared structure reads as zero. -/
theorem readProcess_fill : readProcess (fill mem proc 0 sizeof) proc = .zeroed := by
  have bytes : ∀ x, Covers proc 148 x → fill mem proc 0 sizeof x = 0 :=
    fun x inside => fill_apply_of_covers inside
  have names : readName (fill mem proc 0 sizeof) proc = fun _ => 0 := by
    funext index
    unfold readName
    split_ifs with inside
    · have place := toNat_nameAddr fits inside
      refine bytes _ ⟨by omega, ?_⟩
      rw [PROCESS_NAME_MAX] at inside
      omega
    · rfl
  have byte : fill mem proc 0 sizeof (proc + priority) = 0 := by
    have place := toNat_priorityAddr fits
    exact bytes _ ⟨by omega, by omega⟩
  simp (disch := decide) only [readProcess, readContext, names, byte, get_fill fits]
  rfl

theorem readName_set (inside : offset.toNat + 4 ≤ 148)
    (apart : offset.toNat + 4 ≤ 8 ∨ 40 ≤ offset.toNat) (value : Word) :
    readName (set proc offset value mem) proc = readName mem proc := by
  have start : (proc + offset).toNat = proc.toNat + offset.toNat :=
    toNat_add_of_fits fits (by omega)
  funext index
  unfold readName
  split_ifs with small
  · have place := toNat_nameAddr fits small
    rw [PROCESS_NAME_MAX] at small
    exact store32_apply_of_not_covers (by omega) (not_covers_iff.mpr (by omega))
  · rfl

theorem priority_set (inside : offset.toNat + 4 ≤ 148)
    (apart : offset.toNat + 4 ≤ 44 ∨ 45 ≤ offset.toNat) (value : Word) :
    set proc offset value mem (proc + priority) = mem (proc + priority) := by
  have start : (proc + offset).toNat = proc.toNat + offset.toNat :=
    toNat_add_of_fits fits (by omega)
  have place := toNat_priorityAddr fits
  exact store32_apply_of_not_covers (by omega) (not_covers_iff.mpr (by omega))

theorem readName_setPriority (value : Byte) :
    readName (setPriority proc value mem) proc = readName mem proc := by
  funext index
  unfold readName
  split_ifs with small
  · have place := toNat_nameAddr fits small
    have byte := toNat_priorityAddr fits
    rw [PROCESS_NAME_MAX] at small
    refine store8_apply_of_ne fun same => ?_
    rw [same] at place
    omega
  · rfl

/-- The name that is read after a copy. -/
theorem readName_setName (bytes : Bytes) {n : ℕ} (short : n ≤ PROCESS_NAME_MAX) :
    readName (setName proc bytes n mem) proc =
      fun index => if index < n then bytes index else readName mem proc index := by
  have start : (proc + name).toNat = proc.toNat + 8 := toNat_add_of_fits fits (by decide)
  have room : (proc + name).toNat + n ≤ 2 ^ 32 := by
    rw [PROCESS_NAME_MAX] at short
    omega
  funext index
  unfold readName
  by_cases copied : index < n
  · rw [if_pos (Nat.lt_of_lt_of_le copied short), if_pos copied]
    exact copyBytes_add room mem bytes (Nat.zero_le index) copied
  · rw [if_neg copied]
    split_ifs with small
    · have place := toNat_nameAddr fits small
      exact copyBytes_of_not_covers (not_covers_iff.mpr (by omega))
    · rfl

omit fits in
@[simp] theorem priority_setPriority (value : Byte) :
    setPriority proc value mem (proc + priority) = value :=
  store8_apply_self ..

theorem readProcess_set_pageDir (value : Word) :
    readProcess (set proc pageDir value mem) proc =
      { readProcess mem proc with pageDir := value } := by
  simp (disch := decide) only [readProcess, readContext, get_set_self, get_set_of_apart fits,
    readName_set fits, priority_set fits]

theorem readProcess_set_stackTop (value : Word) :
    readProcess (set proc stackTop value mem) proc =
      { readProcess mem proc with stackTop := value } := by
  simp (disch := decide) only [readProcess, readContext, get_set_self, get_set_of_apart fits,
    readName_set fits, priority_set fits]

end ProcessStruct

namespace ProcessMachine

/-- The process table that the machine holds. -/
def table (s : ProcessMachine) : ProcessTable where
  procs := readProcess s.mem
  processList := s.processList
  currentProcess := s.currentProcess
  nextPid := s.nextPid

section Entered

variable {proc : Word} {nameBytes : Bytes} {prio : Byte} {s : ProcessMachine} {mem : Mem}
  (fits : proc.toNat + 148 ≤ 2 ^ 32)
include fits

/-- The process before its requests for a directory and a stack. -/
theorem readProcess_enterProcess (fitsCurrent : s.currentProcess.toNat + 148 ≤ 2 ^ 32)
    (apart : Apart proc 148 s.currentProcess 148) :
    readProcess (enterProcess proc nameBytes prio s mem) proc =
      { Process.zeroed with
        pid := s.nextPid
        ppid := get mem s.currentProcess pid
        name := strncpy (fun _ => 0) 0 nameBytes (PROCESS_NAME_MAX - 1)
        state := .waiting
        priority := prio } := by
  have ppidKept : get (set proc pid s.nextPid (fill mem proc 0 sizeof)) s.currentProcess pid =
      get mem s.currentProcess pid := by
    refine load32_add_congr fitsCurrent (fun x inside => ?_) (by decide)
    have outside : ¬ Covers proc 148 x := fun covered => apart x covered inside
    rw [set_apply fits (by decide) _ outside]
    exact fill_apply_of_not_covers outside
  have cleared : readName (fill mem proc 0 sizeof) proc = fun _ => 0 :=
    congrArg Process.name (readProcess_fill fits)
  have copied : (fun index => if index < PROCESS_NAME_MAX - 1 then
      strncpy (fun _ => 0) 0 nameBytes (PROCESS_NAME_MAX - 1) index else 0) =
      strncpy (fun _ => 0) 0 nameBytes (PROCESS_NAME_MAX - 1) := by
    funext index
    split_ifs with inside
    · rfl
    · have outside : 0 + (PROCESS_NAME_MAX - 1) ≤ index := by omega
      rw [strncpy_of_outside (.inr outside)]
  simp (disch := decide) only [enterProcess, readProcess, readContext, get_setPriority fits,
    get_set_self, get_set_of_apart fits, get_setName fits, get_fill fits, ppidKept,
    readName_setPriority fits, readName_set fits, readName_setName fits, cleared, copied,
    priority_setPriority, ProcessState.ofCode_code]
  rfl

/-- The process with its registers. -/
theorem readProcess_enterContext (entryPoint list : Word) :
    readProcess (enterContext proc entryPoint list mem) proc =
      { readProcess mem proc with
        context := { (readProcess mem proc).context with
          esp := get mem proc stackTop + PROCESS_STACK_SIZE - 4
          eip := entryPoint
          eflags := 0x202
          cr3 := PageDirectory.physicalAddress (set proc eflags 0x202 (set proc eip entryPoint
            (set proc esp (get mem proc stackTop + PROCESS_STACK_SIZE - 4) mem)))
            (get mem proc pageDir) }
        next := list } := by
  simp (disch := decide) only [enterContext, readProcess, readContext, get_set_self,
    get_set_of_apart fits, readName_set fits, priority_set fits]

end Entered

section Answered

variable {A : Allocator} {blocks : List Extent} {proc : Word} {nameBytes : Bytes} {prio : Byte}
  {s : ProcessMachine} (allocated : A.Allocated blocks s.mem)
include allocated

/-- The new process structure, in a block of its own. -/
theorem allocProcess_spec (current : ⟨s.currentProcess, 148⟩ ∈ blocks) {s₁ : ProcessMachine}
    (call : allocProcess A.alloc nameBytes prio s = .ok (proc, s₁)) (nonnull : proc ≠ 0) :
    A.Allocated (⟨proc, 148⟩ :: blocks) s₁.mem ∧
    (∀ b ∈ blocks, Extent.Apart ⟨proc, 148⟩ b) ∧ (∀ b ∈ blocks, b.SameOn s.mem s₁.mem) ∧
    readProcess s₁.mem proc =
      { Process.zeroed with
        pid := s.nextPid
        ppid := (s.table.procs s.currentProcess).pid
        name := strncpy (fun _ => 0) 0 nameBytes (PROCESS_NAME_MAX - 1)
        state := .waiting
        priority := prio } := by
  obtain ⟨mem₁, answer, rfl⟩ := allocProcess_eq_ok.mp call
  obtain ⟨fits, apart⟩ := A.apart_fresh allocated (by decide) answer nonnull
  have grown := A.fresh allocated (by decide) answer nonnull
  have kept := A.keeps allocated answer
  have frame : ∀ x, ¬ Covers proc 148 x →
      enterProcess proc nameBytes prio s mem₁ x = mem₁ x :=
    fun x outside => enterProcess_apply fits outside
  refine ⟨A.stable_of_mem grown List.mem_cons_self frame, apart,
    fun b member => (kept b member).trans ((apart b member).sameOn frame), ?_⟩
  have fitsCurrent := A.fits allocated _ current
  have ppidKept : get mem₁ s.currentProcess pid = get s.mem s.currentProcess pid :=
    load32_add_congr fitsCurrent (kept _ current) (show pid.toNat + 4 ≤ 148 by decide)
  exact (readProcess_enterProcess fits fitsCurrent (apart _ current)).trans (by rw [ppidKept]; rfl)

/-- The new directory, in a block of its own. -/
theorem allocDirectory_spec (never : A.NeverNull) (member : ⟨proc, 148⟩ ∈ blocks)
    {s₂ : ProcessMachine} (call : allocDirectory A.alloc proc s = .ok s₂) :
    ∃ dir, A.Allocated (⟨dir, 8196⟩ :: blocks) s₂.mem ∧
      (∀ b ∈ blocks, b ≠ ⟨proc, 148⟩ → b.SameOn s.mem s₂.mem) ∧
      PageDirectory.physicalAddress s₂.mem dir = dir ∧
      readProcess s₂.mem proc = { readProcess s.mem proc with pageDir := dir } := by
  obtain ⟨dir, mem₂, answer, rfl⟩ := allocDirectory_eq_ok.mp call
  have nonnull := never _ _ _ _ answer
  obtain ⟨fits, apart⟩ := A.apart_fresh allocated (by decide) answer nonnull
  have fitsProc := A.fits allocated _ member
  have frame : ∀ x, ¬ Covers dir 8196 x → PageDirectory.create dir mem₂ x = mem₂ x :=
    fun x outside => PageDirectory.create_apply fits mem₂ outside
  have made := A.stable_of_mem (A.fresh allocated (by decide) answer nonnull)
    List.mem_cons_self frame
  have later : (⟨proc, 148⟩ : Extent) ∈ (⟨dir, 8196⟩ :: blocks) := List.mem_cons_of_mem _ member
  have entered : ∀ x, ¬ Covers proc 148 x →
      set proc pageDir dir (PageDirectory.create dir mem₂) x = PageDirectory.create dir mem₂ x :=
    fun x outside => set_apply fitsProc (by decide) dir outside
  have kept : ∀ b ∈ blocks, b.SameOn s.mem (PageDirectory.create dir mem₂) :=
    fun b old => (A.keeps allocated answer b old).trans ((apart b old).sameOn frame)
  refine ⟨dir, A.stable_of_mem made later entered, fun b old other => ?_, ?_, ?_⟩
  · exact (kept b old).trans ((A.sameOn_of_ne made later (List.mem_cons_of_mem _ old) other.symm
      entered))
  · have same := (apart _ member).symm.sameOn entered
    exact (PageDirectory.fields_congr fits same).1.trans (PageDirectory.physicalAddress_create mem₂)
  · exact (readProcess_set_pageDir fitsProc dir).trans
      (by rw [readProcess_congr fitsProc (kept _ member)])

/-- The new stack, in a block of its own. -/
theorem allocStack_spec (never : A.NeverNull) (member : ⟨proc, 148⟩ ∈ blocks)
    {s₃ : ProcessMachine} (call : allocStack A.alloc proc s = .ok s₃) :
    ∃ stack, A.Allocated (⟨stack, PROCESS_STACK_SIZE.toNat⟩ :: blocks) s₃.mem ∧
      (∀ b ∈ blocks, b ≠ ⟨proc, 148⟩ → b.SameOn s.mem s₃.mem) ∧
      readProcess s₃.mem proc = { readProcess s.mem proc with stackTop := stack } := by
  obtain ⟨stack, mem₃, answer, rfl⟩ := allocStack_eq_ok.mp call
  have nonnull := never _ _ _ _ answer
  obtain ⟨fits, apart⟩ := A.apart_fresh allocated (by decide) answer nonnull
  have fitsProc := A.fits allocated _ member
  have held := A.holds allocated answer
  have entered : ∀ x, ¬ Covers proc 148 x → set proc stackTop stack mem₃ x = mem₃ x :=
    fun x outside => set_apply fitsProc (by decide) stack outside
  have cleared : ∀ x, ¬ Covers stack PROCESS_STACK_SIZE.toNat x →
      enterStack proc stack mem₃ x = set proc stackTop stack mem₃ x := by
    intro x outside
    rw [enterStack_eq]
    exact fill_apply_of_not_covers outside
  have old := A.keeps allocated answer
  refine ⟨stack, ?_, fun b listed other => ?_, ?_⟩
  · have grown := A.fresh allocated (by decide) answer nonnull
    exact A.stable_of_mem (A.stable_of_mem grown (List.mem_cons_of_mem _ member) entered)
      List.mem_cons_self cleared
  · exact ((old b listed).trans (A.sameOn_of_ne held member listed other.symm entered)).trans
      ((apart b listed).sameOn cleared)
  · refine (readProcess_congr fitsProc ((apart _ member).sameOn cleared)).trans ?_
    exact (readProcess_set_stackTop fitsProc stack).trans
      (by rw [readProcess_congr fitsProc (old _ member)])

/-- Three answered requests leave the process structure, the directory and the stack in blocks of
their own, and nothing else has changed. -/
theorem requests_spec (never : A.NeverNull) (current : ⟨s.currentProcess, 148⟩ ∈ blocks)
    {s₁ s₂ s₃ : ProcessMachine} (first : allocProcess A.alloc nameBytes prio s = .ok (proc, s₁))
    (nonnull : proc ≠ 0) (second : allocDirectory A.alloc proc s₁ = .ok s₂)
    (third : allocStack A.alloc proc s₂ = .ok s₃) :
    ∃ dir stack : Word,
      A.Allocated (⟨stack, PROCESS_STACK_SIZE.toNat⟩ :: ⟨dir, 8196⟩ :: ⟨proc, 148⟩ :: blocks)
        s₃.mem ∧
      (∀ b ∈ blocks, Extent.Apart ⟨proc, 148⟩ b ∧ b.SameOn s.mem s₃.mem) ∧
      PageDirectory.physicalAddress s₃.mem dir = dir ∧
      readProcess s₃.mem proc =
        { Process.zeroed with
          pid := s.nextPid
          ppid := (s.table.procs s.currentProcess).pid
          name := strncpy (fun _ => 0) 0 nameBytes (PROCESS_NAME_MAX - 1)
          state := .waiting
          priority := prio
          pageDir := dir
          stackTop := stack } := by
  obtain ⟨allocated₁, apart, kept₁, entered⟩ := allocProcess_spec allocated current first nonnull
  have member : (⟨proc, 148⟩ : Extent) ∈ (⟨proc, 148⟩ :: blocks) := List.mem_cons_self
  obtain ⟨dir, allocated₂, kept₂, physical, directed⟩ :=
    allocDirectory_spec allocated₁ never member second
  obtain ⟨stack, allocated₃, kept₃, stacked⟩ :=
    allocStack_spec allocated₂ never (List.mem_cons_of_mem _ member) third
  refine ⟨dir, stack, allocated₃, fun b old => ⟨apart b old, ?_⟩, ?_, ?_⟩
  · -- a block that is held before is not the one of the process
    have here : Covers proc 148 proc := ⟨Nat.le_refl _, Nat.lt_add_of_pos_right (by decide)⟩
    have distinct : b ≠ ⟨proc, 148⟩ := by
      rintro rfl
      exact apart _ old proc here here
    have old₁ : b ∈ (⟨proc, 148⟩ :: blocks) := List.mem_cons_of_mem _ old
    exact ((kept₁ b old).trans (kept₂ b old₁ distinct)).trans
      (kept₃ b (List.mem_cons_of_mem _ old₁) distinct)
  · have distinct : (⟨dir, 8196⟩ : Extent) ≠ ⟨proc, 148⟩ := fun same =>
      absurd (congrArg Extent.length same) (show (8196 : ℕ) ≠ 148 by decide)
    have fitsDir : dir.toNat + 8196 ≤ 2 ^ 32 := A.fits allocated₂ _ List.mem_cons_self
    have same := kept₃ ⟨dir, 8196⟩ List.mem_cons_self distinct
    exact (PageDirectory.fields_congr fitsDir same).1.trans physical
  · rw [stacked, directed, entered]

/-- The process with its registers, where the directory is known by its own address. -/
theorem readProcess_registered (member : ⟨proc, 148⟩ ∈ blocks) {dir stack : Word}
    (held : ⟨dir, 8196⟩ ∈ blocks) (physical : PageDirectory.physicalAddress s.mem dir = dir)
    (directory : get s.mem proc pageDir = dir) (top : get s.mem proc stackTop = stack)
    (entryPoint list : Word) :
    readProcess (enterContext proc entryPoint list s.mem) proc =
      { readProcess s.mem proc with
        context := { (readProcess s.mem proc).context with
          esp := stack + PROCESS_STACK_SIZE - 4
          eip := entryPoint
          eflags := 0x202
          cr3 := dir }
        next := list } := by
  have fits : proc.toNat + 148 ≤ 2 ^ 32 := A.fits allocated _ member
  have distinct : (⟨proc, 148⟩ : Extent) ≠ ⟨dir, 8196⟩ := fun same =>
    absurd (congrArg Extent.length same) (show (148 : ℕ) ≠ 8196 by decide)
  have frame : ∀ x, ¬ Covers proc 148 x → set proc eflags 0x202 (set proc eip entryPoint
      (set proc esp (stack + PROCESS_STACK_SIZE - 4) s.mem)) x = s.mem x := by
    intro x outside
    rw [set_apply fits (by decide) _ outside, set_apply fits (by decide) _ outside,
      set_apply fits (by decide) _ outside]
  have same := A.sameOn_of_ne allocated member held distinct frame
  have address := (PageDirectory.fields_congr (A.fits allocated _ held) same).1.trans physical
  rw [readProcess_enterContext fits, top, directory, address]

/-- **`process_create` in memory is `processCreate` of the table**, where every request is
answered: on the new process and on all that have blocks of their own, the current one among
them. -/
theorem table_processCreate (never : A.NeverNull) (current : ⟨s.currentProcess, 148⟩ ∈ blocks)
    {entryPoint newPid : Word} {s' : ProcessMachine}
    (call : processCreate A.alloc entryPoint nameBytes prio s = .ok (newPid, s')) :
    ∃ answers : CreateAnswers, ∃ table', answers.proc ≠ 0 ∧
      ProcessManager.processCreate answers entryPoint nameBytes prio s.table = (newPid, table') ∧
      s'.table.processList = table'.processList ∧
      s'.table.currentProcess = table'.currentProcess ∧ s'.table.nextPid = table'.nextPid ∧
      (∀ proc, proc = answers.proc ∨ ⟨proc, 148⟩ ∈ blocks →
        s'.table.procs proc = table'.procs proc) ∧
      ∃ more, A.Allocated (more ++ ⟨answers.proc, 148⟩ :: blocks) s'.mem := by
  obtain ⟨proc, s₁, s₂, s₃, first, second, third, rfl, rfl⟩ := processCreate_eq_ok.mp call
  obtain ⟨mem₁, answer, made⟩ := allocProcess_eq_ok.mp first
  have nonnull := never _ _ _ _ answer
  obtain ⟨dir, stack, held, kept, physical, fields⟩ :=
    requests_spec allocated never current first nonnull second third
  have member : (⟨proc, 148⟩ : Extent) ∈
      (⟨stack, PROCESS_STACK_SIZE.toNat⟩ : Extent) :: ⟨dir, 8196⟩ :: ⟨proc, 148⟩ :: blocks := by
    simp
  have fits : proc.toNat + 148 ≤ 2 ^ 32 := A.fits held _ member
  have statics : s₃.processList = s.processList ∧ s₃.currentProcess = s.currentProcess ∧
      s₃.nextPid = s.nextPid + 1 := by
    obtain ⟨list₃, current₃, pid₃⟩ := allocStack_statics third
    obtain ⟨list₂, current₂, pid₂⟩ := allocDirectory_statics second
    rw [list₃, list₂, current₃, current₂, pid₃, pid₂, made]
    exact ⟨rfl, rfl, rfl⟩
  have last : ∀ x, ¬ Covers proc 148 x →
      enterContext proc entryPoint s₃.processList s₃.mem x = s₃.mem x :=
    fun x outside => enterContext_apply fits outside entryPoint s₃.processList
  have new : readProcess (enterContext proc entryPoint s₃.processList s₃.mem) proc =
      newProcess ⟨proc, dir, dir, stack⟩ entryPoint nameBytes prio s.table := by
    rw [readProcess_registered held member (List.mem_cons_of_mem _ List.mem_cons_self) physical
      (congrArg Process.pageDir fields) (congrArg Process.stackTop fields), fields, statics.1]
    rfl
  refine ⟨⟨proc, dir, dir, stack⟩,
    (ProcessManager.processCreate ⟨proc, dir, dir, stack⟩ entryPoint nameBytes prio s.table).2,
    nonnull, ?_, rfl, statics.2.1, statics.2.2, fun other listed => ?_, [_, _],
    A.stable_of_mem held member last⟩
  · rw [show get _ proc pid = s.nextPid from congrArg Process.pid new]
    rfl
  · change readProcess (enterContext proc entryPoint s₃.processList s₃.mem) other =
      Function.update s.table.procs proc _ other
    by_cases same : other = proc
    · rw [same, Function.update_self, new]
    · have old : (⟨other, 148⟩ : Extent) ∈ blocks := listed.resolve_left same
      obtain ⟨apart, before⟩ := kept _ old
      rw [Function.update_of_ne same,
        readProcess_congr (A.fits allocated _ old) (before.trans (apart.sameOn last))]
      rfl

end Answered

end ProcessMachine

end CocosOS.ProcessManager
