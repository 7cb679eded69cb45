import CocosOS.ProcessManager.Creation

/-!
# The creation of a process without memory

`process_create` does not look at what its requests for memory are answered with. On a heap in
order every call returns (`processCreate_returns`), also where answers are `NULL`: then the process
is entered at address zero, or the bytes there are cleared for its directory or its stack
(`Refused.storesAtNull`). The next pid is taken, the list gets a new head, and no block is given
back, so that no creation fails cleanly (`creation_unclean`).
-/

set_option autoImplicit false

namespace CocosOS.ProcessManager

open Library.ByteMemory Library.CString Kernel.Memory ProcessStruct

namespace ProcessMachine

variable {alloc : MemoryAlloc} {proc x : Word} {nameBytes : Bytes} {prio : Byte}
  {s : ProcessMachine} {mem : Mem}

/-! ## Every call returns -/

section Returns

variable {start size : Word} {blocks : List Extent}

theorem allocProcess_returns (holds : HeapHolds start size blocks s.mem)
    (high : 0x40000 ≤ start.toNat) (nameBytes : Bytes) (prio : Byte) :
    ∃ proc s₁, allocProcess (memoryAlloc ⟨start, start + size⟩) nameBytes prio s = .ok (proc, s₁) ∧
      HeapHolds start size (answered proc 148 ++ blocks) s₁.mem := by
  obtain ⟨proc, mem₁, answer⟩ := holds.answers sizeof
  have grown := holds.request (by decide) answer
  have fits := grown.fits_answered (by decide) (List.subset_append_left ..)
  exact ⟨proc, _, allocProcess_eq_ok.mpr ⟨mem₁, answer, rfl⟩,
    grown.store (Nat.le_trans (by decide) high) (List.subset_append_left ..)
      fun x outside => enterProcess_apply fits outside⟩

theorem allocDirectory_returns (holds : HeapHolds start size blocks s.mem)
    (high : 0x40000 ≤ start.toNat) (part : answered proc 148 ⊆ blocks) :
    ∃ s₂, allocDirectory (memoryAlloc ⟨start, start + size⟩) proc s = .ok s₂ ∧
      HeapHolds start size blocks s₂.mem := by
  obtain ⟨dir, mem₂, answer⟩ := holds.answers PageDirectory.sizeof
  have grown := holds.request (by decide) answer
  have fits := grown.fits_answered (by decide) (List.subset_append_left ..)
  have made := grown.store (Nat.le_trans (by decide) high) (List.subset_append_left ..)
    fun x outside => PageDirectory.create_apply fits mem₂ outside
  have fits' := holds.fits_answered (by decide) part
  have entered := made.store (Nat.le_trans (by decide) high)
    (List.subset_append_of_subset_right _ part)
    fun x outside => set_apply fits' (by decide : pageDir.toNat + 4 ≤ 148) dir outside
  exact ⟨_, allocDirectory_eq_ok.mpr ⟨dir, mem₂, answer, rfl⟩, entered.mono_append⟩

theorem allocStack_returns (holds : HeapHolds start size blocks s.mem)
    (high : 0x40000 ≤ start.toNat) (part : answered proc 148 ⊆ blocks) :
    ∃ s₃, allocStack (memoryAlloc ⟨start, start + size⟩) proc s = .ok s₃ ∧
      HeapHolds start size blocks s₃.mem := by
  obtain ⟨stack, mem₃, answer⟩ := holds.answers PROCESS_STACK_SIZE
  have grown := holds.request (by decide) answer
  have fits := holds.fits_answered (by decide) part
  have entered := grown.store (Nat.le_trans (by decide) high)
    (List.subset_append_of_subset_right _ part)
    fun x outside => set_apply fits (by decide : stackTop.toNat + 4 ≤ 148) stack outside
  have clears : ∀ x, ¬ Covers stack PROCESS_STACK_SIZE.toNat x →
      fill (set proc stackTop stack mem₃) stack 0 PROCESS_STACK_SIZE x =
        set proc stackTop stack mem₃ x := fun x outside => fill_apply_of_not_covers outside
  have cleared := entered.store high (List.subset_append_left ..) clears
  exact ⟨_, allocStack_eq_ok.mpr ⟨stack, mem₃, answer, rfl⟩,
    enterStack_eq proc stack mem₃ ▸ cleared.mono_append⟩

/-- **Every call of `process_create` returns**, and leaves a heap that is in order. -/
theorem processCreate_returns (holds : HeapHolds start size blocks s.mem)
    (high : 0x40000 ≤ start.toNat) (entryPoint : Word) (nameBytes : Bytes) (prio : Byte) :
    ∃ newPid s', processCreate (memoryAlloc ⟨start, start + size⟩) entryPoint nameBytes prio s =
      .ok (newPid, s') ∧ HeapHolds start size blocks s'.mem := by
  obtain ⟨proc, s₁, first, holds₁⟩ := allocProcess_returns holds high nameBytes prio
  have part : answered proc 148 ⊆ answered proc 148 ++ blocks := List.subset_append_left ..
  obtain ⟨s₂, second, holds₂⟩ := allocDirectory_returns holds₁ high part
  obtain ⟨s₃, third, holds₃⟩ := allocStack_returns holds₂ high part
  have fits := holds₃.fits_answered (by decide) part
  refine ⟨_, _, processCreate_eq_ok.mpr ⟨proc, s₁, s₂, s₃, first, second, third, rfl, rfl⟩, ?_⟩
  exact (holds₃.store (Nat.le_trans (by decide) high) part
    fun x outside => enterContext_apply fits outside entryPoint s₃.processList).mono_append

/-- `process_init` leaves a heap that is in order. -/
theorem processInit_holds (holds : HeapHolds start size blocks s.mem)
    (high : 0x40000 ≤ start.toNat) {s' : ProcessMachine}
    (call : processInit (memoryAlloc ⟨start, start + size⟩) s = .ok s') :
    HeapHolds start size blocks s'.mem := by
  obtain ⟨⟨idle, machine⟩, first, rest⟩ := bind_eq_ok.mp call
  obtain ⟨mem₁, answer, rfl⟩ := callAlloc_eq_ok.mp first
  obtain ⟨s₂, second, last⟩ := bind_eq_ok.mp rest
  obtain rfl := Except.ok.inj last
  have part : answered idle 148 ⊆ answered idle 148 ++ blocks := List.subset_append_left ..
  have grown := holds.request (by decide) answer
  have fits := grown.fits_answered (by decide) part
  have entered : HeapHolds start size (answered idle 148 ++ blocks)
      (s.withMem (enterIdle idle mem₁)).mem :=
    grown.store (Nat.le_trans (by decide) high) part fun x outside => enterIdle_apply fits outside
  obtain ⟨s₃, made, holds'⟩ := allocDirectory_returns entered high part
  obtain rfl := Except.ok.inj (made.symm.trans second)
  exact holds'.mono_append

end Returns

/-! ## When a request is refused -/

/-- One of the three requests of `process_create` is answered with `NULL`. -/
inductive Refused (alloc : MemoryAlloc) (nameBytes : Bytes) (prio : Byte) (s : ProcessMachine) :
    Prop
  | process {mem₁ : Mem} (null : alloc sizeof s.mem = some (0, mem₁))
  | directory {proc : Word} {s₁ : ProcessMachine} {mem₂ : Mem}
      (first : allocProcess alloc nameBytes prio s = .ok (proc, s₁))
      (null : alloc PageDirectory.sizeof s₁.mem = some (0, mem₂))
  | stack {proc : Word} {s₁ s₂ : ProcessMachine} {mem₃ : Mem}
      (first : allocProcess alloc nameBytes prio s = .ok (proc, s₁))
      (second : allocDirectory alloc proc s₁ = .ok s₂)
      (null : alloc PROCESS_STACK_SIZE s₂.mem = some (0, mem₃))

/-- The process structure is entered at address zero, or the bytes there are cleared for a
directory or for a stack. -/
def StoresAtNull (alloc : MemoryAlloc) (nameBytes : Bytes) (prio : Byte) (s : ProcessMachine) :
    Prop :=
  (∃ s₁, allocProcess alloc nameBytes prio s = .ok (0, s₁) ∧ get s₁.mem 0 pid = s.nextPid) ∨
  (∃ proc s₁ s₂, allocProcess alloc nameBytes prio s = .ok (proc, s₁) ∧
    allocDirectory alloc proc s₁ = .ok s₂ ∧ ∀ x : Word, x.toNat < 8196 → s₂.mem x = 0) ∨
  (∃ proc s₁ s₂ s₃, allocProcess alloc nameBytes prio s = .ok (proc, s₁) ∧
    allocDirectory alloc proc s₁ = .ok s₂ ∧ allocStack alloc proc s₂ = .ok s₃ ∧
    ∀ x : Word, x.toNat < 0x40000 → s₃.mem x = 0)

/-- What is asked of a call that finds no memory, with the processes that were created before it:
it changes neither the static variables, nor a process, nor a byte below the heap, and leaves no
block allocated. -/
structure FailsCleanly (bounds : HeapBounds) (created : List Word) (s s' : ProcessMachine) :
    Prop where
  processList : s'.processList = s.processList
  nextPid : s'.nextPid = s.nextPid
  processes : ∀ proc ∈ created, SameOn proc 148 s.mem s'.mem
  below : ∀ x : Word, x.toNat < bounds.heapStart.toNat → s'.mem x = s.mem x
  released : heapBlocks bounds s'.mem = heapBlocks bounds s.mem

/-- **A request that is refused is not noticed**: its memory is taken to be at address zero. -/
theorem Refused.storesAtNull (refused : Refused alloc nameBytes prio s) :
    StoresAtNull alloc nameBytes prio s := by
  cases refused with
  | @process mem₁ null =>
      exact .inl ⟨_, allocProcess_eq_ok.mpr ⟨mem₁, null, rfl⟩, get_pid_enterProcess (by decide)⟩
  | @directory proc s₁ mem₂ first null =>
      refine .inr (.inl ⟨proc, s₁, _, first, allocDirectory_eq_ok.mpr ⟨0, mem₂, null, rfl⟩, ?_⟩)
      intro x low
      have inside : Covers 0 PageDirectory.sizeof.toNat x :=
        ⟨Nat.zero_le _, Nat.lt_of_lt_of_eq low (Nat.zero_add _).symm⟩
      exact set_zero_apply (set_zero_apply (fill_apply_of_covers inside))
  | @stack proc s₁ s₂ mem₃ first second null =>
      refine .inr (.inr ⟨proc, s₁, s₂, _, first, second,
        allocStack_eq_ok.mpr ⟨0, mem₃, null, rfl⟩, fun x low => ?_⟩)
      have inside : Covers 0 PROCESS_STACK_SIZE.toNat x :=
        ⟨Nat.zero_le _, Nat.lt_of_lt_of_eq low (Nat.zero_add _).symm⟩
      change enterStack proc 0 mem₃ x = 0
      rw [enterStack_eq]
      exact fill_apply_of_covers inside

theorem not_failsCleanly {entryPoint newPid : Word} {s' : ProcessMachine}
    (call : processCreate alloc entryPoint nameBytes prio s = .ok (newPid, s'))
    (bounds : HeapBounds) (created : List Word) : ¬ FailsCleanly bounds created s s' := by
  intro clean
  have taken := (processCreate_statics call).1
  rw [clean.nextPid] at taken
  bv_omega

/-- Any calls of `process_create` after `process_init`, with requests of others to the heap between
them. -/
inductive CreationRun (start size : Word) : ProcessMachine → Prop
  | init {s₀ s : ProcessMachine} (mem : Mem) (heap : s₀.mem = (memoryInit start size mem).2)
      (first : s₀.nextPid = 1) (call : processInit (memoryAlloc ⟨start, start + size⟩) s₀ = .ok s) :
      CreationRun start size s
  | create {s s' : ProcessMachine} {entryPoint newPid : Word} {nameBytes : Bytes} {prio : Byte}
      (run : CreationRun start size s)
      (call : processCreate (memoryAlloc ⟨start, start + size⟩) entryPoint nameBytes prio s =
        .ok (newPid, s')) : CreationRun start size s'
  | alloc {s : ProcessMachine} {n p : Word} {mem' : Mem} (run : CreationRun start size s)
      (call : memoryAlloc ⟨start, start + size⟩ n s.mem = some (p, mem')) :
      CreationRun start size (s.withMem mem')

/-- **The heap is in order along every run**, be the creations answered or not. -/
theorem CreationRun.holds {start size : Word} (room : 12 < size.toNat)
    (fits : start.toNat + size.toNat < 2 ^ 32) (high : 0x40000 ≤ start.toNat)
    {s : ProcessMachine} (run : CreationRun start size s) : HeapHolds start size [] s.mem := by
  induction run with
  | init mem heap _ call =>
      have fresh := heapHolds_memoryInit (Nat.le_trans (by decide) high) room fits mem
      rw [← heap] at fresh
      exact processInit_holds fresh high call
  | create _ call ih =>
      obtain ⟨_, _, returned, kept⟩ := processCreate_returns ih high _ _ _
      obtain ⟨rfl, rfl⟩ := Prod.mk.inj (Except.ok.inj (returned.symm.trans call))
      exact kept
  | alloc _ call ih => exact ih.alloc call

/-- **A creation that finds no memory never fails cleanly.** Whichever request is refused,
`process_create` enters the process at address zero or clears the bytes there. On a heap in order
above those bytes it returns, with the next pid taken, and with the answer of the first request,
which may be `NULL`, as the process list. -/
theorem creation_unclean (start size entryPoint : Word) {nameBytes : Bytes} {prio : Byte}
    {s : ProcessMachine} (refused : Refused (memoryAlloc ⟨start, start + size⟩) nameBytes prio s) :
    StoresAtNull (memoryAlloc ⟨start, start + size⟩) nameBytes prio s ∧
    (HeapHolds start size [] s.mem → 0x40000 ≤ start.toNat → ∃ newPid s' mem₁,
      processCreate (memoryAlloc ⟨start, start + size⟩) entryPoint nameBytes prio s =
        .ok (newPid, s') ∧ s'.nextPid = s.nextPid + 1 ∧
      memoryAlloc ⟨start, start + size⟩ sizeof s.mem = some (s'.processList, mem₁)) ∧
    ∀ created, ¬ ∃ newPid s',
      processCreate (memoryAlloc ⟨start, start + size⟩) entryPoint nameBytes prio s =
        .ok (newPid, s') ∧ FailsCleanly ⟨start, start + size⟩ created s s' := by
  refine ⟨refused.storesAtNull, fun holds high => ?_, fun created ⟨newPid, s', call, clean⟩ => ?_⟩
  · obtain ⟨newPid, s', call, -⟩ := processCreate_returns holds high entryPoint nameBytes prio
    obtain ⟨taken, -, mem₁, head⟩ := processCreate_statics call
    exact ⟨newPid, s', mem₁, call, taken, head⟩
  · exact not_failsCleanly call _ created clean

/-- The machine before `process_init`, with a heap over memory of any contents. -/
def freshMachine (start size : Word) : ProcessMachine where
  mem := (memoryInit start size fun _ => 1).2
  frameBitmap := 0
  totalFrames := 0
  usedFrames := 0
  kernelDirectory := 0
  cr3 := 0
  cr0 := 0
  processList := 0
  currentProcess := 0
  nextPid := 1

theorem exists_ok_of_any {α : Type} {result : Except Stop α} {check : α → Bool}
    (seen : result.toOption.any check = true) : ∃ a, result = .ok a ∧ check a = true := by
  cases result with
  | error => exact absurd seen nofun
  | ok a => exact ⟨a, rfl, seen⟩

/-- A heap on which there is room for another process and its directory, but not for its stack. -/
theorem exists_noStack : ∃ s, CreationRun 0x100000 0x100000 s ∧
    Refused (memoryAlloc ⟨0x100000, 0x200000⟩) idleName 1 s := by
  have check : ((processInit (memoryAlloc ⟨0x100000, 0x200000⟩)
      (freshMachine 0x100000 0x100000)).toOption.any fun s =>
        (memoryAlloc ⟨0x100000, 0x200000⟩ 1030184 s.mem).any fun answer =>
          (allocProcess (memoryAlloc ⟨0x100000, 0x200000⟩) idleName 1
            (s.withMem answer.2)).toOption.any fun first =>
              (allocDirectory (memoryAlloc ⟨0x100000, 0x200000⟩) first.1
                first.2).toOption.any fun second =>
                  (memoryAlloc ⟨0x100000, 0x200000⟩ PROCESS_STACK_SIZE second.mem).any
                    fun third => third.1 = 0) = true := by
    decide +kernel
  obtain ⟨s, booted, found⟩ := exists_ok_of_any check
  obtain ⟨⟨p, mem'⟩, taken, found⟩ := (Option.any_eq_true _ _).mp found
  obtain ⟨⟨proc, s₁⟩, first, found⟩ := exists_ok_of_any found
  obtain ⟨s₂, second, found⟩ := exists_ok_of_any found
  obtain ⟨⟨stack, mem₃⟩, third, null⟩ := (Option.any_eq_true _ _).mp found
  obtain rfl : stack = 0 := of_decide_eq_true null
  exact ⟨s.withMem mem', .alloc (.init (fun _ => 1) rfl rfl booted) taken,
    .stack first second third⟩

/-- Where only the stack is refused, the pid is taken. -/
theorem creation_unclean_noStack : ∃ s, CreationRun 0x100000 0x100000 s ∧ ∃ newPid s',
    processCreate (memoryAlloc ⟨0x100000, 0x200000⟩) 0x400 idleName 1 s = .ok (newPid, s') ∧
    s'.nextPid = s.nextPid + 1 ∧ ¬ FailsCleanly ⟨0x100000, 0x200000⟩ [] s s' := by
  obtain ⟨s, run, refused⟩ := exists_noStack
  have holds := run.holds (by decide) (by decide) (by decide)
  obtain ⟨-, returns, unclean⟩ := creation_unclean 0x100000 0x100000 0x400 refused
  obtain ⟨newPid, s', _, call, taken, _⟩ := returns holds (by decide)
  exact ⟨s, run, newPid, s', call, taken, fun clean => unclean [] ⟨newPid, s', call, clean⟩⟩

/-- When the heap has no room for its stack, a process is created all the same. -/
theorem created_without_stack :
    ¬ ∀ s, CreationRun 0x100000 0x100000 s → ∀ (created : List Word) (entryPoint : Word)
      (nameBytes : Bytes) (prio : Byte),
      Refused (memoryAlloc ⟨0x100000, 0x200000⟩) nameBytes prio s →
      ∃ newPid s', processCreate (memoryAlloc ⟨0x100000, 0x200000⟩) entryPoint nameBytes prio s =
        .ok (newPid, s') ∧ FailsCleanly ⟨0x100000, 0x200000⟩ created s s' := by
  intro clean
  obtain ⟨s, run, refused⟩ := exists_noStack
  obtain ⟨newPid, s', call, cleanly⟩ := clean s run [] 0x400 idleName 1 refused
  exact not_failsCleanly call _ [] cleanly

end ProcessMachine

end CocosOS.ProcessManager
