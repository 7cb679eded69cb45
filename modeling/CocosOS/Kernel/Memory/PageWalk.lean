import CocosOS.Kernel.Memory.HeapAllocator
import CocosOS.Kernel.Memory.PagingInit

/-!
# The walk of the MMU

The MMU finds a page through the upper twenty bits of `CR3` and of the directory entry; the
kernel finds it through `tables_virtual` and never looks at those bits. `mmuWalk` is the walk of
the MMU. The two agree on a directory that is `Walkable`: it starts on a page boundary, and each
entry that is present has the address of its table in its upper twenty bits.

`Memory_alloc` does not align what it returns, so whether a new directory or table can be walked
depends on where the first free block that is long enough happens to lie (`Call.Aligned`). In a
run whose calls all find such a block on a page boundary the walks agree in every state
(`walks_agree`). The first directory on the heap of the kernel is off by twelve bytes, and there
they do not (`walks_disagree`).
-/

set_option autoImplicit false

namespace CocosOS.Kernel.Memory

open Library.ByteMemory Library.BlockList Library.SharedPool Library.WordArithmetic

/-! ## The two walks -/

/-- The upper twenty bits of `CR3` or of an entry, as an address. -/
def tableBase (entry : Word) : Word := entry &&& ~~~(0xFFF : Word)

/-- The walk of the MMU from `CR3`: the frame of a virtual address, if both entries are
present. -/
def mmuWalk (mem : Mem) (cr3 virt : Word) : Option Word :=
  let directoryEntry := load32 mem (tableBase cr3 + 4 * (virt >>> 22))
  if directoryEntry.getLsbD 0 then
    let tableEntry :=
      load32 mem (tableBase directoryEntry + 4 * ((virt >>> 12) &&& (0x3FF : Word)))
    if tableEntry.getLsbD 0 then some (tableEntry >>> 12) else none
  else none

/-- The functions of the kernel find what the MMU finds from the `physical_address` of the
directory. -/
def WalksAgree (s : Machine) (dir virt : Word) : Prop :=
  pagingIsPagePresent dir virt s =
      (mmuWalk s.mem (PageDirectory.physicalAddress s.mem dir) virt).isSome ∧
    pagingVirtualToPhysical dir virt s =
      match mmuWalk s.mem (PageDirectory.physicalAddress s.mem dir) virt with
      | none => 0
      | some frame => (frame <<< 12) ||| (virt &&& (0xFFF : Word))

/-- The MMU gets to the directory and to each of its tables. -/
structure Walkable (mem : Mem) (dir : Word) : Prop where
  physical : PageDirectory.physicalAddress mem dir = dir
  directory : tableBase dir = dir
  tables : ∀ index : Word, index.toNat < 1024 → PageDirectory.present mem dir index = true →
    tableBase (PageDirectory.entry mem dir index) = PageDirectory.table mem dir index

theorem tableBase_or_pagePresent (entry : Word) :
    tableBase (entry ||| pagePresent) = tableBase entry := by
  rw [tableBase, tableBase, BitVec.and_comm, BitVec.and_or_distrib_left, BitVec.and_comm entry]
  exact BitVec.or_zero

/-- The walk of the MMU in terms of the fields of directories and tables. -/
theorem mmuWalk_eq_backing (mem : Mem) (cr3 virt : Word) :
    mmuWalk mem cr3 virt =
      if PageDirectory.present mem (tableBase cr3) (pdIndex virt) then
        backing (PageTable.entry mem
          (tableBase (PageDirectory.entry mem (tableBase cr3) (pdIndex virt))) (ptIndex virt))
      else none := by
  rw [PageDirectory.present_eq, backing, PageTableEntry.present_iff, PageTableEntry.present_iff]
  rfl

namespace Walkable

variable {mem : Mem} {dir : Word} (walkable : Walkable mem dir)
include walkable

/-- **On a walkable directory the MMU and the kernel find the same.** -/
theorem mmuWalk_eq (virt : Word) :
    mmuWalk mem (PageDirectory.physicalAddress mem dir) virt = lookup mem dir virt := by
  rw [walkable.physical, mmuWalk_eq_backing, walkable.directory]
  cases present : PageDirectory.present mem dir (pdIndex virt) with
  | false => exact (lookup_of_absent present).symm
  | true => rw [if_pos rfl, lookup_of_present present, walkable.tables _ (pdIndex_lt virt) present]

theorem walksAgree {s : Machine} (here : s.mem = mem) (virt : Word) :
    WalksAgree s dir virt := by
  subst here
  rw [WalksAgree, walkable.mmuWalk_eq]
  exact ⟨pagingIsPagePresent_eq dir virt s, pagingVirtualToPhysical_eq dir virt s⟩

/-- A directory whose fields stay the same stays walkable. -/
theorem congr {mem' : Mem}
    (physical : PageDirectory.physicalAddress mem' dir = PageDirectory.physicalAddress mem dir)
    (fields : ∀ index : Word, index.toNat < 1024 →
      PageDirectory.entry mem' dir index = PageDirectory.entry mem dir index ∧
      PageDirectory.table mem' dir index = PageDirectory.table mem dir index) :
    Walkable mem' dir := by
  refine ⟨physical.trans walkable.physical, walkable.directory, fun index small present => ?_⟩
  obtain ⟨entry, table⟩ := fields index small
  rw [PageDirectory.present_eq, entry, ← PageDirectory.present_eq] at present
  rw [entry, table]
  exact walkable.tables index small present

end Walkable

theorem SameDirectories.walkable {dirs : List Word} {mem mem' : Mem}
    (same : SameDirectories dirs mem mem') (walkable : ∀ dir ∈ dirs, Walkable mem dir) :
    ∀ dir ∈ dirs, Walkable mem' dir := by
  intro dir member
  obtain ⟨physical, fields⟩ := same dir member
  exact (walkable dir member).congr physical fields

/-- A new table keeps the directories walkable if it is entered under its own address. -/
theorem TableAdded.walkable {A : Allocator} {s : Machine} {dirs : List Word}
    {dir index value table : Word} {mem' : Mem}
    (added : TableAdded s dirs dir index value table mem') (sep : Separated A s dirs)
    (walkable : ∀ dir ∈ dirs, Walkable s.mem dir) (boundary : tableBase value = table) :
    ∀ dir ∈ dirs, Walkable mem' dir := by
  intro dir' member
  by_cases other : dir' = dir
  · subst other
    obtain ⟨physical, directory, tables⟩ := walkable dir' member
    refine ⟨added.physical.trans physical, directory, fun index' small present => ?_⟩
    by_cases same : index' = index
    · rw [same, added.entry_eq, added.table_eq]
      exact boundary
    · obtain ⟨entry, table'⟩ := added.rest index' small same
      rw [PageDirectory.present_eq, entry, ← PageDirectory.present_eq] at present
      rw [entry, table']
      exact tables index' small present
  · obtain ⟨physical, fields⟩ := added.fields_of_ne sep member other
    exact (walkable dir' member).congr physical fields

/-! ## Runs -/

/-- A call of a run. `paging_init` sets up its bitmap in `initFrames` and then makes calls of
the other kinds; `assign` stands for what it and `paging_switch_directory` do to variables and
registers that no walk reads. -/
inductive Call where
  | alloc (n : Word)
  | initFrames (totalMemory : Word)
  | create
  | map (dir virt flags : Word)
  | unmap (dir virt : Word)
  | assign (kernelDirectory cr3 cr0 : Word)

namespace Call

/-- The machine and the directories after a call. -/
def perform (alloc : MemoryAlloc) (s : Machine) (dirs : List Word) :
    Call → Except Stop (Machine × List Word)
  | .alloc n => do
    let (_, s) ← callAlloc alloc n s
    pure (s, dirs)
  | .initFrames totalMemory => do
    let s ← Memory.initFrames alloc totalMemory s
    pure (s, dirs)
  | .create => do
    let (dir, s) ← pagingCreateDirectory alloc s
    pure (s, dir :: dirs)
  | .map dir virt flags => do
    let (_, s) ← pagingMapPage alloc dir virt flags s
    pure (s, dirs)
  | .unmap dir virt => pure (pagingUnmapPage dir virt s, dirs)
  | .assign kernelDirectory cr3 cr0 =>
    pure ({ s with kernelDirectory := kernelDirectory, cr3 := cr3, cr0 := cr0 }, dirs)

/-- What callers keep to: there is one bitmap, and pages are mapped in directories. -/
def Proper (s : Machine) (dirs : List Word) : Call → Prop
  | .initFrames _ => s.totalFrames = 0
  | .map dir _ _ | .unmap dir _ => dir ∈ dirs
  | .alloc _ | .create | .assign _ _ _ => True

instance (s : Machine) (dirs : List Word) : (call : Call) → Decidable (call.Proper s dirs)
  | .initFrames _ => decEq s.totalFrames 0
  | .map dir _ _ | .unmap dir _ => decidable_of_iff (dirs.elem dir = true) List.elem_iff
  | .alloc _ | .create | .assign _ _ _ => .isTrue trivial

end Call

/-- The runs from `Memory_init` on whose calls are allowed in the states they are made in, with
the directories there are. -/
inductive WalkRun (start size : Word) (Allowed : Machine → Call → Prop) :
    Machine → List Word → Prop
  | init {s : Machine} (mem : Mem) (heap : s.mem = (memoryInit start size mem).2)
      (totalFrames : s.totalFrames = 0) (usedFrames : s.usedFrames = 0) :
      WalkRun start size Allowed s []
  | step {s s' : Machine} {dirs dirs' : List Word} (run : WalkRun start size Allowed s dirs)
      (call : Call) (proper : call.Proper s dirs) (allowed : Allowed s call)
      (step : call.perform (memoryAlloc ⟨start, start + size⟩) s dirs = .ok (s', dirs')) :
      WalkRun start size Allowed s' dirs'

/-- Make the calls of a list in order, as long as they are proper and allowed. -/
def runCalls (alloc : MemoryAlloc) (Allowed : Machine → Call → Prop)
    [∀ s call, Decidable (Allowed s call)] :
    List Call → Machine → List Word → Option (Machine × List Word)
  | [], s, dirs => some (s, dirs)
  | call :: calls, s, dirs =>
    if call.Proper s dirs ∧ Allowed s call then
      match call.perform alloc s dirs with
      | .ok (s, dirs) => runCalls alloc Allowed calls s dirs
      | .error _ => none
    else none

/-- What the calls of a list lead to is a state of a run. -/
theorem WalkRun.runCalls {start size : Word} {Allowed : Machine → Call → Prop}
    [∀ s call, Decidable (Allowed s call)] (calls : List Call) :
    ∀ {s s' : Machine} {dirs dirs' : List Word}, WalkRun start size Allowed s dirs →
    runCalls (memoryAlloc ⟨start, start + size⟩) Allowed calls s dirs = some (s', dirs') →
    WalkRun start size Allowed s' dirs' := by
  induction calls with
  | nil =>
      intro s s' dirs dirs' run ran
      obtain ⟨rfl, rfl⟩ := Prod.mk.inj (Option.some.inj ran)
      exact run
  | cons call calls ih =>
      intro s s' dirs dirs' run ran
      rw [Memory.runCalls] at ran
      split at ran
      · rename_i both
        cases step : call.perform (memoryAlloc ⟨start, start + size⟩) s dirs with
        | error stop =>
            rw [step] at ran
            contradiction
        | ok pair =>
            rw [step] at ran
            exact ih (run.step call both.1 both.2 step) ran
      · contradiction

section Init

variable {start size : Word} {s s' : Machine} {dirs : List Word}

/-- The second loop of `paging_init` is a sequence of calls. -/
theorem WalkRun.mapPagesLoop (rounds : ℕ) : ∀ {addr : Word} {s : Machine},
    WalkRun start size (fun _ _ => True) s dirs → s.kernelDirectory ∈ dirs →
    mapPagesLoop (memoryAlloc ⟨start, start + size⟩) rounds addr s = .ok s' →
    WalkRun start size (fun _ _ => True) s' dirs ∧ s'.kernelDirectory = s.kernelDirectory := by
  induction rounds with
  | zero =>
      intro addr s run member call
      obtain rfl := Except.ok.inj call
      exact ⟨run, rfl⟩
  | succ rounds ih =>
      intro addr s run member call
      obtain ⟨⟨answer, s₁⟩, mapped, rest⟩ := bind_eq_ok.mp call
      have run₁ : WalkRun start size (fun _ _ => True) s₁ dirs :=
        run.step (.map s.kernelDirectory addr (pagePresent ||| pageWrite)) member trivial
          (bind_eq_ok.mpr ⟨(answer, s₁), mapped, rfl⟩)
      obtain ⟨s₂, tables, last⟩ := bind_eq_ok.mp mapped
      obtain ⟨s₃, frames, done⟩ := bind_eq_ok.mp last
      obtain ⟨-, rfl⟩ := Prod.mk.inj (Except.ok.inj done)
      have same := (ensureFrame_variables frames).2.trans (ensureTable_variables tables).2
      rw [← same] at member ⊢
      exact ih run₁ member rest

/-- **`paging_init` is a sequence of calls.** -/
theorem WalkRun.pagingInit {totalMemory : Word} (run : WalkRun start size (fun _ _ => True) s dirs)
    (first : s.totalFrames = 0)
    (call : pagingInit (memoryAlloc ⟨start, start + size⟩) totalMemory s = .ok s') :
    WalkRun start size (fun _ _ => True) s' (s'.kernelDirectory :: dirs) := by
  obtain ⟨s₁, frames, rest⟩ := bind_eq_ok.mp call
  obtain ⟨⟨dir, s₂⟩, created, rest⟩ := bind_eq_ok.mp rest
  obtain ⟨s₃, mapped, last⟩ := bind_eq_ok.mp rest
  obtain rfl := Except.ok.inj last
  have run₁ : WalkRun start size (fun _ _ => True) s₁ dirs :=
    run.step (.initFrames totalMemory) first trivial (bind_eq_ok.mpr ⟨s₁, frames, rfl⟩)
  have run₂ : WalkRun start size (fun _ _ => True) s₂ (dir :: dirs) :=
    run₁.step .create trivial trivial (bind_eq_ok.mpr ⟨(dir, s₂), created, rfl⟩)
  have named : WalkRun start size (fun _ _ => True) { s₂ with kernelDirectory := dir }
      (dir :: dirs) := run₂.step (.assign dir s₂.cr3 s₂.cr0) trivial trivial rfl
  obtain ⟨run₃, same⟩ := named.mapPagesLoop 1024 List.mem_cons_self mapped
  rw [← show s₃.kernelDirectory = dir from same] at run₃
  exact run₃.step (.assign s₃.kernelDirectory
    (PageDirectory.physicalAddress s₃.mem s₃.kernelDirectory) (s₃.cr0 ||| 0x80000001))
    trivial trivial rfl

end Init

/-! ## Where a new block lies -/

/-- Some free block is long enough for the request, and the address behind the header of the
first such block has the property. -/
def FirstFitAt (bounds : HeapBounds) (n : Word) (s : Machine) (P : Word → Prop) : Prop :=
  ∃ b, firstFit bounds n s.mem = some b ∧ P (BitVec.ofNat 32 (b.addr + 12))

/-- The MMU can walk what the call adds. A new directory is on a page boundary. So is a new
table, and the flags it is entered with have no bits in its address. A bitmap is placed
anywhere on the heap. -/
def Call.Aligned (bounds : HeapBounds) (s : Machine) : Call → Prop
  | .initFrames totalMemory => totalMemory / pageSize = 0 ∨
      FirstFitAt bounds (bitmapSize (totalMemory / pageSize)) s fun _ => True
  | .create => FirstFitAt bounds PageDirectory.sizeof s fun p => tableBase p = p
  | .map dir virt flags => PageDirectory.present s.mem dir (pdIndex virt) = true ∨
      FirstFitAt bounds PageTable.sizeof s fun p => tableBase (p ||| flags) = p
  | .alloc _ | .unmap _ _ | .assign _ _ _ => True

instance (bounds : HeapBounds) (n : Word) (s : Machine) (P : Word → Prop) [DecidablePred P] :
    Decidable (FirstFitAt bounds n s P) :=
  decidable_of_iff
    ((firstFit bounds n s.mem).any fun b => decide (P (BitVec.ofNat 32 (b.addr + 12)))) (by
      rw [FirstFitAt, Option.any_eq_true]
      simp only [decide_eq_true_eq])

instance (bounds : HeapBounds) (s : Machine) : (call : Call) → Decidable (call.Aligned bounds s)
  | .initFrames totalMemory => inferInstanceAs (Decidable (totalMemory / pageSize = 0 ∨
      FirstFitAt bounds (bitmapSize (totalMemory / pageSize)) s fun _ => True))
  | .create => inferInstanceAs
      (Decidable (FirstFitAt bounds PageDirectory.sizeof s fun p => tableBase p = p))
  | .map dir virt flags => inferInstanceAs
      (Decidable (PageDirectory.present s.mem dir (pdIndex virt) = true ∨
        FirstFitAt bounds PageTable.sizeof s fun p => tableBase (p ||| flags) = p))
  | .alloc _ | .unmap _ _ | .assign _ _ _ => .isTrue trivial

/-- What holds in every state of a run whose calls are aligned. -/
structure WalkInv (start size : Word) (s : Machine) (dirs : List Word) : Prop where
  paging : ∃ m, PagingInv (heapAllocator start size) s dirs m
  walkable : ∀ dir ∈ dirs, Walkable s.mem dir

section Steps

variable {start size : Word} {s s' : Machine} {dirs dirs' : List Word}

/-- The answer to a request for which some block fits. -/
theorem FirstFitAt.answer {n : Word} {P : Word → Prop}
    (found : FirstFitAt ⟨start, start + size⟩ n s P) (nonzero : n ≠ 0) {m : Assignment Page}
    (inv : PagingInv (heapAllocator start size) s dirs m) {p : Word} {mem' : Mem}
    (call : memoryAlloc ⟨start, start + size⟩ n s.mem = some (p, mem')) : p ≠ 0 ∧ P p := by
  obtain ⟨b, chosen, here⟩ := found
  obtain ⟨blocks, holds, -⟩ := inv.separated.allocated
  have heap : HeapHolds start size blocks s.mem := holds
  obtain ⟨nonnull, mem₁, answer⟩ := heap.alloc_of_firstFit nonzero chosen
  rw [answer, Option.some.injEq, Prod.mk.injEq] at call
  obtain ⟨rfl, -⟩ := call
  exact ⟨nonnull, here⟩

variable (inv : WalkInv start size s dirs)
include inv

/-- A bitmap changes no directory. -/
theorem WalkInv.initFrames {totalMemory : Word} (first : s.totalFrames = 0)
    (aligned : (Call.initFrames totalMemory).Aligned ⟨start, start + size⟩ s)
    (call : initFrames (memoryAlloc ⟨start, start + size⟩) totalMemory s = .ok s') :
    WalkInv start size s' dirs := by
  obtain ⟨⟨m, paging⟩, walkable⟩ := inv
  have nonnull : BitmapNonNull (heapAllocator start size) totalMemory s := by
    intro p mem' answer
    rcases aligned with none_needed | found
    · exact Or.inr none_needed
    · by_cases none_needed : totalMemory / pageSize = 0
      · exact Or.inr none_needed
      · have positive : 0 < (totalMemory / pageSize).toNat := by
          rw [Nat.pos_iff_ne_zero]
          exact fun zero => none_needed (BitVec.eq_of_toNat_eq zero)
        have bytes := toNat_bitmapSize (totalFrames_lt totalMemory)
        have nonzero : bitmapSize (totalMemory / pageSize) ≠ 0 :=
          ne_zero_of_toNat_pos (by omega)
        exact Or.inl (found.answer nonzero paging answer).1
  obtain ⟨paging', -, -, same⟩ := paging.initFrames_spec first nonnull call
  exact ⟨⟨_, paging'⟩, same.walkable walkable⟩

/-- A new directory on a page boundary is walkable. -/
theorem WalkInv.create {dir : Word} (aligned : Call.create.Aligned ⟨start, start + size⟩ s)
    (call : pagingCreateDirectory (memoryAlloc ⟨start, start + size⟩) s = .ok (dir, s')) :
    WalkInv start size s' (dir :: dirs) := by
  obtain ⟨⟨m, paging⟩, walkable⟩ := inv
  obtain ⟨mem₁, answer, rfl⟩ := pagingCreateDirectory_eq_ok.mp call
  have found : FirstFitAt ⟨start, start + size⟩ PageDirectory.sizeof s fun p => tableBase p = p :=
    aligned
  obtain ⟨nonnull, boundary⟩ := found.answer (by decide) paging answer
  obtain ⟨-, paging', -⟩ := paging.pagingCreateDirectory_spec call nonnull
  obtain ⟨-, -, kept, physical, empty⟩ := paging.separated.addDirectory answer nonnull rfl
  have same := paging.separated.sameDirectories_of_kept kept
  refine ⟨⟨m, paging'⟩, fun dir' member => ?_⟩
  rcases List.mem_cons.mp member with rfl | old
  · refine ⟨physical, boundary, fun index small present => ?_⟩
    rw [empty index small] at present
    contradiction
  · exact same.walkable walkable dir' old

/-- A new table on a page boundary is entered under its own address. -/
theorem WalkInv.ensureTable {dir virt flags : Word} (member : dir ∈ dirs)
    (aligned : (Call.map dir virt flags).Aligned ⟨start, start + size⟩ s)
    (call : ensureTable (memoryAlloc ⟨start, start + size⟩) dir virt flags s = .ok s') :
    WalkInv start size s' dirs ∧ PageDirectory.present s'.mem dir (pdIndex virt) = true := by
  obtain ⟨⟨m, paging⟩, walkable⟩ := inv
  cases present : PageDirectory.present s.mem dir (pdIndex virt) with
  | true =>
      rw [Memory.ensureTable, if_pos present] at call
      obtain rfl := Except.ok.inj call
      exact ⟨⟨⟨m, paging⟩, walkable⟩, present⟩
  | false =>
      have found := aligned.resolve_left (by rw [present]; decide)
      have nonnull : TableNonNull (heapAllocator start size) dir virt s :=
        fun _ p mem' answer => (found.answer (by decide) paging answer).1
      have step := paging.ensureTable_spec member nonnull flags
      rw [show (heapAllocator start size).alloc = memoryAlloc ⟨start, start + size⟩ from rfl,
        call] at step
      obtain ⟨paging', -, here⟩ := step
      refine ⟨⟨⟨m, paging'⟩, ?_⟩, here⟩
      rcases ensureTable_eq_ok.mp call with ⟨there, -⟩ | ⟨-, table, mem₁, answer, rfl⟩
      · rw [present] at there
        contradiction
      · obtain ⟨nonzero, boundary⟩ := found.answer (by decide) paging answer
        obtain ⟨-, added⟩ := paging.separated.addTable member (pdIndex_lt virt) answer nonzero rfl
        refine added.walkable paging.separated walkable ?_
        rw [tableBase_or_pagePresent]
        exact boundary

/-- A page that is mapped adds at most its table to what the MMU walks. -/
theorem WalkInv.map {dir virt flags answer : Word} (member : dir ∈ dirs)
    (aligned : (Call.map dir virt flags).Aligned ⟨start, start + size⟩ s)
    (call : pagingMapPage (memoryAlloc ⟨start, start + size⟩) dir virt flags s =
      .ok (answer, s')) : WalkInv start size s' dirs := by
  obtain ⟨s₁, tables, rest⟩ := bind_eq_ok.mp call
  obtain ⟨s₂, frames, last⟩ := bind_eq_ok.mp rest
  obtain ⟨-, rfl⟩ := Prod.mk.inj (Except.ok.inj last)
  obtain ⟨⟨⟨m, paging⟩, walkable⟩, here⟩ := inv.ensureTable member aligned tables
  have step := paging.ensureFrame_spec member here flags
  rw [frames] at step
  obtain ⟨m', -, paging', -, same⟩ := step
  exact ⟨⟨m', paging'⟩, same.walkable walkable⟩

/-- **An aligned call keeps every directory walkable.** -/
theorem WalkInv.step {call : Call} (proper : call.Proper s dirs)
    (aligned : call.Aligned ⟨start, start + size⟩ s)
    (step : call.perform (memoryAlloc ⟨start, start + size⟩) s dirs = .ok (s', dirs')) :
    WalkInv start size s' dirs' := by
  cases call with
  | alloc n =>
      obtain ⟨⟨p, s₁⟩, asked, last⟩ := bind_eq_ok.mp step
      obtain ⟨rfl, rfl⟩ := Prod.mk.inj (Except.ok.inj last)
      obtain ⟨mem', answer, rfl⟩ := callAlloc_eq_ok.mp asked
      obtain ⟨⟨m, paging⟩, walkable⟩ := inv
      obtain ⟨paging', -, same⟩ := paging.alloc answer
      exact ⟨⟨m, paging'⟩, same.walkable walkable⟩
  | initFrames totalMemory =>
      obtain ⟨s₁, call, last⟩ := bind_eq_ok.mp step
      obtain ⟨rfl, rfl⟩ := Prod.mk.inj (Except.ok.inj last)
      exact inv.initFrames proper aligned call
  | create =>
      obtain ⟨⟨dir, s₁⟩, call, last⟩ := bind_eq_ok.mp step
      obtain ⟨rfl, rfl⟩ := Prod.mk.inj (Except.ok.inj last)
      exact inv.create aligned call
  | map dir virt flags =>
      obtain ⟨⟨answer, s₁⟩, call, last⟩ := bind_eq_ok.mp step
      obtain ⟨rfl, rfl⟩ := Prod.mk.inj (Except.ok.inj last)
      exact inv.map proper aligned call
  | unmap dir virt =>
      obtain ⟨rfl, rfl⟩ := Prod.mk.inj (Except.ok.inj step)
      obtain ⟨⟨m, paging⟩, walkable⟩ := inv
      obtain ⟨paging', -, same⟩ := paging.pagingUnmapPage_spec proper virt
      exact ⟨⟨_, paging'⟩, same.walkable walkable⟩
  | assign kernelDirectory cr3 cr0 =>
      obtain ⟨rfl, rfl⟩ := Prod.mk.inj (Except.ok.inj step)
      obtain ⟨⟨m, paging⟩, walkable⟩ := inv
      exact ⟨⟨m, paging.congr rfl rfl rfl⟩, walkable⟩

end Steps

/-- Every directory of a run whose calls are aligned is walkable. -/
theorem WalkRun.inv {start size : Word} (low : 16 ≤ start.toNat) (room : 12 < size.toNat)
    (fits : start.toNat + size.toNat < 2 ^ 32) {s : Machine} {dirs : List Word}
    (run : WalkRun start size (fun s call => call.Aligned ⟨start, start + size⟩ s) s dirs) :
    WalkInv start size s dirs := by
  induction run with
  | @init s mem heap totalFrames usedFrames =>
      have boot : Booting (heapAllocator start size) s := by
        refine ⟨⟨[], ?_⟩, totalFrames, usedFrames⟩
        rw [heap]
        exact heapHolds_memoryInit low room fits mem
      exact ⟨⟨_, boot.inv⟩, fun dir member => absurd member List.not_mem_nil⟩
  | step _ _ proper aligned step ih => exact ih.step proper aligned step

/-- **The MMU and the kernel walk the same tables**, in every state of every run whose calls are
aligned. -/
theorem walks_agree {start size : Word} (low : 16 ≤ start.toNat) (room : 12 < size.toNat)
    (fits : start.toNat + size.toNat < 2 ^ 32) {s : Machine} {dirs : List Word}
    (run : WalkRun start size (fun s call => call.Aligned ⟨start, start + size⟩ s) s dirs)
    {dir : Word} (member : dir ∈ dirs) (virt : Word) : WalksAgree s dir virt :=
  ((run.inv low room fits).walkable dir member).walksAgree rfl virt

/-- The machine after `Memory_init`, over a memory of ones. -/
def onesMachine (start size : Word) : Machine :=
  ⟨(memoryInit start size fun _ => 1).2, 0, 0, 0, 0, 0, 0⟩

/-- A heap twelve bytes below a page boundary: a directory, a bitmap for 257 frames, a block
that moves the next one to a boundary, and then a page with its table. -/
theorem walks_agree_mapped : ∃ (s : Machine) (dirs : List Word) (dir : Word), dir ∈ dirs ∧
    pagingIsPagePresent dir 0 s = true ∧ WalksAgree s dir 0 := by
  have check : (runCalls (memoryAlloc ⟨0x100FF4, 0x100FF4 + 0x100000⟩)
      (fun s call => call.Aligned ⟨0x100FF4, 0x100FF4 + 0x100000⟩ s)
      [.create, .initFrames 0x101000, .alloc 0xFB4, .map 0x101000 0 (pagePresent ||| pageWrite)]
      (onesMachine 0x100FF4 0x100000) []).any (fun (s, dirs) =>
        decide (0x101000 ∈ dirs) && pagingIsPagePresent 0x101000 0 s) = true := by
    decide +kernel
  obtain ⟨⟨s, dirs⟩, ran, found⟩ := (Option.any_eq_true _ _).mp check
  rw [Bool.and_eq_true, decide_eq_true_eq] at found
  have started : WalkRun 0x100FF4 0x100000
      (fun s call => call.Aligned ⟨0x100FF4, 0x100FF4 + 0x100000⟩ s)
      (onesMachine 0x100FF4 0x100000) [] := .init (fun _ => 1) rfl rfl rfl
  exact ⟨s, dirs, 0x101000, found.1, found.2,
    walks_agree (by decide) (by decide) (by decide) (started.runCalls _ ran) found.1 0⟩

/-- On the heap of the kernel the MMU finds a page where the kernel finds none: it takes the
header in front of the directory for its first entries. -/
theorem walks_disagree : ∃ s dirs dir virt, WalkRun 0x100000 0x100000 (fun _ _ => True) s dirs ∧
    dir ∈ dirs ∧ ¬ WalksAgree s dir virt := by
  have check : (runCalls (memoryAlloc ⟨0x100000, 0x100000 + 0x100000⟩) (fun _ _ => True)
      [.create] (onesMachine 0x100000 0x100000) []).any (fun (s, dirs) =>
        decide (0x10000C ∈ dirs) && decide (pagingIsPagePresent 0x10000C 0x400000 s ≠
          (mmuWalk s.mem (PageDirectory.physicalAddress s.mem 0x10000C) 0x400000).isSome)) =
      true := by
    decide
  obtain ⟨⟨s, dirs⟩, ran, found⟩ := (Option.any_eq_true _ _).mp check
  rw [Bool.and_eq_true, decide_eq_true_eq, decide_eq_true_eq] at found
  have started : WalkRun 0x100000 0x100000 (fun _ _ => True) (onesMachine 0x100000 0x100000) [] :=
    .init (fun _ => 1) rfl rfl rfl
  exact ⟨s, dirs, 0x10000C, 0x400000, started.runCalls _ ran, found.1, fun agree => found.2 agree.1⟩

end CocosOS.Kernel.Memory
