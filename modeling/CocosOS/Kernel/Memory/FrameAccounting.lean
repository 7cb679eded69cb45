import CocosOS.Kernel.Memory.PagingRuns
import Mathlib.Order.Interval.Finset.Nat

/-!
# Counting frames, and where they lie

Two things that the frame allocator does not keep apart.

`used_frames` starts at zero while every frame is marked, and `paging_init` releases the frames
from 256 on, so the counter wraps below zero. What `paging_get_free_frames` reports stays over
the number of clear marks by the number of all frames (`free_frames_surplus`). The two agree in
the states after `paging_init` only if there are none: below 1280 frames it panics
(`free_frames_exact_iff`).

The loop of `paging_init` starts to release at frame 256, the frame at `0x100000`, which is
where `kernel_main` puts the heap. The first frame handed out is the first page of the heap
(`frames_avoid_heap_iff`).
-/

set_option autoImplicit false

namespace CocosOS.Kernel.Memory

open Library.ByteMemory Library.BlockList Library.SharedPool

/-! ## What is reported -/

/-- **What is reported is over the number of clear marks by the number of all frames**, in every
state of every run. -/
theorem free_frames_surplus {A : Allocator} (never : A.NeverNull) {totalMemory : Word}
    {s : Machine} {dirs : List Word} {events : List (Event Page)}
    (run : PagingRun A totalMemory s dirs events) :
    pagingGetFreeFrames s =
      BitVec.ofNat 32 (clearFrames s).card + totalMemory / pageSize := by
  have counted := (run.inv never).surplus
  rw [surplus, sub_eq_iff_eq_add] at counted
  rw [counted, add_comm]

/-- The states after `paging_init` on the heap of the kernel. Frames are taken and released
directly, and by mapping and unmapping pages. -/
inductive FrameRun (totalMemory : Word) : Machine → Prop
  | init {s s' : Machine} (boot : KernelBoot s)
      (call : pagingInit kernelHeap.alloc totalMemory s = .ok s') : FrameRun totalMemory s'
  | allocate {s s' : Machine} {frame : Word} (run : FrameRun totalMemory s)
      (call : pagingAllocateFrame s = .ok (frame, s')) : FrameRun totalMemory s'
  | free {s : Machine} (run : FrameRun totalMemory s) (frame : Word) :
      FrameRun totalMemory (pagingFreeFrame frame s)
  | map {s s' : Machine} {dir virt flags answer : Word} (run : FrameRun totalMemory s)
      (call : pagingMapPage kernelHeap.alloc dir virt flags s = .ok (answer, s')) :
      FrameRun totalMemory s'
  | unmap {s : Machine} (run : FrameRun totalMemory s) (dir virt : Word) :
      FrameRun totalMemory (pagingUnmapPage dir virt s)

/-- What `paging_init` leaves behind: 1280 frames are marked, and the number reported counts
every frame twice. -/
theorem pagingInit_counts {totalMemory : Word} {s s' : Machine} (boot : KernelBoot s)
    (call : pagingInit kernelHeap.alloc totalMemory s = .ok s') :
    1280 ≤ (totalMemory / pageSize).toNat ∧
      (clearFrames s').card = (totalMemory / pageSize).toNat - 1280 ∧
      (pagingGetFreeFrames s').toNat = 2 * (totalMemory / pageSize).toNat - 1280 := by
  obtain ⟨inv, total, surplus_eq, enough⟩ := pagingInit_kernel_spec boot call
  have small := totalFrames_lt totalMemory
  have clear : clearFrames s' = Finset.Ico 1280 (totalMemory / pageSize).toNat := by
    ext i
    rw [mem_clearFrames, Finset.mem_Ico, total, and_comm]
    refine and_congr_left fun lt => ?_
    rw [← inv.refines.taken i (by rw [total]; exact lt)]
    show decide (i < 256 + 1024) = false ↔ 1280 ≤ i
    rw [decide_eq_false_iff_not]
    omega
  have count : (clearFrames s').card = (totalMemory / pageSize).toNat - 1280 := by
    rw [clear, Nat.card_Ico]
  refine ⟨enough, count, ?_⟩
  rw [surplus, count, sub_eq_iff_eq_add] at surplus_eq
  rw [surplus_eq, BitVec.toNat_add, BitVec.toNat_ofNat]
  omega

/-- No state is reached with less than 1280 frames. -/
theorem FrameRun.enough {totalMemory : Word} {s : Machine} (run : FrameRun totalMemory s) :
    1280 ≤ (totalMemory / pageSize).toNat := by
  induction run with
  | init boot call => exact (pagingInit_counts boot call).1
  | allocate _ _ ih => exact ih
  | free _ _ ih => exact ih
  | map _ _ ih => exact ih
  | unmap _ _ _ ih => exact ih

/-- With 1280 frames or more the two numbers differ as soon as `paging_init` returns. -/
theorem exists_wrong_count {totalMemory : Word}
    (enough : 1280 ≤ (totalMemory / pageSize).toNat) :
    ∃ s, FrameRun totalMemory s ∧
      (pagingGetFreeFrames s).toNat = 2 * (totalMemory / pageSize).toNat - 1280 ∧
      (clearFrames s).card = (totalMemory / pageSize).toNat - 1280 := by
  obtain ⟨s, boot⟩ := exists_kernelBoot
  obtain ⟨s', call⟩ := pagingInit_kernel answersLikeHeap_kernelHeap boot enough
  obtain ⟨-, count, reported⟩ := pagingInit_counts boot call
  exact ⟨s', .init boot call, reported, count⟩

/-- **What is reported is the number of clear marks exactly when `paging_init` does not
return**, that is below 1280 frames. -/
theorem free_frames_exact_iff (totalMemory : Word) :
    (∀ s, FrameRun totalMemory s → (pagingGetFreeFrames s).toNat = (clearFrames s).card) ↔
      (totalMemory / pageSize).toNat < 1280 := by
  constructor
  · intro exact_count
    by_contra enough
    obtain ⟨s, run, reported, count⟩ := exists_wrong_count (Nat.le_of_not_lt enough)
    have same := exact_count s run
    omega
  · intro few s run
    exact absurd run.enough (Nat.not_le_of_lt few)

/-- With 16 MiB there are 2816 free frames, and 6912 are reported. -/
theorem free_frames_wrong : ∃ s, FrameRun 0x1000000 s ∧
    (pagingGetFreeFrames s).toNat = 6912 ∧ (clearFrames s).card = 2816 :=
  exists_wrong_count (show 1280 ≤ ((0x1000000 : Word) / pageSize).toNat by decide)

/-! ## Where frames lie -/

/-- The byte lies in the frame with the given number. -/
def FrameCovers (frame : Word) (x : ℕ) : Prop :=
  frame.toNat * 4096 ≤ x ∧ x < frame.toNat * 4096 + 4096

instance (frame : Word) (x : ℕ) : Decidable (FrameCovers frame x) :=
  inferInstanceAs (Decidable (_ ∧ _))

/-- The states from the first loop of `paging_init` on. The heap is that of `kernel_main`, and
may have been used before. The calls of `paging_init` are steps like any other call, and
`paging_map_page` is two steps, so that a state in which it asks for a frame is among them. -/
inductive MemoryRun (totalMemory : Word) : Machine → Prop
  | frames {h : HeapState} {bs : List Block} {s s' : Machine}
      (heap : HeapRun 0x100000 0x100000 h bs) (mem : s.mem = h.mem)
      (call : initFrames kernelHeap.alloc totalMemory s = .ok s') : MemoryRun totalMemory s'
  | create {s s' : Machine} {dir : Word} (run : MemoryRun totalMemory s)
      (call : pagingCreateDirectory kernelHeap.alloc s = .ok (dir, s')) :
      MemoryRun totalMemory s'
  | kernel {s s' : Machine} {dir : Word} (run : MemoryRun totalMemory s)
      (call : pagingCreateDirectory kernelHeap.alloc s = .ok (dir, s')) :
      MemoryRun totalMemory { s' with kernelDirectory := dir }
  | table {s s' : Machine} {dir virt flags : Word} (run : MemoryRun totalMemory s)
      (call : ensureTable kernelHeap.alloc dir virt flags s = .ok s') : MemoryRun totalMemory s'
  | frame {s s' : Machine} {dir virt flags : Word} (run : MemoryRun totalMemory s)
      (call : ensureFrame dir virt flags s = .ok s') : MemoryRun totalMemory s'
  | unmap {s : Machine} (run : MemoryRun totalMemory s) (dir virt : Word) :
      MemoryRun totalMemory (pagingUnmapPage dir virt s)
  | allocate {s s' : Machine} {frame : Word} (run : MemoryRun totalMemory s)
      (call : pagingAllocateFrame s = .ok (frame, s')) : MemoryRun totalMemory s'
  | free {s : Machine} (run : MemoryRun totalMemory s) (frame : Word) :
      MemoryRun totalMemory (pagingFreeFrame frame s)
  | switch {s : Machine} (run : MemoryRun totalMemory s) (dir : Word) :
      MemoryRun totalMemory (enablePaging (pagingSwitchDirectory dir s))
  | alloc {s : Machine} {n p : Word} {mem' : Mem} (run : MemoryRun totalMemory s)
      (call : kernelHeap.alloc n s.mem = some (p, mem')) :
      MemoryRun totalMemory { s with mem := mem' }
  | release {s : Machine} {p : Word} {mem' : Mem} (run : MemoryRun totalMemory s)
      (call : memoryFree ⟨0x100000, 0x200000⟩ p s.mem = some mem') :
      MemoryRun totalMemory { s with mem := mem' }

/-- The second loop of `paging_init` is a sequence of steps. -/
theorem MemoryRun.mapPages {totalMemory : Word} (rounds : ℕ) : ∀ {addr : Word} {s s' : Machine},
    MemoryRun totalMemory s → mapPagesLoop kernelHeap.alloc rounds addr s = .ok s' →
    MemoryRun totalMemory s' := by
  induction rounds with
  | zero =>
      intro addr s s' run call
      exact Except.ok.inj call ▸ run
  | succ rounds ih =>
      intro addr s s' run call
      obtain ⟨⟨answer, s₁⟩, mapped, rest⟩ := bind_eq_ok.mp call
      obtain ⟨t₁, tables, last⟩ := bind_eq_ok.mp mapped
      obtain ⟨t₂, frames, done⟩ := bind_eq_ok.mp last
      obtain ⟨-, rfl⟩ := Prod.mk.inj (Except.ok.inj done)
      exact ih ((run.table tables).frame frames) rest

/-- **The states of `paging_init` are among these**, up to its end. -/
theorem MemoryRun.init {totalMemory : Word} {h : HeapState} {bs : List Block} {s s' : Machine}
    (heap : HeapRun 0x100000 0x100000 h bs) (mem : s.mem = h.mem)
    (call : pagingInit kernelHeap.alloc totalMemory s = .ok s') : MemoryRun totalMemory s' := by
  obtain ⟨s₁, frames, rest⟩ := bind_eq_ok.mp call
  obtain ⟨⟨dir, s₂⟩, created, rest⟩ := bind_eq_ok.mp rest
  obtain ⟨s₃, mapped, last⟩ := bind_eq_ok.mp rest
  obtain rfl := Except.ok.inj last
  exact (((MemoryRun.frames heap mem frames).kernel created).mapPages 1024 mapped).switch _

theorem totalFrames_initFrames {alloc : MemoryAlloc} {totalMemory : Word} {s s' : Machine}
    (call : initFrames alloc totalMemory s = .ok s') :
    s'.totalFrames = totalMemory / pageSize := by
  obtain ⟨bitmap, mem₁, -, freed⟩ := initFrames_eq_ok.mp call
  rw [freed, (freeFramesLoop_fields _ _ _).2.1]
  rfl

theorem totalFrames_pagingUnmapPage (dir virt : Word) (s : Machine) :
    (pagingUnmapPage dir virt s).totalFrames = s.totalFrames := by
  rw [pagingUnmapPage]
  split
  · dsimp only
    split <;> rfl
  · rfl

/-- The number of frames does not change. -/
theorem MemoryRun.totalFrames_eq {totalMemory : Word} {s : Machine}
    (run : MemoryRun totalMemory s) : s.totalFrames = totalMemory / pageSize := by
  induction run with
  | frames _ _ call => exact totalFrames_initFrames call
  | create _ call ih =>
      obtain ⟨mem', -, rfl⟩ := pagingCreateDirectory_eq_ok.mp call
      exact ih
  | kernel _ call ih =>
      obtain ⟨mem', -, rfl⟩ := pagingCreateDirectory_eq_ok.mp call
      exact ih
  | table _ call ih => exact (ensureTable_variables call).1.trans ih
  | frame _ call ih => exact (ensureFrame_variables call).1.trans ih
  | unmap _ dir virt ih => exact (totalFrames_pagingUnmapPage dir virt _).trans ih
  | allocate _ call ih =>
      obtain rfl := (pagingAllocateFrame_ok call).2
      exact ih
  | free _ _ ih => exact ih
  | switch _ _ ih => exact ih
  | alloc _ _ ih => exact ih
  | release _ _ ih => exact ih

/-- The heap that `kernel_main` leaves behind is one of the heaps of a run. -/
theorem KernelBoot.heapRun {s : Machine} (boot : KernelBoot s) :
    ∃ h bs, HeapRun 0x100000 0x100000 h bs ∧ s.mem = h.mem := by
  obtain ⟨mem, p, call⟩ := boot.heap
  have run : HeapRun 0x100000 0x100000 _ _ := .init mem
  exact ⟨_, _, run.alloc 64 call, rfl⟩

/-- With more than 256 frames, the first page that `paging_init` maps gets frame 256. -/
theorem exists_frame_on_heap {totalMemory : Word}
    (enough : 256 < (totalMemory / pageSize).toNat) :
    ∃ s s', MemoryRun totalMemory s ∧ pagingAllocateFrame s = .ok (256, s') := by
  have like := answersLikeHeap_kernelHeap
  have answered : 0 < (totalMemory / pageSize).toNat ∨
      ∀ mem, kernelHeap.alloc 0 mem = some (0, mem) := Or.inr fun _ => rfl
  obtain ⟨s, boot⟩ := exists_kernelBoot
  obtain ⟨h, bs, heap, mem⟩ := boot.heapRun
  obtain ⟨s₂, started, table⟩ := initDirectory_kernel like boot totalMemory answered
  obtain ⟨inv, nonnull, -, -⟩ := initDirectory_spec (boot.booting like)
    (bootNonNull_kernel like boot totalMemory answered) started
  have run : MemoryRun totalMemory s₂ := by
    obtain ⟨s₁, frames, rest⟩ := bind_eq_ok.mp started
    obtain ⟨⟨dir, s₂⟩, created, last⟩ := bind_eq_ok.mp rest
    obtain rfl := Except.ok.inj last
    exact (MemoryRun.frames heap mem frames).kernel created
  -- the first page of the second loop gets its table, and then asks for a frame
  have first := inv.ensureTable_spec List.mem_cons_self nonnull (pagePresent ||| pageWrite)
  cases made : ensureTable kernelHeap.alloc s₂.kernelDirectory 0 (pagePresent ||| pageWrite) s₂ with
  | error stop =>
      rw [made] at first
      exact absurd first.2.2 table
  | ok s₃ =>
      rw [made] at first
      have lowest : (mappedPool totalMemory s₂.kernelDirectory 0).lowestFree = some 256 := by
        refine Assignment.lowestFree_eq_some.mpr ⟨enough, rfl, fun j below => ?_⟩
        exact decide_eq_true below
      exact ⟨s₃, _, run.table made, first.1.pagingAllocateFrame_some lowest⟩

/-- **Frames stay off the heap exactly when there are at most 256 of them.** -/
theorem frames_avoid_heap_iff (totalMemory : Word) :
    (∀ s, MemoryRun totalMemory s → ∀ frame s', pagingAllocateFrame s = .ok (frame, s') →
        ∀ x, FrameCovers frame x → x < 0x100000 ∨ 0x200000 ≤ x) ↔
      (totalMemory / pageSize).toNat ≤ 256 := by
  constructor
  · intro avoids
    by_contra many
    obtain ⟨s, s', run, call⟩ := exists_frame_on_heap (Nat.lt_of_not_le many)
    have covered : FrameCovers 256 0x100000 := by decide
    have outside := avoids s run 256 s' call 0x100000 covered
    omega
  · intro few s run frame s' call x covered
    have lt := (pagingAllocateFrame_ok call).1
    rw [run.totalFrames_eq] at lt
    have above := covered.2
    left
    omega

/-- With 16 MiB the first frame handed out is the first page of the heap. -/
theorem frame_covers_heap : ∃ s s' frame, MemoryRun 0x1000000 s ∧
    pagingAllocateFrame s = .ok (frame, s') ∧ FrameCovers frame 0x100000 := by
  have enough : 256 < ((0x1000000 : Word) / pageSize).toNat := by decide
  obtain ⟨s, s', run, call⟩ := exists_frame_on_heap enough
  exact ⟨s, s', 256, run, call, by decide⟩

end CocosOS.Kernel.Memory
