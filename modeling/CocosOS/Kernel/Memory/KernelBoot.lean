import CocosOS.Kernel.Memory.HeapAllocator
import CocosOS.Kernel.Memory.PagingInit

/-!
# Paging on the heap of the kernel

`kernel_main` sets up a heap of one mebibyte at `0x100000` and takes 64 bytes from it. What is
left is a single free block. `HeapRoom` follows how long the longest free block is at least:
a request takes its rounded length and a header from it (`HeapRoom.alloc`), and stores into
blocks that are handed out do not change it (`HeapRoom.stable`). The bitmap for the largest
memory, one directory and one table fit many times over, so none of the requests of
`paging_init` is answered with `NULL` (`bootNonNull_kernel`), and `paging_init` returns when
there are 1280 frames (`pagingInit_kernel`, `pagingInit_returns_iff`).
-/

set_option autoImplicit false

namespace CocosOS.Kernel.Memory

open Library.ByteMemory Library.BlockList Library.SharedPool

/-! ## Room on a heap -/

/-- The blocks are handed out, and some free block has at least `room` bytes. -/
def HeapRoom (start size : Word) (room : ℕ) (blocks : List Extent) (mem : Mem) : Prop :=
  ∃ bs live, HeapInv start size ⟨⟨start, start + size⟩, mem, live⟩ bs ∧ HeldBy live blocks mem ∧
    ∃ b ∈ bs, b.used = false ∧ room ≤ b.size

namespace HeapRoom

variable {start size : Word} {room : ℕ} {blocks : List Extent} {mem : Mem}
  (holds : HeapRoom start size room blocks mem)
include holds

theorem heapHolds : HeapHolds start size blocks mem := by
  obtain ⟨bs, live, inv, held, -⟩ := holds
  exact ⟨bs, live, inv, held⟩

/-- A request that the free block can hold is answered, and leaves a free block behind. -/
theorem alloc {n : Word} (positive : 0 < n.toNat) (modest : n.toNat ≤ maxRequest)
    (enough : n.toNat + 20 ≤ room) :
    ∃ p mem', memoryAlloc ⟨start, start + size⟩ n mem = some (p, mem') ∧ p ≠ 0 ∧
      HeapRoom start size (room - n.toNat - 15) (⟨p, n.toNat⟩ :: blocks) mem' := by
  obtain ⟨bs, live, inv, held, b, member, free, long⟩ := holds
  have rounded := toNat_roundSize_of_le (n := n) (Nat.le_trans modest (by decide))
  rcases inv.memoryAlloc_spec n with ⟨-, -, zero | misfit⟩ |
    ⟨c, bs', p, mem', -, chosen, answer, payload, blocks_eq, -, -⟩
  · rw [zero] at positive
    exact absurd positive (Nat.lt_irrefl 0)
  · exact absurd ⟨free, by omega⟩ (misfit b member)
  · have nonnull : p ≠ 0 := ne_zero_of_toNat_pos (by omega)
    have after := inv.alloc answer
    rw [if_neg nonnull, blocks_eq] at after
    have splits : Splits heapLayout (roundSize n).toNat b := by
      rw [Splits, heapLayout_header, heapLayout_slack]
      omega
    obtain ⟨d, member', free', long'⟩ := exists_free_of_allocate chosen member free splits
    rw [heapLayout_header] at long'
    exact ⟨p, mem', answer, nonnull, bs', p :: live, after,
      inv.heldBy_fresh held modest answer nonnull, d, member', free', by omega⟩

/-- Stores into blocks that are handed out leave the free blocks alone. -/
theorem stable {mem' : Mem}
    (frame : ∀ x, (∀ b ∈ blocks, ¬ Covers b.addr b.length x) → mem' x = mem x) :
    HeapRoom start size room blocks mem' := by
  obtain ⟨bs, live, inv, held, roomy⟩ := holds
  obtain ⟨after, still⟩ := inv.heldBy_stable held frame
  exact ⟨bs, live, after, still, roomy⟩

theorem mono {less : ℕ} (le : less ≤ room) : HeapRoom start size less blocks mem := by
  obtain ⟨bs, live, inv, held, b, member, free, long⟩ := holds
  exact ⟨bs, live, inv, held, b, member, free, Nat.le_trans le long⟩

end HeapRoom

/-! ## The heap of the kernel -/

/-- The heap of the kernel as an allocator. -/
def kernelHeap : Allocator := heapAllocator 0x100000 0x100000

/-- The machine when `kernel_main` has set up the heap and taken 64 bytes from it. -/
structure KernelBoot (s : Machine) : Prop where
  heap : ∃ mem p, memoryAlloc (memoryInit 0x100000 0x100000 mem).1 64
    (memoryInit 0x100000 0x100000 mem).2 = some (p, s.mem)
  totalFrames : s.totalFrames = 0
  usedFrames : s.usedFrames = 0

/-- The allocator answers as the heap of the kernel does, where that does not answer `NULL`. -/
structure AnswersLikeHeap (A : Allocator) : Prop where
  allocated : ∀ blocks mem, HeapHolds 0x100000 0x100000 blocks mem → A.Allocated blocks mem
  answers : ∀ n mem p mem', memoryAlloc ⟨0x100000, 0x200000⟩ n mem = some (p, mem') → p ≠ 0 →
    A.alloc n mem = some (p, mem')

theorem answersLikeHeap_kernelHeap : AnswersLikeHeap kernelHeap :=
  ⟨fun _ _ holds => holds, fun _ _ _ _ call _ => call⟩

theorem answersLikeHeap_strict : AnswersLikeHeap kernelHeap.strict :=
  ⟨fun _ _ holds => holds, fun _ _ _ _ call nonnull =>
    Option.filter_eq_some_iff.mpr ⟨call, decide_eq_true nonnull⟩⟩

/-- After `kernel_main` there is one free block of all but 91 bytes. -/
theorem KernelBoot.room {s : Machine} (boot : KernelBoot s) :
    ∃ blocks, HeapRoom 0x100000 0x100000 0xFFFA5 blocks s.mem := by
  obtain ⟨mem, p, call⟩ := boot.heap
  have start : HeapRoom 0x100000 0x100000 0xFFFF4 [] (memoryInit 0x100000 0x100000 mem).2 :=
    ⟨_, _, heapInv_memoryInit (by decide) (by decide) (by decide) mem, heldBy_nil _ _, _,
      List.mem_singleton.mpr rfl, rfl, Nat.le_refl _⟩
  obtain ⟨q, mem', answer, -, room⟩ := start.alloc (n := 64) (by decide) (by decide) (by decide)
  have same := answer.symm.trans call
  rw [Option.some.injEq, Prod.mk.injEq] at same
  rw [same.2] at room
  exact ⟨_, room⟩

theorem KernelBoot.booting {A : Allocator} (like : AnswersLikeHeap A) {s : Machine}
    (boot : KernelBoot s) : Booting A s := by
  obtain ⟨blocks, room⟩ := boot.room
  exact ⟨⟨blocks, like.allocated _ _ room.heapHolds⟩, boot.totalFrames, boot.usedFrames⟩

/-! ## The requests of `paging_init` -/

section Requests

variable {A : Allocator} (like : AnswersLikeHeap A) {s : Machine}
include like

/-- The bitmap fits on the heap of the kernel, for every size of memory. -/
theorem initFrames_kernel (boot : KernelBoot s) (totalMemory : Word)
    (answered : 0 < (totalMemory / pageSize).toNat ∨ ∀ mem, A.alloc 0 mem = some (0, mem)) :
    ∃ s₁ blocks, initFrames A.alloc totalMemory s = .ok s₁ ∧
      HeapRoom 0x100000 0x100000 0xD0000 blocks s₁.mem := by
  obtain ⟨blocks, room⟩ := boot.room
  have small := totalFrames_lt totalMemory
  have bytes := toNat_bitmapSize small
  by_cases positive : 0 < (totalMemory / pageSize).toNat
  · obtain ⟨p, mem', answer, nonnull, room'⟩ := room.alloc
      (n := bitmapSize (totalMemory / pageSize)) (by omega) (bitmapSize_le totalMemory) (by omega)
    have fits := room'.heapHolds.fits List.mem_cons_self
    refine ⟨_, _, initFrames_of_some (like.answers _ _ _ _ answer nonnull),
      (room'.mono (show 0xD0000 ≤ _ by omega)).stable fun x outside => ?_⟩
    -- filling and clearing the bitmap stays inside its block
    have away := outside _ List.mem_cons_self
    have filled : (bitmapFilled totalMemory p mem' s).mem x = mem' x :=
      fill_apply_of_not_covers away
    rw [← filled]
    by_cases few : (totalMemory / pageSize).toNat ≤ 256
    · rw [Nat.sub_eq_zero_of_le few, freeFramesLoop]
    · have range : 256 + ((totalMemory / pageSize).toNat - 256) ≤
          (bitmapFilled totalMemory p mem' s).totalFrames.toNat := by
        show _ ≤ (totalMemory / pageSize).toNat
        omega
      exact freeFramesLoop_apply _ fits small range away
  · have zero : totalMemory / pageSize = 0 :=
      BitVec.eq_of_toNat_eq (Nat.eq_zero_of_not_pos positive)
    have null : A.alloc (bitmapSize (totalMemory / pageSize)) s.mem = some (0, s.mem) := by
      rw [zero]
      exact answered.resolve_left positive s.mem
    refine ⟨_, blocks, initFrames_of_some null,
      (room.mono (show 0xD0000 ≤ _ by decide)).stable fun x outside => ?_⟩
    rw [Nat.sub_eq_zero_of_le (Nat.le_trans (Nat.le_of_not_lt positive) (by decide)),
      freeFramesLoop]
    refine fill_apply_of_not_covers fun inside => ?_
    have no_bytes : (bitmapSize (totalMemory / pageSize)).toNat = 0 := by
      rw [zero]
      rfl
    rw [no_bytes] at inside
    exact Nat.lt_irrefl _ (Nat.lt_of_le_of_lt inside.1 inside.2)

/-- A directory fits where there is room. -/
theorem pagingCreateDirectory_kernel {blocks : List Extent} {room : ℕ}
    (holds : HeapRoom 0x100000 0x100000 room blocks s.mem) (enough : 8216 ≤ room) :
    ∃ dir s' blocks', pagingCreateDirectory A.alloc s = .ok (dir, s') ∧ dir ≠ 0 ∧
      HeapRoom 0x100000 0x100000 (room - 8211) blocks' s'.mem := by
  obtain ⟨p, mem', answer, nonnull, holds'⟩ := holds.alloc (n := PageDirectory.sizeof)
    (by decide) (by decide) (by rw [show PageDirectory.sizeof.toNat = 8196 from rfl]; omega)
  have fits : p.toNat + 8196 ≤ 2 ^ 32 := holds'.heapHolds.fits List.mem_cons_self
  refine ⟨p, _, _, pagingCreateDirectory_eq_ok.mpr
    ⟨mem', like.answers _ _ _ _ answer nonnull, rfl⟩, nonnull,
    (holds'.mono (show room - 8211 ≤ _ from ?_)).stable fun x outside => ?_⟩
  · rw [show PageDirectory.sizeof.toNat = 8196 from rfl]
    omega
  · exact PageDirectory.create_apply fits mem' (outside _ List.mem_cons_self)

/-- A table fits where there is room. -/
theorem tableAlloc_kernel {blocks : List Extent} {room : ℕ}
    (holds : HeapRoom 0x100000 0x100000 room blocks s.mem) (enough : 4116 ≤ room) :
    ∃ table mem', A.alloc PageTable.sizeof s.mem = some (table, mem') ∧ table ≠ 0 := by
  obtain ⟨p, mem', answer, nonnull, -⟩ := holds.alloc (n := PageTable.sizeof) (by decide)
    (by decide) (by rw [show PageTable.sizeof.toNat = 4096 from rfl]; omega)
  exact ⟨p, mem', like.answers _ _ _ _ answer nonnull, nonnull⟩

/-- The bitmap is not placed at `NULL`, unless it has no bytes. -/
theorem bitmapNonNull_kernel (boot : KernelBoot s) (totalMemory : Word) :
    BitmapNonNull A totalMemory s := by
  intro p mem₁ call
  by_cases positive : 0 < (totalMemory / pageSize).toNat
  · obtain ⟨blocks, room⟩ := boot.room
    have small := totalFrames_lt totalMemory
    have bytes := toNat_bitmapSize small
    obtain ⟨q, mem₂, answer, nonnull, -⟩ := room.alloc
      (n := bitmapSize (totalMemory / pageSize)) (by omega) (bitmapSize_le totalMemory)
      (by omega)
    have same := (like.answers _ _ _ _ answer nonnull).symm.trans call
    rw [Option.some.injEq, Prod.mk.injEq] at same
    exact Or.inl (same.1 ▸ nonnull)
  · exact Or.inr (BitVec.eq_of_toNat_eq (Nat.eq_zero_of_not_pos positive))

/-- None of the requests of `paging_init` is answered with `NULL`. -/
theorem bootNonNull_kernel (boot : KernelBoot s) (totalMemory : Word)
    (answered : 0 < (totalMemory / pageSize).toNat ∨ ∀ mem, A.alloc 0 mem = some (0, mem)) :
    BootNonNull A totalMemory s := by
  obtain ⟨s₁, blocks, frames, room₁⟩ := initFrames_kernel like boot totalMemory answered
  obtain ⟨dir, s₂, blocks', created, nonnull, room₂⟩ :=
    pagingCreateDirectory_kernel like room₁ (by decide)
  obtain ⟨table, mem', answer, nonnull'⟩ := tableAlloc_kernel like room₂ (by decide)
  refine ⟨bitmapNonNull_kernel like boot totalMemory, fun t₁ frames' d t₂ created' => ?_,
    fun t₁ frames' d t₂ created' _ p mem₁ call => ?_⟩
  · obtain rfl := Except.ok.inj (frames.symm.trans frames')
    obtain ⟨rfl, -⟩ := Prod.mk.inj (Except.ok.inj (created.symm.trans created'))
    exact nonnull
  · obtain rfl := Except.ok.inj (frames.symm.trans frames')
    obtain ⟨rfl, rfl⟩ := Prod.mk.inj (Except.ok.inj (created.symm.trans created'))
    have same := answer.symm.trans call
    rw [Option.some.injEq, Prod.mk.injEq] at same
    exact same.1 ▸ nonnull'

/-- `paging_init` gets to its second loop. -/
theorem initDirectory_kernel (boot : KernelBoot s) (totalMemory : Word)
    (answered : 0 < (totalMemory / pageSize).toNat ∨ ∀ mem, A.alloc 0 mem = some (0, mem)) :
    ∃ s₁, initDirectory A.alloc totalMemory s = .ok s₁ ∧
      A.alloc PageTable.sizeof s₁.mem ≠ none := by
  obtain ⟨s₁, blocks, frames, room₁⟩ := initFrames_kernel like boot totalMemory answered
  obtain ⟨dir, s₂, blocks', created, -, room₂⟩ :=
    pagingCreateDirectory_kernel like room₁ (by decide)
  obtain ⟨table, mem', answer, -⟩ := tableAlloc_kernel like room₂ (by decide)
  refine ⟨{ s₂ with kernelDirectory := dir }, ?_, ?_⟩
  · rw [initDirectory]
    exact bind_eq_ok.mpr ⟨s₁, frames, bind_eq_ok.mpr ⟨(dir, s₂), created, rfl⟩⟩
  · rw [show ({ s₂ with kernelDirectory := dir } : Machine).mem = s₂.mem from rfl, answer]
    exact Option.some_ne_none _

/-- **On the heap of the kernel `paging_init` returns when there are 1280 frames.** -/
theorem pagingInit_kernel (boot : KernelBoot s) {totalMemory : Word}
    (enough : 1280 ≤ (totalMemory / pageSize).toNat) :
    ∃ s', pagingInit A.alloc totalMemory s = .ok s' := by
  have answered : 0 < (totalMemory / pageSize).toNat ∨
      ∀ mem, A.alloc 0 mem = some (0, mem) := Or.inl (by omega)
  obtain ⟨s₁, started, table⟩ := initDirectory_kernel like boot totalMemory answered
  exact pagingInit_returns (boot.booting like) (bootNonNull_kernel like boot totalMemory answered)
    started table enough

end Requests

/-! ## `paging_init` after `kernel_main` -/

section Booted

variable {totalMemory : Word} {s s' : Machine} (boot : KernelBoot s)
include boot

theorem KernelBoot.bootingKernel : Booting kernelHeap s := boot.booting answersLikeHeap_kernelHeap

theorem KernelBoot.nonNull (totalMemory : Word) : BootNonNull kernelHeap totalMemory s :=
  bootNonNull_kernel answersLikeHeap_kernelHeap boot totalMemory (Or.inr fun _ => rfl)

/-- What `paging_init` leaves behind on the heap of the kernel. -/
theorem pagingInit_kernel_spec (call : pagingInit kernelHeap.alloc totalMemory s = .ok s') :
    PagingInv kernelHeap s' [s'.kernelDirectory]
        (mappedPool totalMemory s'.kernelDirectory 1024) ∧
      s'.totalFrames = totalMemory / pageSize ∧ surplus s' = totalMemory / pageSize ∧
      1280 ≤ (totalMemory / pageSize).toNat :=
  pagingInit_spec boot.bootingKernel (boot.nonNull totalMemory) call

/-- `paging_init` returns from five mebibytes on, and panics below. -/
theorem pagingInit_returns_iff :
    (∃ s', pagingInit kernelHeap.alloc totalMemory s = .ok s') ↔
      0x500000 ≤ totalMemory.toNat := by
  have frames := toNat_totalFrames totalMemory
  constructor
  · rintro ⟨s', call⟩
    have enough := (pagingInit_kernel_spec boot call).2.2.2
    omega
  · intro enough
    exact pagingInit_kernel answersLikeHeap_kernelHeap boot (by omega)

end Booted

/-- `kernel_main` sets up its heap, whatever the memory held before. -/
theorem exists_kernelBoot : ∃ s, KernelBoot s := by
  have inv : HeapInv 0x100000 0x100000 _ _ :=
    heapInv_memoryInit (by decide) (by decide) (by decide) fun _ => 0
  rcases inv.memoryAlloc_spec 64 with ⟨answer, -, -⟩ | ⟨b, bs', p, mem', -, -, answer, -⟩
  · exact ⟨⟨_, 0, 0, 0, 0, 0, 0⟩, ⟨⟨_, _, answer⟩, rfl, rfl⟩⟩
  · exact ⟨⟨mem', 0, 0, 0, 0, 0, 0⟩, ⟨⟨_, _, answer⟩, rfl, rfl⟩⟩

end CocosOS.Kernel.Memory
