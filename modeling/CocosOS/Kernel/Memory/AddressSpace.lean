import CocosOS.Kernel.Memory.PagingRuns

/-!
# The kernel under its own page tables

`paging_init` maps the first four mebibytes before it turns paging on, so the code that runs and
the pointers stored so far are from then on seen through these pages. `paging_map_page` does not
take the frame from the address it maps: it takes the lowest free one. The frames below
`start_frame` are marked, so page `k` gets frame `256 + k`, and what was at an address is from
then on one mebibyte below it (`physical_after_pagingInit`). For no size of memory does the kernel
stay where it is (`kernel_never_stays`).
-/

set_option autoImplicit false

namespace CocosOS.Kernel.Memory

open Library.ByteMemory Library.SharedPool

/-! ## Physical addresses -/

theorem toNat_physical {i : ℕ} (small : i < 2 ^ 20) (virt : Word) :
    ((BitVec.ofNat 32 i <<< 12) ||| (virt &&& (0xFFF : Word))).toNat =
      4096 * i + virt.toNat % 4096 := by
  have low : virt.toNat &&& 0xFFF = virt.toNat % 4096 := Nat.and_two_pow_sub_one_eq_mod _ 12
  have value : (BitVec.ofNat 32 i).toNat = i := by
    rw [BitVec.toNat_ofNat]
    exact Nat.mod_eq_of_lt (by omega)
  have shifted : (BitVec.ofNat 32 i <<< 12).toNat = i <<< 12 := by
    rw [BitVec.toNat_shiftLeft, value, Nat.shiftLeft_eq]
    exact Nat.mod_eq_of_lt (by omega)
  have masked : (virt &&& (0xFFF : Word)).toNat = virt.toNat % 4096 :=
    (BitVec.toNat_and _ _).trans low
  rw [BitVec.toNat_or, shifted, masked,
    ← Nat.shiftLeft_add_eq_or_of_lt (Nat.mod_lt _ (by decide)), Nat.shiftLeft_eq, Nat.mul_comm]

/-! ## After `paging_init` -/

/-- **The first four mebibytes move up by one.** -/
theorem physical_after_pagingInit {totalMemory : Word} {s s' : Machine} (boot : KernelBoot s)
    (call : pagingInit kernelHeap.alloc totalMemory s = .ok s') {virt : Word}
    (first : virt.toNat < 0x400000) :
    pagingVirtualToPhysical s'.kernelDirectory virt s' = virt + 0x100000 := by
  obtain ⟨inv, -⟩ := pagingInit_kernel_spec boot call
  have page := toNat_pageOf virt
  have held := unitOf_mappedPool totalMemory s'.kernelDirectory first
  rw [inv.shows.physical _ List.mem_cons_self virt _ held]
  refine BitVec.eq_of_toNat_eq ?_
  rw [toNat_physical (by omega), BitVec.toNat_add]
  show _ = (virt.toNat + 0x100000) % 2 ^ 32
  omega

/-! ## Where the kernel is -/

/-- `paging_init` returns, and then the addresses from the second page to the end of the first
four mebibytes are their own physical addresses, and the first page is on frame zero. -/
def KeepsKernel (totalMemory : Word) (s : Machine) : Prop :=
  ∃ s', pagingInit kernelHeap.alloc totalMemory s = .ok s' ∧
    (∀ virt : Word, 4096 ≤ virt.toNat → virt.toNat < 0x400000 →
      pagingVirtualToPhysical s'.kernelDirectory virt s' = virt) ∧
    pagingIsPagePresent s'.kernelDirectory 0 s' = true ∧
    pagingVirtualToPhysical s'.kernelDirectory 0 s' = 0

/-- The second page is not on its own frame. -/
theorem second_page_moves {totalMemory : Word} {s s' : Machine} (boot : KernelBoot s)
    (call : pagingInit kernelHeap.alloc totalMemory s = .ok s') :
    pagingVirtualToPhysical s'.kernelDirectory 0x1000 s' = 0x101000 := by
  rw [physical_after_pagingInit boot call (by decide)]
  rfl

/-- **The kernel never stays where it is.** Whatever the size of the memory, `paging_init` panics
or puts the second page on another frame. -/
theorem kernel_never_stays {s : Machine} (boot : KernelBoot s) (totalMemory : Word) :
    ¬ KeepsKernel totalMemory s := by
  rintro ⟨s', call, identity, -, -⟩
  have stays := identity 0x1000 (by decide) (by decide)
  rw [second_page_moves boot call] at stays
  exact absurd stays (by decide)

theorem kernel_never_stays_boot : ∃ s, KernelBoot s ∧ ¬ KeepsKernel 0x1000000 s := by
  obtain ⟨s, boot⟩ := exists_kernelBoot
  exact ⟨s, boot, kernel_never_stays boot 0x1000000⟩

/-- With 16 MiB `paging_init` returns, and the second page is one mebibyte up. -/
theorem second_page_on_frame_257 : ¬ ∀ (totalMemory : Word) (s : Machine),
    0x400000 ≤ totalMemory.toNat → KernelBoot s → KeepsKernel totalMemory s := by
  intro stays
  obtain ⟨s, boot⟩ := exists_kernelBoot
  obtain ⟨s', call, identity, -, -⟩ := stays 0x1000000 s (by decide) boot
  have moved := second_page_moves boot call
  rw [identity 0x1000 (by decide) (by decide)] at moved
  exact absurd moved (by decide)

end CocosOS.Kernel.Memory
