import CocosOS.Kernel.Memory.HeapRuns

/-!
# What the heap guarantees

The states of a run of the heap (`HeapRun`) satisfy the following.

* The block list in memory tiles the heap and accounts for every byte of it
  (`heap_tiling`).
* A pointer that `Memory_alloc` returns covers the bytes asked for, apart from every header
  and every other live block, exactly when rounding the request does not wrap, or when no
  block is free (`allocation_guarantee_iff`). A request above `2 ^ 32 - 4` is rounded to
  zero, and any free block answers it.
* A call changes no payload byte of a block that is live before and after it
  (`heap_isolation`).
* The block list depends on the live blocks only: releasing what was just allocated restores
  it, releases commute, and releasing everything gives back the first block
  (`heap_canonical`).
* `Memory_alloc` returns `NULL` only when no run of bytes outside the live blocks is long
  enough, and takes the lowest such run otherwise (`alloc_fails_only_when_full`).
-/

set_option autoImplicit false

namespace CocosOS.Kernel.Memory

open Library.ByteMemory Library.BlockList BlockHeader

/-! ## The block list tiles the heap -/

/-- The block list read back from memory tiles the heap, its used blocks are those of the
live pointers, and its sizes add up. Both calls return. -/
structure TiledHeap (start size : Word) (s : HeapState) (bs : List Block) : Prop where
  read_back : heapBlocks s.bounds s.mem = some bs
  first : ∃ b rest, bs = b :: rest ∧ b.addr = start.toNat
  increasing : bs.Pairwise fun b c => b.addr < c.addr
  congruent : ∀ b ∈ bs, b.addr % 4 = start.toNat % 4
  contiguous : bs.IsChain fun b c => b.addr + 12 + b.size = c.addr
  last : ∀ b ∈ bs.getLast?, b.addr + 12 + b.size = s.bounds.heapEnd.toNat
  live_once : s.live.Nodup
  used_iff_live : ∀ b ∈ bs, b.used = true ↔ ∃ p ∈ s.live, p.toNat = b.addr + 12
  live_has_block : ∀ p ∈ s.live, ∃ b ∈ bs, p.toNat = b.addr + 12
  accounted : ∃ free, memoryGetFree s.bounds s.mem = some free ∧
    free.toNat + (s.live.map (payloadSize s.mem)).sum + 12 * bs.length = size.toNat
  alloc_returns : ∀ n, ∃ p mem', memoryAlloc s.bounds n s.mem = some (p, mem')
  free_returns : ∀ p ∈ s.live, ∃ mem', memoryFree s.bounds p s.mem = some mem'

theorem tiles_contiguous {L : Layout} {a e : ℕ} {bs : List Block} (tiles : Tiles L a bs e) :
    bs.IsChain (fun b c => L.stop b = c.addr) ∧ ∀ b ∈ bs.getLast?, L.stop b = e := by
  induction bs generalizing a with
  | nil => exact ⟨List.IsChain.nil, by simp⟩
  | cons b bs ih =>
      obtain ⟨chain, last⟩ := ih tiles.2
      cases bs with
      | nil =>
          refine ⟨List.IsChain.singleton b, fun c member => ?_⟩
          rw [List.getLast?_singleton, Option.mem_some_iff] at member
          rw [← member]
          exact tiles.2
      | cons c cs =>
          refine ⟨List.isChain_cons_cons.mpr ⟨tiles.2.1.symm, chain⟩, ?_⟩
          rw [List.getLast?_cons_cons]
          exact last

/-- Free and used blocks together are all blocks. -/
theorem freeTotal_add_used (bs : List Block) :
    freeTotal bs + ((usedBlocks bs).map Block.size).sum = (bs.map Block.size).sum := by
  induction bs with
  | nil => rfl
  | cons b bs ih =>
      cases used : b.used <;> simp [freeTotal, usedBlocks, used] at ih ⊢ <;> omega

namespace HeapInv

variable {start size : Word} {s : HeapState} {bs : List Block} (inv : HeapInv start size s bs)
include inv

/-- The payloads of the live pointers are the payloads of the used blocks. -/
theorem live_total :
    (s.live.map (payloadSize s.mem)).sum = ((usedBlocks bs).map Block.size).sum := by
  have sizes := (inv.owners.map fun a => payloadSize s.mem (BitVec.ofNat 32 a)).sum_eq
  rw [List.map_map, List.map_map] at sizes
  refine Eq.trans (congrArg List.sum (List.map_congr_left fun p _ => ?_))
    (sizes.trans (congrArg List.sum (List.map_congr_left fun b member => ?_)))
  · rw [Function.comp_apply, BitVec.ofNat_toNat, BitVec.setWidth_eq]
  · rw [mem_usedBlocks] at member
    have below := inv.payload_lt b member.1
    have fits := inv.fits
    refine inv.payloadSize_eq member.1 ?_
    rw [BitVec.toNat_ofNat, heapLayout_payload]
    exact (Nat.mod_eq_of_lt (by omega)).symm

theorem exists_free_total : ∃ free, memoryGetFree s.bounds s.mem = some free ∧
    free.toNat = freeTotal bs := by
  have total := inv.tiles.total
  have parts := freeTotal_add_used bs
  have fits := inv.fits
  rw [memoryGetFree, inv.heapStart_eq]
  obtain ⟨free, answer, sum⟩ := getFreeLoop_spec 0 inv.chain inv.length_lt
    (by simp only [BitVec.ofNat_eq_ofNat, BitVec.toNat_ofNat, Nat.zero_mod]; omega)
  exact ⟨free, answer, by simpa using sum⟩

theorem tiledHeap : TiledHeap start size s bs := by
  have contiguous := tiles_contiguous inv.tiles
  refine ⟨inv.heapBlocks_eq, ?_, inv.tiles.addr_lt, inv.aligned, contiguous.1, ?_,
    inv.live_nodup, ?_, ?_, ?_, ?_, ?_⟩
  · cases shape : bs with
    | nil =>
        have total := inv.tiles.total
        have room := inv.room
        simp only [shape, List.map_nil, List.sum_nil, List.length_nil] at total
        omega
    | cons b rest =>
        have tiles := inv.tiles
        rw [shape] at tiles
        exact ⟨b, rest, rfl, tiles.1⟩
  · intro b member
    rw [inv.toNat_heapEnd]
    exact contiguous.2 b member
  · intro b member
    constructor
    · exact inv.exists_live member
    · rintro ⟨p, live, payload⟩
      obtain ⟨c, hc, used, owner⟩ := inv.exists_block live
      rw [← inv.tiles.eq_of_addr hc member (by omega)]
      exact used
  · intro p live
    obtain ⟨b, member, -, owner⟩ := inv.exists_block live
    exact ⟨b, member, owner.symm⟩
  · obtain ⟨free, answer, sum⟩ := inv.exists_free_total
    refine ⟨free, answer, ?_⟩
    have total := inv.tiles.total
    have parts := freeTotal_add_used bs
    rw [heapLayout_header] at total
    rw [inv.live_total, sum]
    omega
  · intro n
    rcases inv.memoryAlloc_spec n with ⟨answer, -, -⟩ | ⟨-, -, p, mem', -, -, answer, -⟩
    · exact ⟨0, s.mem, answer⟩
    · exact ⟨p, mem', answer⟩
  · intro p live
    obtain ⟨mem', answer, -, -⟩ := inv.memoryFree_spec live
    exact ⟨mem', answer⟩

end HeapInv

/-- **The block list tiles the heap in every state of every run.** -/
theorem heap_tiling {start size : Word} (low : 16 ≤ start.toNat) (room : 12 < size.toNat)
    (fits : start.toNat + size.toNat < 2 ^ 32) {s : HeapState} {bs : List Block}
    (run : HeapRun start size s bs) : TiledHeap start size s bs :=
  (run.inv low room fits).tiledHeap

theorem heap_tiling_kernel :
    ∃ (s : HeapState) (bs : List Block), s.live.length = 1 ∧ TiledHeap 0x100000 0x100000 s bs := by
  obtain ⟨s, bs, run, one⟩ := kernel_run
  exact ⟨s, bs, one, heap_tiling (by decide) (by decide) (by decide) run⟩

/-! ## What an allocated pointer covers -/

/-- Whatever pointer a request for `n` bytes returns, its `n` bytes lie in the heap, in no
header, and in no other live block. -/
def Guaranteed (s : HeapState) (n : Word) : Prop :=
  ∀ p mem', memoryAlloc s.bounds n s.mem = some (p, mem') → p ≠ 0 → ∀ i < n.toNat,
    (s.bounds.heapStart.toNat ≤ p.toNat + i ∧ p.toNat + i < s.bounds.heapEnd.toNat) ∧
    (∀ bs', heapBlocks s.bounds mem' = some bs' → ∀ b ∈ bs',
      p.toNat + i < b.addr ∨ b.addr + 12 ≤ p.toNat + i) ∧
    ∀ q ∈ s.live, p.toNat + i < q.toNat ∨ q.toNat + payloadSize mem' q ≤ p.toNat + i

namespace HeapInv

variable {start size : Word} {s : HeapState} {bs : List Block} (inv : HeapInv start size s bs)
include inv

/-- A request that does not wrap is guaranteed. -/
theorem guaranteed_of_le {n : Word} (small : n.toNat ≤ 2 ^ 32 - 4) : Guaranteed s n := by
  intro p mem' call nonnull i inside
  obtain ⟨b, bs', -, chosen, payload, blocks⟩ := inv.memoryAlloc_answered call nonnull
  have after := inv.alloc call
  rw [if_neg nonnull, blocks] at after
  obtain ⟨c, hc, used, owner⟩ := after.exists_block List.mem_cons_self
  have enough := inv.le_payloadSize_alloc small call nonnull
  rw [show payloadSize mem' p = c.size from after.payloadSize_eq hc owner] at enough
  have bounds := after.tiles.bounds c hc
  rw [heapLayout_stop] at bounds
  refine ⟨⟨?_, ?_⟩, ?_, ?_⟩
  · rw [inv.heapStart_eq]
    omega
  · rw [inv.toNat_heapEnd]
    omega
  · intro bs'' read d hd
    have same := after.heapBlocks_eq
    rw [show heapBlocks s.bounds mem' = some bs'' from read, Option.some.injEq] at same
    rw [same] at hd
    rcases after.tiles.trichotomy c hc d hd with rfl | before | behind
    · omega
    · rw [heapLayout_stop] at before
      omega
    · rw [heapLayout_stop] at behind
      omega
  · intro r live
    obtain ⟨d, hd, used_d, owner_d⟩ := after.exists_block (List.mem_cons_of_mem p live)
    rw [show payloadSize mem' r = d.size from after.payloadSize_eq hd owner_d]
    rcases after.tiles.trichotomy c hc d hd with rfl | before | behind
    · have once := after.live_nodup
      rw [List.nodup_cons] at once
      exact absurd (BitVec.eq_of_toNat_eq (owner.symm.trans owner_d) ▸ live) once.1
    · rw [heapLayout_stop] at before
      omega
    · rw [heapLayout_stop] at behind
      omega

/-- When no block is free, every request returns `NULL`. -/
theorem guaranteed_of_used (full : ∀ b ∈ bs, b.used = true) (n : Word) : Guaranteed s n := by
  intro p mem' call nonnull
  obtain ⟨b, bs', -, chosen, -⟩ := inv.memoryAlloc_answered call nonnull
  obtain ⟨member, unused, -⟩ := mem_of_allocate chosen
  rw [full b member] at unused
  exact absurd unused.symm Bool.false_ne_true

/-- A request that wraps is answered with the first free block, which cannot hold it. -/
theorem not_guaranteed_of_lt {n : Word} (large : 2 ^ 32 - 4 < n.toNat) {b : Block}
    (member : b ∈ bs) (unused : b.used = false) : ¬ Guaranteed s n := by
  intro guaranteed
  rcases inv.memoryAlloc_spec n with ⟨-, -, zero | misfit⟩ |
    ⟨c, bs', p, mem', -, chosen, answer, payload, -⟩
  · rw [zero] at large
    simp at large
  · refine misfit b member ⟨unused, ?_⟩
    rw [roundSize_eq_zero_of_lt large]
    exact Nat.zero_le b.size
  · have last := (guaranteed p mem' answer (ne_zero_of_toNat_pos (by omega)) (n.toNat - 1)
      (by omega)).1.2
    have fits := inv.fits
    rw [inv.toNat_heapEnd] at last
    omega

end HeapInv

/-- **An allocated pointer covers what was asked for, exactly when the rounding does not
wrap or no block is free.** -/
theorem allocation_guarantee_iff {start size : Word} (low : 16 ≤ start.toNat)
    (room : 12 < size.toNat) (fits : start.toNat + size.toNat < 2 ^ 32) {s : HeapState}
    {bs : List Block} (run : HeapRun start size s bs) (n : Word) :
    Guaranteed s n ↔ n.toNat ≤ 2 ^ 32 - 4 ∨ ∀ b ∈ bs, b.used = true := by
  have inv := run.inv low room fits
  constructor
  · intro guaranteed
    by_contra neither
    rw [not_or, Nat.not_le] at neither
    obtain ⟨large, not_full⟩ := neither
    refine not_full fun b member => ?_
    by_contra unused
    exact inv.not_guaranteed_of_lt large member (by simpa using unused) guaranteed
  · rintro (small | full)
    · exact inv.guaranteed_of_le small
    · exact inv.guaranteed_of_used full n

theorem allocation_guarantee_iff_kernel :
    ∃ (s : HeapState) (bs : List Block), s.live.length = 1 ∧
      (Guaranteed s 4096 ↔
        (4096 : Word).toNat ≤ 2 ^ 32 - 4 ∨ ∀ b ∈ (bs : List Block), b.used = true) := by
  obtain ⟨s, bs, run, one⟩ := kernel_run
  exact ⟨s, bs, one, allocation_guarantee_iff (by decide) (by decide) (by decide) run 4096⟩

/-- The first request of the kernel heap, for `2 ^ 32 - 1` bytes, returns a pointer that
does not cover them. -/
theorem allocation_not_guaranteed :
    ∃ s bs, HeapRun 0x100000 0x100000 s bs ∧ 1 ≤ (0xFFFFFFFF : Word).toNat ∧
      ¬ Guaranteed s 0xFFFFFFFF := by
  have run : HeapRun 0x100000 0x100000 _ _ := HeapRun.init fun _ => 0
  have inv := run.inv (by decide) (by decide) (by decide)
  exact ⟨_, _, run, by decide,
    inv.not_guaranteed_of_lt (by decide) (List.mem_singleton.mpr rfl) rfl⟩

/-! ## Isolation -/

/-- The memory after a call: the payloads of the given live pointers and everything outside
the heap are as before, and the headers read back as the given list. -/
structure Isolated (start size : Word) (s : HeapState) (kept : List Word) (mem' : Mem)
    (bs' : List Block) : Prop where
  payloads : ∀ q ∈ kept, ∀ x, Covers q (payloadSize s.mem q) x → mem' x = s.mem x
  outside : ∀ x, ¬ Covers start size.toNat x → mem' x = s.mem x
  read_back : heapBlocks s.bounds mem' = some bs'

namespace HeapInv

variable {start size : Word} {s : HeapState} {bs : List Block} (inv : HeapInv start size s bs)
include inv

/-- A change inside blocks of other holders keeps the payloads of live blocks, and everything
outside the heap. -/
theorem isolated_of_frame {kept : List Word} {mem' : Mem} {bs' : List Block}
    (held : ∀ q ∈ kept, q ∈ s.live) (changed : Block → Prop)
    (apart : ∀ q ∈ kept, ∀ b ∈ bs, changed b → b.addr + 12 ≠ q.toNat)
    (frame : ∀ x : Word, (∀ b ∈ bs, changed b → x.toNat < b.addr ∨ heapLayout.stop b ≤ x.toNat) →
      mem' x = s.mem x)
    (read_back : heapBlocks s.bounds mem' = some bs') : Isolated start size s kept mem' bs' := by
  refine ⟨fun q hq x inside => frame x fun b hb change => ?_,
    fun x outside => frame x fun b hb _ => ?_, read_back⟩
  · obtain ⟨d, hd, -, owner⟩ := inv.exists_block (held q hq)
    rw [inv.payloadSize_eq hd owner] at inside
    have lower := inside.1
    have upper := inside.2
    rcases inv.tiles.trichotomy d hd b hb with rfl | before | behind
    · exact absurd owner (apart q hq d hb change)
    · rw [heapLayout_stop] at before
      exact Or.inl (by omega)
    · exact Or.inr (by omega)
  · have bounds := inv.tiles.bounds b hb
    rw [not_covers_iff] at outside
    omega

theorem isolated_alloc (n : Word) : ∃ p mem', memoryAlloc s.bounds n s.mem = some (p, mem') ∧
    p.toNat = (allocBlocks n bs).1 ∧
    Isolated start size s s.live mem' (allocBlocks n bs).2 := by
  rcases inv.memoryAlloc_spec n with ⟨answer, blocks, -⟩ |
    ⟨b, bs', p, mem', -, chosen, answer, payload, blocks, -, frame⟩
  · refine ⟨0, s.mem, answer, by rw [blocks]; rfl, ?_⟩
    rw [blocks]
    exact ⟨fun _ _ _ _ => rfl, fun _ _ => rfl, inv.heapBlocks_eq⟩
  · have after := (inv.alloc answer).heapBlocks_eq
    obtain ⟨member, unused, -⟩ := mem_of_allocate chosen
    refine ⟨p, mem', answer, by rw [blocks], ?_⟩
    refine inv.isolated_of_frame (fun q hq => hq) (· = b) ?_ ?_ after
    · rintro q hq c hc rfl same
      obtain ⟨d, hd, used, owner⟩ := inv.exists_block hq
      rw [inv.tiles.eq_of_addr hd hc (by omega), unused] at used
      exact Bool.false_ne_true used
    · intro x outside
      exact frame x (outside b member rfl)

theorem isolated_free {p : Word} (live : p ∈ s.live) :
    ∃ mem', memoryFree s.bounds p s.mem = some mem' ∧
      Isolated start size s (s.live.erase p) mem' (freeBlocks p bs) := by
  obtain ⟨mem', answer, -, frame⟩ := inv.memoryFree_spec live
  have after := (inv.free live answer).heapBlocks_eq
  refine ⟨mem', answer, ?_⟩
  refine inv.isolated_of_frame (fun q hq => List.mem_of_mem_erase hq)
    (fun c => c.used = false ∨ c.addr + 12 = p.toNat) ?_ ?_ after
  · rintro q hq c hc (unused | released) same
    · obtain ⟨d, hd, used, owner⟩ := inv.exists_block (List.mem_of_mem_erase hq)
      rw [inv.tiles.eq_of_addr hd hc (by omega), unused] at used
      exact Bool.false_ne_true used
    · rw [inv.live_nodup.mem_erase_iff] at hq
      exact hq.1 (BitVec.eq_of_toNat_eq (same.symm.trans released))
  · intro x outside
    refine frame x fun c hc change => ?_
    have far := outside c hc change
    rw [heapLayout_stop] at far
    omega

end HeapInv

/-- **A call reaches no byte of a block that is live before and after it.** In every state of
every run the headers in memory read back as the list of the allocator on lists. One more
`Memory_alloc`, or `Memory_free` of a live pointer, keeps every payload byte of the blocks
that stay live, keeps every byte outside the heap, and leaves headers that read back as what
the allocator on lists makes of its list. -/
theorem heap_isolation {start size : Word} (low : 16 ≤ start.toNat) (room : 12 < size.toNat)
    (fits : start.toNat + size.toNat < 2 ^ 32) {s : HeapState} {bs : List Block}
    (run : HeapRun start size s bs) :
    heapBlocks s.bounds s.mem = some bs ∧
    (∀ n, ∃ p mem', memoryAlloc s.bounds n s.mem = some (p, mem') ∧
      p.toNat = (allocBlocks n bs).1 ∧
      Isolated start size s s.live mem' (allocBlocks n bs).2) ∧
    ∀ p ∈ s.live, ∃ mem', memoryFree s.bounds p s.mem = some mem' ∧
      Isolated start size s (s.live.erase p) mem' (freeBlocks p bs) := by
  have inv := run.inv low room fits
  exact ⟨inv.heapBlocks_eq, inv.isolated_alloc, fun p live => inv.isolated_free live⟩

theorem heap_isolation_kernel :
    ∃ (s : HeapState) (bs : List Block), s.live.length = 1 ∧ heapBlocks s.bounds s.mem = some bs ∧
      ∀ p ∈ s.live, ∃ mem', memoryFree s.bounds p s.mem = some mem' ∧
        Isolated 0x100000 0x100000 s (s.live.erase p) mem' (freeBlocks p bs) := by
  obtain ⟨s, bs, run, one⟩ := kernel_run
  have isolation := heap_isolation (by decide) (by decide) (by decide) run
  exact ⟨s, bs, one, isolation.1, isolation.2.2⟩

/-! ## The block list depends on the live blocks only -/

/-- `Memory_free` on each pointer of a list, in order. -/
def freeAll (bounds : HeapBounds) : List Word → Mem → Option Mem
  | [], mem => some mem
  | p :: ps, mem => (memoryFree bounds p mem).bind (freeAll bounds ps)

namespace HeapInv

variable {start size : Word} {s : HeapState} {bs : List Block}

/-- Releasing a block right after it was allocated restores the list. -/
theorem free_after_alloc (inv : HeapInv start size s bs) {n p : Word} {mem' : Mem}
    (call : memoryAlloc s.bounds n s.mem = some (p, mem')) (nonnull : p ≠ 0) :
    ∃ mem'', memoryFree s.bounds p mem' = some mem'' ∧ heapBlocks s.bounds mem'' = some bs := by
  have after := inv.alloc call
  rw [if_neg nonnull] at after
  obtain ⟨mem'', answer, -, -⟩ := after.memoryFree_spec List.mem_cons_self
  have restored := (after.free List.mem_cons_self answer).heapBlocks_eq
  refine ⟨mem'', answer, restored.trans (congrArg some ?_)⟩
  obtain ⟨b, bs', -, chosen, payload, blocks⟩ := inv.memoryAlloc_answered call nonnull
  rw [blocks, freeBlocks, payload, Nat.add_sub_cancel]
  exact free_allocate inv.tiles inv.canonical chosen

/-- The list after two releases. -/
theorem freeAll_pair (inv : HeapInv start size s bs) {p q : Word} (hp : p ∈ s.live)
    (hq : q ∈ s.live) (ne : p ≠ q) :
    ∃ mem', freeAll s.bounds [p, q] s.mem = some mem' ∧
      heapBlocks s.bounds mem' = some (freeBlocks q (freeBlocks p bs)) := by
  obtain ⟨mem₁, first, -, -⟩ := inv.memoryFree_spec hp
  have after := inv.free hp first
  have still : q ∈ s.live.erase p := (List.mem_erase_of_ne ne.symm).mpr hq
  obtain ⟨mem₂, second, -, -⟩ := after.memoryFree_spec still
  refine ⟨mem₂, ?_, (after.free still second).heapBlocks_eq⟩
  rw [freeAll, first, Option.bind_some, freeAll, second]
  rfl

/-- Releasing every live pointer, in any order, leaves one free block. -/
theorem freeAll_live (order : List Word) : ∀ {s : HeapState} {bs : List Block},
    HeapInv start size s bs → order.Perm s.live →
    ∃ mem', freeAll s.bounds order s.mem = some mem' ∧
      heapBlocks s.bounds mem' = some [⟨start.toNat, size.toNat - 12, false⟩] := by
  induction order with
  | nil =>
      intro s bs inv perm
      have owners := inv.owners
      rw [← perm.nil_eq, List.map_nil, List.nil_perm, List.map_eq_nil_iff] at owners
      have room := inv.room
      have single := eq_singleton_of_usedBlocks_nil inv.tiles inv.canonical
        (by rw [heapLayout_header]; omega) owners
      refine ⟨s.mem, rfl, inv.heapBlocks_eq.trans ?_⟩
      rw [single, heapLayout_header, Nat.add_sub_cancel_left]
  | cons p ps ih =>
      intro s bs inv perm
      obtain ⟨live, rest⟩ := List.cons_perm_iff_perm_erase.mp perm
      obtain ⟨mem₁, first, -, -⟩ := inv.memoryFree_spec live
      obtain ⟨mem', later, single⟩ := ih (inv.free live first) rest
      refine ⟨mem', ?_, single⟩
      rw [freeAll, first, Option.bind_some]
      exact later

end HeapInv

/-- **The block list depends on the live blocks only**, in every state of every run:
an allocation that is released at once restores the list; two releases commute; releasing
all live pointers, in any order, leaves the free block that `Memory_init` made. -/
theorem heap_canonical {start size : Word} (low : 16 ≤ start.toNat) (room : 12 < size.toNat)
    (fits : start.toNat + size.toNat < 2 ^ 32) {s : HeapState} {bs : List Block}
    (run : HeapRun start size s bs) :
    heapBlocks s.bounds s.mem = some bs ∧
    (∀ n p mem', memoryAlloc s.bounds n s.mem = some (p, mem') → p ≠ 0 →
      ∃ mem'', memoryFree s.bounds p mem' = some mem'' ∧ heapBlocks s.bounds mem'' = some bs) ∧
    (∀ p ∈ s.live, ∀ q ∈ s.live, p ≠ q → ∃ mem₁ mem₂ bs',
      freeAll s.bounds [p, q] s.mem = some mem₁ ∧ freeAll s.bounds [q, p] s.mem = some mem₂ ∧
      heapBlocks s.bounds mem₁ = some bs' ∧ heapBlocks s.bounds mem₂ = some bs') ∧
    ∀ order : List Word, order.Perm s.live →
      ∃ mem', freeAll s.bounds order s.mem = some mem' ∧
        heapBlocks s.bounds mem' = some [⟨start.toNat, size.toNat - 12, false⟩] := by
  have inv := run.inv low room fits
  refine ⟨inv.heapBlocks_eq, fun n p mem' call nonnull => inv.free_after_alloc call nonnull, ?_,
    fun order perm => inv.freeAll_live order perm⟩
  intro p hp q hq ne
  obtain ⟨mem₁, first, one⟩ := inv.freeAll_pair hp hq ne
  obtain ⟨mem₂, second, two⟩ := inv.freeAll_pair hq hp ne.symm
  refine ⟨mem₁, mem₂, _, first, second, one, two.trans (congrArg some ?_)⟩
  exact free_comm inv.tiles

theorem heap_canonical_kernel :
    ∃ s : HeapState, s.live.length = 1 ∧ ∀ order : List Word, order.Perm s.live →
      ∃ mem', freeAll s.bounds order s.mem = some mem' ∧
        heapBlocks s.bounds mem' = some [⟨0x100000, 0x100000 - 12, false⟩] := by
  obtain ⟨s, bs, run, one⟩ := kernel_run
  exact ⟨s, one, (heap_canonical (by decide) (by decide) (by decide) run).2.2.2⟩

/-! ## When a request fails -/

/-- The address lies in a live block, header included. -/
def LiveByte (s : HeapState) (x : ℕ) : Prop :=
  ∃ p ∈ s.live, p.toNat - 12 ≤ x ∧ x < p.toNat + payloadSize s.mem p

/-- The heap bytes from `a` to `e` are a maximal run outside the live blocks. -/
def FreeRun (s : HeapState) (a e : ℕ) : Prop :=
  MaximalRun (fun x => ¬ LiveByte s x) s.bounds.heapStart.toNat s.bounds.heapEnd.toNat a e

namespace HeapInv

variable {start size : Word} {s : HeapState} {bs : List Block} (inv : HeapInv start size s bs)
include inv

theorem liveByte_iff (x : ℕ) : LiveByte s x ↔ InUse heapLayout bs x := by
  constructor
  · rintro ⟨p, live, lower, upper⟩
    obtain ⟨b, member, used, owner⟩ := inv.exists_block live
    rw [inv.payloadSize_eq member owner] at upper
    exact ⟨b, member, used, by omega, by rw [heapLayout_stop]; omega⟩
  · rintro ⟨b, member, used, lower, upper⟩
    obtain ⟨p, live, owner⟩ := inv.exists_live member used
    rw [heapLayout_stop] at upper
    refine ⟨p, live, by omega, ?_⟩
    rw [inv.payloadSize_eq member owner.symm]
    omega

/-- The maximal runs outside the live blocks are the free blocks. -/
theorem freeRun_iff {a e : ℕ} :
    FreeRun s a e ↔ ∃ b ∈ bs, b.used = false ∧ a = b.addr ∧ e = b.addr + 12 + b.size := by
  have same : (fun x => ¬ LiveByte s x) = fun x => ¬ InUse heapLayout bs x :=
    funext fun x => propext (not_congr (inv.liveByte_iff x))
  rw [FreeRun, same, inv.heapStart_eq, inv.toNat_heapEnd]
  exact maximalRun_iff inv.tiles inv.canonical

end HeapInv

/-- **`Memory_alloc` fails only when it must**, in every state of every run. No two
neighbours are free. A request `n` fails exactly when every maximal run of heap bytes outside
the live blocks is shorter than a header and the rounded request; it then changes nothing.
Otherwise its block starts at the lowest run that is long enough. -/
theorem alloc_fails_only_when_full {start size : Word} (low : 16 ≤ start.toNat)
    (room : 12 < size.toNat) (fits : start.toNat + size.toNat < 2 ^ 32) {s : HeapState}
    {bs : List Block} (run : HeapRun start size s bs) :
    heapBlocks s.bounds s.mem = some bs ∧
    (bs.IsChain fun b c => ¬ (b.used = false ∧ c.used = false)) ∧
    ∀ n : Word, 1 ≤ n.toNat → n.toNat ≤ 2 ^ 32 - 4 →
      ∃ p mem', memoryAlloc s.bounds n s.mem = some (p, mem') ∧
        (p = 0 ↔ ∀ a e, FreeRun s a e → e - a < 12 + (n.toNat + 3) / 4 * 4) ∧
        (p = 0 → mem' = s.mem) ∧
        (p ≠ 0 → ∃ a e, FreeRun s a e ∧ 12 + (n.toNat + 3) / 4 * 4 ≤ e - a ∧
          p.toNat = a + 12 ∧
          ∀ a' e', FreeRun s a' e' → 12 + (n.toNat + 3) / 4 * 4 ≤ e' - a' → a ≤ a') := by
  have inv := run.inv low room fits
  refine ⟨inv.heapBlocks_eq, inv.canonical.imp fun b c one_used both => by simp_all, ?_⟩
  intro n positive small
  have rounded := toNat_roundSize_of_le small
  rcases inv.memoryAlloc_spec n with ⟨answer, -, zero | misfit⟩ |
    ⟨b, bs', p, mem', -, chosen, answer, payload, -⟩
  · rw [zero] at positive
    simp at positive
  · refine ⟨0, s.mem, answer, iff_of_true rfl ?_, fun _ => rfl, fun nonnull => absurd rfl nonnull⟩
    intro a e free
    obtain ⟨b, member, unused, rfl, rfl⟩ := inv.freeRun_iff.mp free
    have short : ¬ (roundSize n).toNat ≤ b.size := fun enough => misfit b member ⟨unused, enough⟩
    omega
  · have nonnull : p ≠ 0 := ne_zero_of_toNat_pos (by omega)
    obtain ⟨member, unused, enough⟩ := mem_of_allocate chosen
    have here : FreeRun s b.addr (b.addr + 12 + b.size) :=
      inv.freeRun_iff.mpr ⟨b, member, unused, rfl, rfl⟩
    refine ⟨p, mem', answer, iff_of_false nonnull fun short => ?_,
      fun null => absurd null nonnull, fun _ => ⟨_, _, here, by omega, payload, ?_⟩⟩
    · have := short _ _ here
      omega
    · intro a' e' free long
      obtain ⟨c, hc, unused_c, rfl, rfl⟩ := inv.freeRun_iff.mp free
      -- first fit passes over no block that fits
      obtain ⟨front, back, shape, -, -, earlier⟩ := allocate_eq_some chosen
      have sorted := inv.tiles.addr_lt
      rw [shape] at hc sorted
      rcases List.mem_append.mp hc with before | behind
      · exact absurd ⟨unused_c, by omega⟩ (earlier c before)
      · rcases List.mem_cons.mp behind with rfl | after
        · exact Nat.le_refl _
        · have order := (List.pairwise_cons.mp (List.pairwise_append.mp sorted).2.1).1 c after
          omega

theorem alloc_fails_only_when_full_kernel :
    ∃ (s : HeapState) (p : Word) (mem' : Mem), s.live.length = 1 ∧
      memoryAlloc s.bounds 4096 s.mem = some (p, mem') ∧
      (p = 0 ↔ ∀ a e, FreeRun s a e → e - a < 12 + (4096 + 3) / 4 * 4) := by
  obtain ⟨s, bs, run, one⟩ := kernel_run
  obtain ⟨p, mem', answer, null, -⟩ := (alloc_fails_only_when_full (by decide) (by decide)
    (by decide) run).2.2 4096 (by decide) (by decide)
  exact ⟨s, p, mem', one, answer, null⟩

end CocosOS.Kernel.Memory
