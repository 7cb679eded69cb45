import CocosOS.Kernel.Memory.HeapRefinement
import CocosOS.Library.WordArithmetic

/-!
# Runs of the heap

A run starts with `Memory_init`. Then, in any order and number, clients call `Memory_alloc`
with any request, call `Memory_free` on pointers they still hold, and store bytes into the
payloads of blocks they hold. `HeapRun` carries the block list that an allocator on lists
reaches by the same calls, which never looks at memory.

`HeapInv` is what holds in every state of every run (`HeapRun.inv`): the headers in memory
form a chain that holds this list, the list tiles the heap, no two neighbours are free, and
the used blocks belong to the live pointers, one each. The specifications of the two calls
in such a state are `memoryAlloc_spec` and `memoryFree_spec`.
-/

set_option autoImplicit false

namespace CocosOS.Kernel.Memory

open Library.ByteMemory Library.BlockList Library.WordArithmetic BlockHeader

/-! ## Requests -/

theorem toNat_roundSize (n : Word) : (roundSize n).toNat = (n + 3).toNat / 4 * 4 :=
  toNat_and_not_mask (n + 3) 2

theorem roundSize_mod_four (n : Word) : (roundSize n).toNat % 4 = 0 := by
  rw [toNat_roundSize]
  exact Nat.mul_mod_left _ 4

/-- A request up to `2 ^ 32 - 4` is rounded up to a multiple of four. -/
theorem toNat_roundSize_of_le {n : Word} (small : n.toNat ≤ 2 ^ 32 - 4) :
    (roundSize n).toNat = (n.toNat + 3) / 4 * 4 := by
  have sum : (n + 3).toNat = n.toNat + 3 := by bv_omega
  rw [toNat_roundSize, sum]

/-- A request above `2 ^ 32 - 4` wraps around and is rounded to zero. -/
theorem roundSize_eq_zero_of_lt {n : Word} (large : 2 ^ 32 - 4 < n.toNat) :
    (roundSize n).toNat = 0 := by
  have sum : (n + 3).toNat < 4 := by bv_omega
  rw [toNat_roundSize]
  omega

/-! ## Runs -/

/-- The heap as its clients see it: the memory, the bounds, and the pointers that were
returned and not freed since. -/
structure HeapState where
  bounds : HeapBounds
  mem : Mem
  live : List Word

/-- How many bytes the holder of a pointer may use, as its header says. -/
def payloadSize (mem : Mem) (p : Word) : ℕ := (BlockHeader.size mem (p - sizeof)).toNat

/-- The allocator on lists: where the payload of a request is placed (`0` if nowhere), and
the list afterwards. -/
def allocBlocks (n : Word) (bs : List Block) : ℕ × List Block :=
  if n = 0 then (0, bs)
  else
    match allocate heapLayout (roundSize n).toNat bs with
    | none => (0, bs)
    | some (b, bs') => (heapLayout.payload b, bs')

/-- The allocator on lists: the list after the block of a pointer is released. -/
def freeBlocks (p : Word) (bs : List Block) : List Block :=
  free heapLayout (p.toNat - 12) bs

/-- The states of a run, with the list the allocator on lists has reached. -/
inductive HeapRun (start size : Word) : HeapState → List Block → Prop
  | init (mem : Mem) :
      HeapRun start size ⟨(memoryInit start size mem).1, (memoryInit start size mem).2, []⟩
        [⟨start.toNat, size.toNat - 12, false⟩]
  | alloc {s : HeapState} {bs : List Block} (run : HeapRun start size s bs) (n : Word)
      {p : Word} {mem' : Mem} (call : memoryAlloc s.bounds n s.mem = some (p, mem')) :
      HeapRun start size ⟨s.bounds, mem', if p = 0 then s.live else p :: s.live⟩
        (allocBlocks n bs).2
  | free {s : HeapState} {bs : List Block} (run : HeapRun start size s bs) {p : Word}
      (live : p ∈ s.live) {mem' : Mem} (call : memoryFree s.bounds p s.mem = some mem') :
      HeapRun start size ⟨s.bounds, mem', s.live.erase p⟩ (freeBlocks p bs)
  | write {s : HeapState} {bs : List Block} (run : HeapRun start size s bs) {p x : Word}
      (live : p ∈ s.live) (inside : Covers p (payloadSize s.mem p) x) (v : Byte) :
      HeapRun start size { s with mem := store8 s.mem x v } bs

/-- What holds in every state of a run. -/
structure HeapInv (start size : Word) (s : HeapState) (bs : List Block) : Prop where
  low : 16 ≤ start.toNat
  room : 12 < size.toNat
  fits : start.toNat + size.toNat < 2 ^ 32
  bounds : s.bounds = ⟨start, start + size⟩
  chain : Chain s.mem start bs
  tiles : Tiles heapLayout start.toNat bs (start.toNat + size.toNat)
  canonical : Canonical bs
  aligned : ∀ b ∈ bs, b.addr % 4 = start.toNat % 4
  payload_lt : ∀ b ∈ bs, b.addr + 12 < start.toNat + size.toNat
  owners : (s.live.map BitVec.toNat).Perm ((usedBlocks bs).map heapLayout.payload)

namespace HeapInv

variable {start size : Word} {s : HeapState} {bs : List Block} (inv : HeapInv start size s bs)
include inv

theorem heapStart_eq : s.bounds.heapStart = start := by
  rw [inv.bounds]

theorem toNat_heapEnd : s.bounds.heapEnd.toNat = start.toNat + size.toNat := by
  have fits := inv.fits
  rw [inv.bounds, BitVec.toNat_add]
  exact Nat.mod_eq_of_lt fits

/-- A walk over the list is short of the number of rounds a loop has. -/
theorem length_lt : bs.length < walkFuel := by
  have total := inv.tiles.total
  have fits := inv.fits
  rw [heapLayout_header] at total
  unfold walkFuel
  omega

theorem heapBlocks_eq : heapBlocks s.bounds s.mem = some bs := by
  rw [heapBlocks, inv.heapStart_eq]
  exact readBlocks_of_chain inv.chain inv.length_lt

/-- A live pointer is the payload of a used block. -/
theorem exists_block {p : Word} (live : p ∈ s.live) :
    ∃ b ∈ bs, b.used = true ∧ b.addr + 12 = p.toNat := by
  have member := inv.owners.mem_iff.mp (List.mem_map_of_mem live)
  obtain ⟨b, used, same⟩ := List.mem_map.mp member
  rw [mem_usedBlocks] at used
  exact ⟨b, used.1, used.2, same⟩

/-- A used block is the block of a live pointer. -/
theorem exists_live {b : Block} (member : b ∈ bs) (used : b.used = true) :
    ∃ p ∈ s.live, p.toNat = b.addr + 12 := by
  have owner := inv.owners.mem_iff.mpr
    (List.mem_map_of_mem (mem_usedBlocks.mpr ⟨member, used⟩))
  obtain ⟨p, live, same⟩ := List.mem_map.mp owner
  exact ⟨p, live, same⟩

theorem payloads_nodup : ((usedBlocks bs).map heapLayout.payload).Nodup := by
  refine List.pairwise_map.mpr (List.Pairwise.imp ?_ (inv.tiles.addr_lt.filter _))
  intro b c before
  rw [heapLayout_payload, heapLayout_payload]
  omega

theorem live_nodup : s.live.Nodup :=
  (inv.owners.nodup_iff.mpr inv.payloads_nodup).of_map _

/-- The header in front of a live pointer gives the size of its block. -/
theorem payloadSize_eq {p : Word} {b : Block} (member : b ∈ bs) (owner : b.addr + 12 = p.toNat) :
    payloadSize s.mem p = b.size := by
  obtain ⟨q, addr, here⟩ := inv.chain.blockAt_of_mem b member
  have back : p - sizeof = q := by
    unfold sizeof
    bv_omega
  rw [payloadSize, back]
  exact (eq_blockAt_iff.mp here).2.1

/-- The payload of a live pointer lies in the heap. -/
theorem payload_bounds {p : Word} (live : p ∈ s.live) :
    start.toNat + 12 ≤ p.toNat ∧
      p.toNat + payloadSize s.mem p ≤ start.toNat + size.toNat := by
  obtain ⟨b, member, -, owner⟩ := inv.exists_block live
  have bounds := inv.tiles.bounds b member
  rw [heapLayout_stop] at bounds
  rw [inv.payloadSize_eq member owner]
  omega

/-- The same blocks have the same payloads. -/
theorem payloadSize_congr {s' : HeapState} (after : HeapInv start size s' bs) {p : Word}
    (live : p ∈ s.live) : payloadSize s'.mem p = payloadSize s.mem p := by
  obtain ⟨b, member, -, owner⟩ := inv.exists_block live
  rw [after.payloadSize_eq member owner, inv.payloadSize_eq member owner]

/-! ## The two calls -/

/-- **`Memory_alloc` does what the allocator on lists does.** Either it returns `NULL` and
changes nothing, or it returns the payload of the block it takes and changes memory only
inside that block. -/
theorem memoryAlloc_spec (n : Word) :
    (memoryAlloc s.bounds n s.mem = some (0, s.mem) ∧ allocBlocks n bs = (0, bs) ∧
      (n = 0 ∨ ∀ b ∈ bs, ¬ Fits (roundSize n).toNat b)) ∨
    ∃ (b : Block) (bs' : List Block) (p : Word) (mem' : Mem), n ≠ 0 ∧
      allocate heapLayout (roundSize n).toNat bs = some (b, bs') ∧
      memoryAlloc s.bounds n s.mem = some (p, mem') ∧ p.toNat = b.addr + 12 ∧
      allocBlocks n bs = (p.toNat, bs') ∧ Chain mem' start bs' ∧
      ∀ x : Word, x.toNat < b.addr ∨ heapLayout.stop b ≤ x.toNat → mem' x = s.mem x := by
  by_cases zero : n = 0
  · left
    rw [memoryAlloc, if_pos zero, allocBlocks, if_pos zero]
    exact ⟨rfl, rfl, Or.inl zero⟩
  · rw [memoryAlloc, if_neg zero, inv.heapStart_eq]
    cases chosen : allocate heapLayout (roundSize n).toNat bs with
    | none =>
        left
        rw [allocLoop_none inv.chain inv.length_lt chosen, allocBlocks, if_neg zero, chosen]
        exact ⟨rfl, rfl, Or.inr (allocate_eq_none.mp chosen)⟩
    | some result =>
        right
        obtain ⟨b, bs'⟩ := result
        obtain ⟨p, mem', answer, payload, chain, frame⟩ := allocLoop_some inv.fits inv.chain
          inv.tiles inv.low inv.length_lt chosen
        refine ⟨b, bs', p, mem', zero, rfl, answer, payload, ?_, chain, frame⟩
        rw [allocBlocks, if_neg zero, chosen, payload]
        rfl

/-- A pointer returned is the payload of the first block that fits. -/
theorem memoryAlloc_answered {n p : Word} {mem' : Mem}
    (call : memoryAlloc s.bounds n s.mem = some (p, mem')) (nonnull : p ≠ 0) :
    ∃ b bs', n ≠ 0 ∧ allocate heapLayout (roundSize n).toNat bs = some (b, bs') ∧
      p.toNat = b.addr + 12 ∧ allocBlocks n bs = (p.toNat, bs') := by
  rcases inv.memoryAlloc_spec n with ⟨answer, -, -⟩ |
    ⟨b, bs', q, taken, nonzero, chosen, answer, payload, blocks, -⟩
  · rw [answer, Option.some.injEq, Prod.mk.injEq] at call
    exact absurd call.1.symm nonnull
  · rw [answer, Option.some.injEq, Prod.mk.injEq] at call
    obtain ⟨rfl, -⟩ := call
    exact ⟨b, bs', nonzero, chosen, payload, blocks⟩

/-- A request is answered if it is one for some bytes and a free block holds them. -/
theorem memoryAlloc_ne_zero_iff {n p : Word} {mem' : Mem}
    (call : memoryAlloc s.bounds n s.mem = some (p, mem')) :
    p ≠ 0 ↔ n ≠ 0 ∧ ∃ b ∈ bs, Fits (roundSize n).toNat b := by
  constructor
  · intro nonnull
    obtain ⟨b, bs', nonzero, chosen, -⟩ := inv.memoryAlloc_answered call nonnull
    exact ⟨nonzero, b, mem_of_allocate chosen⟩
  · rintro ⟨nonzero, b, member, fits⟩
    rcases inv.memoryAlloc_spec n with ⟨-, -, zero | misfit⟩ |
      ⟨c, bs', q, taken, -, -, answer, payload, -⟩
    · exact absurd zero nonzero
    · exact absurd fits (misfit b member)
    · rw [answer, Option.some.injEq, Prod.mk.injEq] at call
      exact call.1 ▸ ne_zero_of_toNat_pos (by omega)

/-- **`Memory_free` does what the allocator on lists does**, on a live pointer. It changes
memory only in headers: that of the block released, and those of free blocks. -/
theorem memoryFree_spec {p : Word} (live : p ∈ s.live) :
    ∃ mem', memoryFree s.bounds p s.mem = some mem' ∧ Chain mem' start (freeBlocks p bs) ∧
      ∀ x : Word, (∀ c ∈ bs, c.used = false ∨ c.addr + 12 = p.toNat →
        x.toNat < c.addr ∨ c.addr + 12 ≤ x.toNat) → mem' x = s.mem x := by
  obtain ⟨b, member, used, owner⟩ := inv.exists_block live
  have inside := inv.tiles.bounds b member
  have below := inv.payload_lt b member
  have low := inv.low
  have fits := inv.fits
  have header : (p - sizeof).toNat = b.addr := by
    unfold sizeof
    bv_omega
  have released : Chain (setUsed (p - sizeof) 0 s.mem) start (release b.addr bs) := by
    rw [← header]
    refine chain_release (by omega) inv.chain (tiles_fits inv.tiles fits) fun c hc => ?_
    rw [header]
    rcases inv.tiles.trichotomy c hc b member with rfl | before | after
    · exact Or.inl rfl
    · rw [heapLayout_stop] at before
      exact Or.inr (Or.inl (by omega))
    · rw [heapLayout_stop] at after
      exact Or.inr (Or.inr (by omega))
  have in_heap : ¬ (p < s.bounds.heapStart ∨ s.bounds.heapEnd ≤ p) := by
    rw [BitVec.lt_def, BitVec.le_def, inv.heapStart_eq, inv.toNat_heapEnd]
    omega
  have nonnull : p ≠ 0 := ne_zero_of_toNat_pos (by omega)
  rw [memoryFree, if_neg nonnull, if_neg in_heap, Memory.coalesce, inv.heapStart_eq, freeBlocks,
    ← owner, Nat.add_sub_cancel]
  have tiles := tiles_release (x := b.addr) inv.tiles
  have enough : (release b.addr bs).length < walkFuel := by
    rw [release, List.length_map]
    exact inv.length_lt
  cases shape : release b.addr bs with
  | nil =>
      rw [release, List.map_eq_nil_iff] at shape
      simp [shape] at member
  | cons c cs =>
      rw [shape] at released tiles enough
      obtain ⟨mem', answer, chain, frame⟩ := coalesceLoop_spec fits released tiles
        (Nat.lt_of_succ_lt enough)
      refine ⟨mem', answer, ?_, fun x outside => ?_⟩
      · rw [free, shape]
        exact chain
      · have outside_b := outside b member (Or.inr rfl)
        rw [frame x, setUsed_apply (by omega) 0 (not_covers_iff.mpr (by omega))]
        intro d hd unused
        rw [← shape, release, List.mem_map] at hd
        obtain ⟨d', hd', rfl⟩ := hd
        by_cases target : d'.addr = b.addr
        · rw [if_pos target]
          exact outside d' hd' (Or.inr (by omega))
        · rw [if_neg target] at unused ⊢
          exact outside d' hd' (Or.inl unused)

/-! ## Steps keep the invariant -/

theorem alloc {n p : Word} {mem' : Mem} (call : memoryAlloc s.bounds n s.mem = some (p, mem')) :
    HeapInv start size ⟨s.bounds, mem', if p = 0 then s.live else p :: s.live⟩
      (allocBlocks n bs).2 := by
  rcases inv.memoryAlloc_spec n with ⟨answer, blocks, -⟩ |
    ⟨b, bs', q, taken, -, chosen, answer, payload, blocks, chain, -⟩
  · rw [answer, Option.some.injEq, Prod.mk.injEq] at call
    obtain ⟨rfl, rfl⟩ := call
    rw [blocks, if_pos rfl]
    exact inv
  · rw [answer, Option.some.injEq, Prod.mk.injEq] at call
    obtain ⟨rfl, rfl⟩ := call
    rw [blocks, if_neg (ne_zero_of_toNat_pos (by omega))]
    obtain ⟨member, fit⟩ := mem_of_allocate chosen
    have tiles := tiles_allocate inv.tiles chosen
    have multiple := roundSize_mod_four n
    have aligned_b := inv.aligned b member
    have addresses := addr_allocate chosen
    refine ⟨inv.low, inv.room, inv.fits, inv.bounds, chain, tiles,
      canonical_allocate inv.canonical chosen, ?_, ?_, ?_⟩
    · intro c hc
      rcases addresses c hc with ⟨d, hd, same⟩ | ⟨-, split⟩
      · rw [← same]
        exact inv.aligned d hd
      · rw [split, heapLayout_header]
        omega
    · intro c hc
      rcases addresses c hc with ⟨d, hd, same⟩ | ⟨large, split⟩
      · rw [← same]
        exact inv.payload_lt d hd
      · -- what is split off is longer than the slack, so it has a payload
        have inside := (inv.tiles.bounds b member).2
        rw [heapLayout_stop] at inside
        rw [Splits, heapLayout_header, heapLayout_slack] at large
        rw [split, heapLayout_header]
        omega
    · obtain ⟨front, back, before, after⟩ := usedBlocks_allocate chosen
      have owners := inv.owners
      rw [before, List.map_append] at owners
      rw [after, List.map_append, List.map_cons, List.map_cons]
      refine (List.Perm.cons q.toNat owners).trans ?_
      rw [heapLayout_payload, payload]
      exact List.perm_middle.symm

/-- A pointer returned holds the request as it is rounded. -/
theorem round_le_payloadSize_alloc {n p : Word} {mem' : Mem}
    (call : memoryAlloc s.bounds n s.mem = some (p, mem')) (nonnull : p ≠ 0) :
    (roundSize n).toNat ≤ payloadSize mem' p := by
  have after := inv.alloc call
  obtain ⟨b, bs', -, chosen, payload, blocks⟩ := inv.memoryAlloc_answered call nonnull
  rw [blocks] at after
  obtain ⟨front, back, -, shape⟩ := usedBlocks_allocate chosen
  have member : (⟨b.addr, granted heapLayout (roundSize n).toNat b, true⟩ : Block) ∈
      usedBlocks bs' := by
    rw [shape]
    simp
  rw [after.payloadSize_eq (mem_usedBlocks.mp member).1 payload.symm]
  exact le_granted (mem_of_allocate chosen).2

/-- A pointer returned for a request that does not wrap holds the request. -/
theorem le_payloadSize_alloc {n p : Word} {mem' : Mem} (small : n.toNat ≤ 2 ^ 32 - 4)
    (call : memoryAlloc s.bounds n s.mem = some (p, mem')) (nonnull : p ≠ 0) :
    n.toNat ≤ payloadSize mem' p := by
  have enough := inv.round_le_payloadSize_alloc call nonnull
  have rounded := toNat_roundSize_of_le small
  omega

/-- `Memory_alloc` leaves the size of every live block. -/
theorem payloadSize_alloc {n p : Word} {mem' : Mem}
    (call : memoryAlloc s.bounds n s.mem = some (p, mem')) {q : Word} (live : q ∈ s.live) :
    payloadSize mem' q = payloadSize s.mem q := by
  have after := inv.alloc call
  obtain ⟨b, member, used, owner⟩ := inv.exists_block live
  rcases inv.memoryAlloc_spec n with ⟨answer, -, -⟩ |
    ⟨c, bs', r, taken, -, chosen, answer, payload, blocks, -, -⟩
  · rw [answer, Option.some.injEq, Prod.mk.injEq] at call
    rw [call.2]
  · rw [answer, Option.some.injEq, Prod.mk.injEq] at call
    obtain ⟨rfl, rfl⟩ := call
    rw [blocks] at after
    obtain ⟨front, back, before, shape⟩ := usedBlocks_allocate chosen
    have still := mem_usedBlocks.mpr ⟨member, used⟩
    rw [before, List.mem_append] at still
    have kept : b ∈ usedBlocks bs' := by
      rw [shape, List.mem_append, List.mem_cons]
      exact still.imp_right Or.inr
    rw [after.payloadSize_eq (mem_usedBlocks.mp kept).1 owner, inv.payloadSize_eq member owner]

theorem free {p : Word} (live : p ∈ s.live) {mem' : Mem}
    (call : memoryFree s.bounds p s.mem = some mem') :
    HeapInv start size ⟨s.bounds, mem', s.live.erase p⟩ (freeBlocks p bs) := by
  obtain ⟨freed, answer, chain, -⟩ := inv.memoryFree_spec live
  rw [answer, Option.some.injEq] at call
  obtain rfl := call
  have addresses := addr_free (L := heapLayout) (x := p.toNat - 12) (l := bs)
  refine ⟨inv.low, inv.room, inv.fits, inv.bounds, chain, tiles_free inv.tiles, canonical_free _ _,
    ?_, ?_, ?_⟩
  · intro c hc
    obtain ⟨d, hd, same⟩ := addresses c hc
    rw [← same]
    exact inv.aligned d hd
  · intro c hc
    obtain ⟨d, hd, same⟩ := addresses c hc
    rw [← same]
    exact inv.payload_lt d hd
  · rw [freeBlocks, usedBlocks_free]
    obtain ⟨b, member, used, owner⟩ := inv.exists_block live
    have erased : ((s.live.erase p).map BitVec.toNat).Perm
        (((usedBlocks bs).map heapLayout.payload).erase p.toNat) := by
      rw [List.map_erase (fun _ _ same => BitVec.eq_of_toNat_eq same)]
      exact inv.owners.erase p.toNat
    refine erased.trans (List.Perm.of_eq ?_)
    rw [inv.payloads_nodup.erase_eq_filter, List.filter_map]
    refine congrArg (List.map heapLayout.payload) (List.filter_congr fun c _ => ?_)
    rw [Function.comp_apply, heapLayout_payload, ← owner, Nat.add_sub_cancel, Bool.eq_iff_iff]
    simp

/-- The invariant does not depend on the payloads of the live blocks, nor on what is outside the
heap. -/
theorem congr_inside {mem' : Mem}
    (same : ∀ x, start.toNat ≤ x.toNat → x.toNat < start.toNat + size.toNat →
      (∀ p ∈ s.live, ¬ Covers p (payloadSize s.mem p) x) → mem' x = s.mem x) :
    HeapInv start size { s with mem := mem' } bs := by
  refine { inv with chain := ?_ }
  refine inv.chain.congr (tiles_fits inv.tiles inv.fits) fun c hc x low high =>
    same x (Nat.le_trans (inv.tiles.bounds c hc).1 low)
      (Nat.lt_trans high (inv.payload_lt c hc)) ?_
  -- a header byte lies in no payload
  rintro p live ⟨lower, upper⟩
  obtain ⟨b, member, used, owner⟩ := inv.exists_block live
  rw [inv.payloadSize_eq member owner] at upper
  obtain rfl : c = b := inv.tiles.eq_of_common hc member (x := x.toNat)
    (by rw [heapLayout_stop]; omega) (by rw [heapLayout_stop]; omega)
  omega

/-- The invariant does not depend on the payloads of the live blocks, nor on what is below the
heap. -/
theorem congr_of_heap {mem' : Mem}
    (same : ∀ x, start.toNat ≤ x.toNat →
      (∀ p ∈ s.live, ¬ Covers p (payloadSize s.mem p) x) → mem' x = s.mem x) :
    HeapInv start size { s with mem := mem' } bs :=
  inv.congr_inside fun x low _ outside => same x low outside

/-- The invariant does not depend on the payloads of the live blocks. -/
theorem congr {mem' : Mem}
    (same : ∀ x, (∀ p ∈ s.live, ¬ Covers p (payloadSize s.mem p) x) → mem' x = s.mem x) :
    HeapInv start size { s with mem := mem' } bs :=
  inv.congr_of_heap fun x _ outside => same x outside

theorem write {p x : Word} (live : p ∈ s.live) (inside : Covers p (payloadSize s.mem p) x)
    (v : Byte) : HeapInv start size { s with mem := store8 s.mem x v } bs := by
  refine inv.congr fun y outside => store8_apply_of_ne ?_
  rintro rfl
  exact outside p live inside

end HeapInv

theorem heapInv_memoryInit {start size : Word} (low : 16 ≤ start.toNat) (room : 12 < size.toNat)
    (fits : start.toNat + size.toNat < 2 ^ 32) (mem : Mem) :
    HeapInv start size ⟨(memoryInit start size mem).1, (memoryInit start size mem).2, []⟩
      [⟨start.toNat, size.toNat - 12, false⟩] := by
  have fit : start.toNat + 12 ≤ 2 ^ 32 := by omega
  have rest : (size - sizeof).toNat = size.toNat - 12 := by
    unfold sizeof
    bv_omega
  refine ⟨low, room, fits, rfl, ⟨ne_zero_of_toNat_pos (by omega), ?_, ?_⟩, ⟨rfl, ?_⟩,
    List.IsChain.singleton _, ?_, ?_, List.Perm.refl _⟩
  · refine eq_blockAt_iff.mpr ⟨rfl, ?_, iff_of_true ?_ rfl⟩
    · rw [memoryInit, size_setNext fit, size_setUsed fit, size_setSize, rest]
    · rw [memoryInit, used_setNext fit, used_setUsed]
  · exact next_setNext _ _ _
  · show start.toNat + 12 + (size.toNat - 12) = start.toNat + size.toNat
    omega
  · intro b member
    rw [List.mem_singleton.mp member]
  · intro b member
    rw [List.mem_singleton.mp member]
    dsimp only
    omega

/-- **The invariant holds in every state of every run.** -/
theorem HeapRun.inv {start size : Word} (low : 16 ≤ start.toNat) (room : 12 < size.toNat)
    (fits : start.toNat + size.toNat < 2 ^ 32) {s : HeapState} {bs : List Block}
    (run : HeapRun start size s bs) : HeapInv start size s bs := by
  induction run with
  | init mem => exact heapInv_memoryInit low room fits mem
  | alloc _ n call ih => exact ih.alloc call
  | free _ live call ih => exact ih.free live call
  | write _ live inside v ih => exact ih.write live inside v

/-! ## The heap of the kernel -/

/-- The heap `kernel_main` sets up holds one block after its first request. -/
theorem kernel_run : ∃ s bs, HeapRun 0x100000 0x100000 s bs ∧ s.live.length = 1 := by
  have run : HeapRun 0x100000 0x100000 _ _ := HeapRun.init fun _ => 0
  have inv := run.inv (by decide) (by decide) (by decide)
  rcases inv.memoryAlloc_spec 64 with ⟨-, -, zero | misfit⟩ |
    ⟨b, bs', p, mem', -, -, answer, payload, -⟩
  · exact absurd zero (by decide)
  · exact absurd (misfit _ (List.mem_singleton.mpr rfl)) (by decide)
  · refine ⟨_, _, run.alloc 64 answer, ?_⟩
    rw [if_neg (ne_zero_of_toNat_pos (by omega))]
    rfl

end CocosOS.Kernel.Memory
