import CocosOS.Kernel.Memory.HeapGuarantees

/-!
# Freeing what is not live

`Memory_free` clears the byte eight below its pointer if the pointer is inside the heap, and
coalesces. In a run no two neighbours are free, so `coalesce` has nothing to merge as long as
links and flags are left alone (`coalesceLoop_of_canonical`). What happens then depends on where
the cleared byte lies, and on whether it was zero already.

Nothing changes for the clients if that byte is zero, or belongs to no one: the padding of a
header, or the payload of a free block (`isolated_of_harmless`). Otherwise the call destroys what
it does not own: a byte below the heap, of a live payload, or of the size of a block
(`harmless_of_isolated`). Only a byte of a link is left out of this equivalence, where `coalesce`
follows the changed link, and what it makes of the heap depends on the bytes it finds there.
-/

set_option autoImplicit false

namespace CocosOS.Kernel.Memory

open Library.ByteMemory Library.BlockList BlockHeader

/-! ## Lists without free neighbours -/

/-- **`coalesce` changes nothing in a list without free neighbours.** -/
theorem coalesceLoop_of_canonical {mem : Mem} : ∀ {bs : List Block} {b : Block} {p : Word}
    {fuel : ℕ}, Chain mem p (b :: bs) → Canonical (b :: bs) → bs.length < fuel →
      coalesceLoop fuel p mem = some mem
  | [], b, p, fuel + 1, chain, _, _ => by
      have last : next mem p = 0 := chain.2.2
      rw [coalesceLoop, if_neg]
      exact fun both => both.2 last
  | c :: cs, b, p, fuel + 1, chain, canonical, enough => by
      have behind := chain.2.2
      obtain ⟨nonnull, here, nonnull', here', _⟩ := chain
      have flag := (eq_blockAt_iff.mp here).2.2
      have flag' := (eq_blockAt_iff.mp here').2.2
      have apart : ¬ (used mem p = 0 ∧ used mem (next mem p) = 0) := by
        rintro ⟨free, free'⟩
        have used := canonical.used_of_free (flag.mp free)
        rw [flag'.mp free'] at used
        exact Bool.false_ne_true used
      rw [coalesceLoop, if_pos ⟨nonnull, nonnull'⟩, if_neg apart]
      exact coalesceLoop_of_canonical behind canonical.tail (Nat.lt_of_succ_lt_succ enough)

/-- Only the flags matter for this. -/
theorem canonical_of_flags {bs bs' : List Block} (canonical : Canonical bs)
    (flags : bs'.map Block.used = bs.map Block.used) : Canonical bs' := by
  rw [Canonical] at canonical ⊢
  have chain := (List.isChain_map Block.used (R := fun b c => b = true ∨ c = true)).mpr canonical
  rw [← flags] at chain
  exact (List.isChain_map Block.used).mp chain

/-- A memory with the links and flags of a chain has a chain of its own, with other sizes. -/
theorem Chain.of_links {mem mem' : Mem} : ∀ {bs : List Block} {p : Word}, Chain mem p bs →
    (∀ q : Word, ∀ b ∈ bs, q.toNat = b.addr → used mem' q = used mem q ∧ next mem' q = next mem q) →
    ∃ bs', Chain mem' p bs' ∧ bs'.map Block.used = bs.map Block.used
  | [], p, chain, _ => ⟨[], chain, rfl⟩
  | b :: bs, p, ⟨nonnull, here, rest⟩, same => by
      obtain ⟨addr, _, flag⟩ := eq_blockAt_iff.mp here
      obtain ⟨flag', link⟩ := same p b List.mem_cons_self addr
      obtain ⟨bs', chain, flags⟩ := rest.of_links fun q c member =>
        same q c (List.mem_cons_of_mem b member)
      refine ⟨blockAt mem' p :: bs', ⟨nonnull, rfl, by rw [link]; exact chain⟩, ?_⟩
      rw [List.map_cons, List.map_cons, flags, ← here, blockAt, blockAt, flag']

/-! ## The byte that is cleared -/

/-- The byte belongs to no one: it is padding of a header, or in the payload of a free block. -/
def Unowned (bs : List Block) (x : ℕ) : Prop :=
  ∃ b ∈ bs, (b.addr + 5 ≤ x ∧ x < b.addr + 8) ∨
    (b.used = false ∧ b.addr + 12 ≤ x ∧ x < heapLayout.stop b)

/-- The byte is one of a link. -/
def LinkByte (bs : List Block) (x : ℕ) : Prop :=
  ∃ b ∈ bs, b.addr + 8 ≤ x ∧ x < b.addr + 12

/-- `Memory_free` returns at once, or the byte eight below the pointer is zero or belongs to no
one. -/
def Harmless (s : HeapState) (bs : List Block) (p : Word) : Prop :=
  p = 0 ∨ p < s.bounds.heapStart ∨ s.bounds.heapEnd ≤ p ∨ s.mem (p - 8) = 0 ∨
    Unowned bs (p.toNat - 8)

/-- `Memory_free` changes nothing for the clients: neither the block list, nor the payload of a
live block, nor a byte outside the heap. -/
def FreeIgnored (start size : Word) (s : HeapState) (bs : List Block) (p : Word) : Prop :=
  ∃ mem', memoryFree s.bounds p s.mem = some mem' ∧ Isolated start size s s.live mem' bs

theorem clear_self (mem : Mem) (p : Word) : setUsed (p - sizeof) 0 mem (p - 8) = 0 := by
  have same : p - 8 = p - sizeof + 4 := by
    unfold sizeof
    bv_omega
  rw [setUsed, same, store8_apply_self]

section Clear

variable {mem : Mem} {p q : Word} (high : 12 ≤ p.toNat) (fits : q.toNat + 12 ≤ 2 ^ 32)
include high

theorem toNat_cleared : (p - sizeof + 4).toNat = p.toNat - 8 := by
  unfold sizeof
  bv_omega

theorem clear_apply {x : Word} (other : x.toNat ≠ p.toNat - 8) :
    setUsed (p - sizeof) 0 mem x = mem x := by
  refine store8_apply_of_ne ?_
  rintro rfl
  exact other (toNat_cleared high)

/-- Clearing a byte that is zero changes nothing. -/
theorem clear_of_zero (zero : mem (p - 8) = 0) : setUsed (p - sizeof) 0 mem = mem := by
  funext x
  by_cases here : x.toNat = p.toNat - 8
  · have same : x = p - 8 := by bv_omega
    rw [same, clear_self, zero]
  · exact clear_apply high here

include fits

/-- Links and flags depend on their own bytes. -/
theorem links_clear (flag : p.toNat - 8 ≠ q.toNat + 4)
    (link : p.toNat - 8 < q.toNat + 8 ∨ q.toNat + 12 ≤ p.toNat - 8) :
    used (setUsed (p - sizeof) 0 mem) q = used mem q ∧
      next (setUsed (p - sizeof) 0 mem) q = next mem q := by
  have hu := toNat_used_field fits
  have hn := toNat_next_field fits
  constructor
  · exact clear_apply high (by omega)
  · refine load32_congr (by omega) fun x inside => clear_apply high ?_
    have lower := inside.1
    have upper := inside.2
    omega

/-- Sizes do, too. -/
theorem size_clear (outside : p.toNat - 8 < q.toNat ∨ q.toNat + 4 ≤ p.toNat - 8) :
    BlockHeader.size (setUsed (p - sizeof) 0 mem) q = BlockHeader.size mem q := by
  refine load32_congr (by omega) fun x inside => clear_apply high ?_
  have lower := inside.1
  have upper := inside.2
  omega

end Clear

/-- A chain outlives the clearing of a byte that no header uses. -/
theorem Chain.clear {mem : Mem} {r : Word} (high : 12 ≤ r.toNat) :
    ∀ {bs : List Block} {p : Word}, Chain mem p bs → (∀ b ∈ bs, b.addr + 12 ≤ 2 ^ 32) →
      (∀ b ∈ bs, r.toNat - 8 < b.addr ∨ (b.addr + 5 ≤ r.toNat - 8 ∧ r.toNat - 8 < b.addr + 8) ∨
        b.addr + 12 ≤ r.toNat - 8) → Chain (setUsed (r - sizeof) 0 mem) p bs
  | [], _, chain, _, _ => chain
  | b :: bs, p, ⟨nonnull, here, rest⟩, fits, outside => by
      have behind := rest.clear high (fun c member => fits c (List.mem_cons_of_mem b member))
        fun c member => outside c (List.mem_cons_of_mem b member)
      obtain ⟨addr, length, flag⟩ := eq_blockAt_iff.mp here
      have fits' := fits b List.mem_cons_self
      have apart := outside b List.mem_cons_self
      have fits_p : p.toNat + 12 ≤ 2 ^ 32 := by omega
      obtain ⟨used', next'⟩ : used (setUsed (r - sizeof) 0 mem) p = used mem p ∧
          next (setUsed (r - sizeof) 0 mem) p = next mem p :=
        links_clear high fits_p (by omega) (by omega)
      have size' : BlockHeader.size (setUsed (r - sizeof) 0 mem) p = BlockHeader.size mem p :=
        size_clear high fits_p (by omega)
      refine ⟨nonnull, eq_blockAt_iff.mpr ⟨addr, ?_, ?_⟩, ?_⟩
      · rw [size']
        exact length
      · rw [used']
        exact flag
      · rw [next']
        exact behind

/-! ## Which frees are ignored -/

namespace HeapInv

variable {start size : Word} {s : HeapState} {bs : List Block} (inv : HeapInv start size s bs)
include inv

/-- Inside the heap, `Memory_free` clears its byte and does nothing more, if links and flags are
left alone. -/
theorem memoryFree_of_links {p : Word} (inside : ¬ (p < s.bounds.heapStart ∨ s.bounds.heapEnd ≤ p))
    {bs' : List Block} (chain : Chain (setUsed (p - sizeof) 0 s.mem) start bs')
    (flags : bs'.map Block.used = bs.map Block.used) :
    memoryFree s.bounds p s.mem = some (setUsed (p - sizeof) 0 s.mem) := by
  have low := inv.low
  have nonnull : p ≠ 0 := by
    rintro rfl
    rw [BitVec.lt_def, inv.heapStart_eq] at inside
    exact inside (Or.inl (Nat.lt_of_lt_of_le (by decide) low))
  rw [memoryFree, if_neg nonnull, if_neg inside, Memory.coalesce, inv.heapStart_eq]
  have lengths : bs'.length = bs.length := by
    rw [← List.length_map Block.used, flags, List.length_map]
  cases bs' with
  | nil =>
      have room := inv.room
      rw [List.length_nil] at lengths
      have empty := List.eq_nil_of_length_eq_zero lengths.symm
      have tiles := inv.tiles
      rw [empty] at tiles
      have none : start.toNat = start.toNat + size.toNat := tiles
      omega
  | cons b rest =>
      refine coalesceLoop_of_canonical chain (canonical_of_flags inv.canonical flags) ?_
      have bound := inv.length_lt
      rw [List.length_cons] at lengths
      omega

/-- The same, where the list is as before. -/
theorem memoryFree_of_chain {p : Word} (inside : ¬ (p < s.bounds.heapStart ∨ s.bounds.heapEnd ≤ p))
    (chain : Chain (setUsed (p - sizeof) 0 s.mem) start bs) :
    memoryFree s.bounds p s.mem = some (setUsed (p - sizeof) 0 s.mem) ∧
      heapBlocks s.bounds (setUsed (p - sizeof) 0 s.mem) = some bs := by
  refine ⟨inv.memoryFree_of_links inside chain rfl, ?_⟩
  rw [heapBlocks, inv.heapStart_eq]
  exact readBlocks_of_chain chain inv.length_lt

theorem isolated_self : Isolated start size s s.live s.mem bs :=
  ⟨fun _ _ _ _ => rfl, fun _ _ => rfl, inv.heapBlocks_eq⟩

/-- A pointer inside the heap lies where the byte below it can be counted. -/
theorem inside_heap {p : Word} (inside : ¬ (p < s.bounds.heapStart ∨ s.bounds.heapEnd ≤ p)) :
    start.toNat ≤ p.toNat ∧ p.toNat < start.toNat + size.toNat := by
  rw [BitVec.lt_def, BitVec.le_def, inv.heapStart_eq, inv.toNat_heapEnd] at inside
  omega

/-- A byte of a live payload is in a used block, behind its header. -/
theorem block_of_payload {q x : Word} (live : q ∈ s.live)
    (inside : Covers q (payloadSize s.mem q) x) :
    ∃ b ∈ bs, b.used = true ∧ b.addr + 12 ≤ x.toNat ∧ x.toNat < heapLayout.stop b := by
  obtain ⟨b, member, used, owner⟩ := inv.exists_block live
  rw [inv.payloadSize_eq member owner] at inside
  have lower := inside.1
  have upper := inside.2
  exact ⟨b, member, used, by omega, by rw [heapLayout_stop]; omega⟩

/-- **A harmless free is ignored.** -/
theorem isolated_of_harmless {p : Word} (harmless : Harmless s bs p) :
    FreeIgnored start size s bs p := by
  by_cases null : p = 0
  · exact ⟨s.mem, if_pos null, inv.isolated_self⟩
  by_cases inside : p < s.bounds.heapStart ∨ s.bounds.heapEnd ≤ p
  · exact ⟨s.mem, by rw [memoryFree, if_neg null, if_pos inside], inv.isolated_self⟩
  obtain ⟨lower, upper⟩ := inv.inside_heap inside
  have low := inv.low
  have high : 12 ≤ p.toNat := by omega
  have fits := tiles_fits inv.tiles inv.fits
  rcases harmless with same | below | above | zero | ⟨b, member, place⟩
  · exact absurd same null
  · exact absurd (Or.inl below) inside
  · exact absurd (Or.inr above) inside
  · have same := clear_of_zero high zero
    obtain ⟨answer, _⟩ := inv.memoryFree_of_chain inside (same.symm ▸ inv.chain)
    rw [same] at answer
    exact ⟨s.mem, answer, inv.isolated_self⟩
  · have bounds := inv.tiles.bounds b member
    rw [heapLayout_stop] at place bounds
    have chain := inv.chain.clear high fits fun c hc => by
      rcases inv.tiles.trichotomy b member c hc with rfl | before | behind
      · omega
      · rw [heapLayout_stop] at before
        omega
      · rw [heapLayout_stop] at behind
        omega
    obtain ⟨answer, blocks⟩ := inv.memoryFree_of_chain inside chain
    refine ⟨_, answer, fun q live x covered => ?_, fun x outside => ?_, blocks⟩
    · refine clear_apply high fun here => ?_
      obtain ⟨c, hc, used, first, last⟩ := inv.block_of_payload live covered
      rw [heapLayout_stop] at last
      obtain rfl : b = c := inv.tiles.eq_of_common member hc (x := x.toNat)
        (by rw [heapLayout_stop]; omega) (by rw [heapLayout_stop]; omega)
      rcases place with padding | ⟨free, _⟩
      · omega
      · rw [free] at used
        exact Bool.false_ne_true used
    · refine clear_apply high fun here => ?_
      rw [not_covers_iff] at outside
      omega

/-- The byte of a stray pointer is the flag of a free block at most, which is zero. -/
theorem not_flag_of_stray {p q : Word} {b : Block} (stray : p ∉ s.live)
    (nonzero : s.mem (p - 8) ≠ 0) (high : 12 ≤ p.toNat) (member : b ∈ bs) (addr : q.toNat = b.addr)
    (here : blockAt s.mem q = b) : p.toNat - 8 ≠ b.addr + 4 := by
  intro flag
  have fits := tiles_fits inv.tiles inv.fits b member
  cases isUsed : b.used with
  | true =>
      obtain ⟨r, live, owner⟩ := inv.exists_live member isUsed
      obtain rfl : r = p := BitVec.eq_of_toNat_eq (by omega)
      exact stray live
  | false =>
      have zero := (eq_blockAt_iff.mp here).2.2.mpr isUsed
      have field := toNat_used_field (p := q) (by omega)
      have same : p - 8 = q + 4 := by bv_omega
      rw [used, ← same] at zero
      exact nonzero zero

/-- A stray pointer whose byte is not zero leaves the flags alone, and the links unless its byte
is in one. -/
theorem links_of_stray {p : Word} (high : 12 ≤ p.toNat) (stray : p ∉ s.live)
    (nonzero : s.mem (p - 8) ≠ 0) (noLink : ¬ LinkByte bs (p.toNat - 8)) (q : Word) (b : Block)
    (member : b ∈ bs) (addr : q.toNat = b.addr) :
    used (setUsed (p - sizeof) 0 s.mem) q = used s.mem q ∧
      next (setUsed (p - sizeof) 0 s.mem) q = next s.mem q := by
  have fits := tiles_fits inv.tiles inv.fits b member
  obtain ⟨q', addr', here⟩ := inv.chain.blockAt_of_mem b member
  obtain rfl : q' = q := BitVec.eq_of_toNat_eq (addr'.trans addr.symm)
  have flag := inv.not_flag_of_stray stray nonzero high member addr here
  refine links_clear high (by omega) (by omega) ?_
  by_contra link
  exact noLink ⟨b, member, by omega, by omega⟩

/-- A memory with another chain of as many blocks that reads back as the blocks from before has
their sizes. -/
theorem size_eq_of_readBack {mem' : Mem} {bs' : List Block} (chain : Chain mem' start bs')
    (lengths : bs'.length = bs.length) (readBack : heapBlocks s.bounds mem' = some bs) {q : Word}
    {b : Block} (member : b ∈ bs) (addr : q.toNat = b.addr) (here : blockAt s.mem q = b) :
    BlockHeader.size mem' q = BlockHeader.size s.mem q := by
  have enough : bs'.length < walkFuel := by
    rw [lengths]
    exact inv.length_lt
  have read := readBlocks_of_chain chain enough
  rw [heapBlocks, inv.heapStart_eq, read] at readBack
  obtain rfl := Option.some.inj readBack
  obtain ⟨q', addr', here'⟩ := chain.blockAt_of_mem b member
  obtain rfl : q' = q := BitVec.eq_of_toNat_eq (addr'.trans addr.symm)
  exact BitVec.eq_of_toNat_eq
    ((eq_blockAt_iff.mp here').2.1.trans (eq_blockAt_iff.mp here).2.1.symm)

/-- **A free that is ignored is harmless**, where its byte is not one of a link. -/
theorem harmless_of_isolated {p : Word} (stray : p ∉ s.live)
    (noLink : ¬ LinkByte bs (p.toNat - 8)) (ignored : FreeIgnored start size s bs p) :
    Harmless s bs p := by
  by_contra harmful
  obtain ⟨nonnull, harmful⟩ := not_or.mp harmful
  obtain ⟨above, harmful⟩ := not_or.mp harmful
  obtain ⟨below, harmful⟩ := not_or.mp harmful
  obtain ⟨nonzero, owned⟩ := not_or.mp harmful
  have inside := not_or.mpr ⟨above, below⟩
  obtain ⟨lower, upper⟩ := inv.inside_heap inside
  have low := inv.low
  have fits := inv.fits
  have high : 12 ≤ p.toNat := by omega
  have address : (p - 8).toNat = p.toNat - 8 := by bv_omega
  obtain ⟨bs', chain, flags⟩ :=
    inv.chain.of_links (inv.links_of_stray high stray nonzero noLink)
  obtain ⟨mem', answer, isolated⟩ := ignored
  rw [inv.memoryFree_of_links inside chain flags] at answer
  obtain rfl := Option.some.inj answer
  have changed : setUsed (p - sizeof) 0 s.mem (p - 8) ≠ s.mem (p - 8) := by
    rw [clear_self]
    exact fun same => nonzero same.symm
  by_cases outside : p.toNat - 8 < start.toNat
  · exact changed (isolated.outside (p - 8) fun covered => by
      have := covered.1
      omega)
  obtain ⟨b, member, first, last⟩ := inv.tiles.exists_block (x := p.toNat - 8) (by omega) (by omega)
  rw [heapLayout_stop] at last
  obtain ⟨q, addr, here⟩ := inv.chain.blockAt_of_mem b member
  have fits_b := tiles_fits inv.tiles fits b member
  by_cases inSize : p.toNat - 8 < b.addr + 4
  · -- the size of the block is another one now
    have lengths : bs'.length = bs.length := by
      rw [← List.length_map Block.used, flags, List.length_map]
    have sizes := inv.size_eq_of_readBack chain lengths isolated.read_back member addr here
    exact changed (sameOn_of_load32 sizes (p - 8) ⟨by omega, by omega⟩)
  have flag := inv.not_flag_of_stray stray nonzero high member addr here
  by_cases inPadding : p.toNat - 8 < b.addr + 8
  · exact owned ⟨b, member, Or.inl ⟨by omega, inPadding⟩⟩
  by_cases inLink : p.toNat - 8 < b.addr + 12
  · exact noLink ⟨b, member, by omega, inLink⟩
  · cases isUsed : b.used with
    | false =>
        exact owned ⟨b, member, Or.inr ⟨isUsed, by omega, by rw [heapLayout_stop]; omega⟩⟩
    | true =>
        obtain ⟨r, live, owner⟩ := inv.exists_live member isUsed
        refine changed (isolated.payloads r live (p - 8) ?_)
        rw [inv.payloadSize_eq member owner.symm]
        exact ⟨by omega, by omega⟩

end HeapInv

/-- **`Memory_free` of a pointer that is not live is ignored if it is harmless, and, where the byte
it clears is not one of a link, only then.** -/
theorem stray_free_iff {start size : Word} (low : 16 ≤ start.toNat) (room : 12 < size.toNat)
    (fits : start.toNat + size.toNat < 2 ^ 32) {s : HeapState} {bs : List Block}
    (run : HeapRun start size s bs) {p : Word} (stray : p ∉ s.live) :
    heapBlocks s.bounds s.mem = some bs ∧
    (Harmless s bs p → FreeIgnored start size s bs p) ∧
    (¬ LinkByte bs (p.toNat - 8) → (FreeIgnored start size s bs p ↔ Harmless s bs p)) := by
  have inv := run.inv low room fits
  refine ⟨inv.heapBlocks_eq, inv.isolated_of_harmless, fun noLink => ?_⟩
  exact ⟨inv.harmless_of_isolated stray noLink, inv.isolated_of_harmless⟩

/-- The null pointer is ignored. -/
theorem stray_free_null : ∃ (s : HeapState) (bs : List Block), s.live.length = 1 ∧
    FreeIgnored 0x100000 0x100000 s bs 0 := by
  obtain ⟨s, bs, run, one⟩ := kernel_run
  have inv := run.inv (by decide) (by decide) (by decide)
  have stray : (0 : Word) ∉ s.live := by
    intro live
    obtain ⟨b, _, _, owner⟩ := inv.exists_block live
    have null : (0 : Word).toNat = 0 := rfl
    omega
  exact ⟨s, bs, one,
    (stray_free_iff (by decide) (by decide) (by decide) run stray).2.1 (Or.inl rfl)⟩

/-- A pointer into the middle of a live payload is not ignored. -/
theorem stray_free_reaches : ¬ ∀ (start size : Word) (s : HeapState) (bs : List Block) (p : Word),
    16 ≤ start.toNat → 12 < size.toNat → start.toNat + size.toNat < 2 ^ 32 →
    HeapRun start size s bs → p ∉ s.live → FreeIgnored start size s bs p := by
  intro ignored
  have started : HeapRun 0x100000 64 _ _ := HeapRun.init fun _ => 0xAA
  have taken : (memoryAlloc (memoryInit 0x100000 64 fun _ => 0xAA).1 16
      (memoryInit 0x100000 64 fun _ => 0xAA).2).map (fun (p, mem) =>
        (p, payloadSize mem p, mem p,
          (memoryFree (memoryInit 0x100000 64 fun _ => 0xAA).1 (p + 8) mem).map (· p))) =
      some (0x10000C, 16, 0xAA, some 0) := by decide +kernel
  obtain ⟨⟨p, mem⟩, call, seen⟩ := Option.map_eq_some_iff.mp taken
  obtain ⟨rfl, length, before, after⟩ := by simpa only [Prod.mk.injEq] using seen
  have run := started.alloc 16 call
  rw [if_neg (by decide)] at run
  obtain ⟨mem', answer, isolated⟩ := ignored _ _ _ _ 0x100014 (by decide) (by decide) (by decide)
    run fun live => absurd (List.mem_singleton.mp live) (by decide)
  have covered : Covers 0x10000C (payloadSize mem 0x10000C) 0x10000C := by
    rw [length]
    decide
  have kept : mem' 0x10000C = mem 0x10000C :=
    isolated.payloads 0x10000C List.mem_cons_self 0x10000C covered
  have freed : memoryFree (memoryInit 0x100000 64 fun _ => 0xAA).1 0x100014 mem = some mem' :=
    answer
  have pointer : (0x10000C : Word) + 8 = 0x100014 := by decide
  rw [pointer, freed, Option.map_some, Option.some.injEq, kept, before] at after
  exact absurd after (by decide)

end CocosOS.Kernel.Memory
