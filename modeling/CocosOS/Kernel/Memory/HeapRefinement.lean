import CocosOS.Kernel.Memory.Heap

/-!
# The header list in memory refines a block list

`Chain mem p blocks` says that the walk along `next` from `p` meets headers that hold
`blocks`, and ends. On such a memory each loop of the heap does what the block list library
does on the list: `allocLoop` is first fit (`allocLoop_some`, `allocLoop_none`),
`coalesceLoop` is coalescing (`coalesceLoop_spec`), `getFreeLoop` adds up the free sizes
(`getFreeLoop_spec`).

Each of these statements has a frame. An allocation changes bytes only inside the free block
it takes, and coalescing changes bytes only in the headers of free blocks. In a tiling these
bytes are apart from the payload of every used block.
-/

set_option autoImplicit false

namespace CocosOS.Kernel.Memory

open Library.ByteMemory Library.BlockList BlockHeader

/-- The kernel heap: twelve bytes of header, and four bytes more than a header are worth
splitting off. -/
def heapLayout : Layout := ⟨12, 4, by decide⟩

@[simp] theorem heapLayout_header : heapLayout.header = 12 := rfl

@[simp] theorem heapLayout_slack : heapLayout.slack = 4 := rfl

theorem heapLayout_stop (b : Block) : heapLayout.stop b = b.addr + 12 + b.size := rfl

theorem heapLayout_payload (b : Block) : heapLayout.payload b = b.addr + 12 := rfl

@[simp] theorem toNat_sizeof : sizeof.toNat = 12 := rfl

theorem toNat_sub_sizeof {total part : Word} (enough : part.toNat + 12 ≤ total.toNat) :
    (total - part - sizeof).toNat = total.toNat - part.toNat - 12 := by
  unfold sizeof
  bv_omega

/-! ## Fields of a header -/

@[simp] theorem size_setSize (mem : Mem) (p v : Word) : size (setSize p v mem) p = v :=
  load32_store32 mem p v

@[simp] theorem used_setUsed (mem : Mem) (p : Word) (v : Byte) : used (setUsed p v mem) p = v :=
  store8_apply_self mem (p + 4) v

@[simp] theorem next_setNext (mem : Mem) (p v : Word) : next (setNext p v mem) p = v :=
  load32_store32 mem (p + 8) v

section Header

variable {mem : Mem} {p : Word} (fits : p.toNat + 12 ≤ 2 ^ 32)
include fits

theorem toNat_used_field : (p + 4).toNat = p.toNat + 4 :=
  toNat_add_of_fits fits (by decide)

theorem toNat_next_field : (p + 8).toNat = p.toNat + 8 :=
  toNat_add_of_fits fits (by decide)

/-- The fields of a header depend only on its twelve bytes. -/
theorem header_congr {mem' : Mem} (same : SameOn p 12 mem mem') :
    size mem' p = size mem p ∧ used mem' p = used mem p ∧ next mem' p = next mem p := by
  have hu := toNat_used_field fits
  have hn := toNat_next_field fits
  have size_eq : size mem' p = size mem p :=
    load32_congr (by omega) (same.mono fun x inside => ⟨inside.1, by have := inside.2; omega⟩)
  have used_eq : used mem' p = used mem p :=
    same (p + 4) ⟨by omega, by omega⟩
  have next_eq : next mem' p = next mem p :=
    load32_congr (by omega) (same.mono fun x inside =>
      ⟨by have := inside.1; omega, by have := inside.2; omega⟩)
  exact ⟨size_eq, used_eq, next_eq⟩

theorem blockAt_congr {mem' : Mem} (same : SameOn p 12 mem mem') :
    blockAt mem' p = blockAt mem p := by
  have kept := header_congr fits same
  simp only [blockAt, kept.1, kept.2.1]

theorem setSize_apply {x : Word} (v : Word) (outside : ¬ Covers p 12 x) :
    setSize p v mem x = mem x := by
  refine store32_apply_of_not_covers (by omega) fun inside => outside ⟨inside.1, ?_⟩
  have := inside.2
  omega

theorem setUsed_apply {x : Word} (v : Byte) (outside : ¬ Covers p 12 x) :
    setUsed p v mem x = mem x := by
  have hu := toNat_used_field fits
  refine store8_apply_of_ne ?_
  rintro rfl
  exact outside ⟨by omega, by omega⟩

theorem setNext_apply {x : Word} (v : Word) (outside : ¬ Covers p 12 x) :
    setNext p v mem x = mem x := by
  have hn := toNat_next_field fits
  refine store32_apply_of_not_covers (by omega) fun inside => outside ?_
  have := inside.1
  have := inside.2
  exact ⟨by omega, by omega⟩

theorem used_setSize (v : Word) : used (setSize p v mem) p = used mem p := by
  have hu := toNat_used_field fits
  refine store32_apply_of_not_covers (by omega) fun inside => ?_
  have := inside.2
  omega

theorem next_setSize (v : Word) : next (setSize p v mem) p = next mem p := by
  have hn := toNat_next_field fits
  exact load32_congr (by omega) (sameOn_store32 (by omega) (apart_of_le (by omega)))

theorem size_setUsed (v : Byte) : size (setUsed p v mem) p = size mem p := by
  have hu := toNat_used_field fits
  refine load32_congr (by omega) (sameOn_store8 fun inside => ?_)
  have := inside.2
  omega

theorem next_setUsed (v : Byte) : next (setUsed p v mem) p = next mem p := by
  have hu := toNat_used_field fits
  have hn := toNat_next_field fits
  refine load32_congr (by omega) (sameOn_store8 fun inside => ?_)
  have := inside.1
  omega

theorem size_setNext (v : Word) : size (setNext p v mem) p = size mem p := by
  have hn := toNat_next_field fits
  exact load32_congr (by omega) (sameOn_store32 (by omega) (apart_of_le (by omega)).symm)

theorem used_setNext (v : Word) : used (setNext p v mem) p = used mem p := by
  have hu := toNat_used_field fits
  have hn := toNat_next_field fits
  refine store32_apply_of_not_covers (by omega) fun inside => ?_
  have := inside.1
  omega

end Header

theorem eq_blockAt_iff {mem : Mem} {p : Word} {b : Block} :
    blockAt mem p = b ↔
      p.toNat = b.addr ∧ (size mem p).toNat = b.size ∧ (used mem p = 0 ↔ b.used = false) := by
  obtain ⟨addr, length, flag⟩ := b
  rw [blockAt, Block.mk.injEq]
  refine and_congr Iff.rfl (and_congr Iff.rfl ?_)
  cases flag <;> simp

/-! ## Chains of headers -/

/-- The walk along `next` from `p` meets the blocks of the list and then `NULL`. -/
def Chain (mem : Mem) : Word → List Block → Prop
  | p, [] => p = 0
  | p, b :: bs => p ≠ 0 ∧ blockAt mem p = b ∧ Chain mem (next mem p) bs

/-- A header whose bytes are kept stays in front of a chain that changed behind it. -/
theorem Chain.cons_congr {mem mem' : Mem} {p : Word} {b : Block} {bs bs' : List Block}
    (chain : Chain mem p (b :: bs)) (fits : b.addr + 12 ≤ 2 ^ 32)
    (same : ∀ x : Word, b.addr ≤ x.toNat → x.toNat < b.addr + 12 → mem' x = mem x)
    (behind : Chain mem' (next mem p) bs') : Chain mem' p (b :: bs') := by
  obtain ⟨nonnull, here, -⟩ := chain
  have addr := (eq_blockAt_iff.mp here).1
  have kept : SameOn p 12 mem mem' := fun x inside =>
    same x (by have := inside.1; omega) (by have := inside.2; omega)
  refine ⟨nonnull, (blockAt_congr (by omega) kept).trans here, ?_⟩
  rw [(header_congr (by omega) kept).2.2]
  exact behind

/-- A chain depends only on the bytes of its headers. -/
theorem Chain.congr {mem mem' : Mem} : ∀ {bs : List Block} {p : Word}, Chain mem p bs →
    (∀ b ∈ bs, b.addr + 12 ≤ 2 ^ 32) →
    (∀ b ∈ bs, ∀ x : Word, b.addr ≤ x.toNat → x.toNat < b.addr + 12 → mem' x = mem x) →
    Chain mem' p bs
  | [], _, chain, _, _ => chain
  | b :: _, _, chain, fits, same =>
      chain.cons_congr (fits b List.mem_cons_self) (same b List.mem_cons_self)
        (chain.2.2.congr (fun c member => fits c (List.mem_cons_of_mem b member))
          fun c member => same c (List.mem_cons_of_mem b member))

/-- A chain is read back, given more rounds than it has blocks. -/
theorem readBlocks_of_chain {mem : Mem} : ∀ {bs : List Block} {p : Word} {fuel : ℕ},
    Chain mem p bs → bs.length < fuel → readBlocks mem fuel p = some bs
  | [], p, fuel + 1, chain, _ => by
      have null : p = 0 := chain
      rw [readBlocks, if_neg (not_not.mpr null)]
  | b :: bs, p, fuel + 1, ⟨nonnull, here, rest⟩, enough => by
      have tail := readBlocks_of_chain rest (Nat.lt_of_succ_lt_succ enough)
      rw [readBlocks, if_pos nonnull, tail, here]
      rfl

/-- In a tiling every header fits below the end. -/
theorem tiles_fits {a e : ℕ} {bs : List Block} (tiles : Tiles heapLayout a bs e)
    (bound : e < 2 ^ 32) : ∀ b ∈ bs, b.addr + 12 ≤ 2 ^ 32 := by
  intro b member
  have inside := (tiles.bounds b member).2
  rw [heapLayout_stop] at inside
  omega

/-- A chain behind a block survives changes inside that block. -/
theorem Chain.congr_behind {mem mem' : Mem} {a e : ℕ} {bs : List Block} {p : Word}
    (chain : Chain mem p bs) (tiles : Tiles heapLayout a bs e) (bound : e < 2 ^ 32)
    (same : ∀ x : Word, a ≤ x.toNat → mem' x = mem x) : Chain mem' p bs := by
  refine chain.congr (tiles_fits tiles bound) fun b member x lower _ => same x ?_
  have inside := (tiles.bounds b member).1
  omega

/-- Every block of a chain has its header in memory. -/
theorem Chain.blockAt_of_mem {mem : Mem} : ∀ {bs : List Block} {p : Word}, Chain mem p bs →
    ∀ b ∈ bs, ∃ q : Word, q.toNat = b.addr ∧ blockAt mem q = b
  | c :: cs, p, ⟨_, here, rest⟩, b, member => by
      rcases List.mem_cons.mp member with rfl | behind
      · exact ⟨p, (eq_blockAt_iff.mp here).1, here⟩
      · exact rest.blockAt_of_mem b behind

/-- Clearing the flag of one header releases its block, when the header overlaps no other. -/
theorem chain_release {mem : Mem} {q : Word} (fits_q : q.toNat + 12 ≤ 2 ^ 32) :
    ∀ {bs : List Block} {p : Word}, Chain mem p bs → (∀ b ∈ bs, b.addr + 12 ≤ 2 ^ 32) →
      (∀ b ∈ bs, b.addr = q.toNat ∨ b.addr + 12 ≤ q.toNat ∨ q.toNat + 12 ≤ b.addr) →
      Chain (setUsed q 0 mem) p (release q.toNat bs)
  | [], _, chain, _, _ => chain
  | b :: bs, p, ⟨nonnull, here, rest⟩, fits, apart => by
      have behind := chain_release fits_q rest (fun c hc => fits c (List.mem_cons_of_mem b hc))
        fun c hc => apart c (List.mem_cons_of_mem b hc)
      have fits_b := fits b List.mem_cons_self
      obtain ⟨addr, length, flag⟩ := eq_blockAt_iff.mp here
      unfold release at behind ⊢
      rw [List.map_cons]
      by_cases target : b.addr = q.toNat
      · obtain rfl : p = q := BitVec.eq_of_toNat_eq (addr.trans target)
        rw [if_pos target]
        refine ⟨nonnull, eq_blockAt_iff.mpr ⟨addr, ?_, ?_⟩, ?_⟩
        · rw [size_setUsed fits_q]
          exact length
        · simp
        · rw [next_setUsed fits_q]
          exact behind
      · rw [if_neg target]
        have far := (apart b List.mem_cons_self).resolve_left target
        refine Chain.cons_congr ⟨nonnull, here, rest⟩ fits_b ?_ behind
        intro x lower upper
        exact setUsed_apply fits_q 0 (not_covers_iff.mpr (by omega))

/-! ## First fit -/

/-- What `splitBlock` and the store of `used` behind it leave in the two headers. -/
theorem splitBlock_spec (mem : Mem) {mem' : Mem} (p size : Word)
    (fits : p.toNat + 24 + size.toNat < 2 ^ 32)
    (made : mem' = setUsed p 1 (splitBlock p size mem)) :
    let q := p + sizeof + size
    q.toNat = p.toNat + 12 + size.toNat ∧
    (BlockHeader.size mem' p = size ∧ used mem' p = 1 ∧ next mem' p = q) ∧
    (BlockHeader.size mem' q = BlockHeader.size mem p - size - sizeof ∧ used mem' q = 0 ∧
      next mem' q = next mem p) ∧
    ∀ x : Word, ¬ Covers p 12 x → ¬ Covers q 12 x → mem' x = mem x := by
  intro q
  have hq : q.toNat = p.toNat + 12 + size.toNat := by
    have step : (p + sizeof).toNat = p.toNat + 12 :=
      toNat_add_of_fits (n := 24) (by omega) (by decide)
    rw [show q = p + sizeof + size from rfl, BitVec.toNat_add, step]
    exact Nat.mod_eq_of_lt (by omega)
  have fp : p.toNat + 12 ≤ 2 ^ 32 := by omega
  have fq : q.toNat + 12 ≤ 2 ^ 32 := by omega
  have apart : Apart p 12 q 12 := apart_of_le (by omega)
  -- the new header is written first, then the old one is linked to it
  obtain ⟨fresh, hfresh⟩ : ∃ fresh, fresh = setNext q (next mem p)
    (setUsed q 0 (setSize q (BlockHeader.size mem p - size - sizeof) mem)) := ⟨_, rfl⟩
  have old_next : next (setUsed q 0 (setSize q (BlockHeader.size mem p - size - sizeof) mem)) p =
      next mem p := by
    refine (header_congr fp fun x inside => ?_).2.2
    rw [setUsed_apply fq _ (apart x inside), setSize_apply fq _ (apart x inside)]
  have shape : mem' = setUsed p 1 (setSize p size (setNext p q fresh)) := by
    rw [made, hfresh]
    simp only [splitBlock, old_next, q]
  have same : SameOn q 12 fresh mem' := by
    intro x inside
    have miss : ¬ Covers p 12 x := fun covered => apart x covered inside
    rw [shape, setUsed_apply fp _ miss, setSize_apply fp _ miss, setNext_apply fp _ miss]
  have new_kept := header_congr fq same
  refine ⟨hq, ⟨?_, ?_, ?_⟩, ⟨?_, ?_, ?_⟩, ?_⟩
  · rw [shape, size_setUsed fp, size_setSize]
  · rw [shape, used_setUsed]
  · rw [shape, next_setUsed fp, next_setSize fp, next_setNext]
  · rw [new_kept.1, hfresh, size_setNext fq, size_setUsed fq, size_setSize]
  · rw [new_kept.2.1, hfresh, used_setNext fq, used_setUsed]
  · rw [new_kept.2.2, hfresh, next_setNext]
  · intro x hp hq'
    rw [shape, setUsed_apply fp _ hp, setSize_apply fp _ hp, setNext_apply fp _ hp, hfresh,
      setNext_apply fq _ hq', setUsed_apply fq _ hq', setSize_apply fq _ hq']

/-- Taking the block in front of a chain places the request in it. -/
theorem chain_takeBlock {mem : Mem} {p size : Word} {a e : ℕ} {b : Block} {bs : List Block}
    (chain : Chain mem p (b :: bs)) (tiles : Tiles heapLayout a (b :: bs) e) (low : 16 ≤ a)
    (bound : e < 2 ^ 32) (fit : Fits size.toNat b) :
    Chain (takeBlock p size mem) p (place heapLayout size.toNat b ++ bs) ∧
      ∀ x : Word, x.toNat < b.addr ∨ heapLayout.stop b ≤ x.toNat →
        takeBlock p size mem x = mem x := by
  obtain ⟨nonnull, here, rest⟩ := chain
  obtain ⟨addr, length, flag⟩ := eq_blockAt_iff.mp here
  have start := tiles.1
  have finish := tiles.2.le
  have enough := fit.2
  rw [heapLayout_stop] at finish ⊢
  -- the bound on the heap keeps `size + sizeof + 4` from wrapping
  have no_wrap : (size + sizeof + 4).toNat = size.toNat + 16 := by
    simp only [BitVec.toNat_add, toNat_sizeof]
    have small : (4 : Word).toNat = 4 := rfl
    omega
  have test : size + sizeof + 4 < BlockHeader.size mem p ↔ Splits heapLayout size.toNat b := by
    rw [BitVec.lt_def, no_wrap, length, Splits, heapLayout_header, heapLayout_slack]
  have behind : ∀ mem' : Mem, (∀ x : Word, heapLayout.stop b ≤ x.toNat → mem' x = mem x) →
      Chain mem' (next mem p) bs := fun mem' same =>
    rest.congr_behind tiles.2 bound fun x later => same x later
  unfold takeBlock place
  by_cases split : Splits heapLayout size.toNat b
  · rw [if_pos split, if_pos (test.mpr split)]
    unfold Splits at split
    rw [heapLayout_header, heapLayout_slack] at split
    obtain ⟨hq, old, new, kept⟩ := splitBlock_spec mem p size (by omega) rfl
    have frame : ∀ x : Word, x.toNat < b.addr ∨ b.addr + 12 + b.size ≤ x.toNat →
        setUsed p 1 (splitBlock p size mem) x = mem x := fun x outside =>
      kept x (not_covers_iff.mpr (by omega)) (not_covers_iff.mpr (by omega))
    have left_over : (BlockHeader.size mem p - size - sizeof).toNat = b.size - size.toNat - 12 := by
      rw [← length]
      exact toNat_sub_sizeof (by omega)
    have next_nonnull : p + sizeof + size ≠ 0 := ne_zero_of_toNat_pos (by omega)
    refine ⟨⟨nonnull, ?_, ?_⟩, frame⟩
    · exact eq_blockAt_iff.mpr
        ⟨addr, by rw [old.1], iff_of_false (by rw [old.2.1]; decide) (by simp)⟩
    · rw [old.2.2]
      refine ⟨next_nonnull, ?_, ?_⟩
      · exact eq_blockAt_iff.mpr
          ⟨by rw [hq, addr]; rfl, by rw [new.1]; exact left_over, iff_of_true new.2.1 rfl⟩
      · rw [new.2.2]
        exact behind _ fun x later => frame x (Or.inr later)
  · rw [if_neg split, if_neg (test.not.mpr split)]
    have frame : ∀ x : Word, x.toNat < b.addr ∨ b.addr + 12 + b.size ≤ x.toNat →
        setUsed p 1 mem x = mem x := fun x outside =>
      setUsed_apply (by omega) 1 (not_covers_iff.mpr (by omega))
    refine ⟨⟨nonnull, ?_, ?_⟩, frame⟩
    · refine eq_blockAt_iff.mpr ⟨addr, ?_, iff_of_false (by rw [used_setUsed]; decide) (by simp)⟩
      rw [size_setUsed (by omega)]
      exact length
    · rw [next_setUsed (by omega)]
      exact behind _ fun x later => frame x (Or.inr later)

/-- The test of the loop of `Memory_alloc` is the test of first fit. -/
theorem fits_iff {mem : Mem} {p size : Word} {b : Block} (here : blockAt mem p = b) :
    (used mem p = 0 ∧ size ≤ BlockHeader.size mem p) ↔ Fits size.toNat b := by
  obtain ⟨-, length, flag⟩ := eq_blockAt_iff.mp here
  rw [Fits, flag, BitVec.le_def, length]

/-- **`Memory_alloc` walks to `NULL` when no free block is long enough.** -/
theorem allocLoop_none {size : Word} {mem : Mem} : ∀ {bs : List Block} {p : Word} {fuel : ℕ},
    Chain mem p bs → bs.length < fuel → allocate heapLayout size.toNat bs = none →
      allocLoop size fuel p mem = some (0, mem)
  | [], p, fuel + 1, chain, _, _ => by
      have null : p = 0 := chain
      rw [allocLoop, if_neg (not_not.mpr null)]
  | b :: bs, p, fuel + 1, ⟨nonnull, here, rest⟩, enough, failed => by
      have misfits := allocate_eq_none.mp failed
      have misfit := misfits b List.mem_cons_self
      rw [allocLoop, if_pos nonnull, if_neg ((fits_iff here).not.mpr misfit)]
      refine allocLoop_none rest (Nat.lt_of_succ_lt_succ enough) (allocate_eq_none.mpr ?_)
      exact fun c member => misfits c (List.mem_cons_of_mem b member)

/-- **`Memory_alloc` is first fit.** It changes memory only inside the block it takes. -/
theorem allocLoop_some {size : Word} {mem : Mem} {e : ℕ} (bound : e < 2 ^ 32) {b : Block} :
    ∀ {bs bs' : List Block} {p : Word} {fuel a : ℕ}, Chain mem p bs →
      Tiles heapLayout a bs e → 16 ≤ a → bs.length < fuel →
      allocate heapLayout size.toNat bs = some (b, bs') →
      ∃ q mem', allocLoop size fuel p mem = some (q, mem') ∧ q.toNat = b.addr + 12 ∧
        Chain mem' p bs' ∧
        ∀ x : Word, x.toNat < b.addr ∨ heapLayout.stop b ≤ x.toNat → mem' x = mem x
  | [], _, _, _, _, _, _, _, _, chosen => by simp [allocate] at chosen
  | c :: cs, bs', p, fuel + 1, a, chain, tiles, low, enough, chosen => by
      have whole := chain
      obtain ⟨nonnull, here, rest⟩ := chain
      have addr := (eq_blockAt_iff.mp here).1
      have start := tiles.1
      have fits := tiles_fits tiles bound c List.mem_cons_self
      unfold allocate at chosen
      split at chosen
      · rename_i fit
        obtain ⟨rfl, rfl⟩ := Prod.mk.inj (Option.some.inj chosen)
        rw [allocLoop, if_pos nonnull, if_pos ((fits_iff here).mpr fit)]
        have header_end := tiles.2.le
        rw [heapLayout_stop] at header_end
        refine ⟨_, _, rfl, ?_, chain_takeBlock whole tiles low bound fit⟩
        rw [toNat_add_of_fits (n := 13) (by omega) (by decide), addr]
        rfl
      · rename_i misfit
        obtain ⟨⟨d, ds⟩, chosen_behind, same⟩ := Option.map_eq_some_iff.mp chosen
        obtain ⟨rfl, rfl⟩ := Prod.mk.inj same
        rw [allocLoop, if_pos nonnull, if_neg ((fits_iff here).not.mpr misfit)]
        obtain ⟨q, mem', answer, payload, chain', frame⟩ := allocLoop_some bound rest tiles.2
          (by rw [heapLayout_stop]; omega) (Nat.lt_of_succ_lt_succ enough) chosen_behind
        refine ⟨q, mem', answer, payload, ?_, frame⟩
        have later := (tiles.2.bounds d (mem_of_allocate chosen_behind).1).1
        rw [heapLayout_stop] at later
        exact whole.cons_congr fits (fun x _ upper => frame x (Or.inl (by omega))) chain'

/-! ## Coalescing -/

/-- What one merge of `coalesce` leaves in the header of the block that grows. -/
theorem merge_spec (mem : Mem) {mem' : Mem} {p q : Word} {b c : Block}
    (fits : p.toNat + 12 ≤ 2 ^ 32)
    (apart : Apart p 12 q 12) (fits' : q.toNat + 12 ≤ 2 ^ 32)
    (here : blockAt mem p = b) (behind : blockAt mem q = c)
    (small : b.size + (c.size + 12) < 2 ^ 32) (linked : next mem p = q)
    (made : mem' = mergeNext p mem) :
    blockAt mem' p = heapLayout.absorb b c ∧ next mem' p = next mem q ∧
      ∀ x : Word, ¬ Covers p 12 x → mem' x = mem x := by
  obtain ⟨addr, length, flag⟩ := eq_blockAt_iff.mp here
  obtain ⟨-, length', -⟩ := eq_blockAt_iff.mp behind
  have kept : ∀ v, next (setSize p v mem) q = next mem q := fun v =>
    (header_congr fits' fun x inside =>
      setSize_apply fits v fun covered => apart x covered inside).2.2
  have shape : mem' =
      setNext p (next mem q) (setSize p (size mem p + (size mem q + sizeof)) mem) := by
    rw [made]
    simp only [mergeNext, next_setSize fits, linked, kept]
  have sum : (size mem p + (size mem q + sizeof)).toNat = b.size + (c.size + 12) := by
    simp only [BitVec.toNat_add, toNat_sizeof, length, length']
    omega
  refine ⟨eq_blockAt_iff.mpr ⟨addr, ?_, ?_⟩, ?_, fun x outside => ?_⟩
  · rw [shape, size_setNext fits, size_setSize]
    exact sum
  · rw [shape, used_setNext fits, used_setSize fits]
    exact flag
  · rw [shape, next_setNext]
  · rw [shape, setNext_apply fits _ outside, setSize_apply fits _ outside]

/-- **`coalesce` merges the free blocks.** It changes memory only in the headers of free
blocks. -/
theorem coalesceLoop_spec {e : ℕ} (bound : e < 2 ^ 32) :
    ∀ {bs : List Block} {b : Block} {mem : Mem} {p : Word} {fuel a : ℕ}, Chain mem p (b :: bs) →
      Tiles heapLayout a (b :: bs) e → bs.length < fuel →
      ∃ mem', coalesceLoop fuel p mem = some mem' ∧
        Chain mem' p (coalesceFrom heapLayout b bs) ∧
        ∀ x : Word, (∀ c ∈ b :: bs, c.used = false →
          x.toNat < c.addr ∨ c.addr + 12 ≤ x.toNat) → mem' x = mem x
  | [], b, mem, p, fuel + 1, a, chain, _, _ => by
      have last : next mem p = 0 := chain.2.2
      refine ⟨mem, ?_, chain, fun _ _ => rfl⟩
      rw [coalesceLoop, if_neg]
      exact fun both => both.2 last
  | c :: cs, b, mem, p, fuel + 1, a, chain, tiles, enough => by
      have fits := tiles_fits tiles bound
      obtain ⟨nonnull, here, nonnull', here', rest⟩ := chain
      obtain ⟨addr, length, flag⟩ := eq_blockAt_iff.mp here
      obtain ⟨addr', length', flag'⟩ := eq_blockAt_iff.mp here'
      have fits_b := fits b List.mem_cons_self
      have fits_c := fits c (by simp)
      have seam : c.addr = b.addr + 12 + b.size := tiles.2.1
      have finish := tiles.2.2.le
      rw [heapLayout_stop] at finish
      rw [coalesceLoop, if_pos ⟨nonnull, nonnull'⟩]
      unfold coalesceFrom
      by_cases both : b.used = false ∧ c.used = false
      · rw [if_pos both, if_pos ⟨flag.mpr both.1, flag'.mpr both.2⟩]
        obtain ⟨merged, skipped, frame⟩ := merge_spec mem (by omega)
          (apart_of_le (by omega)) (by omega) here here' (by omega) rfl rfl
        have chain' : Chain (mergeNext p mem) p (heapLayout.absorb b c :: cs) := by
          refine ⟨nonnull, merged, ?_⟩
          rw [skipped]
          refine rest.congr_behind tiles.2.2 bound fun x later => frame x ?_
          rw [heapLayout_stop] at later
          exact not_covers_iff.mpr (by omega)
        have tiles' : Tiles heapLayout a (heapLayout.absorb b c :: cs) e := by
          refine ⟨tiles.1, ?_⟩
          rw [stop_absorb seam]
          exact tiles.2.2
        obtain ⟨mem', answer, result, later⟩ := coalesceLoop_spec bound chain' tiles'
          (Nat.lt_of_succ_lt_succ enough)
        refine ⟨mem', answer, result, fun x outside => ?_⟩
        have outside_b := outside b List.mem_cons_self both.1
        rw [later x ?_, frame x (not_covers_iff.mpr (by omega))]
        intro d member unused
        rcases List.mem_cons.mp member with rfl | behind
        · exact outside_b
        · exact outside d (by simp [behind]) unused
      · rw [if_neg both, if_neg (fun free => both ⟨flag.mp free.1, flag'.mp free.2⟩)]
        have whole : Chain mem p (b :: c :: cs) := ⟨nonnull, here, nonnull', here', rest⟩
        obtain ⟨mem', answer, result, frame⟩ := coalesceLoop_spec bound whole.2.2 tiles.2
          (Nat.lt_of_succ_lt_succ enough)
        refine ⟨mem', answer, ?_, fun x outside => ?_⟩
        · refine whole.cons_congr fits_b ?_ result
          intro x lower upper
          refine frame x fun d member _ => Or.inl ?_
          have later := (tiles.2.bounds d member).1
          rw [heapLayout_stop] at later
          omega
        · exact frame x fun d member unused => outside d (List.mem_cons_of_mem b member) unused

/-! ## The free total -/

/-- The sizes of the free blocks together. -/
def freeTotal (bs : List Block) : ℕ :=
  ((bs.filter fun b => !b.used).map Block.size).sum

/-- **`Memory_get_free` adds up the sizes of the free blocks.** -/
theorem getFreeLoop_spec {mem : Mem} : ∀ {bs : List Block} {p : Word} (total : Word) {fuel : ℕ},
    Chain mem p bs → bs.length < fuel → total.toNat + freeTotal bs < 2 ^ 32 →
      ∃ answer, getFreeLoop mem fuel p total = some answer ∧
        answer.toNat = total.toNat + freeTotal bs
  | [], p, total, fuel + 1, chain, _, _ => by
      have null : p = 0 := chain
      refine ⟨total, ?_, rfl⟩
      rw [getFreeLoop, if_neg (not_not.mpr null)]
  | b :: bs, p, total, fuel + 1, ⟨nonnull, here, rest⟩, enough, small => by
      obtain ⟨-, length, flag⟩ := eq_blockAt_iff.mp here
      rw [getFreeLoop, if_pos nonnull]
      cases used_eq : b.used with
      | true =>
          have skip : freeTotal (b :: bs) = freeTotal bs := by simp [freeTotal, used_eq]
          rw [if_neg (by rw [flag, used_eq]; exact Bool.noConfusion), skip]
          exact getFreeLoop_spec total rest (Nat.lt_of_succ_lt_succ enough) (skip ▸ small)
      | false =>
          have add : freeTotal (b :: bs) = b.size + freeTotal bs := by simp [freeTotal, used_eq]
          rw [add] at small ⊢
          have next_total : (total + size mem p).toNat = total.toNat + b.size := by
            rw [BitVec.toNat_add, length]
            exact Nat.mod_eq_of_lt (by omega)
          rw [if_pos (flag.mpr used_eq)]
          obtain ⟨answer, result, sum⟩ := getFreeLoop_spec (total + size mem p) rest
            (Nat.lt_of_succ_lt_succ enough) (by omega)
          exact ⟨answer, result, by omega⟩

end CocosOS.Kernel.Memory
