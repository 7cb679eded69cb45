import CocosOS.Kernel.Memory.HeapGuarantees
import CocosOS.Library.Allocator

/-!
# The kernel heap keeps the contract of an allocator

`Memory_alloc` is an allocator in the sense of the library (`heapAllocator`): the blocks handed
out are payloads of live pointers of a heap in which the invariant of its runs holds.
-/

set_option autoImplicit false

namespace CocosOS.Kernel.Memory

open Library.ByteMemory Library.BlockList

/-- The blocks of the list are in the payloads of the pointers, no two in one. -/
def HeldBy (live : List Word) (blocks : List Extent) (mem : Mem) : Prop :=
  (blocks.map Extent.addr).Nodup ∧
    ∀ b ∈ blocks, b.addr ∈ live ∧ b.length ≤ payloadSize mem b.addr

/-- The blocks of the list are in the payloads of live pointers of a heap. -/
def HeapHolds (start size : Word) (blocks : List Extent) (mem : Mem) : Prop :=
  ∃ bs live, HeapInv start size ⟨⟨start, start + size⟩, mem, live⟩ bs ∧ HeldBy live blocks mem

namespace HeapInv

variable {start size : Word} {live : List Word} {mem : Mem} {bs : List Block}
  (inv : HeapInv start size ⟨⟨start, start + size⟩, mem, live⟩ bs) {blocks : List Extent}
  (held : HeldBy live blocks mem)
include inv held

/-- A call takes none of the payloads back. -/
theorem heldBy_alloc {n p : Word} {mem' : Mem}
    (call : memoryAlloc ⟨start, start + size⟩ n mem = some (p, mem')) :
    HeldBy (if p = 0 then live else p :: live) blocks mem' := by
  refine ⟨held.1, fun b member => ?_⟩
  obtain ⟨alive, short⟩ := held.2 b member
  rw [inv.payloadSize_alloc call alive]
  refine ⟨?_, short⟩
  split
  · exact alive
  · exact List.mem_cons_of_mem p alive

/-- The payload of an answered request is one more. -/
theorem heldBy_fresh {n p : Word} {mem' : Mem} (small : n.toNat ≤ maxRequest)
    (call : memoryAlloc ⟨start, start + size⟩ n mem = some (p, mem')) (nonnull : p ≠ 0) :
    HeldBy (p :: live) (⟨p, n.toNat⟩ :: blocks) mem' := by
  have after := inv.alloc call
  have old := inv.heldBy_alloc held call
  rw [if_neg nonnull] at after old
  have stranger : p ∉ live := (List.nodup_cons.mp after.live_nodup).1
  refine ⟨List.nodup_cons.mpr ⟨fun again => ?_, held.1⟩, fun b member => ?_⟩
  · obtain ⟨b, member, rfl⟩ := List.mem_map.mp again
    exact stranger (held.2 b member).1
  · rcases List.mem_cons.mp member with rfl | old_member
    · exact ⟨List.mem_cons_self,
        inv.le_payloadSize_alloc (Nat.le_trans small (by decide)) call nonnull⟩
    · exact old.2 b old_member

/-- Stores into the payloads and below the heap leave the heap as it is. -/
theorem heldBy_stable_of_heap {mem' : Mem}
    (frame : ∀ x, start.toNat ≤ x.toNat → (∀ b ∈ blocks, ¬ Covers b.addr b.length x) →
      mem' x = mem x) :
    HeapInv start size ⟨⟨start, start + size⟩, mem', live⟩ bs ∧ HeldBy live blocks mem' := by
  have after : HeapInv start size ⟨⟨start, start + size⟩, mem', live⟩ bs := by
    refine inv.congr_of_heap fun x above outside => frame x above fun b member inside => ?_
    obtain ⟨alive, short⟩ := held.2 b member
    refine outside b.addr alive ⟨inside.1, ?_⟩
    exact Nat.lt_of_lt_of_le inside.2 (Nat.add_le_add_left short _)
  refine ⟨after, held.1, fun b member => ?_⟩
  obtain ⟨alive, short⟩ := held.2 b member
  rw [show payloadSize mem' b.addr = payloadSize mem b.addr from inv.payloadSize_congr after alive]
  exact ⟨alive, short⟩

/-- Stores into the payloads leave the heap as it is. -/
theorem heldBy_stable {mem' : Mem}
    (frame : ∀ x, (∀ b ∈ blocks, ¬ Covers b.addr b.length x) → mem' x = mem x) :
    HeapInv start size ⟨⟨start, start + size⟩, mem', live⟩ bs ∧ HeldBy live blocks mem' :=
  inv.heldBy_stable_of_heap held fun x _ outside => frame x outside

end HeapInv

/-- The first free block that is long enough for a request. -/
def firstFit (bounds : HeapBounds) (n : Word) (mem : Mem) : Option Block :=
  (heapBlocks bounds mem).bind fun bs => bs.find? fun b => decide (Fits (roundSize n).toNat b)

namespace HeapHolds

variable {start size : Word} {blocks : List Extent} {mem : Mem}
  (holds : HeapHolds start size blocks mem)
include holds

theorem fits {b : Extent} (member : b ∈ blocks) : b.Fits := by
  obtain ⟨bs, live, inv, held⟩ := holds
  obtain ⟨alive, short⟩ := held.2 b member
  have inside : b.addr.toNat + payloadSize mem b.addr ≤ start.toNat + size.toNat :=
    (inv.payload_bounds alive).2
  have bound := inv.fits
  rw [Extent.Fits]
  omega

theorem apart : blocks.Pairwise Extent.Apart := by
  obtain ⟨bs, live, inv, held⟩ := holds
  refine (List.pairwise_map.mp held.1).imp_of_mem fun {b c} hb hc distinct => ?_
  obtain ⟨alive, short⟩ := held.2 b hb
  obtain ⟨alive', short'⟩ := held.2 c hc
  obtain ⟨b', hb', -, owner⟩ := inv.exists_block alive
  obtain ⟨c', hc', -, owner'⟩ := inv.exists_block alive'
  rw [inv.payloadSize_eq hb' owner] at short
  rw [inv.payloadSize_eq hc' owner'] at short'
  rcases inv.tiles.trichotomy b' hb' c' hc' with rfl | before | after
  · exact absurd (BitVec.eq_of_toNat_eq (owner.symm.trans owner')) distinct
  · rw [heapLayout_stop] at before
    exact apart_of_le (by omega)
  · rw [heapLayout_stop] at after
    exact (apart_of_le (by omega)).symm

theorem keeps {n p : Word} {mem' : Mem}
    (call : memoryAlloc ⟨start, start + size⟩ n mem = some (p, mem')) :
    ∀ b ∈ blocks, b.SameOn mem mem' := by
  obtain ⟨bs, live, inv, held⟩ := holds
  intro b member x inside
  obtain ⟨alive, short⟩ := held.2 b member
  obtain ⟨q, taken, answer, -, isolated⟩ := inv.isolated_alloc n
  rw [answer, Option.some.injEq, Prod.mk.injEq] at call
  obtain ⟨rfl, rfl⟩ := call
  refine isolated.payloads b.addr alive x ⟨inside.1, ?_⟩
  exact Nat.lt_of_lt_of_le inside.2 (Nat.add_le_add_left short _)

theorem alloc {n p : Word} {mem' : Mem}
    (call : memoryAlloc ⟨start, start + size⟩ n mem = some (p, mem')) :
    HeapHolds start size blocks mem' := by
  obtain ⟨bs, live, inv, held⟩ := holds
  exact ⟨_, _, inv.alloc call, inv.heldBy_alloc held call⟩

theorem fresh {n p : Word} {mem' : Mem} (small : n.toNat ≤ maxRequest)
    (call : memoryAlloc ⟨start, start + size⟩ n mem = some (p, mem')) (nonnull : p ≠ 0) :
    HeapHolds start size (⟨p, n.toNat⟩ :: blocks) mem' := by
  obtain ⟨bs, live, inv, held⟩ := holds
  have after := inv.alloc call
  rw [if_neg nonnull] at after
  exact ⟨_, _, after, inv.heldBy_fresh held small call nonnull⟩

/-- A request is answered with the payload of the first block that fits. -/
theorem alloc_of_firstFit {n : Word} (nonzero : n ≠ 0) {b : Block}
    (found : firstFit ⟨start, start + size⟩ n mem = some b) :
    BitVec.ofNat 32 (b.addr + 12) ≠ 0 ∧ ∃ mem',
      memoryAlloc ⟨start, start + size⟩ n mem = some (BitVec.ofNat 32 (b.addr + 12), mem') := by
  obtain ⟨bs, live, inv, -⟩ := holds
  have listed : heapBlocks ⟨start, start + size⟩ mem = some bs := inv.heapBlocks_eq
  rw [firstFit, listed, Option.bind_some] at found
  rcases inv.memoryAlloc_spec n with ⟨-, -, zero | misfit⟩ |
    ⟨c, bs', p, mem', -, chosen, answer, payload, -⟩
  · exact absurd zero nonzero
  · have fits : Fits (roundSize n).toNat b := by simpa using List.find?_some found
    exact absurd fits (misfit b (List.mem_of_find?_eq_some found))
  · rw [find?_of_allocate chosen, Option.some.injEq] at found
    subst found
    have same : p = BitVec.ofNat 32 (c.addr + 12) := by
      rw [← payload, BitVec.ofNat_toNat, BitVec.setWidth_eq]
    rw [← same]
    exact ⟨ne_zero_of_toNat_pos (by omega), mem', answer⟩

theorem stable {mem' : Mem}
    (frame : ∀ x, (∀ b ∈ blocks, ¬ Covers b.addr b.length x) → mem' x = mem x) :
    HeapHolds start size blocks mem' := by
  obtain ⟨bs, live, inv, held⟩ := holds
  exact ⟨bs, live, inv.heldBy_stable held frame⟩

/-- What is below the heap is no concern of it. -/
theorem stable_of_heap {mem' : Mem}
    (frame : ∀ x, start.toNat ≤ x.toNat → (∀ b ∈ blocks, ¬ Covers b.addr b.length x) →
      mem' x = mem x) :
    HeapHolds start size blocks mem' := by
  obtain ⟨bs, live, inv, held⟩ := holds
  exact ⟨bs, live, inv.heldBy_stable_of_heap held frame⟩

/-- Every request is answered, be it with `NULL`. -/
theorem answers (n : Word) :
    ∃ p mem', memoryAlloc ⟨start, start + size⟩ n mem = some (p, mem') := by
  obtain ⟨bs, live, inv, -⟩ := holds
  obtain ⟨p, mem', answer, -⟩ := inv.isolated_alloc n
  exact ⟨p, mem', answer⟩

end HeapHolds

/-- The block of an answer, if there is one. -/
def answered (p : Word) (n : ℕ) : List Extent := if p = 0 then [] else [⟨p, n⟩]

namespace HeapHolds

variable {start size : Word} {blocks : List Extent} {mem : Mem}

theorem request (holds : HeapHolds start size blocks mem) {n p : Word} {mem' : Mem}
    (small : n.toNat ≤ maxRequest)
    (call : memoryAlloc ⟨start, start + size⟩ n mem = some (p, mem')) :
    HeapHolds start size (answered p n.toNat ++ blocks) mem' := by
  rw [answered]
  split_ifs with null
  · exact holds.alloc call
  · exact holds.fresh small call null

/-- Blocks may be left out of account. -/
theorem mono_append {more : List Extent} (holds : HeapHolds start size (more ++ blocks) mem) :
    HeapHolds start size blocks mem := by
  obtain ⟨bs, live, inv, distinct, held⟩ := holds
  rw [List.map_append] at distinct
  exact ⟨bs, live, inv, (List.nodup_append.mp distinct).2.1,
    fun b member => held b (List.mem_append_right _ member)⟩

/-- The block of an answer lies in the address space, and so do as many bytes from zero on. -/
theorem fits_answered (holds : HeapHolds start size blocks mem) {p : Word} {n : ℕ}
    (small : n ≤ 2 ^ 32) (part : answered p n ⊆ blocks) : p.toNat + n ≤ 2 ^ 32 := by
  by_cases null : p = 0
  · rw [null]
    simpa using small
  · rw [answered, if_neg null] at part
    exact holds.fits (part (List.mem_singleton_self _))

/-- A store through an answer leaves the heap as it is, also where the answer is `NULL`, if the
heap does not begin within reach. -/
theorem store (holds : HeapHolds start size blocks mem) {p : Word} {n : ℕ} {mem' : Mem}
    (low : n ≤ start.toNat) (part : answered p n ⊆ blocks)
    (frame : ∀ x, ¬ Covers p n x → mem' x = mem x) : HeapHolds start size blocks mem' := by
  refine holds.stable_of_heap fun x above outside => frame x ?_
  by_cases null : p = 0
  · rw [null]
    exact fun inside => Nat.not_lt_of_le (Nat.le_trans low above)
      (Nat.lt_of_lt_of_eq inside.2 (Nat.zero_add n))
  · rw [answered, if_neg null] at part
    exact outside _ (part (List.mem_singleton_self _))

end HeapHolds

/-- **`Memory_alloc` is an allocator**: a block that it hands out lies in the address space and
apart from all others, and it changes no byte of a block that is handed out. -/
def heapAllocator (start size : Word) : Allocator where
  alloc := memoryAlloc ⟨start, start + size⟩
  Allocated := HeapHolds start size
  fits holds _ member := holds.fits member
  apart holds := holds.apart
  keeps holds call := holds.keeps call
  holds holds call := holds.alloc call
  fresh holds small call nonnull := holds.fresh small call nonnull
  stable holds frame := holds.stable frame

theorem heldBy_nil (live : List Word) (mem : Mem) : HeldBy live [] mem :=
  ⟨List.nodup_nil, fun _ member => absurd member List.not_mem_nil⟩

/-- No block is handed out after `Memory_init`. -/
theorem heapHolds_memoryInit {start size : Word} (low : 16 ≤ start.toNat)
    (room : 12 < size.toNat) (fits : start.toNat + size.toNat < 2 ^ 32) (mem : Mem) :
    HeapHolds start size [] (memoryInit start size mem).2 :=
  ⟨_, _, heapInv_memoryInit low room fits mem, heldBy_nil _ _⟩

end CocosOS.Kernel.Memory
