import CocosOS.Kernel.Memory.HeapAllocator
import CocosOS.Library.OwnedHeap

/-!
# A program that owns the kernel heap

`bareHeap` is memory as a program of the kernel finds it: every byte can be read and stored, and
`Memory_alloc` and `Memory_free` are the functions of `memory.c`. `watchedHeap` refuses a load or
a store outside the payloads of the live pointers and a release of a pointer that is not live.
Where it answers, it does what the bare heap does (`watchedHeap_follows`). So a program that it
lets through uses no block after its release and releases none twice.

The watched heap and its only client keep the contract of the library (`memoryHeap`): the live
pointers are the blocks of the client, no more and no less. What others do with the heap keeps it as
well, a request that wraps around (`owns_memoryAlloc`) and a store outside (`owns_store_outside`).
-/

set_option autoImplicit false

namespace CocosOS.Kernel.Memory

open Library.ByteMemory Library.BlockList

/-! ## The heap with and without a watch -/

/-- Memory and the heap in it, as the kernel has them. -/
def bareHeap : HeapCalls (HeapBounds × Mem) where
  load8 a s := some (s.2 a)
  store8 a v s := some (s.1, store8 s.2 a v)
  alloc n s := (memoryAlloc s.1 n s.2).map fun answer => (answer.1, (s.1, answer.2))
  free p s := (memoryFree s.1 p s.2).map fun mem => (s.1, mem)

namespace HeapState

/-- The byte lies in the payload of a live pointer. -/
def Held (s : HeapState) (x : Word) : Prop := ∃ p ∈ s.live, Covers p (payloadSize s.mem p) x

instance (s : HeapState) : DecidablePred s.Held :=
  fun _ => inferInstanceAs (Decidable (∃ p ∈ s.live, _))

/-- What `Memory_init` leaves. -/
def init (start size : Word) (mem : Mem) : HeapState :=
  ⟨(memoryInit start size mem).1, (memoryInit start size mem).2, []⟩

def bare (s : HeapState) : HeapBounds × Mem := (s.bounds, s.mem)

end HeapState

/-- The heap that refuses what is outside the payloads of the live pointers, a release of what is
not live, and a request so long that rounding it would wrap around. -/
def watchedHeap : HeapCalls HeapState where
  load8 a s := if s.Held a then some (s.mem a) else none
  store8 a v s := if s.Held a then some { s with mem := store8 s.mem a v } else none
  alloc n s :=
    if n.toNat ≤ 2 ^ 32 - 4 then
      (memoryAlloc s.bounds n s.mem).map fun answer =>
        (answer.1, ⟨s.bounds, answer.2, if answer.1 = 0 then s.live else answer.1 :: s.live⟩)
    else none
  free p s :=
    if p ∈ s.live then
      (memoryFree s.bounds p s.mem).map fun mem => ⟨s.bounds, mem, s.live.erase p⟩
    else none

/-- **What the watched heap lets through, it does as the bare heap does.** -/
theorem watchedHeap_follows : watchedHeap.Follows bareHeap HeapState.bare where
  load8 {a s v} answer := by
    simp only [watchedHeap, Option.ite_none_right_eq_some] at answer
    exact answer.2
  store8 {a v s s'} answer := by
    simp only [watchedHeap, Option.ite_none_right_eq_some, Option.some.injEq] at answer
    obtain ⟨-, rfl⟩ := answer
    rfl
  alloc {n p s s'} answer := by
    simp only [watchedHeap, Option.ite_none_right_eq_some, Option.map_eq_some_iff,
      Prod.mk.injEq] at answer
    obtain ⟨-, result, call, rfl, rfl⟩ := answer
    exact Option.map_eq_some_iff.mpr ⟨result, call, rfl⟩
  free {p s s'} answer := by
    simp only [watchedHeap, Option.ite_none_right_eq_some, Option.map_eq_some_iff] at answer
    obtain ⟨-, mem, call, rfl⟩ := answer
    exact Option.map_eq_some_iff.mpr ⟨mem, call, rfl⟩

/-! ## Ownership -/

/-- The blocks of the list begin at the live pointers, one each, and are no longer than the
payloads there. -/
def OwnedBy (s : HeapState) (blocks : List Extent) : Prop :=
  s.live.Perm (blocks.map Extent.addr) ∧ ∀ b ∈ blocks, b.length ≤ payloadSize s.mem b.addr

namespace OwnedBy

variable {s : HeapState} {blocks : List Extent} (owned : OwnedBy s blocks)
include owned

theorem live {b : Extent} (member : b ∈ blocks) : b.addr ∈ s.live :=
  owned.1.mem_iff.mpr (List.mem_map_of_mem member)

theorem perm {blocks' : List Extent} (permutes : blocks.Perm blocks') : OwnedBy s blocks' :=
  ⟨owned.1.trans (permutes.map _), fun b member => owned.2 b (permutes.mem_iff.mpr member)⟩

theorem held {b : Extent} (member : b ∈ blocks) {x : Word} (inside : Covers b.addr b.length x) :
    s.Held x := by
  refine ⟨b.addr, owned.live member, inside.1, ?_⟩
  exact Nat.lt_of_lt_of_le inside.2 (Nat.add_le_add_left (owned.2 b member) _)

theorem heldBy (nodup : s.live.Nodup) : HeldBy s.live blocks s.mem :=
  ⟨owned.1.nodup_iff.mp nodup, fun b member => ⟨owned.live member, owned.2 b member⟩⟩

end OwnedBy

namespace HeapInv

variable {start size : Word} {s : HeapState} {bs : List Block} (inv : HeapInv start size s bs)
include inv

/-- `Memory_free` leaves the size of every other live block. -/
theorem payloadSize_free {p q : Word} (live : p ∈ s.live) (kept : q ∈ s.live) (ne : q ≠ p)
    {mem' : Mem} (call : memoryFree s.bounds p s.mem = some mem') :
    payloadSize mem' q = payloadSize s.mem q := by
  obtain ⟨b, member, used, owner⟩ := inv.exists_block kept
  have distinct : q.toNat ≠ p.toNat := fun same => ne (BitVec.eq_of_toNat_eq same)
  obtain ⟨c, _, _, released⟩ := inv.exists_block live
  have still : b ∈ usedBlocks (freeBlocks p bs) := by
    rw [freeBlocks, usedBlocks_free, List.mem_filter, mem_usedBlocks]
    refine ⟨⟨member, used⟩, decide_eq_true ?_⟩
    show b.addr ≠ p.toNat - 12
    omega
  rw [(inv.free live call).payloadSize_eq (mem_usedBlocks.mp still).1 owner,
    inv.payloadSize_eq member owner]

/-- What can be supplied before a release can be supplied after it. -/
theorem alloc_after_free {p n q q' : Word} {mem' taken taken' : Mem} (live : p ∈ s.live)
    (before : memoryAlloc s.bounds n s.mem = some (q, taken)) (given : q ≠ 0)
    (freed : memoryFree s.bounds p s.mem = some mem')
    (after : memoryAlloc s.bounds n mem' = some (q', taken')) : q' ≠ 0 := by
  obtain ⟨nonzero, room⟩ := (inv.memoryAlloc_ne_zero_iff before).mp given
  exact ((inv.free live freed).memoryAlloc_ne_zero_iff after).mpr
    ⟨nonzero, exists_fits_free _ room⟩

variable {blocks : List Extent} (owned : OwnedBy s blocks)
include owned

theorem heapHolds : HeapHolds start size blocks s.mem := by
  obtain ⟨bounds, mem, live⟩ := s
  obtain rfl : bounds = ⟨start, start + size⟩ := inv.bounds
  exact ⟨bs, live, inv, owned.heldBy inv.live_nodup⟩

theorem ownedBy_store {b : Extent} (member : b ∈ blocks) {x : Word}
    (inside : Covers b.addr b.length x) (v : Byte) :
    HeapInv start size { s with mem := store8 s.mem x v } bs ∧
      OwnedBy { s with mem := store8 s.mem x v } blocks := by
  obtain ⟨bounds, mem, live⟩ := s
  obtain rfl : bounds = ⟨start, start + size⟩ := inv.bounds
  have frame : ∀ y, (∀ c ∈ blocks, ¬ Covers c.addr c.length y) → store8 mem x v y = mem y :=
    fun y outside => store8_apply_of_ne fun same => outside b member (same ▸ inside)
  have stable := inv.heldBy_stable (owned.heldBy inv.live_nodup) frame
  exact ⟨stable.1, owned.1, fun c hc => (stable.2.2 c hc).2⟩

theorem ownedBy_alloc {n p : Word} {length : ℕ} {mem' : Mem}
    (call : memoryAlloc s.bounds n s.mem = some (p, mem'))
    (enough : p ≠ 0 → length ≤ payloadSize mem' p) :
    OwnedBy ⟨s.bounds, mem', if p = 0 then s.live else p :: s.live⟩
      (if p = 0 then blocks else ⟨p, length⟩ :: blocks) := by
  have old : ∀ b ∈ blocks, b.length ≤ payloadSize mem' b.addr := by
    intro b member
    rw [inv.payloadSize_alloc call (owned.live member)]
    exact owned.2 b member
  by_cases null : p = 0
  · rw [if_pos null, if_pos null]
    exact ⟨owned.1, old⟩
  · rw [if_neg null, if_neg null]
    refine ⟨owned.1.cons p, fun b member => ?_⟩
    rcases List.mem_cons.mp member with rfl | before
    · exact enough null
    · exact old b before

/-- A block of the client lies in the heap. -/
theorem owned_bounds {b : Extent} (member : b ∈ blocks) :
    start.toNat ≤ b.addr.toNat ∧ b.addr.toNat + b.length ≤ start.toNat + size.toNat := by
  have bounds := inv.payload_bounds (owned.live member)
  have short := owned.2 b member
  omega

/-- A store outside the heap leaves it as it is. -/
theorem ownedBy_store_outside {x : Word}
    (outside : x.toNat < start.toNat ∨ start.toNat + size.toNat ≤ x.toNat) (v : Byte) :
    HeapInv start size { s with mem := store8 s.mem x v } bs ∧
      OwnedBy { s with mem := store8 s.mem x v } blocks := by
  have after : HeapInv start size { s with mem := store8 s.mem x v } bs := by
    refine inv.congr_inside fun y low high _ => store8_apply_of_ne ?_
    rintro rfl
    omega
  refine ⟨after, owned.1, fun b member => ?_⟩
  have kept : payloadSize (store8 s.mem x v) b.addr = payloadSize s.mem b.addr :=
    inv.payloadSize_congr after (owned.live member)
  exact (owned.2 b member).trans_eq kept.symm

omit owned in
theorem ownedBy_free {b : Extent} (owned : OwnedBy s (b :: blocks)) {mem' : Mem}
    (call : memoryFree s.bounds b.addr s.mem = some mem') :
    OwnedBy ⟨s.bounds, mem', s.live.erase b.addr⟩ blocks := by
  have nodup : (b.addr :: blocks.map Extent.addr).Nodup :=
    owned.1.nodup_iff.mp inv.live_nodup
  refine ⟨?_, fun c member => ?_⟩
  · have erased := owned.1.erase b.addr
    rw [List.map_cons, List.erase_cons_head] at erased
    exact erased
  · have later : c ∈ b :: blocks := List.mem_cons_of_mem b member
    rw [inv.payloadSize_free (owned.live List.mem_cons_self) (owned.live later) ?_ call]
    · exact owned.2 c later
    · intro same
      exact (List.nodup_cons.mp nodup).1 (same ▸ List.mem_map_of_mem member)

end HeapInv

/-- **The watched heap keeps the contract of a heap and its only client.** -/
def memoryHeap (start size : Word) : OwnedHeap HeapState where
  __ := watchedHeap
  bytes := HeapState.mem
  Owns blocks s := ∃ bs, HeapInv start size s bs ∧ OwnedBy s blocks
  perm := by
    rintro blocks blocks' s ⟨bs, inv, owned⟩ permutes
    exact ⟨bs, inv, owned.perm permutes⟩
  fits := by
    rintro blocks s ⟨bs, inv, owned⟩ b member
    exact (inv.heapHolds owned).fits member
  nonnull := by
    rintro blocks s ⟨bs, inv, owned⟩ b member
    have bounds := inv.payload_bounds (owned.live member)
    exact ne_zero_of_toNat_pos (by omega)
  apart := by
    rintro blocks s ⟨bs, inv, owned⟩
    exact (inv.heapHolds owned).apart
  load := by
    rintro blocks s x ⟨bs, inv, owned⟩ b member inside
    exact if_pos (owned.held member inside)
  store := by
    rintro blocks s x ⟨bs, inv, owned⟩ b member inside v
    exact ⟨_, if_pos (owned.held member inside), ⟨bs, inv.ownedBy_store owned member inside v⟩, rfl⟩
  fresh := by
    rintro blocks s s' n p ⟨bs, inv, owned⟩ call
    simp only [watchedHeap, Option.ite_none_right_eq_some, Option.map_eq_some_iff,
      Prod.mk.injEq] at call
    obtain ⟨small, ⟨q, mem'⟩, answer, rfl, rfl⟩ := call
    refine ⟨⟨_, inv.alloc answer, inv.ownedBy_alloc owned answer
      (inv.le_payloadSize_alloc small answer)⟩, ?_⟩
    have bounds := inv.bounds
    exact (inv.heapHolds owned).keeps (by rw [← bounds]; exact answer)
  release := by
    rintro blocks s b ⟨bs, inv, owned⟩
    have live := owned.live List.mem_cons_self
    obtain ⟨mem', answer, isolated⟩ := inv.isolated_free live
    refine ⟨⟨s.bounds, mem', s.live.erase b.addr⟩, ?_,
      ⟨_, inv.free live answer, inv.ownedBy_free owned answer⟩, fun c member x inside => ?_⟩
    · simp only [watchedHeap, if_pos live, answer, Option.map_some]
    · have after := inv.ownedBy_free owned answer
      refine isolated.payloads c.addr (after.live member) x ⟨inside.1, ?_⟩
      exact Nat.lt_of_lt_of_le inside.2
        (Nat.add_le_add_left (owned.2 c (List.mem_cons_of_mem b member)) _)

/-- The watched heap answers every request that does not wrap around. -/
theorem answers_memoryHeap (start size : Word) {n : Word} (small : n.toNat ≤ 2 ^ 32 - 4) :
    (memoryHeap start size).Answers n := by
  rintro blocks s ⟨bs, inv, owned⟩
  obtain ⟨p, mem', answer, -⟩ := inv.isolated_alloc n
  refine ⟨p, ⟨s.bounds, mem', if p = 0 then s.live else p :: s.live⟩, ?_⟩
  simp only [memoryHeap, watchedHeap, if_pos small, answer, Option.map_some]

/-! ## What others do with the heap -/

section Others

variable {start size : Word} {blocks : List Extent} {s : HeapState}
  (owns : (memoryHeap start size).Owns blocks s)
include owns

/-- A block is as long as its request was rounded, whether rounding it wrapped around or not. -/
theorem owns_memoryAlloc {n p : Word} {mem' : Mem}
    (call : memoryAlloc s.bounds n s.mem = some (p, mem')) :
    (memoryHeap start size).Owns
        (if p = 0 then blocks else ⟨p, (roundSize n).toNat⟩ :: blocks)
        ⟨s.bounds, mem', if p = 0 then s.live else p :: s.live⟩ ∧
      ∀ b ∈ blocks, b.SameOn s.mem mem' := by
  obtain ⟨bs, inv, owned⟩ := owns
  have bounds := inv.bounds
  exact ⟨⟨_, inv.alloc call, inv.ownedBy_alloc owned call (inv.round_le_payloadSize_alloc call)⟩,
    (inv.heapHolds owned).keeps (by rw [← bounds]; exact call)⟩

theorem owns_store_outside {x : Word}
    (outside : x.toNat < s.bounds.heapStart.toNat ∨ s.bounds.heapEnd.toNat ≤ x.toNat) (v : Byte) :
    (memoryHeap start size).Owns blocks { s with mem := store8 s.mem x v } ∧
      ∀ b ∈ blocks, b.SameOn s.mem (store8 s.mem x v) := by
  obtain ⟨bs, inv, owned⟩ := owns
  rw [inv.heapStart_eq, inv.toNat_heapEnd] at outside
  refine ⟨⟨bs, inv.ownedBy_store_outside owned outside v⟩, fun b member => sameOn_store8 ?_⟩
  have bounds := inv.owned_bounds owned member
  rintro ⟨above, below⟩
  omega

end Others

/-- Nothing is owned after `Memory_init`. -/
theorem owns_init {start size : Word} (low : 16 ≤ start.toNat) (room : 12 < size.toNat)
    (fits : start.toNat + size.toNat < 2 ^ 32) (mem : Mem) :
    (memoryHeap start size).Owns [] (HeapState.init start size mem) :=
  ⟨_, heapInv_memoryInit low room fits mem, List.Perm.refl _,
    fun _ member => absurd member List.not_mem_nil⟩

end CocosOS.Kernel.Memory
