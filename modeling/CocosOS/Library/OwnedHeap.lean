import CocosOS.Library.Allocator

/-!
# Programs that own the blocks of a heap

A program reads and stores bytes, requests blocks and releases them. `HeapCalls` is what it calls
for that; a call that is refused, or does not return, has no result. So a heap that refuses every
access outside a block and every release of a block that is not handed out tells by the results
alone whether a program keeps to its blocks. `Follows` says that one heap answers whatever another
one answers, and in the same way.

`OwnedHeap` is the contract of a heap and its only client. `Owns blocks s` says that in the state
`s` the client holds the blocks of the list. They lie in the address space, apart from each other
and away from `NULL`. A byte of such a block can be read and stored (`load`, `store`). A request
is answered with a block that is the client's from then on (`fresh`), or with `NULL`; a block is
released once (`release`). Neither call changes a byte of the blocks that stay. `bump` is a heap
that keeps this contract without ever using a block again. Where two clients share a heap, it is to
each of them a heap of its own (`beside`).
-/

set_option autoImplicit false

namespace CocosOS.Library.ByteMemory

/-- What a program does with memory. -/
structure HeapCalls (σ : Type) where
  load8 : Word → σ → Option Byte
  store8 : Word → Byte → σ → Option σ
  alloc : Word → σ → Option (Word × σ)
  free : Word → σ → Option σ

namespace HeapCalls

variable {σ τ : Type} (H : HeapCalls σ)

/-- Read a word, byte by byte. -/
def load32 (a : Word) (s : σ) : Option Word := do
  let b0 ← H.load8 a s
  let b1 ← H.load8 (a + 1) s
  let b2 ← H.load8 (a + 2) s
  let b3 ← H.load8 (a + 3) s
  return b3 ++ b2 ++ b1 ++ b0

/-- Store a word, byte by byte. -/
def store32 (a v : Word) (s : σ) : Option σ := do
  let s ← H.store8 (a + 3) (v.extractLsb' 24 8) s
  let s ← H.store8 (a + 2) (v.extractLsb' 16 8) s
  let s ← H.store8 (a + 1) (v.extractLsb' 8 8) s
  H.store8 a (v.extractLsb' 0 8) s

/-- Whatever the first heap answers, the second answers as well, and in the same way. -/
structure Follows (H : HeapCalls σ) (K : HeapCalls τ) (f : σ → τ) : Prop where
  load8 : ∀ {a : Word} {s : σ} {v : Byte}, H.load8 a s = some v → K.load8 a (f s) = some v
  store8 : ∀ {a : Word} {v : Byte} {s s' : σ}, H.store8 a v s = some s' →
    K.store8 a v (f s) = some (f s')
  alloc : ∀ {n p : Word} {s s' : σ}, H.alloc n s = some (p, s') → K.alloc n (f s) = some (p, f s')
  free : ∀ {p : Word} {s s' : σ}, H.free p s = some s' → K.free p (f s) = some (f s')

namespace Follows

variable {H} {K : HeapCalls τ} {f : σ → τ} (follows : Follows H K f)
include follows

theorem load32 {a v : Word} {s : σ} (answer : H.load32 a s = some v) :
    K.load32 a (f s) = some v := by
  simp only [HeapCalls.load32, Option.bind_eq_bind, Option.bind_eq_some_iff] at answer ⊢
  obtain ⟨b0, h0, b1, h1, b2, h2, b3, h3, word⟩ := answer
  exact ⟨b0, follows.load8 h0, b1, follows.load8 h1, b2, follows.load8 h2, b3,
    follows.load8 h3, word⟩

theorem store32 {a v : Word} {s s' : σ} (answer : H.store32 a v s = some s') :
    K.store32 a v (f s) = some (f s') := by
  simp only [HeapCalls.store32, Option.bind_eq_bind, Option.bind_eq_some_iff] at answer ⊢
  obtain ⟨s1, h1, s2, h2, s3, h3, h4⟩ := answer
  exact ⟨f s1, follows.store8 h1, f s2, follows.store8 h2, f s3, follows.store8 h3,
    follows.store8 h4⟩

end Follows

end HeapCalls

/-- A heap and what its only client may rely on. -/
structure OwnedHeap (σ : Type) extends HeapCalls σ where
  bytes : σ → Mem
  Owns : List Extent → σ → Prop
  perm : ∀ {blocks blocks' : List Extent} {s : σ}, Owns blocks s → blocks.Perm blocks' →
    Owns blocks' s
  fits : ∀ {blocks : List Extent} {s : σ}, Owns blocks s → ∀ b ∈ blocks, b.Fits
  nonnull : ∀ {blocks : List Extent} {s : σ}, Owns blocks s → ∀ b ∈ blocks, b.addr ≠ 0
  apart : ∀ {blocks : List Extent} {s : σ}, Owns blocks s → blocks.Pairwise Extent.Apart
  load : ∀ {blocks : List Extent} {s : σ} {x : Word}, Owns blocks s →
    ∀ b ∈ blocks, Covers b.addr b.length x → load8 x s = some (bytes s x)
  store : ∀ {blocks : List Extent} {s : σ} {x : Word}, Owns blocks s →
    ∀ b ∈ blocks, Covers b.addr b.length x → ∀ v, ∃ s', store8 x v s = some s' ∧
      Owns blocks s' ∧ bytes s' = ByteMemory.store8 (bytes s) x v
  fresh : ∀ {blocks : List Extent} {s s' : σ} {n p : Word}, Owns blocks s →
    alloc n s = some (p, s') →
      Owns (if p = 0 then blocks else ⟨p, n.toNat⟩ :: blocks) s' ∧
        ∀ b ∈ blocks, b.SameOn (bytes s) (bytes s')
  release : ∀ {blocks : List Extent} {s : σ} {b : Extent}, Owns (b :: blocks) s →
    ∃ s', free b.addr s = some s' ∧ Owns blocks s' ∧
      ∀ c ∈ blocks, c.SameOn (bytes s) (bytes s')

namespace OwnedHeap

variable {σ : Type} (H : OwnedHeap σ)

/-- The heap answers every request for as many bytes. -/
def Answers (n : Word) : Prop :=
  ∀ {blocks : List Extent} {s : σ}, H.Owns blocks s → ∃ p s', H.alloc n s = some (p, s')

/-- The heap answers no request with `NULL`, unless it is one for no bytes. -/
def NeverNull : Prop := ∀ {n p : Word} {s s' : σ}, H.alloc n s = some (p, s') → n ≠ 0 → p ≠ 0

/-- The heap that does not return where the given one answers `NULL` for want of room. -/
def strict : OwnedHeap σ where
  __ := H
  alloc n s := (H.alloc n s).filter fun answer => n = 0 ∨ answer.1 ≠ 0
  fresh owns call := H.fresh owns (Option.filter_eq_some_iff.mp call).1

theorem neverNull_strict : H.strict.NeverNull := by
  intro n p s s' call nonzero
  have answered : n = 0 ∨ p ≠ 0 := by simpa using (Option.filter_eq_some_iff.mp call).2
  exact answered.resolve_left nonzero

/-- The heap as one of two clients has it. The other one holds the given blocks, so that the
contract says of a call of the first that it leaves these alone. -/
def beside (others : List Extent) : OwnedHeap σ where
  __ := H
  Owns blocks s := H.Owns (blocks ++ others) s
  perm owns permutes := H.perm owns (permutes.append_right others)
  fits owns b member := H.fits owns b (List.mem_append_left others member)
  nonnull owns b member := H.nonnull owns b (List.mem_append_left others member)
  apart owns := (List.pairwise_append.mp (H.apart owns)).1
  load owns b member := H.load owns b (List.mem_append_left others member)
  store owns b member := H.store owns b (List.mem_append_left others member)
  fresh := by
    intro blocks s s' n p owns call
    obtain ⟨owns', kept⟩ := H.fresh owns call
    refine ⟨?_, fun b member => kept b (List.mem_append_left others member)⟩
    split_ifs at owns' ⊢ with null
    · exact owns'
    · exact owns'
  release := by
    intro blocks s b owns
    obtain ⟨s', released, owns', kept⟩ := H.release owns
    exact ⟨s', released, owns', fun c member => kept c (List.mem_append_left others member)⟩

theorem Answers.beside {H : OwnedHeap σ} {n : Word} (answers : H.Answers n)
    (others : List Extent) : (H.beside others).Answers n :=
  fun owns => answers owns

section Access

variable {H} {blocks : List Extent} {s : σ} {b : Extent}

/-- The bytes of a word inside a block. -/
theorem covers_word (owns : H.Owns blocks s) (member : b ∈ blocks) {offset : Word}
    (inside : offset.toNat + 4 ≤ b.length) {i : Word} (small : i.toNat < 4) :
    Covers b.addr b.length (b.addr + offset + i) := by
  have fits : b.addr.toNat + b.length ≤ 2 ^ 32 := H.fits owns b member
  have place := toNat_add_of_fits fits (i := offset) (by omega)
  have address : (b.addr + offset + i).toNat = (b.addr + offset).toNat + i.toNat :=
    toNat_add_of_fits (n := 4) (by omega) small
  exact ⟨by omega, by omega⟩

/-- A word inside a block is read. -/
theorem load32_eq (owns : H.Owns blocks s) (member : b ∈ blocks) {offset : Word}
    (inside : offset.toNat + 4 ≤ b.length) :
    H.load32 (b.addr + offset) s = some (ByteMemory.load32 (H.bytes s) (b.addr + offset)) := by
  have byte : ∀ i : Word, i.toNat < 4 → H.load8 (b.addr + offset + i) s =
      some (H.bytes s (b.addr + offset + i)) :=
    fun i small => H.load owns b member (covers_word owns member inside small)
  have first : H.load8 (b.addr + offset) s = some (H.bytes s (b.addr + offset)) := by
    simpa using byte 0 (by decide)
  simp only [HeapCalls.load32, first, byte 1 (by decide), byte 2 (by decide), byte 3 (by decide)]
  rfl

/-- A word inside a block is stored. -/
theorem store32_spec (owns : H.Owns blocks s) (member : b ∈ blocks) {offset : Word}
    (inside : offset.toNat + 4 ≤ b.length) (v : Word) :
    ∃ s', H.store32 (b.addr + offset) v s = some s' ∧ H.Owns blocks s' ∧
      H.bytes s' = ByteMemory.store32 (H.bytes s) (b.addr + offset) v := by
  have covers : ∀ i : Word, i.toNat < 4 → Covers b.addr b.length (b.addr + offset + i) :=
    fun i small => covers_word owns member inside small
  have first : Covers b.addr b.length (b.addr + offset) := by simpa using covers 0 (by decide)
  obtain ⟨s3, h3, owns3, e3⟩ := H.store owns b member (covers 3 (by decide)) (v.extractLsb' 24 8)
  obtain ⟨s2, h2, owns2, e2⟩ := H.store owns3 b member (covers 2 (by decide)) (v.extractLsb' 16 8)
  obtain ⟨s1, h1, owns1, e1⟩ := H.store owns2 b member (covers 1 (by decide)) (v.extractLsb' 8 8)
  obtain ⟨s0, h0, owns0, e0⟩ := H.store owns1 b member first (v.extractLsb' 0 8)
  refine ⟨s0, ?_, owns0, ?_⟩
  · simp only [HeapCalls.store32, h3, h2, h1, h0, Option.bind_eq_bind, Option.bind_some]
  · -- the model of a word store writes the same four bytes
    rw [e0, e1, e2, e3]
    rfl

end Access

/-! ## The simplest heap -/

/-- The heap that hands out the address space from its beginning to its end and does not return
when it is used up. A state is the memory and the first byte not handed out. -/
def bump : OwnedHeap (Mem × Word) where
  load8 a s := some (s.1 a)
  store8 a v s := some (ByteMemory.store8 s.1 a v, s.2)
  alloc n s :=
    if n = 0 then some (0, s)
    else if s.2.toNat + n.toNat < 2 ^ 32 then some (s.2, (s.1, s.2 + n))
    else none
  free _ s := some s
  bytes := Prod.fst
  Owns blocks s := 0 < s.2.toNat ∧ blocks.Pairwise Extent.Apart ∧
    ∀ b ∈ blocks, 0 < b.addr.toNat ∧ b.addr.toNat + b.length ≤ s.2.toNat
  perm owns permutes :=
    ⟨owns.1, (permutes.pairwise_iff Extent.Apart.symm).mp owns.2.1,
      fun b member => owns.2.2 b (permutes.mem_iff.mpr member)⟩
  fits owns b member := (owns.2.2 b member).2.trans (BitVec.isLt _).le
  nonnull owns b member := ne_zero_of_toNat_pos (owns.2.2 b member).1
  apart owns := owns.2.1
  load _ _ _ _ := rfl
  store owns _ _ _ _ := ⟨_, rfl, owns, rfl⟩
  fresh := by
    intro blocks s s' n p owns call
    split_ifs at call with empty room
    · obtain ⟨rfl, rfl⟩ := Prod.mk.inj (Option.some.inj call)
      exact ⟨owns, fun _ _ _ _ => rfl⟩
    · obtain ⟨rfl, rfl⟩ := Prod.mk.inj (Option.some.inj call)
      have next := toNat_add_of_fits (n := n.toNat + 1) room (Nat.lt_succ_self n.toNat)
      refine ⟨?_, fun _ _ _ _ => rfl⟩
      rw [if_neg (ne_zero_of_toNat_pos owns.1)]
      refine ⟨?_, List.pairwise_cons.mpr ⟨fun b member => ?_, owns.2.1⟩, fun b member => ?_⟩
      · dsimp only
        exact next ▸ Nat.lt_of_lt_of_le owns.1 (Nat.le_add_right _ _)
      · exact (apart_of_le (owns.2.2 b member).2).symm
      · dsimp only
        rw [next]
        rcases List.mem_cons.mp member with rfl | old
        · exact ⟨owns.1, Nat.le_refl _⟩
        · exact ⟨(owns.2.2 b old).1, (owns.2.2 b old).2.trans (Nat.le_add_right _ _)⟩
  release {_ s _} owns :=
    ⟨s, rfl, ⟨owns.1, (List.pairwise_cons.mp owns.2.1).2,
      fun c member => owns.2.2 c (List.mem_cons_of_mem _ member)⟩, fun _ _ _ _ => rfl⟩

end OwnedHeap

end CocosOS.Library.ByteMemory
