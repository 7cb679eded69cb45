import Mathlib.Data.List.Chain
import Mathlib.Data.List.Nodup
import Mathlib.Algebra.BigOperators.Group.List.Basic
import Mathlib.Algebra.GroupWithZero.Nat
import Mathlib.Tactic.Common

/-!
# Block lists that tile an interval

A heap with headers in line is a list of blocks: an address, a payload size and a flag. Each
block is a header followed by its payload, and the blocks of a heap tile an interval: every
block starts where the one before it ends (`Tiles`). The header size and the least remainder
worth splitting off are parameters (`Layout`).

`allocate` is first fit with splitting, `coalesce` merges neighbouring free blocks in one
pass, and `free` releases one block and coalesces. All of them keep the tiling. A list is
canonical when no two neighbours are free. **A canonical tiling is determined by its used
blocks** (`canonical_unique`), so every question about the order of operations becomes a
question about which blocks are used.
-/

set_option autoImplicit false

namespace CocosOS.Library.BlockList

/-- A block: where its header starts, the size of its payload, and whether it is in use. -/
structure Block where
  addr : ℕ
  size : ℕ
  used : Bool
deriving DecidableEq, Repr

/-- The shape of a heap: how long a header is, and how much a block must exceed a request
and a header before its rest is split off. -/
structure Layout where
  header : ℕ
  slack : ℕ
  header_pos : 0 < header

variable (L : Layout)

/-- The first byte of the payload of a block. -/
def Layout.payload (b : Block) : ℕ := b.addr + L.header

/-- The first byte after a block. -/
def Layout.stop (b : Block) : ℕ := b.addr + L.header + b.size

/-! ## Tilings -/

/-- The blocks follow each other without gaps from `a` to `e`. -/
def Tiles : ℕ → List Block → ℕ → Prop
  | a, [], e => a = e
  | a, b :: bs, e => b.addr = a ∧ Tiles (L.stop b) bs e

variable {L}

@[simp] theorem tiles_nil {a e : ℕ} : Tiles L a [] e ↔ a = e := Iff.rfl

@[simp] theorem tiles_cons {a e : ℕ} {b : Block} {bs : List Block} :
    Tiles L a (b :: bs) e ↔ b.addr = a ∧ Tiles L (L.stop b) bs e := Iff.rfl

theorem tiles_append {e : ℕ} {r : List Block} : ∀ {a : ℕ} {l : List Block},
    Tiles L a (l ++ r) e ↔ ∃ m, Tiles L a l m ∧ Tiles L m r e
  | a, [] => by simp
  | a, b :: bs => by
      simp only [List.cons_append, tiles_cons, tiles_append (l := bs)]
      constructor
      · rintro ⟨start, m, left, right⟩
        exact ⟨m, ⟨start, left⟩, right⟩
      · rintro ⟨m, ⟨start, left⟩, right⟩
        exact ⟨start, m, left, right⟩

namespace Tiles

theorem le {a e : ℕ} {l : List Block} (tiles : Tiles L a l e) : a ≤ e := by
  induction l generalizing a with
  | nil => exact Nat.le_of_eq tiles
  | cons b bs ih =>
      have rest := ih tiles.2
      have start := tiles.1
      unfold Layout.stop at rest
      omega

/-- Every block lies inside the interval. -/
theorem bounds {a e : ℕ} {l : List Block} (tiles : Tiles L a l e) :
    ∀ b ∈ l, a ≤ b.addr ∧ L.stop b ≤ e := by
  induction l generalizing a with
  | nil => simp
  | cons c cs ih =>
      intro b member
      have start := tiles.1
      have rest := tiles.2.le
      rcases List.mem_cons.mp member with rfl | later
      · exact ⟨Nat.le_of_eq start.symm, rest⟩
      · have inside := ih tiles.2 b later
        unfold Layout.stop at inside ⊢
        omega

/-- The blocks are in the order of their addresses, without overlap. -/
theorem sorted {a e : ℕ} {l : List Block} (tiles : Tiles L a l e) :
    l.Pairwise fun b c => L.stop b ≤ c.addr := by
  induction l generalizing a with
  | nil => exact List.Pairwise.nil
  | cons b bs ih =>
      exact List.pairwise_cons.mpr ⟨fun c later => (tiles.2.bounds c later).1, ih tiles.2⟩

theorem addr_lt {a e : ℕ} {l : List Block} (tiles : Tiles L a l e) :
    l.Pairwise fun b c => b.addr < c.addr := by
  refine tiles.sorted.imp ?_
  intro b c before
  have header := L.header_pos
  unfold Layout.stop at before
  omega

/-- Two blocks of a tiling are the same block, or one lies before the other. -/
theorem trichotomy {a e : ℕ} {l : List Block} (tiles : Tiles L a l e) :
    ∀ b ∈ l, ∀ c ∈ l, b = c ∨ L.stop b ≤ c.addr ∨ L.stop c ≤ b.addr := by
  induction l generalizing a with
  | nil => simp
  | cons d ds ih =>
      intro b hb c hc
      rw [List.mem_cons] at hb hc
      rcases hb with rfl | hb
      · rcases hc with rfl | hc
        · exact Or.inl rfl
        · exact Or.inr (Or.inl (tiles.2.bounds c hc).1)
      · rcases hc with rfl | hc
        · exact Or.inr (Or.inr (tiles.2.bounds b hb).1)
        · exact ih tiles.2 b hb c hc

/-- Two blocks of a tiling that share an address are the same block. -/
theorem eq_of_common {a e x : ℕ} {l : List Block} (tiles : Tiles L a l e) {b c : Block}
    (hb : b ∈ l) (hc : c ∈ l) (first : b.addr ≤ x ∧ x < L.stop b)
    (second : c.addr ≤ x ∧ x < L.stop c) : b = c := by
  rcases tiles.trichotomy b hb c hc with same | before | after
  · exact same
  · omega
  · omega

/-- A block is determined by its address. -/
theorem eq_of_addr {a e : ℕ} {l : List Block} (tiles : Tiles L a l e) {b c : Block}
    (hb : b ∈ l) (hc : c ∈ l) (same : b.addr = c.addr) : b = c := by
  have header := L.header_pos
  apply tiles.eq_of_common hb hc
  · exact ⟨Nat.le_refl _, by unfold Layout.stop; omega⟩
  · exact ⟨same.ge, by unfold Layout.stop; omega⟩

/-- Every address of the interval lies in a block. -/
theorem exists_block {a e : ℕ} {l : List Block} (tiles : Tiles L a l e) {x : ℕ}
    (lower : a ≤ x) (upper : x < e) : ∃ b ∈ l, b.addr ≤ x ∧ x < L.stop b := by
  induction l generalizing a with
  | nil =>
      have same : a = e := tiles
      omega
  | cons b bs ih =>
      have start := tiles.1
      by_cases here : x < L.stop b
      · exact ⟨b, List.mem_cons_self, by omega, here⟩
      · obtain ⟨c, member, inside⟩ := ih tiles.2 (by omega)
        exact ⟨c, List.mem_cons_of_mem b member, inside⟩

/-- The headers and the payloads add up to the length of the interval. -/
theorem total {a e : ℕ} {l : List Block} (tiles : Tiles L a l e) :
    a + ((l.map Block.size).sum + L.header * l.length) = e := by
  induction l generalizing a with
  | nil => simpa using tiles
  | cons b bs ih =>
      have rest := ih tiles.2
      have start := tiles.1
      simp only [List.map_cons, List.sum_cons, List.length_cons, Nat.mul_succ]
      unfold Layout.stop at rest
      omega

end Tiles

/-! ## Used blocks and free neighbours -/

/-- The blocks in use, in the order of their addresses. -/
def usedBlocks (l : List Block) : List Block :=
  l.filter (·.used)

@[simp] theorem usedBlocks_append (l r : List Block) :
    usedBlocks (l ++ r) = usedBlocks l ++ usedBlocks r :=
  List.filter_append l r

theorem usedBlocks_cons_used {b : Block} {bs : List Block} (used : b.used = true) :
    usedBlocks (b :: bs) = b :: usedBlocks bs := by
  simp [usedBlocks, used]

theorem usedBlocks_cons_free {b : Block} {bs : List Block} (unused : b.used = false) :
    usedBlocks (b :: bs) = usedBlocks bs := by
  simp [usedBlocks, unused]

@[simp] theorem mem_usedBlocks {b : Block} {l : List Block} :
    b ∈ usedBlocks l ↔ b ∈ l ∧ b.used = true := by
  simp [usedBlocks]

/-- No two neighbours are both free. -/
def Canonical (l : List Block) : Prop :=
  l.IsChain fun b c => b.used = true ∨ c.used = true

theorem Canonical.tail {b : Block} {bs : List Block} (canonical : Canonical (b :: bs)) :
    Canonical bs :=
  List.IsChain.tail canonical

/-- Behind a free block of a canonical list comes a used one, or nothing. -/
theorem Canonical.used_of_free {b c : Block} {bs : List Block}
    (canonical : Canonical (b :: c :: bs)) (unused : b.used = false) : c.used = true := by
  have first := (List.isChain_cons_cons.mp canonical).1
  simpa [unused] using first

/-- In a canonical tiling a free block reaches to the first used block behind it, or to the
end. -/
theorem Canonical.stop_of_free {a e : ℕ} {b : Block} {bs : List Block}
    (canonical : Canonical (b :: bs)) (tiles : Tiles L a (b :: bs) e) (unused : b.used = false) :
    L.stop b = ((usedBlocks bs).head?.map Block.addr).getD e := by
  cases bs with
  | nil => exact tiles.2
  | cons c cs =>
      rw [usedBlocks_cons_used (canonical.used_of_free unused)]
      exact tiles.2.1.symm

/-- The first used block of a tiling in front of which a free block lies is further on. -/
theorem Tiles.not_mem_of_addr {a e : ℕ} {b c : Block} {cs : List Block}
    (tiles : Tiles L a (c :: cs) e) (start : b.addr = a) : b ∉ usedBlocks cs := by
  intro member
  have later := (tiles.2.bounds b (mem_usedBlocks.mp member).1).1
  have header := L.header_pos
  have same := tiles.1
  unfold Layout.stop at later
  omega

/-- **A canonical tiling is determined by its used blocks.** -/
theorem canonical_unique {e : ℕ} : ∀ {a : ℕ} {l r : List Block}, Tiles L a l e → Tiles L a r e →
    Canonical l → Canonical r → usedBlocks l = usedBlocks r → l = r
  | _, [], [], _, _, _, _, _ => rfl
  | a, [], c :: cs, tl, tr, _, _, _ => by
      have inside := tr.bounds c List.mem_cons_self
      have header := L.header_pos
      have empty : a = e := tl
      unfold Layout.stop at inside
      omega
  | a, b :: bs, [], tl, tr, _, _, _ => by
      have inside := tl.bounds b List.mem_cons_self
      have header := L.header_pos
      have empty : a = e := tr
      unfold Layout.stop at inside
      omega
  | a, b :: bs, c :: cs, tl, tr, cl, cr, same => by
      have start : b.addr = c.addr := tl.1.trans tr.1.symm
      cases hb : b.used with
      | true =>
          rw [usedBlocks_cons_used hb] at same
          cases hc : c.used with
          | true =>
              rw [usedBlocks_cons_used hc] at same
              obtain ⟨rfl, rest⟩ := List.cons.inj same
              rw [canonical_unique tl.2 tr.2 cl.tail cr.tail rest]
          | false =>
              rw [usedBlocks_cons_free hc] at same
              have member : b ∈ usedBlocks cs := by
                rw [← same]
                exact List.mem_cons_self
              exact absurd member (tr.not_mem_of_addr tl.1)
      | false =>
          rw [usedBlocks_cons_free hb] at same
          cases hc : c.used with
          | true =>
              rw [usedBlocks_cons_used hc] at same
              have member : c ∈ usedBlocks bs := by
                rw [same]
                exact List.mem_cons_self
              exact absurd member (tl.not_mem_of_addr tr.1)
          | false =>
              rw [usedBlocks_cons_free hc] at same
              -- both reach to the first used block behind them, so they have one size
              have reach : L.stop b = L.stop c := by
                rw [cl.stop_of_free tl hb, cr.stop_of_free tr hc, same]
              have size : b.size = c.size := by
                unfold Layout.stop at reach
                omega
              have equal : b = c := by
                cases b
                cases c
                simp_all
              subst equal
              rw [canonical_unique tl.2 tr.2 cl.tail cr.tail same]

/-! ## Coalescing -/

variable (L)

/-- A block that takes over the block behind it, header included. -/
def Layout.absorb (b c : Block) : Block :=
  { b with size := b.size + (c.size + L.header) }

/-- One pass over the blocks from `b` on that merges every free block into the free block
before it. -/
def coalesceFrom : Block → List Block → List Block
  | b, [] => [b]
  | b, c :: cs =>
    if b.used = false ∧ c.used = false then
      coalesceFrom (L.absorb b c) cs
    else b :: coalesceFrom c cs

/-- Merge all neighbouring free blocks. -/
def coalesce : List Block → List Block
  | [] => []
  | b :: bs => coalesceFrom L b bs

variable {L}

@[simp] theorem absorb_used (b c : Block) : (L.absorb b c).used = b.used := rfl

theorem stop_absorb {b c : Block} (next : c.addr = L.stop b) :
    L.stop (L.absorb b c) = L.stop c := by
  unfold Layout.stop Layout.absorb at *
  dsimp only
  omega

theorem coalesceFrom_head (b : Block) (bs : List Block) :
    ∃ c cs, coalesceFrom L b bs = c :: cs ∧ c.addr = b.addr ∧ c.used = b.used := by
  induction bs generalizing b with
  | nil => exact ⟨b, [], rfl, rfl, rfl⟩
  | cons c cs ih =>
      unfold coalesceFrom
      split
      · exact ih _
      · exact ⟨b, _, rfl, rfl, rfl⟩

theorem tiles_coalesceFrom {e : ℕ} (b : Block) (bs : List Block)
    (tiles : Tiles L b.addr (b :: bs) e) : Tiles L b.addr (coalesceFrom L b bs) e := by
  induction bs generalizing b with
  | nil => exact tiles
  | cons c cs ih =>
      unfold coalesceFrom
      split
      · refine ih (L.absorb b c) ⟨rfl, ?_⟩
        rw [stop_absorb tiles.2.1]
        exact tiles.2.2
      · have start := tiles.2.1
        refine ⟨rfl, ?_⟩
        rw [← start]
        exact ih c ⟨rfl, tiles.2.2⟩

theorem usedBlocks_coalesceFrom (b : Block) (bs : List Block) :
    usedBlocks (coalesceFrom L b bs) = usedBlocks (b :: bs) := by
  induction bs generalizing b with
  | nil => rfl
  | cons c cs ih =>
      unfold coalesceFrom
      split
      · rename_i both
        rw [ih, usedBlocks_cons_free ((absorb_used (L := L) b c).trans both.1),
          usedBlocks_cons_free both.1, usedBlocks_cons_free both.2]
      · simp only [usedBlocks, List.filter_cons] at ih ⊢
        rw [ih]

theorem canonical_coalesceFrom (b : Block) (bs : List Block) :
    Canonical (coalesceFrom L b bs) := by
  induction bs generalizing b with
  | nil => exact List.IsChain.singleton b
  | cons c cs ih =>
      unfold coalesceFrom
      split
      · exact ih _
      · rename_i not_both
        obtain ⟨d, ds, shape, -, flag⟩ := coalesceFrom_head (L := L) c cs
        have rest := ih c
        rw [shape] at rest ⊢
        refine List.isChain_cons_cons.mpr ⟨?_, rest⟩
        rw [flag]
        by_contra none_used
        simp_all

/-- Coalescing brings up no new address. -/
theorem addr_coalesceFrom (b : Block) (bs : List Block) :
    ∀ c ∈ coalesceFrom L b bs, ∃ d ∈ b :: bs, d.addr = c.addr := by
  induction bs generalizing b with
  | nil =>
      intro c member
      exact ⟨c, member, rfl⟩
  | cons c cs ih =>
      unfold coalesceFrom
      split
      · intro d member
        obtain ⟨x, hx, same⟩ := ih _ d member
        rcases List.mem_cons.mp hx with rfl | later
        · exact ⟨b, List.mem_cons_self, same⟩
        · exact ⟨x, List.mem_cons_of_mem _ (List.mem_cons_of_mem _ later), same⟩
      · intro d member
        rcases List.mem_cons.mp member with rfl | later
        · exact ⟨d, List.mem_cons_self, rfl⟩
        · obtain ⟨x, hx, same⟩ := ih c d later
          exact ⟨x, List.mem_cons_of_mem _ hx, same⟩

theorem tiles_coalesce {a e : ℕ} {l : List Block} (tiles : Tiles L a l e) :
    Tiles L a (coalesce L l) e := by
  cases l with
  | nil => exact tiles
  | cons b bs =>
      have start := tiles.1
      rw [← start]
      exact tiles_coalesceFrom b bs ⟨rfl, tiles.2⟩

theorem usedBlocks_coalesce (l : List Block) : usedBlocks (coalesce L l) = usedBlocks l := by
  cases l with
  | nil => rfl
  | cons b bs => exact usedBlocks_coalesceFrom b bs

theorem canonical_coalesce (l : List Block) : Canonical (coalesce L l) := by
  cases l with
  | nil => exact List.IsChain.nil
  | cons b bs => exact canonical_coalesceFrom b bs

theorem addr_coalesce {l : List Block} : ∀ c ∈ coalesce L l, ∃ d ∈ l, d.addr = c.addr := by
  cases l with
  | nil => simp [coalesce]
  | cons b bs => exact addr_coalesceFrom b bs

/-! ## Releasing a block -/

/-- Mark the block at an address free. -/
def release (a : ℕ) (l : List Block) : List Block :=
  l.map fun b => if b.addr = a then { b with used := false } else b

theorem tiles_release {a e x : ℕ} {l : List Block} (tiles : Tiles L a l e) :
    Tiles L a (release x l) e := by
  induction l generalizing a with
  | nil => exact tiles
  | cons b bs ih =>
      have rest := ih tiles.2
      have start := tiles.1
      unfold release at rest ⊢
      rw [List.map_cons]
      split
      · exact ⟨start, rest⟩
      · exact ⟨start, rest⟩

/-- Releasing takes the block at the address from the used blocks. -/
theorem usedBlocks_release (x : ℕ) (l : List Block) :
    usedBlocks (release x l) = (usedBlocks l).filter fun b => b.addr ≠ x := by
  induction l with
  | nil => rfl
  | cons b bs ih =>
      unfold release usedBlocks at ih ⊢
      rw [List.map_cons, List.filter_cons, ih]
      by_cases here : b.addr = x
      · cases used : b.used <;> simp [here, used]
      · cases used : b.used <;> simp [here, used]

theorem addr_release {x : ℕ} {l : List Block} :
    ∀ c ∈ release x l, ∃ d ∈ l, d.addr = c.addr := by
  intro c member
  obtain ⟨d, hd, rfl⟩ := List.mem_map.mp member
  refine ⟨d, hd, ?_⟩
  split <;> rfl

variable (L)

/-- Release the block at an address and merge what is free. -/
def free (a : ℕ) (l : List Block) : List Block :=
  coalesce L (release a l)

variable {L}

theorem tiles_free {a e x : ℕ} {l : List Block} (tiles : Tiles L a l e) :
    Tiles L a (free L x l) e :=
  tiles_coalesce (tiles_release tiles)

theorem canonical_free (x : ℕ) (l : List Block) : Canonical (free L x l) :=
  canonical_coalesce _

theorem usedBlocks_free (x : ℕ) (l : List Block) :
    usedBlocks (free L x l) = (usedBlocks l).filter fun b => b.addr ≠ x := by
  rw [free, usedBlocks_coalesce, usedBlocks_release]

theorem addr_free {x : ℕ} {l : List Block} : ∀ c ∈ free L x l, ∃ d ∈ l, d.addr = c.addr := by
  intro c member
  obtain ⟨d, hd, same⟩ := addr_coalesce c member
  obtain ⟨b, hb, first⟩ := addr_release d hd
  exact ⟨b, hb, first.trans same⟩

/-- **Two releases commute.** -/
theorem free_comm {a e x y : ℕ} {l : List Block} (tiles : Tiles L a l e) :
    free L y (free L x l) = free L x (free L y l) := by
  refine canonical_unique (tiles_free (tiles_free tiles)) (tiles_free (tiles_free tiles))
    (canonical_free _ _) (canonical_free _ _) ?_
  simp only [usedBlocks_free, List.filter_filter, Bool.and_comm]

/-! ## First fit -/

/-- A free block that can hold `n` bytes. -/
def Fits (n : ℕ) (b : Block) : Prop :=
  b.used = false ∧ n ≤ b.size

instance (n : ℕ) (b : Block) : Decidable (Fits n b) :=
  inferInstanceAs (Decidable (_ ∧ _))

variable (L)

/-- A block is split when it is longer than the request, a header and the slack. -/
def Splits (n : ℕ) (b : Block) : Prop :=
  n + L.header + L.slack < b.size

instance (n : ℕ) (b : Block) : Decidable (Splits L n b) :=
  inferInstanceAs (Decidable (_ < _))

/-- The size a block is granted at: the request when it is split, its own size otherwise. -/
def granted (n : ℕ) (b : Block) : ℕ :=
  if Splits L n b then n else b.size

/-- What a free block becomes when a request of `n` bytes is placed in it. -/
def place (n : ℕ) (b : Block) : List Block :=
  if Splits L n b then
    [⟨b.addr, n, true⟩, ⟨b.addr + L.header + n, b.size - n - L.header, false⟩]
  else [{ b with used := true }]

/-- First fit: the first free block that is long enough, and the list with the request
placed in it. -/
def allocate (n : ℕ) : List Block → Option (Block × List Block)
  | [] => none
  | b :: bs =>
    if Fits n b then some (b, place L n b ++ bs)
    else (allocate n bs).map fun (c, cs) => (c, b :: cs)

variable {L}

/-- First fit splits the list at the first block that fits. -/
theorem allocate_eq_some {n : ℕ} {l l' : List Block} {b : Block}
    (chosen : allocate L n l = some (b, l')) :
    ∃ front back, l = front ++ b :: back ∧ l' = front ++ (place L n b ++ back) ∧ Fits n b ∧
      ∀ c ∈ front, ¬ Fits n c := by
  induction l generalizing l' with
  | nil => simp [allocate] at chosen
  | cons c cs ih =>
      unfold allocate at chosen
      split at chosen
      · rename_i fits
        obtain ⟨rfl, rfl⟩ := Prod.mk.inj (Option.some.inj chosen)
        exact ⟨[], cs, rfl, rfl, fits, by simp⟩
      · rename_i misfit
        obtain ⟨⟨d, ds⟩, rest, same⟩ := Option.map_eq_some_iff.mp chosen
        obtain ⟨rfl, rfl⟩ := Prod.mk.inj same
        obtain ⟨front, back, rfl, rfl, fits, earlier⟩ := ih rest
        refine ⟨c :: front, back, rfl, rfl, fits, ?_⟩
        intro x member
        rcases List.mem_cons.mp member with rfl | later
        · exact misfit
        · exact earlier x later

/-- The block that first fit takes is the first one that fits. -/
theorem find?_of_allocate {n : ℕ} {l l' : List Block} {b : Block}
    (chosen : allocate L n l = some (b, l')) : l.find? (fun c => decide (Fits n c)) = some b := by
  obtain ⟨front, back, rfl, -, fits, earlier⟩ := allocate_eq_some chosen
  refine List.find?_eq_some_iff_append.mpr ⟨decide_eq_true fits, front, back, rfl, fun c hc => ?_⟩
  rw [decide_eq_false (earlier c hc)]
  rfl

theorem allocate_eq_none {n : ℕ} {l : List Block} :
    allocate L n l = none ↔ ∀ b ∈ l, ¬ Fits n b := by
  induction l with
  | nil => simp [allocate]
  | cons b bs ih =>
      unfold allocate
      split
      · rename_i fits
        simp [fits]
      · rename_i misfit
        simp [misfit, ih]

theorem le_granted {n : ℕ} {b : Block} (fits : Fits n b) : n ≤ granted L n b := by
  unfold granted
  split
  · exact Nat.le_refl n
  · exact fits.2

/-- A placed block starts with the granted block and ends where the free one did. -/
theorem place_eq (n : ℕ) (b : Block) :
    ∃ rest, place L n b = ⟨b.addr, granted L n b, true⟩ :: rest ∧ usedBlocks rest = [] ∧
      Canonical (⟨b.addr, granted L n b, true⟩ :: rest) := by
  unfold place granted
  split
  · exact ⟨_, rfl, rfl, List.isChain_pair.mpr (Or.inl rfl)⟩
  · exact ⟨[], rfl, rfl, List.IsChain.singleton _⟩

theorem tiles_place (n : ℕ) (b : Block) : Tiles L b.addr (place L n b) (L.stop b) := by
  unfold place
  split
  · rename_i split
    unfold Splits at split
    refine ⟨rfl, rfl, ?_⟩
    show b.addr + L.header + n + L.header + (b.size - n - L.header) = L.stop b
    unfold Layout.stop
    omega
  · exact ⟨rfl, rfl⟩

/-- Placing a request keeps the tiling. -/
theorem tiles_allocate {a e n : ℕ} {l l' : List Block} {b : Block} (tiles : Tiles L a l e)
    (chosen : allocate L n l = some (b, l')) : Tiles L a l' e := by
  obtain ⟨front, back, rfl, rfl, -, -⟩ := allocate_eq_some chosen
  obtain ⟨m, left, right⟩ := tiles_append.mp tiles
  have start := right.1
  subst start
  exact tiles_append.mpr ⟨b.addr, left, tiles_append.mpr ⟨L.stop b, tiles_place n b, right.2⟩⟩

/-- A block that takes over the next one holds what either of them holds. -/
theorem fits_absorb {n : ℕ} {b c : Block} (unused : b.used = false)
    (fits : Fits n b ∨ Fits n c) : Fits n (L.absorb b c) := by
  have size : (L.absorb b c).size = b.size + (c.size + L.header) := rfl
  refine ⟨unused, ?_⟩
  rcases fits with first | second
  · have enough := first.2
    omega
  · have enough := second.2
    omega

theorem exists_fits_coalesceFrom {n : ℕ} (b : Block) (bs : List Block)
    (fits : ∃ c ∈ b :: bs, Fits n c) : ∃ c ∈ coalesceFrom L b bs, Fits n c := by
  induction bs generalizing b with
  | nil => exact fits
  | cons c cs ih =>
      obtain ⟨d, member, room⟩ := fits
      unfold coalesceFrom
      split
      · rename_i both
        apply ih
        rcases List.mem_cons.mp member with rfl | later
        · exact ⟨_, List.mem_cons_self, fits_absorb both.1 (Or.inl room)⟩
        · rcases List.mem_cons.mp later with rfl | last
          · exact ⟨_, List.mem_cons_self, fits_absorb both.1 (Or.inr room)⟩
          · exact ⟨d, List.mem_cons_of_mem _ last, room⟩
      · rcases List.mem_cons.mp member with rfl | later
        · exact ⟨d, List.mem_cons_self, room⟩
        · obtain ⟨x, inside, wide⟩ := ih c ⟨d, later, room⟩
          exact ⟨x, List.mem_cons_of_mem _ inside, wide⟩

/-- **What a block was found for before a release, one is found for after it.** -/
theorem exists_fits_free {n : ℕ} (x : ℕ) {l : List Block} (fits : ∃ c ∈ l, Fits n c) :
    ∃ c ∈ free L x l, Fits n c := by
  obtain ⟨c, member, room⟩ := fits
  have released : ∃ d ∈ release x l, Fits n d := by
    refine ⟨_, List.mem_map_of_mem member, ?_⟩
    split
    · exact ⟨rfl, room.2⟩
    · exact room
  unfold free coalesce
  cases shape : release x l with
  | nil =>
      rw [shape] at released
      exact released
  | cons b bs => exact exists_fits_coalesceFrom b bs (shape ▸ released)

theorem usedBlocks_place (n : ℕ) (b : Block) :
    usedBlocks (place L n b) = [⟨b.addr, granted L n b, true⟩] := by
  obtain ⟨rest, shape, free, -⟩ := place_eq (L := L) n b
  rw [shape, usedBlocks_cons_used rfl, free]

/-- **Placing a request adds one used block, at the address of the chosen block.** -/
theorem usedBlocks_allocate {n : ℕ} {l l' : List Block} {b : Block}
    (chosen : allocate L n l = some (b, l')) :
    ∃ front back, usedBlocks l = front ++ back ∧
      usedBlocks l' = front ++ ⟨b.addr, granted L n b, true⟩ :: back := by
  obtain ⟨front, back, rfl, rfl, fits, -⟩ := allocate_eq_some chosen
  refine ⟨usedBlocks front, usedBlocks back, ?_, ?_⟩
  · rw [usedBlocks_append, usedBlocks_cons_free fits.1]
  · rw [usedBlocks_append, usedBlocks_append, usedBlocks_place]
    rfl

/-- Placing a request in a canonical list leaves it canonical: the neighbours of the chosen
block are used, and what is split off lies behind a used block. -/
theorem canonical_allocate {n : ℕ} {l l' : List Block} {b : Block} (canonical : Canonical l)
    (chosen : allocate L n l = some (b, l')) : Canonical l' := by
  obtain ⟨front, back, rfl, rfl, fits, -⟩ := allocate_eq_some chosen
  obtain ⟨left, right, seam⟩ := List.isChain_append.mp canonical
  obtain ⟨rest, shape, -, chain⟩ := place_eq (L := L) n b
  refine List.isChain_append.mpr ⟨left, List.isChain_append.mpr ⟨?_, right.tail, ?_⟩, ?_⟩
  · rw [shape]
    exact chain
  · intro x _ y hy
    have behind := (List.isChain_cons.mp right).1 y hy
    rw [fits.1] at behind
    exact Or.inr (behind.resolve_left (by simp))
  · intro x _ y hy
    rw [shape, List.cons_append, List.head?_cons, Option.mem_some_iff] at hy
    rw [← hy]
    exact Or.inr rfl

/-- The addresses after a placement are the old ones, and that of the rest split off. -/
theorem addr_allocate {n : ℕ} {l l' : List Block} {b : Block}
    (chosen : allocate L n l = some (b, l')) :
    ∀ c ∈ l', (∃ d ∈ l, d.addr = c.addr) ∨ (Splits L n b ∧ c.addr = b.addr + L.header + n) := by
  obtain ⟨front, back, rfl, rfl, -, -⟩ := allocate_eq_some chosen
  intro c member
  rcases List.mem_append.mp member with early | member
  · exact Or.inl ⟨c, List.mem_append_left _ early, rfl⟩
  rcases List.mem_append.mp member with placed | late
  · unfold place at placed
    split at placed
    · rename_i split
      rcases List.mem_cons.mp placed with rfl | placed
      · exact Or.inl ⟨b, by simp, rfl⟩
      · rw [List.mem_singleton.mp placed]
        exact Or.inr ⟨split, rfl⟩
    · rw [List.mem_singleton.mp placed]
      exact Or.inl ⟨b, by simp, rfl⟩
  · exact Or.inl ⟨c, List.mem_append_right _ (List.mem_cons_of_mem _ late), rfl⟩

theorem mem_of_allocate {n : ℕ} {l l' : List Block} {b : Block}
    (chosen : allocate L n l = some (b, l')) : b ∈ l ∧ Fits n b := by
  obtain ⟨front, back, rfl, -, fits, -⟩ := allocate_eq_some chosen
  exact ⟨by simp, fits⟩

/-- A placement leaves a free block behind that is shorter than a given one by the request and
a header at most, if that one was long enough to be split. -/
theorem exists_free_of_allocate {n : ℕ} {l l' : List Block} {b c : Block}
    (chosen : allocate L n l = some (c, l')) (member : b ∈ l) (free : b.used = false)
    (large : Splits L n b) : ∃ d ∈ l', d.used = false ∧ b.size ≤ d.size + n + L.header := by
  obtain ⟨front, back, rfl, rfl, -, -⟩ := allocate_eq_some chosen
  rcases List.mem_append.mp member with early | late
  · exact ⟨b, List.mem_append_left _ early, free, by omega⟩
  rcases List.mem_cons.mp late with rfl | behind
  · refine ⟨⟨b.addr + L.header + n, b.size - n - L.header, false⟩, ?_, rfl, by dsimp only; omega⟩
    rw [place, if_pos large]
    simp
  · exact ⟨b, List.mem_append_right _ (List.mem_append_right _ behind), free, by omega⟩

/-- The used blocks of a tiling have one address each. -/
theorem Tiles.filter_addr_ne {a e : ℕ} {l : List Block} (tiles : Tiles L a l e) {b : Block}
    (member : b ∈ l) {front back : List Block} (free : b.used = false)
    (split : usedBlocks l = front ++ back) :
    (front ++ back).filter (fun c => decide (c.addr ≠ b.addr)) = front ++ back := by
  rw [← split, List.filter_eq_self]
  intro c hc
  obtain ⟨inside, used⟩ := mem_usedBlocks.mp hc
  refine decide_eq_true fun same => ?_
  rw [tiles.eq_of_addr inside member same, free] at used
  exact Bool.false_ne_true used

/-- **A request that is released at once leaves the list as it was.** -/
theorem free_allocate {a e n : ℕ} {l l' : List Block} {b : Block} (tiles : Tiles L a l e)
    (canonical : Canonical l) (chosen : allocate L n l = some (b, l')) :
    free L b.addr l' = l := by
  refine canonical_unique (tiles_free (tiles_allocate tiles chosen)) tiles (canonical_free _ _)
    canonical ?_
  obtain ⟨member, fits⟩ := mem_of_allocate chosen
  obtain ⟨front, back, before, after⟩ := usedBlocks_allocate chosen
  have others := tiles.filter_addr_ne member fits.1 before
  rw [usedBlocks_free, after, before]
  rw [List.filter_append] at others ⊢
  rw [List.filter_cons]
  simpa using others

/-- **A canonical tiling without used blocks is one free block.** -/
theorem eq_singleton_of_usedBlocks_nil {a e : ℕ} {l : List Block} (tiles : Tiles L a l e)
    (canonical : Canonical l) (room : a + L.header ≤ e) (none_used : usedBlocks l = []) :
    l = [⟨a, e - a - L.header, false⟩] := by
  refine canonical_unique tiles ⟨rfl, ?_⟩ canonical (List.IsChain.singleton _) none_used
  show a + L.header + (e - a - L.header) = e
  omega

/-! ## Runs of addresses outside the used blocks -/

/-- The address lies in a used block, header included. -/
def InUse (L : Layout) (l : List Block) (x : ℕ) : Prop :=
  ∃ b ∈ l, b.used = true ∧ b.addr ≤ x ∧ x < L.stop b

/-- A run from `a` to `e` of points with the property `P`, inside `lo` to `hi`, that can be
extended on neither side. -/
structure MaximalRun (P : ℕ → Prop) (lo hi a e : ℕ) : Prop where
  lower : lo ≤ a
  nonempty : a < e
  upper : e ≤ hi
  inside : ∀ x, a ≤ x → x < e → P x
  before : a = lo ∨ ¬ P (a - 1)
  after : e = hi ∨ ¬ P e

/-- Two maximal runs with a point in common are the same run. -/
theorem MaximalRun.eq_of_common {P : ℕ → Prop} {lo hi a e a' e' x : ℕ}
    (first : MaximalRun P lo hi a e) (second : MaximalRun P lo hi a' e')
    (hx : a ≤ x ∧ x < e) (hx' : a' ≤ x ∧ x < e') : a = a' ∧ e = e' := by
  have key : ∀ {a e a' e' : ℕ}, MaximalRun P lo hi a e → MaximalRun P lo hi a' e' →
      a ≤ x ∧ x < e → a' ≤ x ∧ x < e' → a ≤ a' ∧ e' ≤ e := by
    intro a e a' e' first second hx hx'
    have lower := second.lower
    have upper := second.upper
    constructor
    · rcases first.before with start | stopped
      · omega
      · by_contra left
        exact stopped (second.inside (a - 1) (by omega) (by omega))
    · rcases first.after with finish | stopped
      · omega
      · by_contra right
        exact stopped (second.inside e (by omega) (by omega))
  have one := key first second hx hx'
  have two := key second first hx' hx
  omega

/-- A free block of a canonical tiling is a maximal run of addresses not in use. -/
theorem maximalRun_of_free {lo hi : ℕ} {l : List Block} (tiles : Tiles L lo l hi)
    (canonical : Canonical l) {b : Block} (member : b ∈ l) (unused : b.used = false) :
    MaximalRun (fun x => ¬ InUse L l x) lo hi b.addr (L.stop b) := by
  have header := L.header_pos
  have bounds := tiles.bounds b member
  refine ⟨bounds.1, by unfold Layout.stop; omega, bounds.2, ?_, ?_, ?_⟩
  · rintro x lower upper ⟨c, hc, used, start, finish⟩
    obtain rfl := tiles.eq_of_common member hc ⟨lower, upper⟩ ⟨by omega, finish⟩
    simp [unused] at used
  · obtain ⟨front, back, rfl⟩ := List.append_of_mem member
    obtain ⟨m, left, right⟩ := tiles_append.mp tiles
    cases front using List.reverseRecOn with
    | nil => exact Or.inl (right.1.trans left.symm)
    | append_singleton init c =>
      -- the block in front is used, since the list is canonical
      refine Or.inr fun free => free ⟨c, by simp, ?_, ?_⟩
      · have seam := (List.isChain_append.mp canonical).2.2 c (by simp) b (by simp)
        simpa [unused] using seam
      · obtain ⟨k, _, last⟩ := tiles_append.mp left
        have finish : L.stop c = m := last.2
        have start := right.1
        unfold Layout.stop at finish ⊢
        omega
  · obtain ⟨front, back, rfl⟩ := List.append_of_mem member
    obtain ⟨m, -, right⟩ := tiles_append.mp tiles
    cases back with
    | nil => exact Or.inl right.2
    | cons c cs =>
        refine Or.inr fun free => free ⟨c, by simp, ?_, ?_⟩
        · exact Canonical.used_of_free (List.isChain_append.mp canonical).2.1 unused
        · have start : c.addr = L.stop b := right.2.1
          rw [← start]
          unfold Layout.stop
          omega

/-- **The maximal runs of addresses not in use are exactly the free blocks.** -/
theorem maximalRun_iff {lo hi a e : ℕ} {l : List Block} (tiles : Tiles L lo l hi)
    (canonical : Canonical l) :
    MaximalRun (fun x => ¬ InUse L l x) lo hi a e ↔
      ∃ b ∈ l, b.used = false ∧ a = b.addr ∧ e = L.stop b := by
  constructor
  · intro run
    have upper := run.upper
    have nonempty := run.nonempty
    obtain ⟨b, member, start, finish⟩ := tiles.exists_block run.lower (x := a) (by omega)
    have unused : b.used = false := by
      by_contra used
      exact run.inside a (Nat.le_refl a) nonempty
        ⟨b, member, by simpa using used, start, finish⟩
    have same := run.eq_of_common (maximalRun_of_free tiles canonical member unused)
      ⟨Nat.le_refl a, nonempty⟩ ⟨start, finish⟩
    exact ⟨b, member, unused, same.1, same.2⟩
  · rintro ⟨b, member, unused, rfl, rfl⟩
    exact maximalRun_of_free tiles canonical member unused

end CocosOS.Library.BlockList
