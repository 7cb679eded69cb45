import Mathlib.Data.BitVec
import Mathlib.Data.Set.Function
import Mathlib.Tactic.Common
import Mathlib.Tactic.SplitIfs

/-!
# Byte-addressed memory

A memory is a function from 32-bit addresses to bytes. A 32-bit word is stored little
endian: the byte of lowest significance is at the lowest address. `store32`, `store8` and
`fill` are the three ways a program changes a memory, and each of them says which bytes it
leaves alone (`store32_apply_of_not_covers`, `store8_apply_of_ne`, `fill_apply_of_not_covers`).
A loop that copies bytes one by one ends with `copyBytes` of them (`copyBytes_step`).

A range of bytes is its first address and its length. `Covers a n x` says that the byte at
`x` lies in the range; it is read on the natural numbers, so a range is only meant where
`a + n` does not pass the end of the address space. Reading a word depends only on the four
bytes it covers (`load32_congr`), and this is what every frame argument comes down to.
-/

set_option autoImplicit false

namespace CocosOS.Library.ByteMemory

/-- A 32-bit machine word, also an address. -/
abbrev Word := BitVec 32

/-- A byte. -/
abbrev Byte := BitVec 8

/-- A byte for every 32-bit address. -/
abbrev Mem := Word → Byte

/-! ## Ranges -/

/-- The byte at `x` lies in the `n` bytes from `a` on. -/
def Covers (a : Word) (n : ℕ) (x : Word) : Prop :=
  a.toNat ≤ x.toNat ∧ x.toNat < a.toNat + n

instance (a : Word) (n : ℕ) (x : Word) : Decidable (Covers a n x) :=
  inferInstanceAs (Decidable (_ ∧ _))

theorem not_covers_iff {a x : Word} {n : ℕ} :
    ¬ Covers a n x ↔ x.toNat < a.toNat ∨ a.toNat + n ≤ x.toNat := by
  rw [Covers, not_and_or, Nat.not_le, Nat.not_lt]

/-- Two memories have the same bytes in a range. -/
def SameOn (a : Word) (n : ℕ) (m m' : Mem) : Prop :=
  ∀ x, Covers a n x → m' x = m x

/-- No byte lies in both ranges. -/
def Apart (a : Word) (n : ℕ) (b : Word) (k : ℕ) : Prop :=
  ∀ x, Covers a n x → ¬ Covers b k x

theorem Apart.symm {a b : Word} {n k : ℕ} (apart : Apart a n b k) : Apart b k a n :=
  fun x inside other => apart x other inside

theorem apart_of_le {a b : Word} {n k : ℕ} (le : a.toNat + n ≤ b.toNat) : Apart a n b k := by
  intro x first second
  have before := first.2
  have after := second.1
  omega

theorem SameOn.trans {a : Word} {n : ℕ} {m m' m'' : Mem} (first : SameOn a n m m')
    (second : SameOn a n m' m'') : SameOn a n m m'' :=
  fun x inside => (second x inside).trans (first x inside)

theorem SameOn.mono {a b : Word} {n k : ℕ} {m m' : Mem} (same : SameOn a n m m')
    (part : ∀ x, Covers b k x → Covers a n x) : SameOn b k m m' :=
  fun x inside => same x (part x inside)

/-- The address of a field inside a range that does not pass the end of the address space. -/
theorem toNat_add_of_fits {a : Word} {n : ℕ} (fits : a.toNat + n ≤ 2 ^ 32) {i : Word}
    (inside : i.toNat < n) : (a + i).toNat = a.toNat + i.toNat := by
  rw [BitVec.toNat_add]
  exact Nat.mod_eq_of_lt (by omega)

theorem ne_zero_of_toNat_pos {a : Word} (positive : 0 < a.toNat) : a ≠ 0 := by
  rintro rfl
  exact Nat.lt_irrefl 0 positive

/-! ## Words -/

/-- The word stored at `a`. -/
def load32 (m : Mem) (a : Word) : Word :=
  m (a + 3) ++ m (a + 2) ++ m (a + 1) ++ m a

/-- Store the word `v` at `a`. -/
def store32 (m : Mem) (a v : Word) : Mem := fun x =>
  if x = a then v.extractLsb' 0 8
  else if x = a + 1 then v.extractLsb' 8 8
  else if x = a + 2 then v.extractLsb' 16 8
  else if x = a + 3 then v.extractLsb' 24 8
  else m x

/-- Store the byte `v` at `a`. -/
def store8 (m : Mem) (a : Word) (v : Byte) : Mem :=
  fun x => if x = a then v else m x

/-- `memset`: store `v` in each of the `n` bytes from `a` on. -/
def fill (m : Mem) (a : Word) (v : Byte) (n : Word) : Mem :=
  fun x => if Covers a n.toNat x then v else m x

/-- Reading a word depends only on the four bytes it covers. -/
theorem load32_congr {m m' : Mem} {a : Word} (fits : a.toNat + 4 ≤ 2 ^ 32)
    (same : SameOn a 4 m m') : load32 m' a = load32 m a := by
  have covered : ∀ i : Word, i.toNat < 4 → Covers a 4 (a + i) := by
    intro i small
    have address := toNat_add_of_fits fits small
    unfold Covers
    omega
  have first := same a (by unfold Covers; omega)
  unfold load32
  rw [same _ (covered 3 (by decide)), same _ (covered 2 (by decide)),
    same _ (covered 1 (by decide)), first]

/-- Reading a word of a range depends only on the range. -/
theorem load32_add_congr {m m' : Mem} {a offset : Word} {n : ℕ} (fits : a.toNat + n ≤ 2 ^ 32)
    (same : SameOn a n m m') (inside : offset.toNat + 4 ≤ n) :
    load32 m' (a + offset) = load32 m (a + offset) := by
  have place := toNat_add_of_fits fits (i := offset) (by omega)
  refine load32_congr (by omega) (same.mono fun x covered => ?_)
  exact ⟨Nat.le_trans (by omega) covered.1, Nat.lt_of_lt_of_le covered.2 (by omega)⟩

/-- **A stored word reads back.** -/
@[simp] theorem load32_store32 (m : Mem) (a v : Word) : load32 (store32 m a v) a = v := by
  have h1 : a + 1 ≠ a := by bv_omega
  have h2 : a + 2 ≠ a := by bv_omega
  have h3 : a + 3 ≠ a := by bv_omega
  have h21 : a + 2 ≠ a + 1 := by bv_omega
  have h31 : a + 3 ≠ a + 1 := by bv_omega
  have h32 : a + 3 ≠ a + 2 := by bv_omega
  simp only [load32, store32, h1, h2, h3, h21, h31, h32, if_true, if_false]
  refine BitVec.eq_of_getElem_eq fun i small => ?_
  simp only [BitVec.getElem_append, BitVec.getElem_extractLsb']
  rw [← BitVec.getLsbD_eq_getElem]
  split_ifs <;> congr 1 <;> omega

/-- The bytes of a word in memory. -/
theorem extract_load32 (m : Mem) (a : Word) :
    (load32 m a).extractLsb' 0 8 = m a ∧ (load32 m a).extractLsb' 8 8 = m (a + 1) ∧
      (load32 m a).extractLsb' 16 8 = m (a + 2) ∧ (load32 m a).extractLsb' 24 8 = m (a + 3) := by
  have byte : ∀ i, (load32 m a).getLsbD i =
      if i < 8 then (m a).getLsbD i else if i - 8 < 8 then (m (a + 1)).getLsbD (i - 8)
      else if i - 8 - 8 < 8 then (m (a + 2)).getLsbD (i - 8 - 8)
      else (m (a + 3)).getLsbD (i - 8 - 8 - 8) := by
    intro i
    simp only [load32, BitVec.getLsbD_append]
  have part : ∀ (start : ℕ) (value : Byte),
      (∀ i < 8, (load32 m a).getLsbD (start + i) = value.getLsbD i) →
      (load32 m a).extractLsb' start 8 = value := by
    intro start value bits
    refine BitVec.eq_of_getLsbD_eq fun i small => ?_
    rw [BitVec.getLsbD_extractLsb', bits i small, decide_eq_true small, Bool.true_and]
  refine ⟨part 0 _ fun i small => ?_, part 8 _ fun i small => ?_,
    part 16 _ fun i small => ?_, part 24 _ fun i small => ?_⟩
  · rw [byte, if_pos (by omega), Nat.zero_add]
  · rw [byte, if_neg (by omega), if_pos (by omega), Nat.add_sub_cancel_left]
  · rw [byte, if_neg (by omega), if_neg (by omega), if_pos (by omega)]
    congr 1
    omega
  · rw [byte, if_neg (by omega), if_neg (by omega), if_neg (by omega)]
    congr 1
    omega

/-- Words that are read the same have the same bytes. -/
theorem sameOn_of_load32 {m m' : Mem} {a : Word} (same : load32 m' a = load32 m a) :
    SameOn a 4 m m' := by
  intro x inside
  obtain ⟨b0, b1, b2, b3⟩ := extract_load32 m a
  obtain ⟨c0, c1, c2, c3⟩ := extract_load32 m' a
  rw [same] at c0 c1 c2 c3
  have lower := inside.1
  have upper := inside.2
  have places : x = a ∨ x = a + 1 ∨ x = a + 2 ∨ x = a + 3 := by bv_omega
  rcases places with rfl | rfl | rfl | rfl
  · exact c0.symm.trans b0
  · exact c1.symm.trans b1
  · exact c2.symm.trans b2
  · exact c3.symm.trans b3

/-- A word store leaves every byte outside its four bytes. -/
theorem store32_apply_of_not_covers {m : Mem} {a v x : Word} (fits : a.toNat + 4 ≤ 2 ^ 32)
    (outside : ¬ Covers a 4 x) : store32 m a v x = m x := by
  have miss : ∀ i : Word, i.toNat < 4 → x ≠ a + i := by
    intro i small same
    have address := toNat_add_of_fits fits small
    apply outside
    unfold Covers
    rw [same]
    omega
  have miss0 : x ≠ a := by simpa using miss 0 (by decide)
  simp only [store32, miss0, miss 1 (by decide), miss 2 (by decide), miss 3 (by decide),
    if_false]

/-- A word store inside a range leaves every byte outside. -/
theorem store32_add_apply {m : Mem} {a offset v x : Word} {n : ℕ} (fits : a.toNat + n ≤ 2 ^ 32)
    (inside : offset.toNat + 4 ≤ n) (outside : ¬ Covers a n x) :
    store32 m (a + offset) v x = m x := by
  have place := toNat_add_of_fits fits (i := offset) (by omega)
  refine store32_apply_of_not_covers (by omega) fun covered => outside ?_
  exact ⟨Nat.le_trans (by omega) covered.1, Nat.lt_of_lt_of_le covered.2 (by omega)⟩

/-- A word store leaves every range apart from its four bytes. -/
theorem sameOn_store32 {m : Mem} {a v b : Word} {k : ℕ} (fits : a.toNat + 4 ≤ 2 ^ 32)
    (apart : Apart a 4 b k) : SameOn b k m (store32 m a v) :=
  fun x inside => store32_apply_of_not_covers fits fun covered => apart x covered inside

/-- Reading a word apart from the one that was stored. -/
theorem load32_store32_of_apart {m : Mem} {a b v : Word} (fits : a.toNat + 4 ≤ 2 ^ 32)
    (fits' : b.toNat + 4 ≤ 2 ^ 32) (apart : a.toNat + 4 ≤ b.toNat ∨ b.toNat + 4 ≤ a.toNat) :
    load32 (store32 m a v) b = load32 m b := by
  apply load32_congr fits'
  rcases apart with before | after
  · exact sameOn_store32 fits (apart_of_le before)
  · exact sameOn_store32 fits (apart_of_le after).symm

@[simp] theorem store8_apply_self (m : Mem) (a : Word) (v : Byte) : store8 m a v a = v := by
  simp [store8]

theorem store8_apply_of_ne {m : Mem} {a x : Word} {v : Byte} (ne : x ≠ a) :
    store8 m a v x = m x := by
  simp [store8, ne]

/-- A byte store leaves every range that does not hold its byte. -/
theorem sameOn_store8 {m : Mem} {a b : Word} {v : Byte} {k : ℕ} (outside : ¬ Covers b k a) :
    SameOn b k m (store8 m a v) := by
  intro x inside
  refine store8_apply_of_ne ?_
  rintro rfl
  exact outside inside

theorem fill_apply_of_covers {m : Mem} {a n x : Word} {v : Byte} (inside : Covers a n.toNat x) :
    fill m a v n x = v := by
  simp [fill, inside]

theorem fill_apply_of_not_covers {m : Mem} {a n x : Word} {v : Byte}
    (outside : ¬ Covers a n.toNat x) : fill m a v n x = m x := by
  simp [fill, outside]

/-! ## Copying bytes -/

/-- The bytes `f lo`, ..., `f (hi - 1)` are stored from `a + lo` on. -/
def copyBytes (m : Mem) (a : Word) (f : ℕ → Byte) (lo hi : ℕ) : Mem := fun x =>
  if a.toNat + lo ≤ x.toNat ∧ x.toNat < a.toNat + hi then f (x.toNat - a.toNat) else m x

@[simp] theorem copyBytes_self (m : Mem) (a : Word) (f : ℕ → Byte) (n : ℕ) :
    copyBytes m a f n n = m := by
  funext x
  exact if_neg fun inside => Nat.not_lt_of_le inside.1 inside.2

theorem copyBytes_of_not_covers {m : Mem} {a x : Word} {f : ℕ → Byte} {lo hi : ℕ}
    (outside : ¬ Covers a hi x) : copyBytes m a f lo hi x = m x :=
  if_neg fun inside => outside ⟨Nat.le_trans (Nat.le_add_right _ _) inside.1, inside.2⟩

section

variable {a : Word} {hi : ℕ} (fits : a.toNat + hi ≤ 2 ^ 32)
include fits

theorem toNat_add_ofNat {i : ℕ} (inside : i < hi) :
    (a + BitVec.ofNat 32 i).toNat = a.toNat + i := by
  have small : (BitVec.ofNat 32 i).toNat = i := by
    rw [BitVec.toNat_ofNat]
    exact Nat.mod_eq_of_lt (by omega)
  rw [toNat_add_of_fits fits (by omega), small]

theorem covers_add {i : ℕ} (inside : i < hi) : Covers a hi (a + BitVec.ofNat 32 i) := by
  have place := toNat_add_ofNat fits inside
  exact ⟨by omega, by omega⟩

/-- A copied byte reads back. -/
theorem copyBytes_add (m : Mem) (f : ℕ → Byte) {lo i : ℕ} (first : lo ≤ i) (inside : i < hi) :
    copyBytes m a f lo hi (a + BitVec.ofNat 32 i) = f i := by
  have place := toNat_add_ofNat fits inside
  rw [copyBytes, if_pos (by omega), place, Nat.add_sub_cancel_left]

/-- A copying loop stores one byte and goes on. -/
theorem copyBytes_step (m : Mem) (f : ℕ → Byte) {lo : ℕ} (inside : lo < hi) :
    copyBytes (store8 m (a + BitVec.ofNat 32 lo) (f lo)) a f (lo + 1) hi =
      copyBytes m a f lo hi := by
  have place := toNat_add_ofNat fits inside
  funext x
  unfold copyBytes store8
  by_cases here : x = a + BitVec.ofNat 32 lo
  · rw [if_neg (by rw [here]; omega), if_pos here, if_pos (by rw [here]; omega), here, place,
      Nat.add_sub_cancel_left]
  · have distinct : x.toNat ≠ a.toNat + lo := fun same =>
      here (BitVec.eq_of_toNat_eq (same.trans place.symm))
    rw [if_neg here]
    exact if_congr (by omega) rfl rfl

end

/-- Every word of a range filled with zero bytes is zero. -/
theorem load32_fill_zero {m : Mem} {a n b : Word} (fits : b.toNat + 4 ≤ 2 ^ 32)
    (part : ∀ x, Covers b 4 x → Covers a n.toNat x) : load32 (fill m a 0 n) b = 0 := by
  have zero : load32 (fill m a 0 n) b = load32 (fun _ => 0) b :=
    load32_congr fits fun x inside => fill_apply_of_covers (part x inside)
  rw [zero]
  simp [load32]

/-! ## Half words -/

/-- The 16 bits stored at `a`. -/
def load16 (m : Mem) (a : Word) : BitVec 16 := m (a + 1) ++ m a

/-- Store the 16 bits `v` at `a`. -/
def store16 (m : Mem) (a : Word) (v : BitVec 16) : Mem :=
  store8 (store8 m a (v.extractLsb' 0 8)) (a + 1) (v.extractLsb' 8 8)

theorem extract_append (v : BitVec 16) : v.extractLsb' 8 8 ++ v.extractLsb' 0 8 = v := by
  refine BitVec.eq_of_getElem_eq fun i small => ?_
  simp only [BitVec.getElem_append, BitVec.getElem_extractLsb']
  rw [← BitVec.getLsbD_eq_getElem]
  split_ifs <;> congr 1 <;> omega

/-- **Stored half words read back.** -/
@[simp] theorem load16_store16 (m : Mem) (a : Word) (v : BitVec 16) :
    load16 (store16 m a v) a = v := by
  have distinct : a ≠ a + 1 := by bv_omega
  rw [load16, store16, store8_apply_self, store8_apply_of_ne distinct, store8_apply_self,
    extract_append]

theorem store16_apply_of_ne {m : Mem} {a x : Word} {v : BitVec 16} (first : x ≠ a)
    (second : x ≠ a + 1) : store16 m a v x = m x := by
  rw [store16, store8_apply_of_ne second, store8_apply_of_ne first]

theorem load16_congr {m m' : Mem} {a : Word} (low : m' a = m a) (high : m' (a + 1) = m (a + 1)) :
    load16 m' a = load16 m a := by
  rw [load16, load16, low, high]

end CocosOS.Library.ByteMemory
