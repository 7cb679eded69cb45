import Mathlib.Data.BitVec
import Mathlib.Data.List.Nodup
import Mathlib.Data.List.Perm.Subperm
import Mathlib.Tactic.Common

/-!
# Masks and shifts of machine words

Rounding down to a multiple of a power of two is written in C as a conjunction with the
complement of a mask. It is a shift to the right and back (`and_not_mask`), that is, a
division and a multiplication (`toNat_and_not_mask`). A conjunction with `1 << k` tests bit `k`
(`and_twoPow_ne_zero_iff`). Two sums with one summand in common compare like the other two exactly
if they wrap together (`add_le_add_left_iff`). Distinct words other than zero are fewer than all
words (`length_lt_of_nodup`).

A sum of words that wraps has the value of a sum that fits exactly if the summands agree modulo
`2 ^ w` (`toInt_add_ofInt_eq_iff`). A sign bit above a word in place of its own moves the value by
whole ranges (`toInt_sub_toInt_cons`).
-/

set_option autoImplicit false

namespace CocosOS.Library.WordArithmetic

variable {w : ℕ}

/-- Clearing the low `k` bits of a word is shifting them out. -/
theorem and_not_mask (x : BitVec w) (k : ℕ) :
    x &&& ~~~(BitVec.ofNat w (2 ^ k - 1)) = (x >>> k) <<< k := by
  refine BitVec.eq_of_getLsbD_eq fun i small => ?_
  rw [BitVec.getLsbD_and, BitVec.getLsbD_not, BitVec.getLsbD_shiftLeft,
    BitVec.getLsbD_ushiftRight, BitVec.getLsbD_ofNat, Nat.testBit_two_pow_sub_one]
  by_cases low : i < k
  · simp [low, small]
  · simp [low, small, Nat.add_sub_cancel' (Nat.le_of_not_lt low)]

theorem toNat_and_not_mask (x : BitVec w) (k : ℕ) :
    (x &&& ~~~(BitVec.ofNat w (2 ^ k - 1))).toNat = x.toNat / 2 ^ k * 2 ^ k := by
  rw [and_not_mask, BitVec.toNat_shiftLeft, BitVec.toNat_ushiftRight,
    Nat.shiftRight_eq_div_pow, Nat.shiftLeft_eq]
  exact Nat.mod_eq_of_lt (Nat.lt_of_le_of_lt (Nat.div_mul_le_self _ _) x.isLt)

/-- A conjunction with `1 << k` tests bit `k`. -/
theorem and_twoPow_ne_zero_iff (x : BitVec w) {k : ℕ} (small : k < w) :
    x &&& (1#w <<< k) ≠ 0#w ↔ x.getLsbD k = true := by
  rw [← BitVec.twoPow_eq, BitVec.and_twoPow]
  cases bit : x.getLsbD k with
  | false => simp
  | true =>
      refine iff_of_true (fun zero => ?_) rfl
      have set := congrArg (BitVec.getLsbD · k) zero
      simp [small] at set

/-- The smaller one of two words has the smaller number. -/
theorem toNat_ite_lt (x y : BitVec w) : (if x < y then x else y).toNat = min y.toNat x.toNat := by
  split_ifs with less
  · exact (Nat.min_eq_right (Nat.le_of_lt less)).symm
  · exact (Nat.min_eq_left (Nat.le_of_not_lt less)).symm

/-- A sum of words is that of the numbers, unless it wraps. -/
theorem toNat_add_eq_ite (x y : BitVec w) :
    (x + y).toNat = if x.toNat + y.toNat < 2 ^ w then x.toNat + y.toNat
      else x.toNat + y.toNat - 2 ^ w := by
  split_ifs with small
  · exact BitVec.toNat_add_of_lt small
  · have reduced : x.toNat + y.toNat - 2 ^ w < 2 ^ w := by
      have := x.isLt
      have := y.isLt
      omega
    rw [BitVec.toNat_add, Nat.mod_eq_sub_mod (not_lt.mp small), Nat.mod_eq_of_lt reduced]

/-- **Sums compare like their second summands exactly if they wrap together.** -/
theorem add_le_add_left_iff (x a b : BitVec w) :
    (x + a ≤ x + b ↔ a ≤ b) ↔ (x.toNat + a.toNat < 2 ^ w ↔ x.toNat + b.toNat < 2 ^ w) := by
  have below := x.isLt
  have belowA := a.isLt
  have belowB := b.isLt
  rw [BitVec.le_def, BitVec.le_def, toNat_add_eq_ite, toNat_add_eq_ite]
  by_cases wrapA : x.toNat + a.toNat < 2 ^ w <;> by_cases wrapB : x.toNat + b.toNat < 2 ^ w
  · rw [if_pos wrapA, if_pos wrapB]
    exact iff_of_true (Nat.add_le_add_iff_left) (iff_of_true wrapA wrapB)
  · rw [if_pos wrapA, if_neg wrapB]
    omega
  · rw [if_neg wrapA, if_pos wrapB]
    omega
  · rw [if_neg wrapA, if_neg wrapB]
    omega

/-- **A sum has the value of one that fits exactly if the summands agree modulo `2 ^ w`.** -/
theorem toInt_add_ofInt_eq_iff {x : BitVec w} {a b : ℤ} (positive : 0 < w)
    (low : -2 ^ (w - 1) ≤ x.toInt + b) (high : x.toInt + b < 2 ^ (w - 1)) :
    (x + BitVec.ofInt w a).toInt = x.toInt + b ↔ (2 ^ w : ℤ) ∣ a - b := by
  have sum : x + BitVec.ofInt w a = BitVec.ofInt w (x.toInt + a) := by
    rw [BitVec.ofInt_add, BitVec.ofInt_toInt]
  have fits : (x.toInt + b).bmod (2 ^ w) = x.toInt + b :=
    (BitVec.toInt_ofInt _).symm.trans (BitVec.toInt_ofInt_eq_self positive low high)
  rw [sum, BitVec.toInt_ofInt, ← fits, Int.bmod_eq_bmod_iff_bmod_sub_eq_zero,
    ← Int.dvd_iff_bmod_eq_zero, Int.add_sub_add_left, Nat.cast_pow, Nat.cast_ofNat]

/-- A word and the one with another sign bit above it differ by their signs. -/
theorem toInt_sub_toInt_cons (sign : Bool) (x : BitVec w) :
    x.toInt - (BitVec.cons sign x).toInt = 2 ^ w * ((sign.toNat : ℤ) - x.msb.toNat) := by
  rw [BitVec.toInt_eq_msb_cond, BitVec.toInt_eq_msb_cond, BitVec.msb_cons, BitVec.toNat_cons',
    Nat.shiftLeft_eq]
  push_cast
  cases sign <;> cases x.msb <;> simp [pow_succ] <;> omega

/-- Distinct words other than zero are fewer than all words. -/
theorem length_lt_of_nodup {words : List (BitVec w)} (nodup : words.Nodup)
    (nonzero : 0#w ∉ words) : words.length < 2 ^ w := by
  have numbers : ((0#w :: words).map BitVec.toNat).Nodup :=
    (List.nodup_cons.mpr ⟨nonzero, nodup⟩).map BitVec.toNat_injective
  have inside : (0#w :: words).map BitVec.toNat ⊆ List.range (2 ^ w) := by
    intro number member
    obtain ⟨word, _, rfl⟩ := List.mem_map.mp member
    exact List.mem_range.mpr word.isLt
  have bound := (List.subperm_of_subset numbers inside).length_le
  rw [List.length_map, List.length_cons, List.length_range] at bound
  exact bound

end CocosOS.Library.WordArithmetic
