import CocosOS.Library.LuaValue

/-!
# Parts of Lua strings

`string.sub` counts from 1, and from the end where a bound is negative. Up to a bound it takes a
prefix (`sub_one`), and behind the end there is nothing (`sub_behind`).
-/

set_option autoImplicit false

namespace CocosOS.Library.Lua

/-- `string.sub(s, i, j)`. -/
def sub (s : Text) (i j : ℤ) : Text :=
  let first : ℤ := if 0 < i then i else if i = 0 ∨ i < -s.length then 1 else s.length + i + 1
  let last : ℤ := if s.length < j then s.length else if 0 ≤ j then j
    else if j < -s.length then 0 else s.length + j + 1
  (s.take last.toNat).drop (first - 1).toNat

example : sub [1, 2, 3] (-2) (-1) = [2, 3] ∧ sub [1, 2, 3] 2 9 = [2, 3] := by decide

/-- `string.lower(s)`. -/
def lower (s : Text) : Text := s.map fun c => if 65 ≤ c ∧ c ≤ 90 then c + 32 else c

/-- `string.find(s, part, 1, true)` finds something. -/
def finds (s part : Text) : Bool := part <:+: s

/-- From the first character on, it takes as many as it is told. -/
theorem sub_one (s : Text) (count : ℕ) : sub s 1 count = s.take count := by
  rw [sub, if_pos Int.one_pos]
  rw [Int.sub_self, Int.toNat_zero, List.drop_zero]
  split_ifs with long
  · rw [Int.toNat_natCast, List.take_length, List.take_of_length_le (by omega)]
  · rw [Int.toNat_natCast]
  · omega
  · omega

/-- Behind the last character there is nothing. -/
theorem sub_behind (s : Text) : sub s (s.length + 1) (-1) = [] := by
  rw [sub, if_pos (by omega)]
  rw [List.drop_eq_nil_iff, List.length_take]
  omega

end CocosOS.Library.Lua
