import CocosOS.Kernel.Memory.Paging
import CocosOS.Library.Allocator
import CocosOS.Library.WordArithmetic
import Mathlib.Data.Finset.Card
import Mathlib.Data.Finset.Range

/-!
# The frame bitmap

Setting or clearing the bit of a frame changes the mark of that frame and of no other
(`frameMarked_takeFrame_of_ne`, `frameMarked_freeFrame_of_ne`): the byte index and the bit index
together determine the frame. `paging_allocate_frame` is a search for the lowest frame that is
not marked (`pagingAllocateFrame_eq`), and the loop of `paging_init` clears one range of marks
(`frameMarked_freeFramesLoop`).

The counter `used_frames` is kept apart from the bitmap. What `paging_get_free_frames` reports
differs from the number of clear marks by an amount that neither marking a clear frame nor
clearing a marked one changes (`surplus_takeFrame`, `surplus_freeFrame`).

Read bit by bit, each of the two operations assigns one bit of memory and no other, and the second
undoes the first (`frame_bitmap_exact`).
-/

set_option autoImplicit false

namespace CocosOS.Kernel.Memory

open Library.ByteMemory Library.WordArithmetic

/-! ## One bit -/

theorem toNat_mod_eight (frame : Word) : (frame % 8).toNat = frame.toNat % 8 := rfl

theorem frameMarked_iff (s : Machine) (frame : Word) :
    frameMarked s frame = (s.mem (bitmapAddr s frame)).getLsbD (frame.toNat % 8) := by
  rw [frameMarked, bitMask, toNat_mod_eight, Bool.eq_iff_iff, decide_eq_true_eq]
  exact and_twoPow_ne_zero_iff _ (Nat.mod_lt _ (by decide))

theorem getLsbD_bitMask (frame : Word) (j : ℕ) :
    (bitMask (frame % 8)).getLsbD j = decide (frame.toNat % 8 = j) := by
  have fits : frame.toNat % 8 < 8 := Nat.mod_lt _ (by decide)
  rw [bitMask, toNat_mod_eight, show (1 : Byte) = 1#8 from rfl, ← BitVec.twoPow_eq,
    BitVec.getLsbD_twoPow]
  simp [fits]

/-- The byte of a frame and its bit determine the frame. -/
theorem bitmapAddr_ne_or {s : Machine} {frame other : Word} (ne : other ≠ frame) :
    bitmapAddr s other ≠ bitmapAddr s frame ∨
      (bitmapAddr s other = bitmapAddr s frame ∧ frame.toNat % 8 ≠ other.toNat % 8) := by
  by_cases same : bitmapAddr s other = bitmapAddr s frame
  · refine Or.inr ⟨same, fun bits => ne (BitVec.eq_of_toNat_eq ?_)⟩
    rw [bitmapAddr, bitmapAddr, BitVec.add_right_inj] at same
    have bytes := congrArg BitVec.toNat same
    rw [BitVec.toNat_udiv, BitVec.toNat_udiv] at bytes
    have eight : (8 : Word).toNat = 8 := rfl
    rw [eight] at bytes
    omega
  · exact Or.inl same

section Store

variable (s : Machine) (frame : Word)

theorem mem_takeFrame : (takeFrame frame s).mem = store8 s.mem (bitmapAddr s frame)
    (s.mem (bitmapAddr s frame) ||| bitMask (frame % 8)) := rfl

theorem mem_freeFrame : (pagingFreeFrame frame s).mem = store8 s.mem (bitmapAddr s frame)
    (s.mem (bitmapAddr s frame) &&& ~~~bitMask (frame % 8)) := rfl

@[simp] theorem bitmapAddr_takeFrame (other : Word) :
    bitmapAddr (takeFrame frame s) other = bitmapAddr s other := rfl

@[simp] theorem bitmapAddr_freeFrame (other : Word) :
    bitmapAddr (pagingFreeFrame frame s) other = bitmapAddr s other := rfl

@[simp] theorem totalFrames_takeFrame : (takeFrame frame s).totalFrames = s.totalFrames := rfl

@[simp] theorem totalFrames_freeFrame :
    (pagingFreeFrame frame s).totalFrames = s.totalFrames := rfl

@[simp] theorem frameMarked_takeFrame_self : frameMarked (takeFrame frame s) frame = true := by
  have small : frame.toNat % 8 < 8 := Nat.mod_lt _ (by decide)
  rw [frameMarked_iff, bitmapAddr_takeFrame, mem_takeFrame, store8_apply_self, BitVec.getLsbD_or,
    getLsbD_bitMask]
  simp

@[simp] theorem frameMarked_freeFrame_self :
    frameMarked (pagingFreeFrame frame s) frame = false := by
  have small : frame.toNat % 8 < 8 := Nat.mod_lt _ (by decide)
  rw [frameMarked_iff, bitmapAddr_freeFrame, mem_freeFrame, store8_apply_self,
    BitVec.getLsbD_and, BitVec.getLsbD_not, getLsbD_bitMask]
  simp

theorem frameMarked_takeFrame_of_ne {other : Word} (ne : other ≠ frame) :
    frameMarked (takeFrame frame s) other = frameMarked s other := by
  rw [frameMarked_iff, frameMarked_iff, bitmapAddr_takeFrame, mem_takeFrame]
  rcases bitmapAddr_ne_or (s := s) ne with far | ⟨near, bits⟩
  · rw [store8_apply_of_ne far]
  · have small : other.toNat % 8 < 8 := Nat.mod_lt _ (by decide)
    rw [near, store8_apply_self, BitVec.getLsbD_or, getLsbD_bitMask]
    simp [bits]

theorem frameMarked_freeFrame_of_ne {other : Word} (ne : other ≠ frame) :
    frameMarked (pagingFreeFrame frame s) other = frameMarked s other := by
  rw [frameMarked_iff, frameMarked_iff, bitmapAddr_freeFrame, mem_freeFrame]
  rcases bitmapAddr_ne_or (s := s) ne with far | ⟨near, bits⟩
  · rw [store8_apply_of_ne far]
  · have small : other.toNat % 8 < 8 := Nat.mod_lt _ (by decide)
    rw [near, store8_apply_self, BitVec.getLsbD_and, BitVec.getLsbD_not,
      getLsbD_bitMask]
    simp [bits, small]

end Store

/-- Marks are read from the bytes of the bitmap only. -/
theorem frameMarked_congr {s s' : Machine} {frame : Word}
    (addr : s'.frameBitmap = s.frameBitmap)
    (same : s'.mem (bitmapAddr s frame) = s.mem (bitmapAddr s frame)) :
    frameMarked s' frame = frameMarked s frame := by
  rw [frameMarked, frameMarked, show bitmapAddr s' frame = bitmapAddr s frame by
    rw [bitmapAddr, bitmapAddr, addr], same]

/-! ## The bytes of the bitmap -/

/-- The bytes of the bitmap. -/
def bitmapExtent (s : Machine) : Extent := ⟨s.frameBitmap, (bitmapSize s.totalFrames).toNat⟩

theorem toNat_bitmapSize_of_le {total : Word} (small : total.toNat ≤ 2 ^ 20) :
    (bitmapSize total).toNat = (total.toNat + 7) / 8 := by
  have sum : (total + 7).toNat = total.toNat + 7 := by bv_omega
  rw [bitmapSize, BitVec.toNat_udiv, sum]
  rfl

theorem toNat_bitmapSize {total : Word} (small : total.toNat < 2 ^ 20) :
    (bitmapSize total).toNat = (total.toNat + 7) / 8 :=
  toNat_bitmapSize_of_le (Nat.le_of_lt small)

/-- The byte of a frame lies in the bitmap, also when the last byte is not full. -/
theorem covers_bitmapAddr {s : Machine} {frame : Word} (fits : (bitmapExtent s).Fits)
    (small : s.totalFrames.toNat < 2 ^ 20) (lt : frame.toNat < s.totalFrames.toNat) :
    Covers (bitmapExtent s).addr (bitmapExtent s).length (bitmapAddr s frame) := by
  rw [Extent.Fits, bitmapExtent, toNat_bitmapSize small] at fits
  rw [bitmapExtent, toNat_bitmapSize small]
  have byte : (frame / 8).toNat = frame.toNat / 8 := by
    rw [BitVec.toNat_udiv]
    rfl
  dsimp only at fits ⊢
  have addr := toNat_add_of_fits fits (i := frame / 8) (by omega)
  rw [bitmapAddr, Covers, addr, byte]
  omega

/-- Marking a frame changes memory only in the bitmap. -/
theorem takeFrame_apply {s : Machine} {frame x : Word} (fits : (bitmapExtent s).Fits)
    (small : s.totalFrames.toNat < 2 ^ 20) (lt : frame.toNat < s.totalFrames.toNat)
    (outside : ¬ Covers (bitmapExtent s).addr (bitmapExtent s).length x) :
    (takeFrame frame s).mem x = s.mem x := by
  refine store8_apply_of_ne ?_
  rintro rfl
  exact outside (covers_bitmapAddr fits small lt)

/-- Clearing a mark changes memory only in the bitmap. -/
theorem freeFrame_apply {s : Machine} {frame x : Word} (fits : (bitmapExtent s).Fits)
    (small : s.totalFrames.toNat < 2 ^ 20) (lt : frame.toNat < s.totalFrames.toNat)
    (outside : ¬ Covers (bitmapExtent s).addr (bitmapExtent s).length x) :
    (pagingFreeFrame frame s).mem x = s.mem x := by
  refine store8_apply_of_ne ?_
  rintro rfl
  exact outside (covers_bitmapAddr fits small lt)

/-! ## The search for a frame -/

/-- The mark of the frame with the given number. -/
def marks (s : Machine) (i : ℕ) : Bool := frameMarked s (BitVec.ofNat 32 i)

theorem ofNat_ne {i j : ℕ} (hi : i < 2 ^ 32) (hj : j < 2 ^ 32) (ne : i ≠ j) :
    BitVec.ofNat 32 i ≠ BitVec.ofNat 32 j := by
  intro same
  have values := congrArg BitVec.toNat same
  rw [BitVec.toNat_ofNat, BitVec.toNat_ofNat, Nat.mod_eq_of_lt hi, Nat.mod_eq_of_lt hj] at values
  exact ne values

theorem allocateFrameLoop_eq (s : Machine) : ∀ rounds i : ℕ,
    allocateFrameLoop s rounds (BitVec.ofNat 32 i) =
      match (List.range' i rounds).find? fun j => !marks s j with
      | some j => .ok (BitVec.ofNat 32 j, takeFrame (BitVec.ofNat 32 j) s)
      | none => .error .panic
  | 0, _ => rfl
  | rounds + 1, i => by
      rw [allocateFrameLoop, List.range'_succ, List.find?_cons]
      cases marked : marks s i with
      | false =>
          rw [marks] at marked
          rw [marked]
          rfl
      | true =>
          rw [marks] at marked
          rw [marked, if_pos rfl, show BitVec.ofNat 32 i + 1 = BitVec.ofNat 32 (i + 1) from
            (BitVec.ofNat_add i 1).symm]
          exact allocateFrameLoop_eq s rounds (i + 1)

/-- **`paging_allocate_frame` takes the lowest frame that is not marked**, and panics when every
frame is. -/
theorem pagingAllocateFrame_eq (s : Machine) :
    pagingAllocateFrame s =
      match (List.range s.totalFrames.toNat).find? fun j => !marks s j with
      | some j => .ok (BitVec.ofNat 32 j, takeFrame (BitVec.ofNat 32 j) s)
      | none => .error .panic := by
  rw [pagingAllocateFrame, List.range_eq_range']
  exact allocateFrameLoop_eq s s.totalFrames.toNat 0

/-- `paging_allocate_frame` returns the lowest clear frame, or panics if there is none. -/
theorem pagingAllocateFrame_cases (s : Machine) :
    (∃ i < s.totalFrames.toNat, marks s i = false ∧ (∀ j < i, marks s j = true) ∧
      pagingAllocateFrame s = .ok (BitVec.ofNat 32 i, takeFrame (BitVec.ofNat 32 i) s)) ∨
    ((∀ i < s.totalFrames.toNat, marks s i = true) ∧
      pagingAllocateFrame s = .error .panic) := by
  rw [pagingAllocateFrame_eq]
  cases found : (List.range s.totalFrames.toNat).find? fun j => !marks s j with
  | none =>
      right
      rw [List.find?_range_eq_none] at found
      exact ⟨fun i lt => by simpa using found i lt, rfl⟩
  | some i =>
      left
      obtain ⟨clear, lt, below⟩ := List.find?_range_eq_some.mp found
      refine ⟨i, List.mem_range.mp lt, by simpa using clear, fun j before => ?_, rfl⟩
      simpa using below j before

/-! ## The loop that releases frames -/

/-- What the loop of `paging_init` leaves alone. -/
theorem freeFramesLoop_fields (rounds : ℕ) : ∀ (i : Word) (s : Machine),
    (freeFramesLoop rounds i s).frameBitmap = s.frameBitmap ∧
    (freeFramesLoop rounds i s).totalFrames = s.totalFrames ∧
    (freeFramesLoop rounds i s).kernelDirectory = s.kernelDirectory := by
  induction rounds with
  | zero => exact fun i s => ⟨rfl, rfl, rfl⟩
  | succ rounds ih => exact fun i s => ih (i + 1) (pagingFreeFrame i s)

/-- The loop changes memory only in the bitmap. -/
theorem freeFramesLoop_apply {x : Word} (rounds : ℕ) : ∀ {i : ℕ} {s : Machine},
    (bitmapExtent s).Fits → s.totalFrames.toNat < 2 ^ 20 → i + rounds ≤ s.totalFrames.toNat →
    ¬ Covers (bitmapExtent s).addr (bitmapExtent s).length x →
    (freeFramesLoop rounds (BitVec.ofNat 32 i) s).mem x = s.mem x := by
  induction rounds with
  | zero => exact fun _ _ _ _ => rfl
  | succ rounds ih =>
      intro i s fits small range outside
      have lt : (BitVec.ofNat 32 i).toNat < s.totalFrames.toNat := by
        rw [BitVec.toNat_ofNat]
        omega
      rw [freeFramesLoop, show BitVec.ofNat 32 i + 1 = BitVec.ofNat 32 (i + 1) from
        (BitVec.ofNat_add i 1).symm]
      have step : (i + 1) + rounds ≤ s.totalFrames.toNat := by omega
      exact (ih (s := pagingFreeFrame (BitVec.ofNat 32 i) s) fits small step outside).trans
        (freeFrame_apply fits small lt outside)

/-- The loop clears the marks of its range and no other. -/
theorem marks_freeFramesLoop (rounds : ℕ) : ∀ {i : ℕ} {s : Machine} {j : ℕ},
    i + rounds ≤ 2 ^ 32 → j < 2 ^ 32 →
    marks (freeFramesLoop rounds (BitVec.ofNat 32 i) s) j =
      (marks s j && !decide (i ≤ j ∧ j < i + rounds)) := by
  induction rounds with
  | zero =>
      intro i s j _ _
      have empty : ¬ (i ≤ j ∧ j < i + 0) := by omega
      rw [freeFramesLoop, decide_eq_false empty, Bool.not_false, Bool.and_true]
  | succ rounds ih =>
      intro i s j range small
      rw [freeFramesLoop, show BitVec.ofNat 32 i + 1 = BitVec.ofNat 32 (i + 1) from
        (BitVec.ofNat_add i 1).symm, ih (by omega) small]
      by_cases here : j = i
      · subst here
        have inside : j ≤ j ∧ j < j + (rounds + 1) := by omega
        rw [marks, frameMarked_freeFrame_self]
        simp [inside]
      · have range_iff : (i + 1 ≤ j ∧ j < i + 1 + rounds) ↔ (i ≤ j ∧ j < i + (rounds + 1)) := by
          omega
        rw [marks, frameMarked_freeFrame_of_ne _ _ (ofNat_ne small (by omega) here), ← marks]
        simp only [range_iff]

/-! ## Counting -/

/-- The frames whose mark is clear. -/
def clearFrames (s : Machine) : Finset ℕ :=
  (Finset.range s.totalFrames.toNat).filter fun i => marks s i = false

/-- What `paging_get_free_frames` reports over the number of clear marks. -/
def surplus (s : Machine) : Word :=
  pagingGetFreeFrames s - BitVec.ofNat 32 (clearFrames s).card

theorem mem_clearFrames {s : Machine} {i : ℕ} :
    i ∈ clearFrames s ↔ i < s.totalFrames.toNat ∧ marks s i = false := by
  rw [clearFrames, Finset.mem_filter, Finset.mem_range]

theorem marks_takeFrame_of_ne {s : Machine} {i j : ℕ} (hi : i < 2 ^ 32) (hj : j < 2 ^ 32)
    (ne : j ≠ i) : marks (takeFrame (BitVec.ofNat 32 i) s) j = marks s j :=
  frameMarked_takeFrame_of_ne s _ (ofNat_ne hj hi ne)

theorem marks_freeFrame_of_ne {s : Machine} {i j : ℕ} (hi : i < 2 ^ 32) (hj : j < 2 ^ 32)
    (ne : j ≠ i) : marks (pagingFreeFrame (BitVec.ofNat 32 i) s) j = marks s j :=
  frameMarked_freeFrame_of_ne s _ (ofNat_ne hj hi ne)

/-- The surplus is read from the two counters and the marks. -/
theorem surplus_congr {s s' : Machine} (total : s'.totalFrames = s.totalFrames)
    (used : s'.usedFrames = s.usedFrames)
    (same : ∀ i < s.totalFrames.toNat, marks s' i = marks s i) : surplus s' = surplus s := by
  have clear : clearFrames s' = clearFrames s := by
    ext i
    rw [mem_clearFrames, mem_clearFrames, total]
    exact and_congr_right fun lt => by rw [same i lt]
  rw [surplus, surplus, pagingGetFreeFrames, pagingGetFreeFrames, total, used, clear]

/-- Marking a clear frame takes it out of the clear ones. -/
theorem clearFrames_takeFrame (s : Machine) {i : ℕ} (lt : i < s.totalFrames.toNat) :
    clearFrames (takeFrame (BitVec.ofNat 32 i) s) = (clearFrames s).erase i := by
  have bound := s.totalFrames.isLt
  ext j
  rw [mem_clearFrames, Finset.mem_erase, mem_clearFrames, totalFrames_takeFrame]
  by_cases same : j = i
  · subst same
    rw [marks, frameMarked_takeFrame_self]
    simp
  · constructor
    · rintro ⟨inside, clear⟩
      rw [marks_takeFrame_of_ne (by omega) (by omega) same] at clear
      exact ⟨same, inside, clear⟩
    · rintro ⟨-, inside, clear⟩
      rw [marks_takeFrame_of_ne (by omega) (by omega) same]
      exact ⟨inside, clear⟩

/-- Clearing a frame puts it among the clear ones. -/
theorem clearFrames_freeFrame (s : Machine) {i : ℕ} (lt : i < s.totalFrames.toNat) :
    clearFrames (pagingFreeFrame (BitVec.ofNat 32 i) s) = insert i (clearFrames s) := by
  have bound := s.totalFrames.isLt
  ext j
  rw [mem_clearFrames, Finset.mem_insert, mem_clearFrames, totalFrames_freeFrame]
  by_cases same : j = i
  · subst same
    rw [marks, frameMarked_freeFrame_self]
    simp [lt]
  · constructor
    · rintro ⟨inside, clear⟩
      rw [marks_freeFrame_of_ne (by omega) (by omega) same] at clear
      exact Or.inr ⟨inside, clear⟩
    · intro either
      rw [marks_freeFrame_of_ne (by omega) (by omega) same]
      exact either.resolve_left same

/-- When every frame is marked, the surplus is what the counter says. -/
theorem surplus_of_full {s : Machine} (full : ∀ i < s.totalFrames.toNat, marks s i = true) :
    surplus s = pagingGetFreeFrames s := by
  have none_clear : clearFrames s = ∅ := by
    refine Finset.eq_empty_of_forall_notMem fun i member => ?_
    obtain ⟨lt, clear⟩ := mem_clearFrames.mp member
    rw [full i lt] at clear
    contradiction
  rw [surplus, none_clear, Finset.card_empty]
  exact BitVec.sub_zero _

/-- Marking a clear frame changes counter and bitmap in step. -/
theorem surplus_takeFrame (s : Machine) {i : ℕ} (lt : i < s.totalFrames.toNat)
    (clear : marks s i = false) : surplus (takeFrame (BitVec.ofNat 32 i) s) = surplus s := by
  have member := mem_clearFrames.mpr ⟨lt, clear⟩
  have count := Finset.card_erase_add_one member
  have cast : BitVec.ofNat 32 (clearFrames s).card =
      BitVec.ofNat 32 ((clearFrames s).erase i).card + 1 := by
    rw [← count]
    exact BitVec.ofNat_add _ 1
  have counter : pagingGetFreeFrames (takeFrame (BitVec.ofNat 32 i) s) =
      pagingGetFreeFrames s - 1 := by
    show s.totalFrames - (s.usedFrames + 1) = s.totalFrames - s.usedFrames - 1
    bv_omega
  rw [surplus, surplus, clearFrames_takeFrame s lt, counter, cast]
  bv_omega

/-- Clearing a marked frame changes counter and bitmap in step. -/
theorem surplus_freeFrame (s : Machine) {i : ℕ} (lt : i < s.totalFrames.toNat)
    (marked : marks s i = true) :
    surplus (pagingFreeFrame (BitVec.ofNat 32 i) s) = surplus s := by
  have absent : i ∉ clearFrames s := by
    rw [mem_clearFrames, marked]
    simp
  have cast : BitVec.ofNat 32 (insert i (clearFrames s)).card =
      BitVec.ofNat 32 (clearFrames s).card + 1 := by
    rw [Finset.card_insert_of_notMem absent]
    exact BitVec.ofNat_add _ 1
  have counter : pagingGetFreeFrames (pagingFreeFrame (BitVec.ofNat 32 i) s) =
      pagingGetFreeFrames s + 1 := by
    show s.totalFrames - (s.usedFrames - 1) = s.totalFrames - s.usedFrames + 1
    bv_omega
  rw [surplus, surplus, clearFrames_freeFrame s lt, counter, cast]
  bv_omega

/-- The loop of `paging_init` clears marked frames, so it changes counter and bitmap in step. -/
theorem surplus_freeFramesLoop (rounds : ℕ) : ∀ {i : ℕ} {s : Machine},
    i + rounds ≤ s.totalFrames.toNat → (∀ j < s.totalFrames.toNat, i ≤ j → marks s j = true) →
    surplus (freeFramesLoop rounds (BitVec.ofNat 32 i) s) = surplus s := by
  induction rounds with
  | zero => exact fun _ _ => rfl
  | succ rounds ih =>
      intro i s range marked
      have bound := s.totalFrames.isLt
      rw [freeFramesLoop, show BitVec.ofNat 32 i + 1 = BitVec.ofNat 32 (i + 1) from
        (BitVec.ofNat_add i 1).symm]
      refine (ih (s := pagingFreeFrame (BitVec.ofNat 32 i) s) ?_ fun j lt above => ?_).trans
        (surplus_freeFrame s (by omega) (marked i (by omega) (Nat.le_refl i)))
      · rw [totalFrames_freeFrame]
        omega
      · rw [totalFrames_freeFrame] at lt
        rw [marks_freeFrame_of_ne (by omega) (by omega) (by omega)]
        exact marked j lt (by omega)

/-! ## Bits of the bitmap -/

/-- Bit `j` of the bitmap, counted from its first byte. The last bits may belong to no frame. -/
def bitmapBit (s : Machine) (j : ℕ) : Bool :=
  (s.mem (s.frameBitmap + BitVec.ofNat 32 (j / 8))).getLsbD (j % 8)

/-- The address of one of the bytes of the bitmap. -/
def InBitmap (s : Machine) (x : Word) : Prop :=
  ∃ k < (bitmapSize s.totalFrames).toNat, x = s.frameBitmap + BitVec.ofNat 32 k

/-- Of the whole memory only one bit of the bitmap is assigned. -/
structure AssignsBit (i : ℕ) (value : Bool) (s s' : Machine) : Prop where
  frameBitmap : s'.frameBitmap = s.frameBitmap
  bit : bitmapBit s' i = value
  others : ∀ j < 8 * (bitmapSize s.totalFrames).toNat, j ≠ i → bitmapBit s' j = bitmapBit s j
  outside : ∀ x, ¬ InBitmap s x → s'.mem x = s.mem x

theorem bitmapBit_eq_marks (s : Machine) {j : ℕ} (small : j < 2 ^ 32) :
    bitmapBit s j = marks s j := by
  have value : (BitVec.ofNat 32 j).toNat = j := by
    rw [BitVec.toNat_ofNat]
    exact Nat.mod_eq_of_lt small
  have byte : BitVec.ofNat 32 (j / 8) = BitVec.ofNat 32 j / 8 := by
    refine BitVec.eq_of_toNat_eq ?_
    rw [BitVec.toNat_udiv, value, BitVec.toNat_ofNat]
    exact Nat.mod_eq_of_lt (Nat.lt_of_le_of_lt (Nat.div_le_self j 8) small)
  rw [marks, frameMarked_iff, bitmapAddr, value, bitmapBit, byte]

/-- The byte that belongs to a frame is one of the bitmap. -/
theorem inBitmap_bitmapAddr {s : Machine} {frame : Word} (small : s.totalFrames.toNat ≤ 2 ^ 20)
    (lt : frame.toNat < s.totalFrames.toNat) : InBitmap s (bitmapAddr s frame) := by
  refine ⟨frame.toNat / 8, ?_, ?_⟩
  · rw [toNat_bitmapSize_of_le small]
    omega
  · have byte : BitVec.ofNat 32 (frame.toNat / 8) = frame / 8 := by
      refine BitVec.eq_of_toNat_eq ?_
      rw [BitVec.toNat_ofNat, BitVec.toNat_udiv]
      exact Nat.mod_eq_of_lt (Nat.lt_of_le_of_lt (Nat.div_le_self _ 8) frame.isLt)
    rw [bitmapAddr, byte]

section Assign

variable {s : Machine} {frame : Word} (small : s.totalFrames.toNat ≤ 2 ^ 20)
  (lt : frame.toNat < s.totalFrames.toNat)
include small lt

/-- A store to the byte of a frame that leaves the other marks alone assigns one bit. -/
theorem assignsBit_of_marks {s' : Machine} {value : Bool} {byte : Byte}
    (bitmap : s'.frameBitmap = s.frameBitmap)
    (made : s'.mem = store8 s.mem (bitmapAddr s frame) byte)
    (self : frameMarked s' frame = value)
    (rest : ∀ other, other ≠ frame → frameMarked s' other = frameMarked s other) :
    AssignsBit frame.toNat value s s' := by
  have size := toNat_bitmapSize_of_le small
  refine ⟨bitmap, ?_, fun j inside ne => ?_, fun x outside => ?_⟩
  · rw [bitmapBit_eq_marks s' frame.isLt, marks, BitVec.ofNat_toNat, BitVec.setWidth_eq]
    exact self
  · rw [bitmapBit_eq_marks s' (by omega), bitmapBit_eq_marks s (by omega)]
    refine rest _ fun same => ne ?_
    rw [← same, BitVec.toNat_ofNat]
    exact (Nat.mod_eq_of_lt (by omega)).symm
  · rw [made]
    refine store8_apply_of_ne ?_
    rintro rfl
    exact outside (inBitmap_bitmapAddr small lt)

theorem assignsBit_takeFrame : AssignsBit frame.toNat true s (takeFrame frame s) :=
  assignsBit_of_marks small lt rfl (mem_takeFrame s frame) (frameMarked_takeFrame_self s frame)
    fun _ ne => frameMarked_takeFrame_of_ne s frame ne

theorem assignsBit_freeFrame : AssignsBit frame.toNat false s (pagingFreeFrame frame s) :=
  assignsBit_of_marks small lt rfl (mem_freeFrame s frame) (frameMarked_freeFrame_self s frame)
    fun _ ne => frameMarked_freeFrame_of_ne s frame ne

end Assign

/-- Clearing the mark that was just set restores the byte. -/
theorem or_and_not_of_clear {byte mask : Byte} (clear : byte &&& mask = 0) :
    (byte ||| mask) &&& ~~~mask = byte := by
  refine BitVec.eq_of_getLsbD_eq fun k below => ?_
  have bit := congrArg (BitVec.getLsbD · k) clear
  simp only [BitVec.getLsbD_and, BitVec.ofNat_eq_ofNat, BitVec.getLsbD_zero] at bit
  rw [BitVec.getLsbD_and, BitVec.getLsbD_or, BitVec.getLsbD_not]
  cases set : mask.getLsbD k with
  | false => simp [below]
  | true =>
      rw [set, Bool.and_true] at bit
      simp [bit]

/-- **Freeing the frame that was just taken undoes it.** -/
theorem freeFrame_takeFrame {s : Machine} {frame : Word} (clear : frameMarked s frame = false) :
    pagingFreeFrame frame (takeFrame frame s) = s := by
  have byte : (s.mem (bitmapAddr s frame) ||| bitMask (frame % 8)) &&& ~~~bitMask (frame % 8) =
      s.mem (bitmapAddr s frame) := by
    refine or_and_not_of_clear (not_not.mp fun set => ?_)
    rw [frameMarked, decide_eq_true set] at clear
    contradiction
  have mem : (pagingFreeFrame frame (takeFrame frame s)).mem = s.mem := by
    funext x
    rw [mem_freeFrame, bitmapAddr_takeFrame, mem_takeFrame, store8_apply_self, byte]
    by_cases same : x = bitmapAddr s frame
    · rw [same, store8_apply_self]
    · rw [store8_apply_of_ne same, store8_apply_of_ne same]
  have used : (pagingFreeFrame frame (takeFrame frame s)).usedFrames = s.usedFrames :=
    BitVec.add_sub_cancel s.usedFrames 1
  calc pagingFreeFrame frame (takeFrame frame s)
      = { s with
          mem := (pagingFreeFrame frame (takeFrame frame s)).mem
          usedFrames := (pagingFreeFrame frame (takeFrame frame s)).usedFrames } := rfl
    _ = s := by rw [mem, used]

/-- **The operations on the frame bitmap are exact.** `paging_allocate_frame` returns the lowest
frame whose bit is clear and assigns that bit only, and it panics exactly if no bit of a frame is
clear; `paging_free_frame` of a frame assigns its bit only, and of the frame just allocated it
restores the bitmap and the counter. -/
theorem frame_bitmap_exact {s : Machine} (small : s.totalFrames.toNat ≤ 2 ^ 20) :
    (∀ i s', pagingAllocateFrame s = .ok (i, s') →
      i.toNat < s.totalFrames.toNat ∧ bitmapBit s i.toNat = false ∧
      (∀ j < i.toNat, bitmapBit s j = true) ∧ AssignsBit i.toNat true s s' ∧
      (pagingFreeFrame i s').mem = s.mem ∧ (pagingFreeFrame i s').usedFrames = s.usedFrames) ∧
    ((∃ i s', pagingAllocateFrame s = .ok (i, s')) ↔
      ∃ i < s.totalFrames.toNat, bitmapBit s i = false) ∧
    (pagingAllocateFrame s = .error .panic ↔
      ¬ ∃ i < s.totalFrames.toNat, bitmapBit s i = false) ∧
    ∀ frame : Word, frame.toNat < s.totalFrames.toNat →
      AssignsBit frame.toNat false s (pagingFreeFrame frame s) := by
  have bits : ∀ j < s.totalFrames.toNat, bitmapBit s j = marks s j :=
    fun j lt => bitmapBit_eq_marks s (by omega)
  rcases pagingAllocateFrame_cases s with ⟨i, lt, clear, below, call⟩ | ⟨full, call⟩
  · have value : (BitVec.ofNat 32 i).toNat = i := by
      rw [BitVec.toNat_ofNat]
      omega
    have some_clear : ∃ i < s.totalFrames.toNat, bitmapBit s i = false :=
      ⟨i, lt, (bits i lt).trans clear⟩
    refine ⟨fun frame s' returned => ?_, iff_of_true ⟨_, _, call⟩ some_clear, ?_,
      fun frame inside => assignsBit_freeFrame small inside⟩
    · obtain ⟨rfl, rfl⟩ := Prod.mk.inj (Except.ok.inj (call.symm.trans returned))
      rw [value, freeFrame_takeFrame clear]
      refine ⟨lt, (bits i lt).trans clear, fun j before => ?_, ?_, rfl, rfl⟩
      · exact (bits j (Nat.lt_trans before lt)).trans (below j before)
      · have inside : (BitVec.ofNat 32 i).toNat < s.totalFrames.toNat := value.symm ▸ lt
        have taken := assignsBit_takeFrame small inside
        rw [value] at taken
        exact taken
    · rw [call]
      exact iff_of_false nofun (not_not.mpr some_clear)
  · have none_clear : ¬ ∃ i < s.totalFrames.toNat, bitmapBit s i = false := by
      rintro ⟨i, lt, clear⟩
      rw [bits i lt, full i lt] at clear
      contradiction
    rw [call]
    exact ⟨nofun, iff_of_false nofun none_clear, iff_of_true rfl none_clear,
      fun frame inside => assignsBit_freeFrame small inside⟩

/-- Of 257 frames with every bit set but the last, the last one is allocated. -/
theorem frame_bitmap_exact_lastByte : ∃ s : Machine, s.totalFrames = 257 ∧
    (∃ i s', pagingAllocateFrame s = .ok (i, s')) ∧
    AssignsBit 256 false s (pagingFreeFrame 256 s) := by
  have exact := frame_bitmap_exact
    (s := ⟨fun x => if x = 0x1020 then 0xFE else 0xFF, 0x1000, 257, 256, 0, 0, 0⟩) (by decide)
  refine ⟨_, rfl, exact.2.1.mpr ⟨256, by decide, by decide⟩, ?_⟩
  exact exact.2.2.2 256 (by decide)

end CocosOS.Kernel.Memory
