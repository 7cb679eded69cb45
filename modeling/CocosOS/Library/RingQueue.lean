import Mathlib.Data.Int.ModEq
import Mathlib.Data.List.Basic
import Mathlib.Logic.Function.Basic
import Mathlib.Tactic.Common

/-!
# Ring buffers

A ring of `size` slots is read through two indices that wrap around. What lies between them is
a list, the `window` of a given length from a first slot on: it grows at the back and shrinks
at the front (`window_succ_back`, `window_succ_front`), and a store into the next free slot
leaves it alone as long as it does not fill the ring (`window_update`).

A ring without a counter is empty when its indices are equal. The number of items between
them is known only modulo `size` (`backlog`), so a push into a ring with `size - 1` pending
items makes it empty again. `backlog_push_of_room` and `backlog_push_of_full` are the two
cases, `pending_push_of_room` and `pending_push_of_full` the same for what is pending.
-/

set_option autoImplicit false

namespace CocosOS.Library.RingQueue

variable {α : Type*}

/-! ## Windows -/

/-- The contents of `length` slots from `first` on, in a ring of `size` slots. -/
def window (slots : ℕ → α) (size first length : ℕ) : List α :=
  (List.range length).map fun offset => slots ((first + offset) % size)

@[simp] theorem length_window (slots : ℕ → α) (size first length : ℕ) :
    (window slots size first length).length = length := by
  simp [window]

@[simp] theorem window_zero (slots : ℕ → α) (size first : ℕ) :
    window slots size first 0 = [] := rfl

theorem window_succ_back (slots : ℕ → α) (size first length : ℕ) :
    window slots size first (length + 1) =
      window slots size first length ++ [slots ((first + length) % size)] := by
  simp [window, List.range_succ]

theorem window_succ_front (slots : ℕ → α) {size first : ℕ} (inside : first < size)
    (length : ℕ) :
    window slots size first (length + 1) =
      slots first :: window slots size ((first + 1) % size) length := by
  have shift : ∀ offset, (first + (offset + 1)) % size = ((first + 1) % size + offset) % size := by
    intro offset
    rw [Nat.mod_add_mod, Nat.add_assoc, Nat.add_comm 1]
  rw [window, List.range_succ_eq_map, List.map_cons, List.map_map, Nat.add_zero,
    Nat.mod_eq_of_lt inside]
  exact congrArg _ (List.map_congr_left fun offset _ => congrArg slots (shift offset))

/-- Two memories with the same slots in the window show the same window. -/
theorem window_congr {slots slots' : ℕ → α} {size first length : ℕ}
    (same : ∀ offset < length,
      slots' ((first + offset) % size) = slots ((first + offset) % size)) :
    window slots' size first length = window slots size first length := by
  refine List.map_congr_left fun offset member => same offset ?_
  exact List.mem_range.mp member

/-- Different offsets below the size of the ring are different slots. -/
theorem slot_ne {size first small large : ℕ} (lt : small < large) (inside : large < size) :
    (first + small) % size ≠ (first + large) % size := by
  intro same
  have equal : small % size = large % size := Nat.ModEq.add_left_cancel' first same
  rw [Nat.mod_eq_of_lt (Nat.lt_trans lt inside), Nat.mod_eq_of_lt inside] at equal
  omega

/-- The index after `index`. -/
theorem succ_mod {index size : ℕ} (inside : index < size) :
    (index + 1) % size = if index + 1 = size then 0 else index + 1 := by
  split_ifs with last
  · rw [last, Nat.mod_self]
  · exact Nat.mod_eq_of_lt (by omega)

/-- A store into the slot behind a window that does not fill the ring leaves it alone. -/
theorem window_update (slots : ℕ → α) {size first length : ℕ} (room : length < size)
    (item : α) :
    window (Function.update slots ((first + length) % size) item) size first length =
      window slots size first length :=
  window_congr fun _ before => Function.update_of_ne (slot_ne before room) _ _

/-! ## Rings without a counter -/

/-- A ring: its slots, the slot read next and the slot written next. -/
structure RingBuffer (α : Type*) where
  slots : ℕ → α
  head : ℕ
  tail : ℕ

namespace RingBuffer

/-- Both indices are slots of the ring. -/
structure Indexed (size : ℕ) (ring : RingBuffer α) : Prop where
  head_lt : ring.head < size
  tail_lt : ring.tail < size

/-- How many items are between the indices, as far as the indices tell. -/
def backlog (size : ℕ) (ring : RingBuffer α) : ℕ :=
  (((ring.tail : ℤ) - ring.head) % size).toNat

/-- What is between the indices. -/
def pending (size : ℕ) (ring : RingBuffer α) : List α :=
  window ring.slots size ring.head (ring.backlog size)

/-- Store an item and advance the write index. -/
def push (size : ℕ) (item : α) (ring : RingBuffer α) : RingBuffer α :=
  { ring with
    slots := Function.update ring.slots ring.tail item
    tail := (ring.tail + 1) % size }

/-- Advance the read index. -/
def advance (size : ℕ) (ring : RingBuffer α) : RingBuffer α :=
  { ring with head := (ring.head + 1) % size }

/-- The next push does not run into the read index. -/
def Room (size : ℕ) (ring : RingBuffer α) : Prop :=
  (ring.tail + 1) % size ≠ ring.head

instance (size : ℕ) (ring : RingBuffer α) : Decidable (ring.Room size) :=
  inferInstanceAs (Decidable (_ ≠ _))

@[simp] theorem push_head (size : ℕ) (item : α) (ring : RingBuffer α) :
    (ring.push size item).head = ring.head := rfl

@[simp] theorem push_tail (size : ℕ) (item : α) (ring : RingBuffer α) :
    (ring.push size item).tail = (ring.tail + 1) % size := rfl

@[simp] theorem advance_head (size : ℕ) (ring : RingBuffer α) :
    (ring.advance size).head = (ring.head + 1) % size := rfl

@[simp] theorem advance_tail (size : ℕ) (ring : RingBuffer α) :
    (ring.advance size).tail = ring.tail := rfl

@[simp] theorem length_pending (size : ℕ) (ring : RingBuffer α) :
    (ring.pending size).length = ring.backlog size :=
  length_window ..

end RingBuffer

variable {size : ℕ} {ring : RingBuffer α}

namespace RingBuffer.Indexed

theorem push (indexed : ring.Indexed size) (item : α) : (ring.push size item).Indexed size where
  head_lt := indexed.head_lt
  tail_lt := Nat.mod_lt _ (Nat.zero_lt_of_lt indexed.head_lt)

theorem advance (indexed : ring.Indexed size) : (ring.advance size).Indexed size where
  head_lt := Nat.mod_lt _ (Nat.zero_lt_of_lt indexed.head_lt)
  tail_lt := indexed.tail_lt

/-- The backlog is the distance from the read index up to the write index. -/
theorem backlog_eq (indexed : ring.Indexed size) :
    ring.backlog size =
      if ring.head ≤ ring.tail then ring.tail - ring.head
      else ring.tail + size - ring.head := by
  have head_lt := indexed.head_lt
  have tail_lt := indexed.tail_lt
  unfold RingBuffer.backlog
  split_ifs with order
  · rw [Int.emod_eq_of_lt (by omega) (by omega)]
    omega
  · rw [← Int.add_emod_right, Int.emod_eq_of_lt (by omega) (by omega)]
    omega

theorem backlog_lt (indexed : ring.Indexed size) : ring.backlog size < size := by
  have head_lt := indexed.head_lt
  have tail_lt := indexed.tail_lt
  rw [indexed.backlog_eq]
  split_ifs <;> omega

theorem backlog_eq_zero_iff (indexed : ring.Indexed size) :
    ring.backlog size = 0 ↔ ring.head = ring.tail := by
  have head_lt := indexed.head_lt
  rw [indexed.backlog_eq]
  split_ifs <;> omega

/-- The write index is the slot behind what is pending. -/
theorem tail_eq (indexed : ring.Indexed size) :
    ring.tail = (ring.head + ring.backlog size) % size := by
  have head_lt := indexed.head_lt
  have tail_lt := indexed.tail_lt
  rw [indexed.backlog_eq]
  split_ifs with order
  · rw [Nat.add_sub_cancel' order, Nat.mod_eq_of_lt tail_lt]
  · rw [Nat.add_sub_cancel' (by omega), Nat.add_mod_right, Nat.mod_eq_of_lt tail_lt]

/-- There is room exactly while fewer than `size - 1` items are pending. -/
theorem room_iff (indexed : ring.Indexed size) :
    ring.Room size ↔ ring.backlog size + 1 < size := by
  have head_lt := indexed.head_lt
  have tail_lt := indexed.tail_lt
  rw [RingBuffer.Room, succ_mod tail_lt, indexed.backlog_eq]
  split_ifs <;> omega

/-- A push with room adds one item. -/
theorem backlog_push_of_room (indexed : ring.Indexed size) (room : ring.Room size) (item : α) :
    (ring.push size item).backlog size = ring.backlog size + 1 := by
  have head_lt := indexed.head_lt
  have tail_lt := indexed.tail_lt
  rw [RingBuffer.Room, succ_mod tail_lt] at room
  rw [(indexed.push item).backlog_eq, indexed.backlog_eq]
  simp only [RingBuffer.push_head, RingBuffer.push_tail, succ_mod tail_lt]
  split_ifs at room ⊢ <;> omega

/-- A push without room makes the indices equal. -/
theorem backlog_push_of_full (indexed : ring.Indexed size) (full : ¬ ring.Room size) (item : α) :
    (ring.push size item).backlog size = 0 :=
  (indexed.push item).backlog_eq_zero_iff.mpr (not_not.mp full).symm

/-- **A push with room appends the item.** -/
theorem pending_push_of_room (indexed : ring.Indexed size) (room : ring.Room size) (item : α) :
    (ring.push size item).pending size = ring.pending size ++ [item] := by
  have before := indexed.backlog_lt
  rw [RingBuffer.pending, indexed.backlog_push_of_room room, window_succ_back]
  simp only [RingBuffer.push, indexed.tail_eq]
  rw [window_update _ before, Function.update_self, RingBuffer.pending]

/-- **A push without room leaves nothing pending.** -/
theorem pending_push_of_full (indexed : ring.Indexed size) (full : ¬ ring.Room size) (item : α) :
    (ring.push size item).pending size = [] := by
  rw [RingBuffer.pending, indexed.backlog_push_of_full full, window_zero]

theorem pending_eq_nil_iff (indexed : ring.Indexed size) :
    ring.pending size = [] ↔ ring.head = ring.tail := by
  rw [← List.length_eq_zero_iff, RingBuffer.length_pending, indexed.backlog_eq_zero_iff]

/-- The read index takes the oldest pending item away. -/
theorem pending_eq_cons (indexed : ring.Indexed size) (nonempty : ring.head ≠ ring.tail) :
    ring.pending size = ring.slots ring.head :: (ring.advance size).pending size := by
  have positive : ring.backlog size ≠ 0 := indexed.backlog_eq_zero_iff.not.mpr nonempty
  have fewer : (ring.advance size).backlog size + 1 = ring.backlog size := by
    have head_lt := indexed.head_lt
    have tail_lt := indexed.tail_lt
    rw [indexed.advance.backlog_eq, indexed.backlog_eq]
    simp only [RingBuffer.advance_head, RingBuffer.advance_tail, succ_mod head_lt]
    split_ifs <;> omega
  rw [RingBuffer.pending, ← fewer, window_succ_front _ indexed.head_lt]
  rfl

end RingBuffer.Indexed

end CocosOS.Library.RingQueue
