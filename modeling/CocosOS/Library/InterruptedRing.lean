import CocosOS.Library.RingQueue

/-!
# Rings that interrupts write into

A ring is read by a program that an interrupt may stop between any two of its instructions, and
the interrupt may push items. The reader compares the indices, copies the item at the read index
word by word into a variable of its own, and advances the read index. What it has copied so far
belongs to the item that is still at the read index, since a push with room never reaches that
slot. So the ring is a queue to both of them (`Holds`): a push appends, the last instruction of
a read takes the first item off, and every other instruction leaves the queue as it is.
-/

set_option autoImplicit false

namespace CocosOS.Library.InterruptedRing

open Library.RingQueue

variable {α : Type*}

/-! ## Copying word by word -/

/-- The variable `target` after so many words of `item` were copied into it. -/
def copyWords (copyWord : ℕ → α → α → α) (item : α) : ℕ → α → α
  | 0, target => target
  | words + 1, target => copyWord words item (copyWords copyWord item words target)

/-- How an item is copied: after all words the variable is the item. -/
structure Copying (α : Type*) where
  words : ℕ
  copyWord : ℕ → α → α → α
  copied : ∀ item target, copyWords copyWord item words target = item

/-! ## The ring and its reader -/

/-- A ring, the variable of its reader, and how many words the reader has copied, if it is behind
the comparison of the indices. -/
structure Shared (α : Type*) where
  ring : RingBuffer α
  target : α
  copying : Option ℕ

/-- What an instruction of the reader comes to: the ring is empty, the read goes on, or the
variable has the item. -/
inductive Outcome where
  | empty
  | busy
  | taken
  deriving DecidableEq, Repr

namespace Shared

/-- A push of an interrupt. -/
def push (size : ℕ) (item : α) (shared : Shared α) : Shared α :=
  { shared with ring := shared.ring.push size item }

/-- An instruction of the reader. -/
def readStep (copying : Copying α) (size : ℕ) (shared : Shared α) : Outcome × Shared α :=
  match shared.copying with
  | none =>
    if shared.ring.head = shared.ring.tail then (.empty, shared)
    else (.busy, { shared with copying := some 0 })
  | some words =>
    if words < copying.words then
      (.busy, { shared with
        target := copying.copyWord words (shared.ring.slots shared.ring.head) shared.target
        copying := some (words + 1) })
    else (.taken, { shared with ring := shared.ring.advance size, copying := none })

@[simp] theorem push_target (size : ℕ) (item : α) (shared : Shared α) :
    (shared.push size item).target = shared.target := rfl

@[simp] theorem push_copying (size : ℕ) (item : α) (shared : Shared α) :
    (shared.push size item).copying = shared.copying := rfl

/-- The ring holds `items`, and a reader that has copied some words has copied them from the
first of these. -/
structure Holds (copying : Copying α) (size : ℕ) (shared : Shared α) (items : List α) :
    Prop where
  indexed : shared.ring.Indexed size
  pending : shared.ring.pending size = items
  copied : ∀ words ∈ shared.copying, words ≤ copying.words ∧
    shared.ring.head ≠ shared.ring.tail ∧
    ∃ before, shared.target =
      copyWords copying.copyWord (shared.ring.slots shared.ring.head) words before

variable {copying : Copying α} {size : ℕ} {shared : Shared α} {items : List α}

/-! ## The rules -/

/-- A reader between two reads of an empty ring. -/
theorem Holds.start {ring : RingBuffer α} (indexed : ring.Indexed size)
    (empty : ring.head = ring.tail) (target : α) :
    Holds copying size ⟨ring, target, none⟩ [] where
  indexed := indexed
  pending := indexed.pending_eq_nil_iff.mpr empty
  copied := fun _ copied => absurd copied (Option.not_mem_none _)

theorem Holds.room_iff (holds : Holds copying size shared items) :
    shared.ring.Room size ↔ items.length + 1 < size := by
  rw [holds.indexed.room_iff, ← holds.pending, RingBuffer.length_pending]

/-- **A push with room appends its item**, also while the reader is copying. -/
theorem Holds.push (holds : Holds copying size shared items) (room : shared.ring.Room size)
    (item : α) : Holds copying size (shared.push size item) (items ++ [item]) where
  indexed := holds.indexed.push item
  pending := by
    rw [← holds.pending]
    exact holds.indexed.pending_push_of_room room item
  copied := by
    intro words behind
    obtain ⟨bound, nonempty, before, copied⟩ := holds.copied words behind
    refine ⟨bound, Ne.symm room, before, ?_⟩
    -- The slot that is read is not the slot that is written.
    have kept : (shared.ring.push size item).slots shared.ring.head =
        shared.ring.slots shared.ring.head := Function.update_of_ne nonempty _ _
    rw [push_target, copied]
    exact congrArg (copyWords copying.copyWord · words before) kept.symm

/-- A push without room leaves nothing in the ring. -/
theorem Holds.pending_push_of_full (holds : Holds copying size shared items)
    (full : ¬ shared.ring.Room size) (item : α) :
    (shared.push size item).ring.pending size = [] :=
  holds.indexed.pending_push_of_full full item

/-- The comparison of the indices of an empty ring. -/
theorem Holds.readStep_of_empty (holds : Holds copying size shared []) :
    shared.readStep copying size = (.empty, shared) ∧ shared.copying = none := by
  have empty := holds.indexed.pending_eq_nil_iff.mp holds.pending
  have between : shared.copying = none :=
    Option.eq_none_iff_forall_not_mem.mpr fun words behind =>
      (holds.copied words behind).2.1 empty
  exact ⟨by simp [readStep, between, empty], between⟩

/-- The comparison of the indices of a ring with an item. -/
theorem Holds.readStep_of_between (holds : Holds copying size shared items)
    (nonempty : items ≠ []) (between : shared.copying = none) :
    ∃ shared', shared.readStep copying size = (.busy, shared') ∧ shared'.copying = some 0 ∧
      Holds copying size shared' items := by
  have different : shared.ring.head ≠ shared.ring.tail := fun same =>
    nonempty (holds.pending ▸ holds.indexed.pending_eq_nil_iff.mpr same)
  refine ⟨{ shared with copying := some 0 }, ?_, rfl, holds.indexed, holds.pending, ?_⟩
  · simp [readStep, between, different]
  · intro words behind
    obtain rfl := Option.mem_some.mp behind
    exact ⟨Nat.zero_le _, different, shared.target, rfl⟩

/-- The copy of a word. -/
theorem Holds.readStep_of_lt (holds : Holds copying size shared items) {words : ℕ}
    (behind : shared.copying = some words) (more : words < copying.words) :
    ∃ shared', shared.readStep copying size = (.busy, shared') ∧
      shared'.copying = some (words + 1) ∧ Holds copying size shared' items := by
  obtain ⟨-, nonempty, before, copied⟩ := holds.copied words behind
  refine ⟨{ shared with
    target := copying.copyWord words (shared.ring.slots shared.ring.head) shared.target
    copying := some (words + 1) }, ?_, rfl, holds.indexed, holds.pending, ?_⟩
  · simp [readStep, behind, more]
  · intro words' behind'
    obtain rfl := Option.mem_some.mp behind'
    exact ⟨more, nonempty, before, by rw [copied]; rfl⟩

/-- **The last instruction of a read takes the first item**, whole. -/
theorem Holds.readStep_of_all (holds : Holds copying size shared items)
    (behind : shared.copying = some copying.words) :
    ∃ shared' rest, shared.readStep copying size = (.taken, shared') ∧
      shared'.copying = none ∧ items = shared'.target :: rest ∧
      Holds copying size shared' rest := by
  obtain ⟨-, nonempty, before, copied⟩ := holds.copied _ behind
  refine ⟨{ shared with ring := shared.ring.advance size, copying := none },
    (shared.ring.advance size).pending size, ?_, rfl, ?_, holds.indexed.advance, rfl, ?_⟩
  · simp [readStep, behind]
  · rw [← holds.pending, holds.indexed.pending_eq_cons nonempty, copied, copying.copied]
  · exact fun _ copied => absurd copied (Option.not_mem_none _)

/-- Where a reader can be. -/
theorem Holds.cases (holds : Holds copying size shared items) :
    shared.copying = none ∨
      (∃ words, shared.copying = some words ∧ words < copying.words ∧ items ≠ []) ∨
      shared.copying = some copying.words ∧ items ≠ [] := by
  cases behind : shared.copying with
  | none => exact .inl rfl
  | some words =>
      obtain ⟨bound, nonempty, -⟩ := holds.copied words behind
      have some_item : items ≠ [] := fun none =>
        nonempty (holds.indexed.pending_eq_nil_iff.mp (holds.pending.trans none))
      rcases Nat.lt_or_eq_of_le bound with more | rfl
      · exact .inr (.inl ⟨words, rfl, more, some_item⟩)
      · exact .inr (.inr ⟨rfl, some_item⟩)

/-- How many instructions the reader needs for the item at the read index. -/
def readLeft (copying : Copying α) (shared : Shared α) : ℕ :=
  match shared.copying with
  | none => copying.words + 2
  | some words => copying.words + 1 - words

/-- **What an instruction of the reader does to the queue.** -/
theorem Holds.readStep (holds : Holds copying size shared items) :
    (shared.readStep copying size = (.empty, shared) ∧ shared.copying = none ∧ items = []) ∨
    (∃ shared', shared.readStep copying size = (.busy, shared') ∧ items ≠ [] ∧
      shared'.readLeft copying + 1 = shared.readLeft copying ∧
      Holds copying size shared' items) ∨
    ∃ shared' rest, shared.readStep copying size = (.taken, shared') ∧
      shared.readLeft copying = 1 ∧ shared'.copying = none ∧
      items = shared'.target :: rest ∧ Holds copying size shared' rest := by
  rcases holds.cases with between | ⟨words, behind, more, nonempty⟩ | ⟨behind, nonempty⟩
  · by_cases none : items = []
    · subst none
      obtain ⟨step, between⟩ := holds.readStep_of_empty
      exact .inl ⟨step, between, rfl⟩
    · obtain ⟨shared', step, first, holds'⟩ := holds.readStep_of_between none between
      exact .inr (.inl ⟨shared', step, none, by simp [readLeft, first, between], holds'⟩)
  · obtain ⟨shared', step, next, holds'⟩ := holds.readStep_of_lt behind more
    refine .inr (.inl ⟨shared', step, nonempty, ?_, holds'⟩)
    simp only [readLeft, next, behind]
    omega
  · obtain ⟨shared', rest, step, between, split, holds'⟩ := holds.readStep_of_all behind
    exact .inr (.inr ⟨shared', rest, step, by simp [readLeft, behind], between, split, holds'⟩)

end Shared

end CocosOS.Library.InterruptedRing
