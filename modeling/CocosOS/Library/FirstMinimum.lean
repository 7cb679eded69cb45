import Mathlib.Data.List.Basic
import Mathlib.Order.Lattice
import Mathlib.Tactic.Common

/-!
# The first minimum of a list

A loop that walks a list and keeps the best item so far, replacing it only by a strictly better
one, ends with the first of the eligible items whose rank is lowest (`IsFirstMinimum.scan`), or
with what it started from if no eligible item has a rank below the initial one (`scan_of_none`).
There is a first minimum as soon as some item is eligible (`exists_isFirstMinimum`), and an eligible
item is it unless another one comes before it (`not_isFirstMinimum_iff`).
-/

set_option autoImplicit false

namespace CocosOS.Library.FirstMinimum

variable {α β : Type*} [LinearOrder β] {eligible : α → Prop} {rank : α → β}

/-! ## First minima -/

/-- The first of the eligible items of lowest rank. -/
def IsFirstMinimum (eligible : α → Prop) (rank : α → β) (items : List α) (item : α) : Prop :=
  eligible item ∧ ∃ front back, items = front ++ item :: back ∧
    (∀ other ∈ front, eligible other → rank item < rank other) ∧
    (∀ other ∈ back, eligible other → rank item ≤ rank other)

namespace IsFirstMinimum

variable {items : List α} {item : α}

theorem mem (first : IsFirstMinimum eligible rank items item) : item ∈ items := by
  obtain ⟨_, _, _, rfl, _, _⟩ := first
  exact List.mem_append_right _ List.mem_cons_self

theorem le (first : IsFirstMinimum eligible rank items item) {other : α} (member : other ∈ items)
    (isEligible : eligible other) : rank item ≤ rank other := by
  obtain ⟨_, front, back, rfl, ahead, behind⟩ := first
  rcases List.mem_append.mp member with inFront | inRest
  · exact le_of_lt (ahead other inFront isEligible)
  · rcases List.mem_cons.mp inRest with rfl | inBack
    · exact le_rfl
    · exact behind other inBack isEligible

/-- An eligible item is the first minimum if no other comes before it, in rank or, among items of
the same rank, in the list. -/
theorem of_forall [DecidableEq α] (member : item ∈ items) (isEligible : eligible item)
    (least : ∀ other ∈ items, eligible other → rank item ≤ rank other)
    (ahead : ∀ other ∈ items, eligible other → rank other = rank item →
      items.idxOf item ≤ items.idxOf other) : IsFirstMinimum eligible rank items item := by
  obtain ⟨front, back, rfl, outside⟩ := List.eq_append_cons_of_mem member
  refine ⟨isEligible, front, back, rfl, fun other inFront more => ?_, fun other inBack more => ?_⟩
  · have listed : other ∈ front ++ item :: back := List.mem_append_left _ inFront
    refine lt_of_le_of_ne (least other listed more) fun same => ?_
    have later := ahead other listed more same.symm
    rw [List.idxOf_append_of_notMem outside, List.idxOf_append_of_mem inFront,
      List.idxOf_cons_self] at later
    exact absurd (List.idxOf_lt_length_iff.mpr inFront) (not_lt.mpr later)
  · exact least other (List.mem_append_right _ (List.mem_cons_of_mem _ inBack)) more

theorem idxOf_le [DecidableEq α] (first : IsFirstMinimum eligible rank items item) {other : α}
    (isEligible : eligible other) (same : rank other = rank item) :
    items.idxOf item ≤ items.idxOf other := by
  obtain ⟨here, front, back, rfl, ahead, _⟩ := first
  have outside : ∀ {more : α}, eligible more → rank more = rank item → more ∉ front :=
    fun more equal inFront => (ahead _ inFront more).ne equal.symm
  rw [List.idxOf_append_of_notMem (outside here rfl),
    List.idxOf_append_of_notMem (outside isEligible same), List.idxOf_cons_self]
  exact Nat.le_add_right _ _

end IsFirstMinimum

/-- **An eligible item is not the first minimum exactly if another comes before it:** one of lower
rank, or one of the same rank and further ahead in the list. -/
theorem not_isFirstMinimum_iff [DecidableEq α] {items : List α} {item : α} (member : item ∈ items)
    (isEligible : eligible item) :
    ¬ IsFirstMinimum eligible rank items item ↔
      ∃ other ∈ items, eligible other ∧ (rank other < rank item ∨
        rank other = rank item ∧ items.idxOf other < items.idxOf item) := by
  constructor
  · intro notFirst
    by_contra none
    refine notFirst (.of_forall member isEligible (fun other listed more => ?_)
      fun other listed more same => ?_)
    · exact not_lt.mp fun lower => none ⟨other, listed, more, .inl lower⟩
    · exact not_lt.mp fun earlier => none ⟨other, listed, more, .inr ⟨same, earlier⟩⟩
  · rintro ⟨other, listed, more, lower | ⟨same, earlier⟩⟩ first
    · exact not_lt.mpr (first.le listed more) lower
    · exact not_lt.mpr (first.idxOf_le more same) earlier

/-- **Some item is the first minimum if any is eligible.** -/
theorem exists_isFirstMinimum {items : List α} (some : ∃ item ∈ items, eligible item) :
    ∃ item, IsFirstMinimum eligible rank items item := by
  induction items with
  | nil =>
      obtain ⟨_, member, _⟩ := some
      exact absurd member List.not_mem_nil
  | cons item items ih =>
      by_cases later : ∃ other ∈ items, eligible other
      · obtain ⟨best, isEligible, front, back, rfl, ahead, behind⟩ := ih later
        by_cases here : eligible item ∧ rank item ≤ rank best
        · refine ⟨item, here.1, [], _, rfl, List.forall_mem_nil _, fun other member more => ?_⟩
          rcases List.mem_append.mp member with inFront | inRest
          · exact le_trans here.2 (le_of_lt (ahead other inFront more))
          · rcases List.mem_cons.mp inRest with rfl | inBack
            · exact here.2
            · exact le_trans here.2 (behind other inBack more)
        · refine ⟨best, isEligible, item :: front, back, rfl, ?_, behind⟩
          refine List.forall_mem_cons.mpr ⟨fun more => ?_, ahead⟩
          exact not_le.mp fun le => here ⟨more, le⟩
      · obtain ⟨other, member, isEligible⟩ := some
        have isHere : other = item := by
          rcases List.mem_cons.mp member with same | inRest
          · exact same
          · exact absurd ⟨other, inRest, isEligible⟩ later
        refine ⟨item, isHere ▸ isEligible, [], items, rfl, List.forall_mem_nil _, ?_⟩
        exact fun other member more => absurd ⟨other, member, more⟩ later

/-! ## The loop -/

variable [DecidablePred eligible]

/-- One round of the loop, with the best item so far and its rank. -/
def scanRound (eligible : α → Prop) [DecidablePred eligible] (rank : α → β) (best : α × β)
    (item : α) : α × β :=
  if eligible item ∧ rank item < best.2 then (item, rank item) else best

/-- The loop over a list. -/
def scan (eligible : α → Prop) [DecidablePred eligible] (rank : α → β) (best : α × β)
    (items : List α) : α × β :=
  items.foldl (scanRound eligible rank) best

@[simp] theorem scan_nil (best : α × β) : scan eligible rank best [] = best := rfl

@[simp] theorem scan_cons (best : α × β) (item : α) (items : List α) :
    scan eligible rank best (item :: items) =
      scan eligible rank (scanRound eligible rank best item) items := rfl

/-- Without an eligible item below the initial rank the loop ends as it began. -/
theorem scan_of_none {items : List α} {best : α × β}
    (none : ∀ item ∈ items, eligible item → best.2 ≤ rank item) :
    scan eligible rank best items = best := by
  induction items with
  | nil => rfl
  | cons item items ih =>
      have here : scanRound eligible rank best item = best := by
        refine if_neg fun better => ?_
        exact not_lt.mpr (none item List.mem_cons_self better.1) better.2
      rw [scan_cons, here]
      exact ih fun other member => none other (List.mem_cons_of_mem _ member)

/-- Over items above a rank, the best rank stays above it. -/
theorem lt_scan {items : List α} {bound : β} {best : α × β} (below : bound < best.2)
    (above : ∀ item ∈ items, eligible item → bound < rank item) :
    bound < (scan eligible rank best items).2 := by
  induction items generalizing best with
  | nil => exact below
  | cons item items ih =>
      rw [scan_cons]
      refine ih ?_ fun other member => above other (List.mem_cons_of_mem _ member)
      rw [scanRound]
      split_ifs with better
      · exact above item List.mem_cons_self better.1
      · exact below

/-- **The loop ends with the first minimum.** -/
theorem IsFirstMinimum.scan {items : List α} {item : α}
    (first : IsFirstMinimum eligible rank items item) {best : α × β}
    (below : rank item < best.2) :
    FirstMinimum.scan eligible rank best items = (item, rank item) := by
  obtain ⟨isEligible, front, back, rfl, ahead, behind⟩ := first
  have still := lt_scan below ahead
  have here : scanRound eligible rank (FirstMinimum.scan eligible rank best front) item =
      (item, rank item) := if_pos ⟨isEligible, still⟩
  rw [FirstMinimum.scan, List.foldl_append, List.foldl_cons]
  change FirstMinimum.scan eligible rank (scanRound eligible rank
    (FirstMinimum.scan eligible rank best front) item) back = _
  rw [here]
  exact scan_of_none behind

end CocosOS.Library.FirstMinimum
