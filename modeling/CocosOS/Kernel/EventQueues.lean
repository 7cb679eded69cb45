import CocosOS.Library.RingQueue
import Mathlib.Data.BitVec

/-!
# The event queues of the kernel

The kernel has two queues of the same kind: the event queue of `events/event.c`, whose push is
spelled `event_pust`, and the queue of `input/input.c`. Each is a ring of 64 slots with a read
and a write index and no counter; a poll finds it empty when the indices are equal, and a push
never looks whether there is room.

A run pushes and polls in any order. What polls would still return is in every state the last
`backlog` pushed events, and what polls have returned comes before it in the order of the
pushes (`event_queues_deliver_in_order`). A push keeps what is pending exactly when the write
index does not run into the read index (`event_push_keeps_iff`); the push that does empties the
queue, and with it a poll returns 0 although events are outstanding.
-/

set_option autoImplicit false

namespace CocosOS.Kernel.EventQueues

open Library.RingQueue

variable {α : Type*}

/-! ## The two queues -/

/-- `event_t`. -/
structure Event where
  type : BitVec 32
  data1 : BitVec 32
  data2 : BitVec 32
  deriving DecidableEq, Repr

/-- `input_type_t`. -/
inductive InputType where
  | inputNone
  | inputKeyboard
  | inputMouse
  deriving DecidableEq, Repr

/-- `input_event_t`. -/
structure InputEvent where
  type : InputType
  data1 : BitVec 8
  data2 : BitVec 8
  data3 : BitVec 8
  deriving DecidableEq, Repr

/-- What a poll returns, what is in the caller's variable after it, and the queue it leaves. -/
structure PollResult (α : Type*) where
  returned : ℕ
  event : α
  queue : RingBuffer α

/-- `event_init` and `input_init`: both indices at the first slot. -/
def initQueue (queue : RingBuffer α) : RingBuffer α :=
  { queue with head := 0, tail := 0 }

/-- `event_poll` and `input_poll_event` on a queue of `size` slots. The caller's variable keeps
its contents when nothing is pending. -/
def pollQueue (size : ℕ) (event : α) (queue : RingBuffer α) : PollResult α :=
  if queue.head = queue.tail then
    ⟨0, event, queue⟩
  else
    ⟨1, queue.slots queue.head, queue.advance size⟩

def EVENT_QUEUE_SIZE : ℕ := 64

def eventInit (queue : RingBuffer Event) : RingBuffer Event := initQueue queue

/-- `event_pust`. -/
def eventPust (event : Event) (queue : RingBuffer Event) : RingBuffer Event :=
  queue.push EVENT_QUEUE_SIZE event

def eventPoll (event : Event) (queue : RingBuffer Event) : PollResult Event :=
  pollQueue EVENT_QUEUE_SIZE event queue

def INPUT_QUEUE_SIZE : ℕ := 64

def inputInit (queue : RingBuffer InputEvent) : RingBuffer InputEvent := initQueue queue

def inputPushEvent (event : InputEvent) (queue : RingBuffer InputEvent) : RingBuffer InputEvent :=
  queue.push INPUT_QUEUE_SIZE event

def inputPollEvent (event : InputEvent) (queue : RingBuffer InputEvent) : PollResult InputEvent :=
  pollQueue INPUT_QUEUE_SIZE event queue

/-! ## Runs -/

/-- The three functions of a queue. -/
structure QueueFunctions (α : Type*) where
  init : RingBuffer α → RingBuffer α
  push : α → RingBuffer α → RingBuffer α
  poll : α → RingBuffer α → PollResult α

/-- The kernel event queue. -/
def eventQueue : QueueFunctions Event := ⟨eventInit, eventPust, eventPoll⟩

/-- The input queue. -/
def inputQueue : QueueFunctions InputEvent := ⟨inputInit, inputPushEvent, inputPollEvent⟩

/-- The functions of a queue of `size` slots. Both queues are of this form. -/
def queueOf (α : Type*) (size : ℕ) : QueueFunctions α :=
  ⟨initQueue, fun event queue => queue.push size event, pollQueue size⟩

/-- A call: a push, or a poll into a variable with the given contents. -/
inductive QueueCall (α : Type*) where
  | push (event : α)
  | poll (event : α)
  deriving Repr

/-- A queue with the events pushed into it and the events polls have returned. -/
structure QueueRun (α : Type*) where
  queue : RingBuffer α
  pushed : List α
  polled : List α

namespace QueueFunctions

variable (functions : QueueFunctions α)

/-- One call. -/
def step (run : QueueRun α) : QueueCall α → QueueRun α
  | .push event =>
      { run with queue := functions.push event run.queue, pushed := run.pushed ++ [event] }
  | .poll event =>
      let result := functions.poll event run.queue
      { run with
        queue := result.queue
        polled := run.polled ++ if result.returned = 1 then [result.event] else [] }

/-- The calls in order, from an initialised queue with any old contents in its slots. -/
def after (queue : RingBuffer α) (calls : List (QueueCall α)) : QueueRun α :=
  calls.foldl functions.step ⟨functions.init queue, [], []⟩

/-- What up to `polls` polls return, up to the first that returns 0. -/
def drain : ℕ → α → RingBuffer α → List α
  | 0, _, _ => []
  | polls + 1, event, queue =>
      let result := functions.poll event queue
      if result.returned = 1 then result.event :: drain polls result.event result.queue else []

/-- `events` is what polls return, in this order, before one returns 0. -/
def Pollable (queue : RingBuffer α) (events : List α) : Prop :=
  ∀ polls event, functions.drain polls event queue = events.take polls

@[simp] theorem after_nil (queue : RingBuffer α) :
    functions.after queue [] = ⟨functions.init queue, [], []⟩ := rfl

theorem after_concat (queue : RingBuffer α) (calls : List (QueueCall α)) (call : QueueCall α) :
    functions.after queue (calls ++ [call]) =
      functions.step (functions.after queue calls) call := by
  simp [after]

variable {functions}

/-- There is only one list of pollable events. -/
theorem Pollable.unique {queue : RingBuffer α} {events events' : List α}
    (pollable : functions.Pollable queue events) (pollable' : functions.Pollable queue events') :
    events = events' := by
  have drained := pollable (events.length + events'.length) (queue.slots 0)
  rw [pollable', List.take_of_length_le (by omega), List.take_of_length_le (by omega)] at drained
  exact drained.symm

end QueueFunctions

/-! ## What holds in every state -/

/-- The invariant of a run: what is pending is the end of what was pushed, and what was polled
lies before it. -/
structure QueueInv (size : ℕ) (run : QueueRun α) : Prop where
  indexed : run.queue.Indexed size
  backlog_le : run.queue.backlog size ≤ run.pushed.length
  pending : run.queue.pending size =
    run.pushed.drop (run.pushed.length - run.queue.backlog size)
  polled : run.polled.Sublist (run.pushed.take (run.pushed.length - run.queue.backlog size))

variable {size : ℕ}

theorem pollQueue_of_empty (event : α) {queue : RingBuffer α} (empty : queue.head = queue.tail) :
    pollQueue size event queue = ⟨0, event, queue⟩ :=
  if_pos empty

theorem pollQueue_of_nonempty (event : α) {queue : RingBuffer α}
    (nonempty : queue.head ≠ queue.tail) :
    pollQueue size event queue = ⟨1, queue.slots queue.head, queue.advance size⟩ :=
  if_neg nonempty

theorem pollQueue_returned_eq_zero_iff (event : α) (queue : RingBuffer α) :
    (pollQueue size event queue).returned = 0 ↔ queue.head = queue.tail := by
  by_cases empty : queue.head = queue.tail
  · simp [pollQueue_of_empty, empty]
  · simp [pollQueue_of_nonempty, empty]

/-- Polls return what is between the indices. -/
theorem pollable_pending {queue : RingBuffer α} (indexed : queue.Indexed size) :
    (queueOf α size).Pollable queue (queue.pending size) := by
  intro polls
  induction polls generalizing queue with
  | zero => exact fun _ => rfl
  | succ polls ih =>
      intro event
      by_cases empty : queue.head = queue.tail
      · rw [indexed.pending_eq_nil_iff.mpr empty, List.take_nil]
        simp [QueueFunctions.drain, queueOf, pollQueue_of_empty event empty]
      · rw [indexed.pending_eq_cons empty, List.take_succ_cons,
          ← ih indexed.advance (queue.slots queue.head)]
        simp [QueueFunctions.drain, queueOf, pollQueue_of_nonempty event empty]

theorem queueInv_init (positive : 0 < size) (queue : RingBuffer α) :
    QueueInv size ⟨initQueue queue, [], []⟩ := by
  have indexed : (initQueue queue).Indexed size := ⟨positive, positive⟩
  have none : (initQueue queue).backlog size = 0 := indexed.backlog_eq_zero_iff.mpr rfl
  refine ⟨indexed, by simp [none], ?_, List.nil_sublist _⟩
  rw [indexed.pending_eq_nil_iff.mpr rfl, List.drop_nil]

theorem step_push (run : QueueRun α) (event : α) :
    (queueOf α size).step run (.push event) =
      ⟨run.queue.push size event, run.pushed ++ [event], run.polled⟩ := rfl

theorem step_poll_of_empty {run : QueueRun α} (event : α)
    (empty : run.queue.head = run.queue.tail) :
    (queueOf α size).step run (.poll event) = run := by
  simp [QueueFunctions.step, queueOf, pollQueue_of_empty event empty]

theorem step_poll_of_nonempty {run : QueueRun α} (event : α)
    (nonempty : run.queue.head ≠ run.queue.tail) :
    (queueOf α size).step run (.poll event) =
      ⟨run.queue.advance size, run.pushed, run.polled ++ [run.queue.slots run.queue.head]⟩ := by
  simp [QueueFunctions.step, queueOf, pollQueue_of_nonempty event nonempty]

/-- **Every call keeps the invariant.** -/
theorem QueueInv.step {run : QueueRun α} (inv : QueueInv size run) (call : QueueCall α) :
    QueueInv size ((queueOf α size).step run call) := by
  have bound := inv.backlog_le
  cases call with
  | push event =>
      have indexed := inv.indexed.push event
      have earlier : run.polled.Sublist
          ((run.pushed ++ [event]).take (run.pushed.length - run.queue.backlog size)) := by
        rw [List.take_append_of_le_length (by omega)]
        exact inv.polled
      by_cases room : run.queue.Room size
      · have count := inv.indexed.backlog_push_of_room room event
        have start : (run.pushed ++ [event]).length - (run.queue.backlog size + 1) =
            run.pushed.length - run.queue.backlog size := by
          rw [List.length_append, List.length_singleton]
          omega
        rw [step_push]
        refine ⟨indexed, ?_, ?_, ?_⟩ <;> simp only [count, start]
        · rw [List.length_append, List.length_singleton]
          omega
        · rw [inv.indexed.pending_push_of_room room, inv.pending,
            List.drop_append_of_le_length (by omega)]
        · exact earlier
      · have count := inv.indexed.backlog_push_of_full room event
        rw [step_push]
        refine ⟨indexed, ?_, ?_, ?_⟩ <;> simp only [count, Nat.sub_zero]
        · exact Nat.zero_le _
        · rw [inv.indexed.pending_push_of_full room, List.drop_length]
        · rw [List.take_length]
          exact earlier.trans (List.take_sublist _ _)
  | poll event =>
      by_cases empty : run.queue.head = run.queue.tail
      · rwa [step_poll_of_empty event empty]
      · have cons := inv.indexed.pending_eq_cons empty
        have count : run.queue.backlog size = (run.queue.advance size).backlog size + 1 := by
          simpa using congrArg List.length cons
        have split : run.pushed.drop (run.pushed.length - run.queue.backlog size) =
            run.queue.slots run.queue.head :: (run.queue.advance size).pending size :=
          inv.pending.symm.trans cons
        have start : run.pushed.length - (run.queue.advance size).backlog size =
            run.pushed.length - run.queue.backlog size + 1 := by omega
        rw [step_poll_of_nonempty event empty]
        refine ⟨inv.indexed.advance, ?_, ?_, ?_⟩ <;> simp only [start]
        · omega
        · rw [← List.tail_drop, split, List.tail_cons]
        · rw [List.take_add, split, List.take_succ_cons, List.take_zero]
          exact inv.polled.append_right _

/-- **The invariant holds in every state of every run.** -/
theorem queueInv_after (positive : 0 < size) (queue : RingBuffer α) (calls : List (QueueCall α)) :
    QueueInv size ((queueOf α size).after queue calls) := by
  induction calls using List.reverseRecOn with
  | nil => exact queueInv_init positive queue
  | append_singleton calls call ih =>
      rw [QueueFunctions.after_concat]
      exact ih.step call

/-! ## Order -/

/-- In the state of a run the pollable events are the last pushed ones, as many as the indices
tell, and they continue what was polled as a subsequence of the pushes. -/
structure DeliversInOrder (size : ℕ) (functions : QueueFunctions α) (run : QueueRun α) :
    Prop where
  backlog_le : run.queue.backlog size ≤ run.pushed.length
  pollable : functions.Pollable run.queue
    (run.pushed.drop (run.pushed.length - run.queue.backlog size))
  once : (run.polled ++ run.pushed.drop (run.pushed.length - run.queue.backlog size)).Sublist
    run.pushed

theorem QueueInv.deliversInOrder {run : QueueRun α} (inv : QueueInv size run) :
    DeliversInOrder size (queueOf α size) run where
  backlog_le := inv.backlog_le
  pollable := inv.pending ▸ pollable_pending inv.indexed
  once := by
    have split := inv.polled.append_right
      (run.pushed.drop (run.pushed.length - run.queue.backlog size))
    rwa [List.take_append_drop] at split

/-- **The queues never duplicate or reorder.** In every state of every run of pushes and polls,
also with more unpolled pushes than slots, the pollable events of either queue are exactly the
last `(tail - head) mod 64` pushed events in the order of the pushes, and the polled events
followed by them are a subsequence of the pushes. -/
theorem event_queues_deliver_in_order :
    (∀ (queue : RingBuffer Event) (calls : List (QueueCall Event)),
      DeliversInOrder EVENT_QUEUE_SIZE eventQueue (eventQueue.after queue calls)) ∧
    (∀ (queue : RingBuffer InputEvent) (calls : List (QueueCall InputEvent)),
      DeliversInOrder INPUT_QUEUE_SIZE inputQueue (inputQueue.after queue calls)) :=
  ⟨fun queue calls => (queueInv_after (by decide) queue calls).deliversInOrder,
    fun queue calls => (queueInv_after (by decide) queue calls).deliversInOrder⟩

/-! ## What a push throws away -/

/-- A push keeps what is pending, up to the capacity, and makes the new event pollable. -/
def PushKeeps (size : ℕ) (functions : QueueFunctions α) (queue : RingBuffer α) (event : α) :
    Prop :=
  ∃ before after, functions.Pollable queue before ∧
    functions.Pollable (functions.push event queue) after ∧
    min (before.length + 1) (size - 1) ≤ after.length ∧ event ∈ after

/-- What a call leaves of the outstanding events in a queue that displaces the oldest event
when it holds `capacity` of them. -/
def outstandingStep (capacity : ℕ) (outstanding : List α) : QueueCall α → List α
  | .push event => (outstanding ++ [event]).drop (outstanding.length + 1 - capacity)
  | .poll _ => outstanding.tail

/-- The events that calls have pushed and neither returned nor displaced by newer ones beyond
the capacity. -/
def outstanding (capacity : ℕ) (calls : List (QueueCall α)) : List α :=
  calls.foldl (outstandingStep capacity) []

/-- A poll returns 0 only when no event is outstanding. -/
def EmptyOnlyWhenDone (functions : QueueFunctions α) (run : QueueRun α) (outstanding : List α) :
    Prop :=
  ∀ event, (functions.poll event run.queue).returned = 0 → outstanding = []

/-- Every push of the calls finds room. -/
def RoomForPushes (size : ℕ) (functions : QueueFunctions α) (queue : RingBuffer α)
    (calls : List (QueueCall α)) : Prop :=
  ∀ before event, before ++ [.push event] <+: calls → (functions.after queue before).queue.Room size

theorem outstanding_concat (capacity : ℕ) (calls : List (QueueCall α)) (call : QueueCall α) :
    outstanding capacity (calls ++ [call]) =
      outstandingStep capacity (outstanding capacity calls) call := by
  simp [outstanding]

theorem pushKeeps_iff {queue : RingBuffer α} (indexed : queue.Indexed size) (event : α) :
    PushKeeps size (queueOf α size) queue event ↔ queue.Room size := by
  have pollable := pollable_pending indexed
  have pollable' := pollable_pending (indexed.push event)
  constructor
  · rintro ⟨before, after, isBefore, isAfter, many, member⟩
    by_contra full
    rw [indexed.pending_push_of_full full] at pollable'
    rw [isAfter.unique pollable'] at member
    exact List.not_mem_nil member
  · intro room
    rw [indexed.pending_push_of_room room] at pollable'
    exact ⟨_, _, pollable, pollable', by simp, by simp⟩

/-- While every push finds room, what is pending is what is outstanding. -/
theorem pending_eq_outstanding (positive : 0 < size) {queue : RingBuffer α}
    {calls : List (QueueCall α)} (room : RoomForPushes size (queueOf α size) queue calls) :
    ((queueOf α size).after queue calls).queue.pending size = outstanding (size - 1) calls := by
  induction calls using List.reverseRecOn with
  | nil => exact (queueInv_init positive queue).pending
  | append_singleton calls call ih =>
      have same := ih fun before event prior =>
        room before event (prior.trans (List.prefix_append _ _))
      have indexed := (queueInv_after positive queue calls).indexed
      have before := indexed.backlog_lt
      rw [QueueFunctions.after_concat, outstanding_concat, ← same]
      cases call with
      | push event =>
          have here := room calls event List.prefix_rfl
          have fewer := indexed.room_iff.mp here
          have none : (((queueOf α size).after queue calls).queue.pending size).length + 1 -
              (size - 1) = 0 := by
            rw [RingBuffer.length_pending]
            omega
          rw [step_push, indexed.pending_push_of_room here, outstandingStep, none, List.drop_zero]
      | poll event =>
          by_cases empty : ((queueOf α size).after queue calls).queue.head =
              ((queueOf α size).after queue calls).queue.tail
          · rw [step_poll_of_empty event empty, indexed.pending_eq_nil_iff.mpr empty]
            rfl
          · rw [step_poll_of_nonempty event empty, indexed.pending_eq_cons empty]
            rfl

/-- A run whose polls return 0 only when nothing is outstanding is one whose pushes all find
room. -/
theorem emptyOnlyWhenDone_iff (large : 1 < size) (queue : RingBuffer α)
    (calls : List (QueueCall α)) :
    (∀ before, before <+: calls → EmptyOnlyWhenDone (queueOf α size)
      ((queueOf α size).after queue before) (outstanding (size - 1) before)) ↔
    RoomForPushes size (queueOf α size) queue calls := by
  constructor
  · intro done
    induction calls using List.reverseRecOn with
    | nil =>
        intro before event prior
        simp at prior
    | append_singleton calls call ih =>
        have room := ih fun before prior => done before (prior.trans (List.prefix_append _ _))
        intro before event prior
        rcases List.prefix_concat_iff.mp prior with last | earlier
        · obtain ⟨rfl, same⟩ := List.append_inj' last rfl
          obtain rfl : .push event = call := by simpa using same
          by_contra full
          have inv := queueInv_after (Nat.zero_lt_of_lt large) queue before
          have indexed := inv.indexed
          -- The push that meets the read index empties the queue.
          have emptied := done (before ++ [.push event]) List.prefix_rfl event (by
            rw [QueueFunctions.after_concat, step_push]
            exact (pollQueue_returned_eq_zero_iff event _).mpr (not_not.mp full).symm)
          have none := congrArg List.length emptied
          rw [outstanding_concat, ← pending_eq_outstanding (Nat.zero_lt_of_lt large) room,
            outstandingStep, List.length_drop, List.length_append] at none
          simp only [List.length_singleton, List.length_nil] at none
          omega
        · exact room before event earlier
  · intro room before prior event returned
    have positive := Nat.zero_lt_of_lt large
    have inv := queueInv_after positive queue before
    have empty := (pollQueue_returned_eq_zero_iff event _).mp returned
    rw [← pending_eq_outstanding positive fun earlier event sooner =>
      room earlier event (sooner.trans prior)]
    exact inv.indexed.pending_eq_nil_iff.mpr empty

/-- **A push keeps what is pending exactly when it finds room.** In every reachable state of
either queue, a push leaves `min (m + 1) 63` events or more pollable, the new one among them, if
and only if the write index does not run into the read index; and the polls of a run return 0
only when no event is outstanding if and only if all its pushes find room. -/
theorem event_push_keeps_iff (queue : RingBuffer Event) (calls : List (QueueCall Event))
    (event : Event) (input : RingBuffer InputEvent) (inputCalls : List (QueueCall InputEvent))
    (inputEvent : InputEvent) :
    ((PushKeeps EVENT_QUEUE_SIZE eventQueue (eventQueue.after queue calls).queue event ↔
        (eventQueue.after queue calls).queue.Room EVENT_QUEUE_SIZE) ∧
      ((∀ before, before <+: calls → EmptyOnlyWhenDone eventQueue
          (eventQueue.after queue before) (outstanding (EVENT_QUEUE_SIZE - 1) before)) ↔
        RoomForPushes EVENT_QUEUE_SIZE eventQueue queue calls)) ∧
    ((PushKeeps INPUT_QUEUE_SIZE inputQueue (inputQueue.after input inputCalls).queue inputEvent ↔
        (inputQueue.after input inputCalls).queue.Room INPUT_QUEUE_SIZE) ∧
      ((∀ before, before <+: inputCalls → EmptyOnlyWhenDone inputQueue
          (inputQueue.after input before) (outstanding (INPUT_QUEUE_SIZE - 1) before)) ↔
        RoomForPushes INPUT_QUEUE_SIZE inputQueue input inputCalls)) := by
  refine ⟨⟨?_, ?_⟩, ?_, ?_⟩
  · exact pushKeeps_iff (queueInv_after (by decide) queue calls).indexed event
  · exact emptyOnlyWhenDone_iff (by decide) queue calls
  · exact pushKeeps_iff (queueInv_after (by decide) input inputCalls).indexed inputEvent
  · exact emptyOnlyWhenDone_iff (by decide) input inputCalls

/-- After 63 timer events that nobody polls, the next one empties the queue: nothing is
pollable, not even itself. -/
theorem event_push_loses_pending :
    ¬ ∀ (queue : RingBuffer Event) (calls : List (QueueCall Event)) (event : Event),
      PushKeeps EVENT_QUEUE_SIZE eventQueue (eventQueue.after queue calls).queue event := by
  intro keeps
  let zeroed : RingBuffer Event := ⟨fun _ => ⟨0, 0, 0⟩, 0, 0⟩
  let timers : List (QueueCall Event) := List.replicate 63 (.push ⟨3, 1, 0⟩)
  have indexed := (queueInv_after (by decide : 0 < EVENT_QUEUE_SIZE) zeroed timers).indexed
  have room := (pushKeeps_iff indexed ⟨3, 64, 0⟩).mp (keeps zeroed timers ⟨3, 64, 0⟩)
  exact absurd room (by decide +kernel)

end CocosOS.Kernel.EventQueues
