import CocosOS.Kernel.Drivers.Console
import CocosOS.Kernel.Drivers.Mouse
import CocosOS.Kernel.EventQueues
import CocosOS.Library.InterruptedRing
import CocosOS.ProcessManager.WakeUp

/-!
# Events from the interrupts to the loop of the kernel

The handlers of the keyboard, the mouse and the timer push events, and the loop of
`kernel_run_userspace` polls them, passes them on, reads the keyboard a second time and halts
until the next interrupt. An interrupt may come before any instruction of the loop: inside of
`event_poll`, between the poll that returned 0 and the `hlt`, and while the processor is halted.

What the loop has handled, the event it holds and what is in the queue are together the events
raised so far, in order, exactly as long as no interrupt comes with 63 events in the queue
(`events_in_order_iff`). So the terminal gets the scancodes of the keyboard, each once and in
order, and timer events come with consecutive numbers (`terminal_gets_scancodes`).

The loop does not look into the queue between a poll that returns 0 and the `hlt`. It sleeps on
the events that come there: without a further interrupt they are never handled
(`loop_catches_up_iff`).
-/

set_option autoImplicit false

namespace CocosOS.Kernel.EventPipeline

open Drivers.Console EventQueues Library.ByteMemory Library.InterruptedRing Library.RingQueue
open ProcessManager

/-! ## The handlers -/

def EVENT_KEY : Word := 1
def EVENT_MOUSE : Word := 2
def EVENT_TIMER : Word := 3

/-- An interrupt, with what its handler is given and what it finds in the fields that it does not
set, or in the variables of the mouse. -/
inductive Interrupt where
  | keyboard (scancode unset2 unset3 : Byte)
  | mouse (statics : Drivers.Mouse.MouseState) (buttons dx dy : Byte)
  | timer (unset2 : Word)

/-- The event that the handler pushes, with the counter of the ticks before it. -/
def Interrupt.event (ticks : Word) : Interrupt → Event
  | .keyboard scancode _ _ => ⟨EVENT_KEY, scancode.setWidth 32, 0⟩
  | .mouse statics _ _ _ => ⟨EVENT_MOUSE, statics.mouseX, statics.mouseY⟩
  | .timer unset2 => ⟨EVENT_TIMER, timerTick ticks, unset2⟩

/-- The input event that the handler pushes. -/
def Interrupt.inputEvent : Interrupt → Option InputEvent
  | .keyboard scancode unset2 unset3 => some ⟨.inputKeyboard, scancode, unset2, unset3⟩
  | .mouse _ buttons dx dy => some ⟨.inputMouse, buttons, dx, dy⟩
  | .timer _ => none

/-- The counter after the handler. -/
def Interrupt.ticksAfter (ticks : Word) : Interrupt → Word
  | .timer _ => timerTick ticks
  | _ => ticks

/-! ## The loop -/

/-- `*event = queue[head]`: an event has three words. -/
def copyEvent : Copying Event where
  words := 3
  copyWord := fun word item target => match word with
    | 0 => { target with type := item.type }
    | 1 => { target with data1 := item.data1 }
    | _ => { target with data2 := item.data2 }
  copied := fun _ _ => rfl

/-- Where the loop of `kernel_run_userspace` is: in `event_poll`, at the `switch`, at the call of
`keyboard_read`, at the call of `display_write_char`, before the `hlt` and in it. -/
inductive LoopPoint where
  | poll
  | switch
  | readKeyboard
  | writeChar (c : Byte)
  | hlt
  | halted
  deriving DecidableEq, Repr

/-- A call of the loop. -/
inductive LoopCall where
  | terminalHandleKey (data1 : Word)
  | mouseHandle (data2 : Word)
  | displayWriteChar (c : Byte) (pos : Word)
  deriving DecidableEq, Repr

/-- The queues, the counter of the ticks, the loop with its variable, the events that it has
handled, and its calls. -/
structure Pipeline where
  point : LoopPoint
  events : Shared Event
  input : RingBuffer InputEvent
  ticks : Word
  handled : List Event
  calls : List LoopCall

/-- The `switch`. The first argument of `mouse_handle` is a field that an event does not have. -/
def switchEvent (event : Event) : List LoopCall :=
  if event.type = EVENT_KEY then [.terminalHandleKey event.data1]
  else if event.type = EVENT_MOUSE then [.mouseHandle event.data2]
  else []

/-- A handler runs with interrupts off. It returns to the loop, behind the `hlt` if that is where
the interrupt came. -/
def Pipeline.interrupt (pipeline : Pipeline) (interrupt : Interrupt) : Pipeline :=
  { pipeline with
    point := if pipeline.point = .halted then .poll else pipeline.point
    events := pipeline.events.push EVENT_QUEUE_SIZE (interrupt.event pipeline.ticks)
    input := interrupt.inputEvent.elim pipeline.input (inputPushEvent · pipeline.input)
    ticks := interrupt.ticksAfter pipeline.ticks }

/-- An instruction of the loop, with the scancode that the port of the keyboard would deliver. -/
def Pipeline.loop (pipeline : Pipeline) (scancode : Byte) : Pipeline :=
  match pipeline.point with
  | .poll =>
    let (outcome, events) := pipeline.events.readStep copyEvent EVENT_QUEUE_SIZE
    let pipeline := { pipeline with events := events }
    match outcome with
    | .empty => { pipeline with point := .readKeyboard }
    | .busy => pipeline
    | .taken => { pipeline with point := .switch }
  | .switch =>
    { pipeline with
      point := .poll
      handled := pipeline.handled ++ [pipeline.events.target]
      calls := pipeline.calls ++ switchEvent pipeline.events.target }
  | .readKeyboard =>
    let c := keyboardRead scancode
    if c ≠ 0 then { pipeline with point := .writeChar c } else { pipeline with point := .hlt }
  | .writeChar c =>
    { pipeline with point := .hlt, calls := pipeline.calls ++ [.displayWriteChar c 0] }
  | .hlt => { pipeline with point := .halted }
  | .halted => pipeline

/-- What comes next: an interrupt, or an instruction of the loop. -/
inductive Step where
  | interrupt (interrupt : Interrupt)
  | loop (scancode : Byte)

def Pipeline.step (pipeline : Pipeline) : Step → Pipeline
  | .interrupt interrupt => pipeline.interrupt interrupt
  | .loop scancode => pipeline.loop scancode

/-- The loop before its first poll, the queues after `event_init` and `input_init`. The variable
and the slots have any contents. -/
def entered (ticks : Word) (target : Event) (events : RingBuffer Event)
    (input : RingBuffer InputEvent) : Pipeline :=
  ⟨.poll, ⟨eventInit events, target, none⟩, inputInit input, ticks, [], []⟩

def Pipeline.after (pipeline : Pipeline) (steps : List Step) : Pipeline :=
  steps.foldl Pipeline.step pipeline

/-- The events that handlers have pushed, with the counter of the ticks at the start. -/
def raised : Word → List Step → List Event
  | _, [] => []
  | ticks, .loop _ :: steps => raised ticks steps
  | ticks, .interrupt interrupt :: steps =>
    interrupt.event ticks :: raised (interrupt.ticksAfter ticks) steps

/-- The event that the loop has taken out of the queue and not passed on. -/
def Pipeline.inHand (pipeline : Pipeline) : List Event :=
  if pipeline.point = .switch then [pipeline.events.target] else []

/-- What is in the queue. -/
def Pipeline.queued (pipeline : Pipeline) : List Event :=
  pipeline.events.ring.pending EVENT_QUEUE_SIZE

/-- Nothing is lost, twice there or out of order, with `raised` raised so far. -/
def Pipeline.InOrder (pipeline : Pipeline) (raised : List Event) : Prop :=
  pipeline.handled ++ pipeline.inHand ++ pipeline.queued = raised

/-! ## What a step does -/

section Steps

variable {pipeline : Pipeline} {items : List Event}

/-- The queue holds `items`, and a loop that is not in a poll has not copied anything. -/
structure Pipeline.Holds (pipeline : Pipeline) (items : List Event) : Prop where
  queue : pipeline.events.Holds copyEvent EVENT_QUEUE_SIZE items
  between : pipeline.point ≠ .poll → pipeline.events.copying = none

theorem Pipeline.Holds.queued (holds : pipeline.Holds items) : pipeline.queued = items :=
  holds.queue.pending

theorem holds_entered (ticks : Word) (target : Event) (events : RingBuffer Event)
    (input : RingBuffer InputEvent) : (entered ticks target events input).Holds [] where
  queue := .start ⟨Nat.zero_lt_succ 63, Nat.zero_lt_succ 63⟩ rfl target
  between := fun _ => rfl

@[simp] theorem inHand_interrupt (interrupt : Interrupt) :
    (pipeline.interrupt interrupt).inHand = pipeline.inHand := by
  by_cases halted : pipeline.point = .halted
  · simp [Pipeline.inHand, Pipeline.interrupt, halted]
  · simp [Pipeline.inHand, Pipeline.interrupt, halted]

/-- An interrupt with room appends its event. -/
theorem Pipeline.Holds.interrupt (holds : pipeline.Holds items) (room : items.length < 63)
    (interrupt : Interrupt) :
    (pipeline.interrupt interrupt).Holds (items ++ [interrupt.event pipeline.ticks]) where
  queue := by
    refine holds.queue.push (holds.queue.room_iff.mpr ?_) _
    exact Nat.succ_lt_succ room
  between := by
    intro outside
    by_cases halted : pipeline.point = .halted
    · exact absurd (if_pos halted) outside
    · refine holds.between fun inside => outside ?_
      exact (if_neg halted).trans inside

/-- Whether the loop looks into the queue before it halts. -/
def LoopPoint.Awake : LoopPoint → Prop
  | .poll | .switch => True
  | _ => False

instance : DecidablePred LoopPoint.Awake := fun point => by
  cases point <;> unfold LoopPoint.Awake <;> infer_instance

/-- How many instructions the loop has before it halts, at most, with so many events queued. -/
def Pipeline.work (pipeline : Pipeline) (queued : ℕ) : ℕ :=
  match pipeline.point with
  | .poll => if queued = 0 then 4 else 6 * (queued - 1) + pipeline.events.readLeft copyEvent + 5
  | .switch => 6 * queued + 5
  | .readKeyboard => 3
  | .writeChar _ => 2
  | .hlt => 1
  | .halted => 0

/-- The loop leaves the counter and the input queue alone. -/
theorem loop_unchanged (pipeline : Pipeline) (scancode : Byte) :
    (pipeline.loop scancode).ticks = pipeline.ticks ∧
      (pipeline.loop scancode).input = pipeline.input := by
  cases point : pipeline.point with
  | poll =>
      simp only [Pipeline.loop, point]
      cases (pipeline.events.readStep copyEvent EVENT_QUEUE_SIZE).1 with
      | empty => exact ⟨rfl, rfl⟩
      | busy => exact ⟨rfl, rfl⟩
      | taken => exact ⟨rfl, rfl⟩
  | readKeyboard =>
      simp only [Pipeline.loop, point]
      split_ifs
      · exact ⟨rfl, rfl⟩
      · exact ⟨rfl, rfl⟩
  | _ => simp [Pipeline.loop, point]

/-- What so many instructions of the loop do to a queue with `items`, of which they leave `rest`.
They keep the order of what is handled, in hand and queued, and the loop comes closer to the `hlt`.
It is no longer awake only when it has found the queue empty. -/
structure Advances (count : ℕ) (pipeline pipeline' : Pipeline) (items rest : List Event) :
    Prop where
  holds : pipeline'.Holds rest
  same : pipeline'.handled ++ pipeline'.inHand ++ rest =
    pipeline.handled ++ pipeline.inHand ++ items
  work_le : pipeline'.work rest.length ≤ pipeline.work items.length - count
  awake : pipeline'.point.Awake → pipeline.point.Awake
  empty : pipeline.point.Awake → ¬ pipeline'.point.Awake → rest = []
  asleep : ¬ pipeline.point.Awake → rest = items

/-- An instruction of `event_poll`. -/
theorem Pipeline.Holds.loop_poll (holds : pipeline.Holds items) (inside : pipeline.point = .poll)
    (scancode : Byte) : ∃ rest, Advances 1 pipeline (pipeline.loop scancode) items rest := by
  rcases holds.queue.readStep with ⟨step, between, none⟩ | ⟨events, step, nonempty, left, queue⟩ |
    ⟨events, rest, step, left, between, split, queue⟩
  · have looped : pipeline.loop scancode = { pipeline with point := .readKeyboard } := by
      simp only [Pipeline.loop, inside, step]
    subst none
    refine ⟨[], ?_⟩
    rw [looped]
    constructor
    · exact ⟨holds.queue, fun _ => between⟩
    · simp [Pipeline.inHand, inside]
    · simp [Pipeline.work, inside]
    · simp [LoopPoint.Awake]
    · simp
    · simp
  · have looped : pipeline.loop scancode = { pipeline with events := events } := by
      simp only [Pipeline.loop, inside, step]
    refine ⟨items, ?_⟩
    rw [looped]
    have some : items.length ≠ 0 := by simpa using nonempty
    constructor
    · exact ⟨queue, fun outside => absurd inside outside⟩
    · simp [Pipeline.inHand, inside]
    · simp only [Pipeline.work, inside, if_neg some]
      omega
    · exact id
    · exact fun awake asleep => absurd awake asleep
    · exact fun _ => rfl
  · have looped : pipeline.loop scancode =
        { pipeline with point := .switch, events := events } := by
      simp only [Pipeline.loop, inside, step]
    refine ⟨rest, ?_⟩
    rw [looped]
    constructor
    · exact ⟨queue, fun _ => between⟩
    · simp [Pipeline.inHand, inside, split]
    · simp [Pipeline.work, inside, split, left]
    · simp [LoopPoint.Awake, inside]
    · simp [LoopPoint.Awake]
    · simp [LoopPoint.Awake, inside]

/-- The `switch` passes the event in hand on. -/
theorem Pipeline.Holds.loop_switch (holds : pipeline.Holds items)
    (inside : pipeline.point = .switch) (scancode : Byte) :
    Advances 1 pipeline (pipeline.loop scancode) items items := by
  have between : pipeline.events.copying = none := holds.between (by simp [inside])
  simp only [Pipeline.loop, inside]
  constructor
  · exact ⟨holds.queue, fun _ => between⟩
  · simp [Pipeline.inHand, inside]
  · simp only [Pipeline.work, Shared.readLeft, inside, between, copyEvent]
    split_ifs <;> omega
  · simp [LoopPoint.Awake, inside]
  · simp [LoopPoint.Awake]
  · exact fun _ => rfl

/-- Behind the poll that returned 0 an instruction only moves the loop, closer to the `hlt`. -/
theorem Pipeline.Holds.moves (holds : pipeline.Holds items) (asleep : ¬ pipeline.point.Awake)
    {point : LoopPoint} (asleep' : ¬ point.Awake) (calls : List LoopCall)
    (closer : ({ pipeline with point := point, calls := calls } : Pipeline).work items.length ≤
      pipeline.work items.length - 1) :
    Advances 1 pipeline { pipeline with point := point, calls := calls } items items where
  holds := ⟨holds.queue, fun _ => holds.between fun inside => asleep (inside ▸ trivial)⟩
  same := by
    have outside : pipeline.point ≠ .switch := fun inside => asleep (inside ▸ trivial)
    have outside' : point ≠ .switch := fun inside => asleep' (inside ▸ trivial)
    simp [Pipeline.inHand, outside, outside']
  work_le := closer
  awake := fun awake => absurd awake asleep'
  empty := fun awake => absurd awake asleep
  asleep := fun _ => rfl

/-- **An instruction of the loop advances it**, wherever the loop is. -/
theorem Pipeline.Holds.loop (holds : pipeline.Holds items) (scancode : Byte) :
    ∃ rest, Advances 1 pipeline (pipeline.loop scancode) items rest := by
  cases point : pipeline.point with
  | poll => exact holds.loop_poll point scancode
  | switch => exact ⟨items, holds.loop_switch point scancode⟩
  | readKeyboard =>
      have asleep : ¬ pipeline.point.Awake := by simp [LoopPoint.Awake, point]
      refine ⟨items, ?_⟩
      by_cases c : keyboardRead scancode ≠ 0
      · simp only [Pipeline.loop, point, if_pos c]
        exact holds.moves asleep (by simp [LoopPoint.Awake]) pipeline.calls
          (by simp [Pipeline.work, point])
      · simp only [Pipeline.loop, point, if_neg c]
        exact holds.moves asleep (by simp [LoopPoint.Awake]) pipeline.calls
          (by simp [Pipeline.work, point])
  | writeChar c =>
      have asleep : ¬ pipeline.point.Awake := by simp [LoopPoint.Awake, point]
      refine ⟨items, ?_⟩
      simp only [Pipeline.loop, point]
      exact holds.moves asleep (by simp [LoopPoint.Awake]) _ (by simp [Pipeline.work, point])
  | hlt =>
      have asleep : ¬ pipeline.point.Awake := by simp [LoopPoint.Awake, point]
      refine ⟨items, ?_⟩
      simp only [Pipeline.loop, point]
      exact holds.moves asleep (by simp [LoopPoint.Awake]) pipeline.calls
        (by simp [Pipeline.work, point])
  | halted =>
      have asleep : ¬ pipeline.point.Awake := by simp [LoopPoint.Awake, point]
      have stays : pipeline.loop scancode = pipeline := by simp only [Pipeline.loop, point]
      have same : { pipeline with point := .halted, calls := pipeline.calls } = pipeline := by
        rw [← point]
      have moved := holds.moves asleep (by simp [LoopPoint.Awake] : ¬ LoopPoint.halted.Awake)
        pipeline.calls (by simp [Pipeline.work])
      rw [same] at moved
      exact ⟨items, stays.symm ▸ moved⟩

end Steps

/-! ## Runs -/

section Runs

variable (pipeline : Pipeline)

@[simp] theorem after_nil : pipeline.after [] = pipeline := rfl

theorem after_append (steps more : List Step) :
    pipeline.after (steps ++ more) = (pipeline.after steps).after more :=
  List.foldl_append ..

theorem after_concat (steps : List Step) (step : Step) :
    pipeline.after (steps ++ [step]) = (pipeline.after steps).step step := by
  rw [after_append]
  rfl

end Runs

/-- The counter of the ticks after steps. -/
def ticksAfter (ticks : Word) (steps : List Step) : Word :=
  steps.foldl (fun ticks step => match step with
    | .interrupt interrupt => interrupt.ticksAfter ticks
    | .loop _ => ticks) ticks

theorem ticks_after (pipeline : Pipeline) (steps : List Step) :
    (pipeline.after steps).ticks = ticksAfter pipeline.ticks steps := by
  induction steps generalizing pipeline with
  | nil => rfl
  | cons step steps ih =>
      cases step with
      | interrupt interrupt => exact ih (pipeline.interrupt interrupt)
      | loop scancode =>
          refine (ih (pipeline.loop scancode)).trans ?_
          rw [(loop_unchanged pipeline scancode).1]
          rfl

theorem raised_append (ticks : Word) (steps more : List Step) :
    raised ticks (steps ++ more) = raised ticks steps ++ raised (ticksAfter ticks steps) more := by
  induction steps generalizing ticks with
  | nil => rfl
  | cons step steps ih =>
      cases step with
      | interrupt interrupt => exact congrArg _ (ih _)
      | loop scancode => exact ih ticks

/-- **The loop without interrupts.** -/
theorem Pipeline.Holds.loops {pipeline : Pipeline} {items : List Event}
    (holds : pipeline.Holds items) (ports : List Byte) :
    ∃ rest, Advances ports.length pipeline (pipeline.after (ports.map .loop)) items rest := by
  induction ports generalizing pipeline items with
  | nil =>
      exact ⟨items, holds, rfl, Nat.le_refl _, id, fun awake asleep => absurd awake asleep,
        fun _ => rfl⟩
  | cons scancode ports ih =>
      obtain ⟨middle, first⟩ := holds.loop scancode
      obtain ⟨rest, later⟩ := ih first.holds
      refine ⟨rest, later.holds, later.same.trans first.same, ?_, first.awake ∘ later.awake, ?_, ?_⟩
      · have work := first.work_le
        have work' := later.work_le
        simp only [List.length_cons]
        exact work'.trans (by omega)
      · intro awake asleep
        by_cases between : (pipeline.loop scancode).point.Awake
        · exact later.empty between asleep
        · exact (later.asleep between).trans (first.empty awake between)
      · intro asleep
        exact (later.asleep fun awake => asleep (first.awake awake)).trans (first.asleep asleep)

/-! ## No event is lost -/

/-- No interrupt of the steps comes with 63 events in the queue. -/
def RoomForEvents (pipeline : Pipeline) (steps : List Step) : Prop :=
  ∀ before interrupt, before ++ [.interrupt interrupt] <+: steps →
    (pipeline.after before).queued.length < 63

theorem RoomForEvents.prior {pipeline : Pipeline} {steps : List Step} {step : Step}
    (room : RoomForEvents pipeline (steps ++ [step])) : RoomForEvents pipeline steps :=
  fun before interrupt prior =>
    room before interrupt (prior.trans (List.prefix_append _ _))

section Delivery

variable {ticks : Word} {target : Event} {events : RingBuffer Event}
  {input : RingBuffer InputEvent} {steps : List Step}

/-- **The invariant of the pipeline**: the queue holds what is neither handled nor in hand. -/
theorem holds_after (room : RoomForEvents (entered ticks target events input) steps) :
    ∃ items, ((entered ticks target events input).after steps).Holds items ∧
      ((entered ticks target events input).after steps).handled ++
        ((entered ticks target events input).after steps).inHand ++ items =
          raised ticks steps := by
  induction steps using List.reverseRecOn with
  | nil => exact ⟨[], holds_entered ticks target events input, rfl⟩
  | append_singleton steps step ih =>
      obtain ⟨items, holds, same⟩ := ih room.prior
      rw [after_concat, raised_append]
      cases step with
      | interrupt interrupt =>
          have few := room steps interrupt List.prefix_rfl
          rw [holds.queued] at few
          refine ⟨_, holds.interrupt few interrupt, ?_⟩
          have count := ticks_after (entered ticks target events input) steps
          rw [← List.append_assoc, Pipeline.step, inHand_interrupt, count]
          exact congrArg (· ++ _) same
      | loop scancode =>
          obtain ⟨rest, advances⟩ := holds.loop scancode
          refine ⟨rest, advances.holds, ?_⟩
          exact (advances.same.trans same).trans (List.append_nil _).symm

/-- There is room for the first 63 events, however fast they come. -/
theorem roomForEvents_of_few (few : (raised ticks steps).length ≤ 63) :
    RoomForEvents (entered ticks target events input) steps := by
  induction steps using List.reverseRecOn with
  | nil =>
      intro before interrupt prior
      simp at prior
  | append_singleton steps step ih =>
      rw [raised_append, List.length_append] at few
      have room := ih (by omega)
      intro before interrupt prior
      rcases List.prefix_concat_iff.mp prior with last | earlier
      · obtain ⟨rfl, same⟩ := List.append_inj' last rfl
        obtain rfl : .interrupt interrupt = step := by simpa using same
        obtain ⟨items, holds, same⟩ := holds_after room
        have lengths := congrArg List.length same
        rw [holds.queued]
        simp only [raised, List.length_append, List.length_singleton] at few lengths
        omega
      · exact room before interrupt earlier

/-- **Events are handled in order exactly while there is room.** From the start of the loop, for
interrupts before any of its instructions: in every state the events handled, the one in hand and
those in the queue are the events raised so far, if and only if no interrupt comes with 63 events
in the queue. -/
theorem events_in_order_iff (ticks : Word) (target : Event) (events : RingBuffer Event)
    (input : RingBuffer InputEvent) (steps : List Step) :
    (∀ before, before <+: steps →
      ((entered ticks target events input).after before).InOrder (raised ticks before)) ↔
      RoomForEvents (entered ticks target events input) steps := by
  constructor
  · intro ordered
    induction steps using List.reverseRecOn with
    | nil =>
        intro before interrupt prior
        simp at prior
    | append_singleton steps step ih =>
        have room := ih fun before prior => ordered before (prior.trans (List.prefix_append _ _))
        intro before interrupt prior
        rcases List.prefix_concat_iff.mp prior with last | earlier
        · obtain ⟨rfl, same⟩ := List.append_inj' last rfl
          obtain rfl : .interrupt interrupt = step := by simpa using same
          by_contra full
          obtain ⟨items, holds, earlier⟩ := holds_after room
          have reached := ordered (before ++ [.interrupt interrupt]) List.prefix_rfl
          -- The push that meets the read index empties the queue.
          have emptied : ((entered ticks target events input).after
              (before ++ [.interrupt interrupt])).queued = [] := by
            rw [after_concat]
            refine holds.queue.pending_push_of_full (fun free => full ?_) _
            rw [holds.queued]
            exact Nat.lt_of_succ_lt_succ (holds.queue.room_iff.mp free)
          rw [Pipeline.InOrder, emptied, after_concat, Pipeline.step, inHand_interrupt,
            raised_append, ← earlier] at reached
          have lengths := congrArg List.length reached
          simp [raised, Pipeline.interrupt] at lengths
        · exact room before interrupt earlier
  · intro room before prior
    obtain ⟨items, holds, same⟩ := holds_after fun earlier interrupt sooner =>
      room earlier interrupt (sooner.trans prior)
    rw [Pipeline.InOrder, holds.queued]
    exact same

/-! ## What arrives -/

/-- The keys that the terminal is given. -/
def terminalKeys (calls : List LoopCall) : List Word :=
  calls.filterMap fun call => match call with
    | .terminalHandleKey data1 => some data1
    | _ => none

/-- The data of the events of a type. -/
def dataOf (type : Word) (events : List Event) : List Word :=
  (events.filter fun event => event.type = type).map Event.data1

/-- The scancodes of the interrupts of the keyboard. -/
def scancodes (steps : List Step) : List Word :=
  steps.filterMap fun step => match step with
    | .interrupt (.keyboard scancode _ _) => some (scancode.setWidth 32)
    | _ => none

/-- How many interrupts of the timer there are. -/
def timerCount (steps : List Step) : ℕ :=
  steps.countP fun step => match step with
    | .interrupt (.timer _) => true
    | _ => false

theorem dataOf_append (type : Word) (events more : List Event) :
    dataOf type (events ++ more) = dataOf type events ++ dataOf type more := by
  simp [dataOf]

theorem terminalKeys_switchEvent (event : Event) :
    terminalKeys (switchEvent event) = dataOf EVENT_KEY [event] := by
  by_cases key : event.type = EVENT_KEY
  · simp [switchEvent, terminalKeys, dataOf, key]
  · by_cases mouse : event.type = EVENT_MOUSE
    · simp [switchEvent, terminalKeys, dataOf, mouse, EVENT_KEY, EVENT_MOUSE]
    · simp [switchEvent, terminalKeys, dataOf, key, mouse]

/-- The terminal is given the keys of the handled events. -/
theorem terminalKeys_loop {pipeline : Pipeline} (scancode : Byte)
    (given : terminalKeys pipeline.calls = dataOf EVENT_KEY pipeline.handled) :
    terminalKeys (pipeline.loop scancode).calls =
      dataOf EVENT_KEY (pipeline.loop scancode).handled := by
  cases point : pipeline.point with
  | poll =>
      simp only [Pipeline.loop, point]
      cases (pipeline.events.readStep copyEvent EVENT_QUEUE_SIZE).1 with
      | empty => exact given
      | busy => exact given
      | taken => exact given
  | switch =>
      simp only [Pipeline.loop, point]
      rw [dataOf_append, ← given, ← terminalKeys_switchEvent]
      exact List.filterMap_append
  | readKeyboard =>
      simp only [Pipeline.loop, point]
      split_ifs
      · exact given
      · exact given
  | writeChar c =>
      simp only [Pipeline.loop, point]
      rw [← given]
      simp [terminalKeys]
  | hlt => simpa only [Pipeline.loop, point] using given
  | halted => simpa only [Pipeline.loop, point] using given

theorem terminalKeys_after :
    terminalKeys ((entered ticks target events input).after steps).calls =
      dataOf EVENT_KEY ((entered ticks target events input).after steps).handled := by
  induction steps using List.reverseRecOn with
  | nil => rfl
  | append_singleton steps step ih =>
      rw [after_concat]
      cases step with
      | interrupt interrupt => exact ih
      | loop scancode => exact terminalKeys_loop scancode ih

theorem dataOf_key_raised (ticks : Word) (steps : List Step) :
    dataOf EVENT_KEY (raised ticks steps) = scancodes steps := by
  induction steps generalizing ticks with
  | nil => rfl
  | cons step steps ih =>
      cases step with
      | loop scancode => exact ih ticks
      | interrupt interrupt =>
          have split := dataOf_append EVENT_KEY [interrupt.event ticks]
            (raised (interrupt.ticksAfter ticks) steps)
          refine split.trans ?_
          rw [ih]
          cases interrupt with
          | keyboard scancode unset2 unset3 => rfl
          | mouse statics buttons dx dy => rfl
          | timer unset2 => rfl

theorem dataOf_timer_raised (ticks : Word) (steps : List Step) :
    dataOf EVENT_TIMER (raised ticks steps) =
      (List.range (timerCount steps)).map fun earlier => timerTick^[earlier + 1] ticks := by
  induction steps generalizing ticks with
  | nil => rfl
  | cons step steps ih =>
      cases step with
      | loop scancode => exact ih ticks
      | interrupt interrupt =>
          have split := dataOf_append EVENT_TIMER [interrupt.event ticks]
            (raised (interrupt.ticksAfter ticks) steps)
          refine split.trans ?_
          rw [ih]
          cases interrupt with
          | keyboard scancode unset2 unset3 => rfl
          | mouse statics buttons dx dy => rfl
          | timer unset2 =>
              have count : timerCount (.interrupt (.timer unset2) :: steps) =
                  timerCount steps + 1 := by simp [timerCount]
              rw [count, List.range_succ_eq_map, List.map_cons, List.map_map]
              rfl

/-- **The terminal gets the scancodes of the keyboard**, each once and in order, however the
interrupts fall, as long as none comes with 63 events in the queue: what it has got are the first
scancodes, and when the loop has nothing in hand or queued, all of them. The timer events that
the loop has handled have consecutive numbers from the start on. -/
theorem terminal_gets_scancodes (ticks : Word) (target : Event) (events : RingBuffer Event)
    (input : RingBuffer InputEvent) (steps : List Step)
    (room : RoomForEvents (entered ticks target events input) steps) :
    let pipeline := (entered ticks target events input).after steps
    terminalKeys pipeline.calls ++ dataOf EVENT_KEY (pipeline.inHand ++ pipeline.queued) =
        scancodes steps ∧
      dataOf EVENT_TIMER pipeline.handled <+:
        (List.range (timerCount steps)).map fun earlier => timerTick^[earlier + 1] ticks := by
  intro pipeline
  obtain ⟨items, holds, same⟩ := holds_after room
  have queued : pipeline.queued = items := holds.queued
  constructor
  · rw [terminalKeys_after, ← dataOf_append, ← List.append_assoc, queued, same,
      dataOf_key_raised]
  · rw [← dataOf_timer_raised, ← same, List.append_assoc, dataOf_append EVENT_TIMER]
    exact List.prefix_append _ _

/-- Key 30, handled before the second interrupt. -/
theorem terminal_gets_scancode_a :
    let zeroed : Pipeline := entered 0 ⟨0, 0, 0⟩ ⟨fun _ => ⟨0, 0, 0⟩, 0, 0⟩
      ⟨fun _ => ⟨.inputNone, 0, 0, 0⟩, 0, 0⟩
    let steps : List Step := .interrupt (.keyboard 30 0 0) :: List.replicate 6 (.loop 0) ++
      [.interrupt (.keyboard 158 0 0)]
    let pipeline := zeroed.after steps
    terminalKeys pipeline.calls ++ dataOf EVENT_KEY (pipeline.inHand ++ pipeline.queued) =
      [30, 158] :=
  (terminal_gets_scancodes 0 ⟨0, 0, 0⟩ ⟨fun _ => ⟨0, 0, 0⟩, 0, 0⟩
    ⟨fun _ => ⟨.inputNone, 0, 0, 0⟩, 0, 0⟩ _ (roomForEvents_of_few (by decide))).1

/-! ## Sleeping on events -/

theorem work_le (pipeline : Pipeline) (items : List Event) :
    pipeline.work items.length ≤ 6 * (pipeline.inHand ++ items).length + 4 := by
  cases point : pipeline.point with
  | poll =>
      have bound : pipeline.events.readLeft copyEvent ≤ 5 := by
        simp only [Shared.readLeft, copyEvent]
        split <;> omega
      simp only [Pipeline.work, Pipeline.inHand, point]
      split_ifs <;> simp <;> omega
  | switch =>
      simp only [Pipeline.work, Pipeline.inHand, point, if_true, List.length_append,
        List.length_singleton]
      omega
  | _ => simp [Pipeline.work, point]

theorem halted_of_work {pipeline : Pipeline} {queued : ℕ} (done : pipeline.work queued = 0) :
    pipeline.point = .halted := by
  cases point : pipeline.point with
  | poll =>
      simp only [Pipeline.work, point] at done
      split_ifs at done
  | halted => rfl
  | _ => simp [Pipeline.work, point] at done

/-- **The loop catches up exactly if it is awake.** After any steps that found room, let the loop
run without interrupts, for six instructions for each event in hand or queued and four more. Then
it has halted, and it has handled everything raised so far if and only if it was in a poll or in
the `switch`, or nothing was queued. An interrupt that comes behind the last poll therefore waits
for the next one, which finds the loop at its poll again. -/
theorem loop_catches_up_iff (ticks : Word) (target : Event) (events : RingBuffer Event)
    (input : RingBuffer InputEvent) (steps : List Step)
    (room : RoomForEvents (entered ticks target events input) steps) (ports : List Byte)
    (long : 6 * (((entered ticks target events input).after steps).inHand ++
      ((entered ticks target events input).after steps).queued).length + 4 ≤ ports.length) :
    let pipeline := (entered ticks target events input).after steps
    let later := pipeline.after (ports.map .loop)
    later.point = .halted ∧
      (later.handled = raised ticks steps ↔ pipeline.point.Awake ∨ pipeline.queued = []) ∧
      ∀ interrupt, (later.interrupt interrupt).point.Awake := by
  intro pipeline later
  obtain ⟨items, holds, same⟩ := holds_after room
  obtain ⟨rest, advances⟩ := holds.loops ports
  have queued : pipeline.queued = items := holds.queued
  have work : later.work rest.length ≤ pipeline.work items.length - ports.length :=
    advances.work_le
  have bound : pipeline.work items.length ≤ _ := work_le pipeline items
  rw [holds.queued] at long
  have enough : pipeline.work items.length ≤ ports.length := bound.trans long
  have halted : later.point = .halted := halted_of_work (by omega : later.work rest.length = 0)
  have asleep : ¬ later.point.Awake := by simp [LoopPoint.Awake, halted]
  have none : later.inHand = [] := by simp [Pipeline.inHand, halted]
  have all : later.handled ++ rest = raised ticks steps := by
    have kept := advances.same.trans same
    rwa [none, List.append_nil] at kept
  refine ⟨halted, ?_, ?_⟩
  · rw [queued, ← all]
    constructor
    · intro done
      have finished : rest = [] := List.self_eq_append_right.mp done
      by_cases awake : pipeline.point.Awake
      · exact .inl awake
      · exact .inr ((advances.asleep awake).symm.trans finished)
    · rintro (awake | nothing)
      · rw [advances.empty awake asleep, List.append_nil]
      · by_cases awake : pipeline.point.Awake
        · rw [advances.empty awake asleep, List.append_nil]
        · rw [advances.asleep awake, nothing, List.append_nil]
  · intro interrupt
    rw [Pipeline.interrupt, if_pos halted]
    trivial

/-- A key pressed while the loop is at its `hlt`, and one pressed while it is halted: both are
handled then. -/
theorem loop_catches_up_after_two :
    let zeroed : Pipeline := entered 0 ⟨0, 0, 0⟩ ⟨fun _ => ⟨0, 0, 0⟩, 0, 0⟩
      ⟨fun _ => ⟨.inputNone, 0, 0, 0⟩, 0, 0⟩
    let steps : List Step := [.loop 0, .loop 0, .interrupt (.keyboard 30 0 0), .loop 0,
      .interrupt (.keyboard 48 0 0)]
    ((zeroed.after steps).after ((List.replicate 16 0).map .loop)).handled =
      [⟨EVENT_KEY, 30, 0⟩, ⟨EVENT_KEY, 48, 0⟩] :=
  (loop_catches_up_iff 0 ⟨0, 0, 0⟩ ⟨fun _ => ⟨0, 0, 0⟩, 0, 0⟩
    ⟨fun _ => ⟨.inputNone, 0, 0, 0⟩, 0, 0⟩ _ (roomForEvents_of_few (by decide)) _
    (by decide +kernel)).2.1.mpr (.inl trivial)

end Delivery

end CocosOS.Kernel.EventPipeline
