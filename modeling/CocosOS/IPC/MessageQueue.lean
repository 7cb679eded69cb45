import CocosOS.Library.CString
import CocosOS.Library.RingQueue

/-!
# The message queue

`ipc_send` copies a string into the slot at `tail` of a ring of 20 slots of 128 bytes, and
`ipc_receive` copies the slot at `head` into the caller's buffer; a counter tells a full ring
from an empty one. The slots are one array of bytes, so that a copy past the end of a slot would
show in the next one.

A mailbox is what the queue is for: at most 20 messages of at most 127 characters, in the order
of their arrival. `Represents` reads a mailbox off the bytes of the queue. The queue refines the
mailbox over every run from the initial queue (`ipc_is_bounded_fifo`), with the same results of
every call.
-/

set_option autoImplicit false

namespace CocosOS.IPC

open Library.CString Library.RingQueue

/-! ## The queue -/

def MAX_MESSAGES : ℕ := 20

def MSG_SIZE : ℕ := 128

/-- `message_queue_t`. Byte `j` of message `i` is at `slot i + j` of `msg`. -/
structure MessageQueue where
  msg : Bytes
  head : ℕ
  tail : ℕ
  count : ℕ

/-- Where the bytes of a slot begin. -/
def slot (index : ℕ) : ℕ := index * MSG_SIZE

/-- The initial value of `queue`. -/
def initialQueue : MessageQueue := ⟨fun _ => 0, 0, 0, 0⟩

/-- The queue with a string in the slot at `tail`. -/
def MessageQueue.store (queue : MessageQueue) (message : Bytes) : Bytes :=
  Function.update (strncpy queue.msg (slot queue.tail) message (MSG_SIZE - 1))
    (slot queue.tail + (MSG_SIZE - 1)) 0

/-- `ipc_send`. -/
def ipcSend (message : Bytes) (queue : MessageQueue) : ℤ × MessageQueue :=
  if queue.count ≥ MAX_MESSAGES then
    (-1, queue)
  else
    (0, { queue with
      msg := queue.store message
      tail := (queue.tail + 1) % MAX_MESSAGES
      count := queue.count + 1 })

/-- What `ipc_receive` returns, the caller's buffer after it, and the queue it leaves. -/
structure Received where
  returned : ℤ
  buffer : Bytes
  queue : MessageQueue

/-- `ipc_receive`. -/
def ipcReceive (buffer : Bytes) (queue : MessageQueue) : Received :=
  if queue.count = 0 then
    ⟨-1, buffer, queue⟩
  else
    ⟨0, strncpy buffer 0 (queue.msg.from (slot queue.head)) MSG_SIZE,
      { queue with
        head := (queue.head + 1) % MAX_MESSAGES
        count := queue.count - 1 }⟩

/-! ## Mailboxes -/

/-- A bounded list of messages, the oldest first. -/
structure Mailbox where
  messages : List (List (BitVec 8))
  bounded : messages.length ≤ MAX_MESSAGES
  short : ∀ message ∈ messages, message.length < MSG_SIZE

namespace Mailbox

def empty : Mailbox := ⟨[], Nat.zero_le _, by simp⟩

/-- The first characters of a message arrive if there is room. -/
def send (chars : List (BitVec 8)) (mailbox : Mailbox) : Mailbox :=
  if room : mailbox.messages.length < MAX_MESSAGES then
    { messages := mailbox.messages ++ [chars.take (MSG_SIZE - 1)]
      bounded := by simpa using Nat.succ_le_of_lt room
      short := by
        intro message member
        rcases List.mem_append.mp member with old | new
        · exact mailbox.short message old
        · rw [List.mem_singleton.mp new, List.length_take]
          exact Nat.lt_of_le_of_lt (Nat.min_le_left _ _) (by decide) }
  else
    mailbox

/-- The oldest message goes. -/
def receive (mailbox : Mailbox) : Mailbox where
  messages := mailbox.messages.tail
  bounded := by
    rw [List.length_tail]
    exact (Nat.sub_le _ _).trans mailbox.bounded
  short := fun message member => mailbox.short message (List.mem_of_mem_tail member)

@[simp] theorem messages_receive (mailbox : Mailbox) :
    mailbox.receive.messages = mailbox.messages.tail := rfl

end Mailbox

/-! ## Runs -/

/-- A call: a string to send, or a buffer to receive into, with its old contents. -/
inductive IpcCall where
  | send (message : Terminated)
  | receive (buffer : Bytes)

/-- The queue, with the messages that were accepted and the messages that were received. -/
structure IpcRun where
  queue : MessageQueue
  accepted : List (List (BitVec 8))
  received : List (List (BitVec 8))

/-- One call of the code. -/
def IpcRun.step (run : IpcRun) : IpcCall → IpcRun
  | .send message =>
      let (returned, queue) := ipcSend message.bytes run.queue
      { run with
        queue := queue
        accepted := run.accepted ++
          if returned = 0 then [message.chars.take (MSG_SIZE - 1)] else [] }
  | .receive buffer =>
      let result := ipcReceive buffer run.queue
      { run with
        queue := result.queue
        received := run.received ++
          if result.returned = 0 then [text result.buffer MSG_SIZE] else [] }

/-- One call of the mailbox. -/
def Mailbox.step (mailbox : Mailbox) : IpcCall → Mailbox
  | .send message => mailbox.send message.chars
  | .receive _ => mailbox.receive

/-- The calls in order, from the initial queue. -/
def IpcRun.after (calls : List IpcCall) : IpcRun :=
  calls.foldl IpcRun.step ⟨initialQueue, [], []⟩

/-- The same calls on the empty mailbox. -/
def Mailbox.after (calls : List IpcCall) : Mailbox :=
  calls.foldl Mailbox.step Mailbox.empty

theorem IpcRun.after_concat (calls : List IpcCall) (call : IpcCall) :
    IpcRun.after (calls ++ [call]) = (IpcRun.after calls).step call := by
  simp [IpcRun.after]

theorem Mailbox.after_concat (calls : List IpcCall) (call : IpcCall) :
    Mailbox.after (calls ++ [call]) = (Mailbox.after calls).step call := by
  simp [Mailbox.after]

/-! ## The queue represents a mailbox -/

/-- The string in a slot. -/
def slotText (msg : Bytes) (index : ℕ) : List (BitVec 8) :=
  text (msg.from (slot index)) MSG_SIZE

/-- The queue holds the messages of the mailbox: its counter counts them, its write index is
behind them, and the slots from its read index on show them. -/
structure Represents (queue : MessageQueue) (mailbox : Mailbox) : Prop where
  head_lt : queue.head < MAX_MESSAGES
  count : queue.count = mailbox.messages.length
  tail : queue.tail = (queue.head + queue.count) % MAX_MESSAGES
  shows : window (slotText queue.msg) MAX_MESSAGES queue.head queue.count = mailbox.messages

theorem represents_initial : Represents initialQueue Mailbox.empty :=
  ⟨by decide, rfl, rfl, rfl⟩

theorem store_of_other {queue : MessageQueue} (message : Bytes) {index offset : ℕ}
    (other : index ≠ queue.tail) (inside : offset < MSG_SIZE) :
    queue.store message (slot index + offset) = queue.msg (slot index + offset) := by
  unfold MSG_SIZE at inside
  have apart : index + 1 ≤ queue.tail ∨ queue.tail + 1 ≤ index := by omega
  rw [MessageQueue.store, Function.update_of_ne, strncpy_of_outside] <;>
    unfold slot MSG_SIZE <;> omega

/-- A store changes the text of no other slot. -/
theorem slotText_store_of_ne {queue : MessageQueue} (message : Bytes) {index : ℕ}
    (other : index ≠ queue.tail) :
    slotText (queue.store message) index = slotText queue.msg index :=
  text_congr fun _ inside => store_of_other message other inside

/-- **The text of the slot written is that of the message**, whatever was in the slot before. -/
theorem slotText_store (queue : MessageQueue) (message : Bytes) :
    slotText (queue.store message) queue.tail = text message (MSG_SIZE - 1) := by
  refine text_strncpy queue.msg message (slot queue.tail) (by decide)
    (fun offset inside => ?_) fun _ => ?_
  · exact Function.update_of_ne (by omega) _ _
  · exact Function.update_self ..

namespace Represents

variable {queue : MessageQueue} {mailbox : Mailbox}

/-- Sending refines the arrival of a message. -/
theorem send (represents : Represents queue mailbox) (message : Terminated) :
    Represents (ipcSend message.bytes queue).2 (mailbox.send message.chars) := by
  by_cases room : mailbox.messages.length < MAX_MESSAGES
  · have fewer : queue.count < MAX_MESSAGES := represents.count ▸ room
    rw [ipcSend, if_neg (Nat.not_le.mpr fewer), Mailbox.send, dif_pos room]
    refine ⟨represents.head_lt, ?_, ?_, ?_⟩
    · simp only [List.length_append, List.length_singleton, represents.count]
    · simp only [represents.tail, Nat.mod_add_mod, Nat.add_assoc]
    · have older : window (slotText (queue.store message.bytes)) MAX_MESSAGES queue.head
          queue.count = mailbox.messages := by
        rw [← represents.shows]
        refine window_congr fun offset before => slotText_store_of_ne _ ?_
        rw [represents.tail]
        exact slot_ne before fewer
      have newest := slotText_store queue message.bytes
      rw [message.text_bytes, represents.tail] at newest
      simp only [window_succ_back, older, newest]
  · have full : queue.count ≥ MAX_MESSAGES := represents.count ▸ Nat.not_lt.mp room
    rwa [ipcSend, if_pos full, Mailbox.send, dif_neg room]

theorem shows_cons (represents : Represents queue mailbox) (nonempty : queue.count ≠ 0) :
    mailbox.messages = slotText queue.msg queue.head ::
      window (slotText queue.msg) MAX_MESSAGES ((queue.head + 1) % MAX_MESSAGES)
        (queue.count - 1) := by
  have more : queue.count = queue.count - 1 + 1 := (Nat.succ_pred_eq_of_ne_zero nonempty).symm
  rw [← represents.shows, more, window_succ_front _ represents.head_lt, Nat.add_sub_cancel]

/-- Receiving refines the departure of the oldest message. -/
theorem receive (represents : Represents queue mailbox) (buffer : Bytes) :
    Represents (ipcReceive buffer queue).queue mailbox.receive := by
  by_cases none : queue.count = 0
  · have nothing : mailbox.messages = [] :=
      List.length_eq_zero_iff.mp (represents.count ▸ none)
    rw [ipcReceive, if_pos none]
    refine ⟨represents.head_lt, ?_, represents.tail, ?_⟩
    · rw [Mailbox.messages_receive, nothing, List.tail_nil]
      exact none
    · rw [Mailbox.messages_receive, represents.shows, nothing, List.tail_nil]
  · have cons := represents.shows_cons none
    rw [ipcReceive, if_neg none]
    refine ⟨Nat.mod_lt _ (by decide), ?_, ?_, ?_⟩
    · simp only [Mailbox.messages_receive, List.length_tail, represents.count]
    · simp only [represents.tail, Nat.mod_add_mod]
      congr 1
      omega
    · rw [Mailbox.messages_receive, cons, List.tail_cons]

end Represents

theorem ipcReceive_of_nonempty {queue : MessageQueue} (buffer : Bytes)
    (nonempty : queue.count ≠ 0) :
    ipcReceive buffer queue =
      ⟨0, strncpy buffer 0 (queue.msg.from (slot queue.head)) MSG_SIZE,
        { queue with
          head := (queue.head + 1) % MAX_MESSAGES
          count := queue.count - 1 }⟩ :=
  if_neg nonempty

/-- The string in the buffer after a message was received. -/
theorem text_received {queue : MessageQueue} (buffer : Bytes) (nonempty : queue.count ≠ 0) :
    text (ipcReceive buffer queue).buffer MSG_SIZE = slotText queue.msg queue.head := by
  have copied := text_strncpy buffer (queue.msg.from (slot queue.head)) 0 (Nat.le_refl MSG_SIZE)
    (fun _ _ => rfl) fun less => absurd less (Nat.lt_irrefl _)
  rw [Bytes.from_zero] at copied
  rw [ipcReceive_of_nonempty buffer nonempty]
  exact copied

/-- The buffer after a message was received holds its characters, then zeros to the size of a
slot, and its old bytes from there on. -/
theorem received_buffer {queue : MessageQueue} (buffer : Bytes) (nonempty : queue.count ≠ 0)
    (index : ℕ) :
    (ipcReceive buffer queue).buffer index =
      if index < MSG_SIZE then (slotText queue.msg queue.head).getD index 0
      else buffer index := by
  rw [ipcReceive_of_nonempty buffer nonempty]
  split_ifs with inside
  · have copied := strncpy_add buffer (queue.msg.from (slot queue.head)) 0 inside
    rwa [Nat.zero_add] at copied
  · exact strncpy_of_outside (.inr (by omega))

/-! ## Refinement -/

/-- **Every call of the code refines the same call of the mailbox.** -/
theorem Represents.step {run : IpcRun} {mailbox : Mailbox}
    (represents : Represents run.queue mailbox) (call : IpcCall) :
    Represents (run.step call).queue (mailbox.step call) := by
  cases call with
  | send message => exact represents.send message
  | receive buffer => exact represents.receive buffer

theorem represents_after (calls : List IpcCall) :
    Represents (IpcRun.after calls).queue (Mailbox.after calls) := by
  induction calls using List.reverseRecOn with
  | nil => exact represents_initial
  | append_singleton calls call ih =>
      rw [IpcRun.after_concat, Mailbox.after_concat]
      exact ih.step call

/-- What was accepted is what was received and what is in the mailbox. -/
theorem accepted_after (calls : List IpcCall) :
    (IpcRun.after calls).accepted =
      (IpcRun.after calls).received ++ (Mailbox.after calls).messages := by
  induction calls using List.reverseRecOn with
  | nil => rfl
  | append_singleton calls call ih =>
      have represents := represents_after calls
      rw [IpcRun.after_concat, Mailbox.after_concat]
      cases call with
      | send message =>
          by_cases room : (Mailbox.after calls).messages.length < MAX_MESSAGES
          · have fewer : ¬ (IpcRun.after calls).queue.count ≥ MAX_MESSAGES := by
              rw [represents.count]
              exact Nat.not_le.mpr room
            simp [IpcRun.step, Mailbox.step, Mailbox.send, ipcSend, room, fewer, ih]
          · have full : (IpcRun.after calls).queue.count ≥ MAX_MESSAGES := by
              rw [represents.count]
              exact Nat.not_lt.mp room
            simp [IpcRun.step, Mailbox.step, Mailbox.send, ipcSend, room, full, ih]
      | receive buffer =>
          by_cases none : (IpcRun.after calls).queue.count = 0
          · have nothing : (Mailbox.after calls).messages = [] :=
              List.length_eq_zero_iff.mp (represents.count ▸ none)
            simp [IpcRun.step, Mailbox.step, ipcReceive, none, nothing, ih]
          · have oldest := text_received buffer none
            have cons := represents.shows_cons none
            have returned : (ipcReceive buffer (IpcRun.after calls).queue).returned = 0 := by
              rw [ipcReceive_of_nonempty buffer none]
            simp only [IpcRun.step, Mailbox.step, returned, oldest, if_true, ih,
              Mailbox.messages_receive, cons, List.tail_cons, List.append_assoc,
              List.singleton_append]

/-- What a call returns in a queue that represents a mailbox. -/
structure ResultsAgree (queue : MessageQueue) (mailbox : Mailbox) : Prop where
  sent : ∀ message : Terminated, mailbox.messages.length < MAX_MESSAGES →
    (ipcSend message.bytes queue).1 = 0
  refused : ∀ message : Terminated, mailbox.messages.length = MAX_MESSAGES →
    ipcSend message.bytes queue = (-1, queue)
  received : ∀ buffer oldest rest, mailbox.messages = oldest :: rest →
    (ipcReceive buffer queue).returned = 0 ∧
    oldest.length < MSG_SIZE ∧
    ∀ index, (ipcReceive buffer queue).buffer index =
      if index < MSG_SIZE then oldest.getD index 0 else buffer index
  nothing : ∀ buffer, mailbox.messages = [] → ipcReceive buffer queue = ⟨-1, buffer, queue⟩

theorem Represents.resultsAgree {queue : MessageQueue} {mailbox : Mailbox}
    (represents : Represents queue mailbox) : ResultsAgree queue mailbox where
  sent := by
    intro message room
    rw [ipcSend, if_neg (by rw [represents.count]; exact Nat.not_le.mpr room)]
  refused := by
    intro message full
    rw [ipcSend, if_pos (by rw [represents.count, full])]
  received := by
    intro buffer oldest rest messages
    have nonempty : queue.count ≠ 0 := by
      rw [represents.count, messages]
      exact Nat.succ_ne_zero _
    have cons := represents.shows_cons nonempty
    rw [messages, List.cons.injEq] at cons
    refine ⟨by rw [ipcReceive_of_nonempty buffer nonempty],
      mailbox.short oldest (messages ▸ List.mem_cons_self), fun index => ?_⟩
    rw [received_buffer buffer nonempty, cons.1]
  nothing := by
    intro buffer messages
    rw [ipcReceive, if_pos (by rw [represents.count, messages]; rfl)]

/-- **The message queue is a bounded first-in first-out list.** After any calls from the initial
queue, its bytes represent the mailbox that the same calls produce: a send appends the first 127
characters of its string and returns 0 when fewer than 20 messages are pending, and otherwise
returns -1 and changes nothing; a receive writes the oldest message, terminated, into the buffer
and returns 0, or returns -1 and changes nothing when none is pending. Every accepted message
was received or is pending, once and in order. -/
theorem ipc_is_bounded_fifo (calls : List IpcCall) :
    Represents (IpcRun.after calls).queue (Mailbox.after calls) ∧
    ResultsAgree (IpcRun.after calls).queue (Mailbox.after calls) ∧
    (IpcRun.after calls).accepted =
      (IpcRun.after calls).received ++ (Mailbox.after calls).messages :=
  ⟨represents_after calls, (represents_after calls).resultsAgree, accepted_after calls⟩

end CocosOS.IPC
