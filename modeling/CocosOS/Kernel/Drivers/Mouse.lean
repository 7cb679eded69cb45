import CocosOS.Library.BoundedArray
import CocosOS.Library.ByteMemory
import CocosOS.Library.WordArithmetic
import Mathlib.Data.Nat.ModEq
import Mathlib.Tactic.Linarith

/-!
# The PS/2 mouse

`mouse_handler` collects three bytes and moves the position by the second and the third of them,
each taken as a `signed char`. A PS/2 mouse sends numbers of nine bits: the ninth bit, their sign,
is a bit of the first byte, and the code does not look at it. So a number from 128 to 255 counts
as 256 less, and one from -256 to -129 as 256 more.

The three bytes stay together whatever interrupts come between them (`mouseRun_packets`). The
position is the right one exactly if as many numbers were too small as were too large, on each
axis and modulo the range of the position (`decoded_iff`).

An `int` is a word of 32 bits, and its additions wrap as those of the machine do.
-/

set_option autoImplicit false

namespace CocosOS.Kernel.Drivers.Mouse

open Library.BoundedArray Library.ByteMemory Library.WordArithmetic

/-! ## The driver -/

/-- What an interrupt finds at the ports: the status, the status of the reads after it, and what
the data port delivers after so many of these. -/
structure Interrupt where
  status : Byte
  polls : ℕ → Byte
  data : ℕ → Byte

/-- `mouse_wait(0)`: how often it reads the status, with so many rounds left. -/
def mouseWait (polls : ℕ → Byte) : ℕ → ℕ → ℕ
  | 0, reads => reads
  | timeout + 1, reads =>
    if polls reads &&& 1 ≠ 0 then reads + 1 else mouseWait polls timeout (reads + 1)

/-- `mouse_read`. -/
def mouseRead (interrupt : Interrupt) : Byte := interrupt.data (mouseWait interrupt.polls 100000 0)

/-- The static variables of the driver. -/
structure MouseState where
  mouseCycle : ℕ
  mouseByte : ℕ → Byte
  mouseX : Word
  mouseY : Word
  mouseButton : Byte

/-- `mouse_handler` from the store of the byte on. -/
def takeByte (mouse : MouseState) (byte : Byte) : Option MouseState :=
  (put 3 mouse.mouseByte mouse.mouseCycle byte).map fun mouseByte =>
    let mouse := { mouse with mouseByte := mouseByte, mouseCycle := mouse.mouseCycle + 1 }
    if mouse.mouseCycle = 3 then
      { mouse with
        mouseButton := mouseByte 0 &&& 0x07
        mouseX := mouse.mouseX + (mouseByte 1).signExtend 32
        mouseY := mouse.mouseY - (mouseByte 2).signExtend 32
        mouseCycle := 0 }
    else mouse

/-- `mouse_handler`. -/
def mouseHandler (mouse : MouseState) (interrupt : Interrupt) : Option MouseState :=
  if interrupt.status &&& 0x20 = 0 then some mouse else takeByte mouse (mouseRead interrupt)

/-- The calls of `mouse_handler` for interrupts, the first one first. -/
def mouseRun (interrupts : List Interrupt) (mouse : MouseState) : Option MouseState :=
  interrupts.foldlM mouseHandler mouse

/-! ## What the mouse sends -/

/-- A complete packet: bit 3 of its first byte is set, and the overflow bits are clear. -/
structure Packet where
  b0 : Byte
  b1 : Byte
  b2 : Byte
  always : b0.getLsbD 3 = true
  overflowX : b0.getLsbD 6 = false
  overflowY : b0.getLsbD 7 = false

namespace Packet

/-- The bytes of a packet, in the order they are sent in. -/
def bytes (packet : Packet) : List Byte := [packet.b0, packet.b1, packet.b2]

def signX (packet : Packet) : Bool := packet.b0.getLsbD 4

def signY (packet : Packet) : Bool := packet.b0.getLsbD 5

/-- The movement on the x axis, a two's complement number of nine bits. -/
def dx (packet : Packet) : ℤ := (BitVec.cons packet.signX packet.b1).toInt

/-- The movement on the y axis. -/
def dy (packet : Packet) : ℤ := (BitVec.cons packet.signY packet.b2).toInt

end Packet

/-- The bytes that interrupts deliver: those without bit 5 of the status deliver none. -/
def delivered (interrupts : List Interrupt) : List Byte :=
  (interrupts.filter fun interrupt => interrupt.status &&& 0x20 ≠ 0).map mouseRead

/-- The packets are decoded as sent, from a state before their interrupts. -/
def Decoded (mouse : MouseState) (interrupts : List Interrupt) (packets : List Packet) : Prop :=
  ∃ after, mouseRun interrupts mouse = some after ∧
    after.mouseX.toInt = mouse.mouseX.toInt + (packets.map Packet.dx).sum ∧
    after.mouseY.toInt = mouse.mouseY.toInt - (packets.map Packet.dy).sum ∧
    ∀ last ∈ packets.getLast?, after.mouseButton = last.b0 &&& 0x07

/-- A number that an `int` can hold. -/
def FitsInt (value : ℤ) : Prop := -2 ^ 31 ≤ value ∧ value < 2 ^ 31

instance : DecidablePred FitsInt := fun _ => inferInstanceAs (Decidable (_ ∧ _))

/-- The sign bits of an axis are set as often as the high bits of its bytes, which the driver takes
for the signs. -/
def Balanced (sign : Packet → Bool) (byte : Packet → Byte) (packets : List Packet) : Prop :=
  packets.countP sign ≡ packets.countP (fun packet => (byte packet).msb) [MOD 2 ^ 24]

instance (sign : Packet → Bool) (byte : Packet → Byte) :
    DecidablePred (Balanced sign byte) :=
  fun packets => inferInstanceAs
    (Decidable (_ ≡ packets.countP (fun packet => (byte packet).msb) [MOD 2 ^ 24]))

/-! ## Three bytes -/

/-- A byte before the third one is kept. -/
theorem takeByte_of_lt {mouse : MouseState} (early : mouse.mouseCycle < 2) (byte : Byte) :
    takeByte mouse byte = some { mouse with
      mouseByte := Function.update mouse.mouseByte mouse.mouseCycle byte
      mouseCycle := mouse.mouseCycle + 1 } := by
  have more : ¬ mouse.mouseCycle + 1 = 3 := by omega
  rw [takeByte, put_of_lt (Nat.lt_succ_of_lt early), Option.map_some]
  exact congrArg some (if_neg more)

/-- The third byte moves the position. -/
theorem takeByte_of_eq {mouse : MouseState} (last : mouse.mouseCycle = 2) (byte : Byte) :
    takeByte mouse byte = some
      { mouseCycle := 0
        mouseByte := Function.update mouse.mouseByte 2 byte
        mouseX := mouse.mouseX + (mouse.mouseByte 1).signExtend 32
        mouseY := mouse.mouseY - byte.signExtend 32
        mouseButton := mouse.mouseByte 0 &&& 0x07 } := by
  have inside : mouse.mouseCycle < 3 := by omega
  have full : mouse.mouseCycle + 1 = 3 := by omega
  rw [takeByte, put_of_lt inside, Option.map_some, last]
  rw [last] at full
  exact congrArg some (if_pos full)

/-- The state after a packet that starts at cycle 0. -/
def MouseState.take (mouse : MouseState) (packet : Packet) : MouseState where
  mouseCycle := 0
  mouseByte :=
    Function.update (Function.update (Function.update mouse.mouseByte 0 packet.b0) 1 packet.b1) 2
      packet.b2
  mouseX := mouse.mouseX + packet.b1.signExtend 32
  mouseY := mouse.mouseY - packet.b2.signExtend 32
  mouseButton := packet.b0 &&& 0x07

/-- The handler takes a byte of each interrupt that delivers one. -/
theorem mouseRun_eq (interrupts : List Interrupt) (mouse : MouseState) :
    mouseRun interrupts mouse = (delivered interrupts).foldlM takeByte mouse := by
  induction interrupts generalizing mouse with
  | nil => rfl
  | cons interrupt interrupts ih =>
      rw [mouseRun, List.foldlM_cons, mouseHandler, delivered]
      by_cases none : interrupt.status &&& 0x20 = 0
      · rw [if_pos none, List.filter_cons_of_neg (by simpa using none)]
        exact ih mouse
      · rw [if_neg none, List.filter_cons_of_pos (by simpa using none), List.map_cons,
          List.foldlM_cons]
        exact congrArg _ (funext fun mouse => ih mouse)

/-- **Three bytes from cycle 0 on move the position once** and end at cycle 0. -/
theorem takeBytes_packet {mouse : MouseState} (start : mouse.mouseCycle = 0) (packet : Packet) :
    packet.bytes.foldlM takeByte mouse = some (mouse.take packet) := by
  have first : mouse.mouseCycle < 2 := by omega
  rw [Packet.bytes, List.foldlM_cons, takeByte_of_lt first, start]
  dsimp only [Option.bind_eq_bind, Option.bind_some]
  rw [List.foldlM_cons, takeByte_of_lt (Nat.lt_succ_self 1)]
  dsimp only [Option.bind_eq_bind, Option.bind_some]
  rw [List.foldlM_cons, takeByte_of_eq rfl]
  rfl

theorem takeBytes_packets {mouse : MouseState} (start : mouse.mouseCycle = 0)
    (packets : List Packet) :
    (packets.flatMap Packet.bytes).foldlM takeByte mouse =
      some (packets.foldl MouseState.take mouse) := by
  induction packets generalizing mouse with
  | nil => rfl
  | cons packet packets ih =>
      rw [List.flatMap_cons, List.foldlM_append, takeBytes_packet start]
      exact ih rfl

/-- **The bytes of a packet stay together**, whatever interrupts come between them. -/
theorem mouseRun_packets {mouse : MouseState} (start : mouse.mouseCycle = 0)
    {interrupts : List Interrupt} {packets : List Packet}
    (sent : delivered interrupts = packets.flatMap Packet.bytes) :
    mouseRun interrupts mouse = some (packets.foldl MouseState.take mouse) := by
  rw [mouseRun_eq, sent, takeBytes_packets start]

/-! ## Positions -/

theorem foldl_take_mouseX (packets : List Packet) (mouse : MouseState) :
    (packets.foldl MouseState.take mouse).mouseX =
      mouse.mouseX + BitVec.ofInt 32 (packets.map fun packet => packet.b1.toInt).sum := by
  induction packets generalizing mouse with
  | nil => exact (BitVec.add_zero _).symm
  | cons packet packets ih =>
      rw [List.foldl_cons, ih, List.map_cons, List.sum_cons, BitVec.ofInt_add, ← BitVec.add_assoc]
      rfl

theorem foldl_take_mouseY (packets : List Packet) (mouse : MouseState) :
    (packets.foldl MouseState.take mouse).mouseY =
      mouse.mouseY + BitVec.ofInt 32 (-(packets.map fun packet => packet.b2.toInt).sum) := by
  induction packets generalizing mouse with
  | nil => exact (BitVec.add_zero _).symm
  | cons packet packets ih =>
      have moved : (mouse.take packet).mouseY =
          mouse.mouseY + BitVec.ofInt 32 (-packet.b2.toInt) := by
        rw [BitVec.ofInt_neg, ← BitVec.sub_eq_add_neg]
        rfl
      rw [List.foldl_cons, ih, List.map_cons, List.sum_cons, Int.neg_add, BitVec.ofInt_add,
        ← BitVec.add_assoc, moved]

/-- The button is that of the last packet. -/
theorem foldl_take_mouseButton (packets : List Packet) (mouse : MouseState) :
    ∀ last ∈ packets.getLast?,
      (packets.foldl MouseState.take mouse).mouseButton = last.b0 &&& 0x07 := by
  induction packets using List.reverseRecOn with
  | nil => exact fun _ member => absurd member nofun
  | append_singleton packets packet _ =>
      intro last member
      rw [List.getLast?_concat, Option.mem_some_iff] at member
      rw [List.foldl_concat, ← member]
      rfl

/-- What the driver adds differs from what the mouse sends by 256 for each sign that is wrong. -/
theorem sum_sub_sum (sign : Packet → Bool) (byte : Packet → Byte) (packets : List Packet) :
    (packets.map fun packet => (byte packet).toInt).sum -
        (packets.map fun packet => (BitVec.cons (sign packet) (byte packet)).toInt).sum =
      2 ^ 8 * ((packets.countP sign : ℤ) - packets.countP fun packet => (byte packet).msb) := by
  induction packets with
  | nil => rfl
  | cons packet packets ih =>
      have one := toInt_sub_toInt_cons (sign packet) (byte packet)
      have signs : (packet :: packets).countP sign = packets.countP sign + (sign packet).toNat := by
        rw [List.countP_cons]
        cases sign packet <;> rfl
      have highs : (packet :: packets).countP (fun packet => (byte packet).msb) =
          packets.countP (fun packet => (byte packet).msb) + (byte packet).msb.toNat := by
        rw [List.countP_cons]
        cases (byte packet).msb <;> rfl
      rw [List.map_cons, List.map_cons, List.sum_cons, List.sum_cons, signs, highs]
      push_cast
      linarith

/-- An axis is balanced exactly if what the driver adds agrees with what the mouse sends modulo the
range of an `int`. -/
theorem balanced_iff_dvd (sign : Packet → Bool) (byte : Packet → Byte) (packets : List Packet) :
    Balanced sign byte packets ↔ (2 ^ 32 : ℤ) ∣
      (packets.map fun packet => (byte packet).toInt).sum -
        (packets.map fun packet => (BitVec.cons (sign packet) (byte packet)).toInt).sum := by
  have range : (2 ^ 32 : ℤ) = 2 ^ 8 * 2 ^ 24 := by norm_num
  rw [sum_sub_sum, range, Int.mul_dvd_mul_iff_left (by decide), Balanced, Nat.ModEq.comm,
    Nat.modEq_iff_dvd]
  rfl

theorem mouseX_eq_iff {mouse : MouseState} {packets : List Packet}
    (fits : FitsInt (mouse.mouseX.toInt + (packets.map Packet.dx).sum)) :
    (packets.foldl MouseState.take mouse).mouseX.toInt =
        mouse.mouseX.toInt + (packets.map Packet.dx).sum ↔
      Balanced Packet.signX Packet.b1 packets := by
  rw [foldl_take_mouseX, toInt_add_ofInt_eq_iff (by decide) fits.1 fits.2, balanced_iff_dvd]
  rfl

theorem mouseY_eq_iff {mouse : MouseState} {packets : List Packet}
    (fits : FitsInt (mouse.mouseY.toInt - (packets.map Packet.dy).sum)) :
    (packets.foldl MouseState.take mouse).mouseY.toInt =
        mouse.mouseY.toInt - (packets.map Packet.dy).sum ↔
      Balanced Packet.signY Packet.b2 packets := by
  rw [Int.sub_eq_add_neg] at fits ⊢
  rw [foldl_take_mouseY, toInt_add_ofInt_eq_iff (by decide) fits.1 fits.2, balanced_iff_dvd,
    ← Int.dvd_neg, Int.neg_sub, Int.sub_neg, Int.add_comm, ← Int.sub_eq_add_neg]
  rfl

/-- **The packets are decoded as sent exactly if on each axis as many signs are set as bytes have
their high bit set**, modulo `2 ^ 24`, as long as the sums fit in an `int`. -/
theorem decoded_iff {mouse : MouseState} (start : mouse.mouseCycle = 0)
    {interrupts : List Interrupt} {packets : List Packet}
    (sent : delivered interrupts = packets.flatMap Packet.bytes)
    (fitsX : FitsInt (mouse.mouseX.toInt + (packets.map Packet.dx).sum))
    (fitsY : FitsInt (mouse.mouseY.toInt - (packets.map Packet.dy).sum)) :
    Decoded mouse interrupts packets ↔
      Balanced Packet.signX Packet.b1 packets ∧ Balanced Packet.signY Packet.b2 packets := by
  have run := mouseRun_packets start sent
  rw [← mouseX_eq_iff fitsX, ← mouseY_eq_iff fitsY]
  constructor
  · rintro ⟨after, done, x, y, -⟩
    obtain rfl := Option.some.inj (run.symm.trans done)
    exact ⟨x, y⟩
  · rintro ⟨x, y⟩
    exact ⟨_, run, x, y, foldl_take_mouseButton packets mouse⟩

/-! ## A fast movement -/

/-- An interrupt of the mouse that delivers a byte at once. -/
def Interrupt.of (byte : Byte) : Interrupt := ⟨0x21, fun _ => 0x21, fun _ => byte⟩

/-- The driver before the first packet. -/
def MouseState.start : MouseState := ⟨0, fun _ => 0, 0, 0, 0⟩

/-- A packet that moves the mouse by 200 to the right. -/
def Packet.fast : Packet := ⟨0x08, 200, 0, rfl, rfl, rfl⟩

/-- A packet that moves the mouse by 5 to the right and by 3 down, with the left button. -/
def Packet.slow : Packet := ⟨0x29, 5, 0xFD, rfl, rfl, rfl⟩

/-- A slow movement is decoded, with an interrupt of the keyboard in between. -/
theorem slow_decoded : Decoded MouseState.start
    [.of 0x29, ⟨0x01, fun _ => 0x01, fun _ => 0x1E⟩, .of 5, .of 0xFD] [Packet.slow] := by
  refine (decoded_iff rfl ?_ ?_ ?_).mpr ?_
  · rfl
  · decide
  · decide
  · decide

/-- A fast movement to the right is decoded as one to the left. -/
theorem fast_not_decoded : ¬ ∀ mouse interrupts packets, mouse.mouseCycle = 0 →
    delivered interrupts = packets.flatMap Packet.bytes →
    FitsInt (mouse.mouseX.toInt + (packets.map Packet.dx).sum) →
    FitsInt (mouse.mouseY.toInt - (packets.map Packet.dy).sum) →
    Decoded mouse interrupts packets := by
  intro all
  obtain ⟨after, done, x, -⟩ := all .start [.of 0x08, .of 200, .of 0] [Packet.fast] rfl rfl
    (by decide) (by decide)
  obtain rfl := Option.some.inj done
  exact absurd x (by decide)

end CocosOS.Kernel.Drivers.Mouse
