import CocosOS.Library.ByteMemory

/-!
# An interrupt controller behind its ports

The 8259A. A command byte with bit 4 starts an initialization, and the bytes at the data port are
then taken for the vectors, for the wiring of a second controller, unless there is none, and for the
mode, if the command announced it; only what comes after them is the mask of the lines. An
initialization clears the mask. The other commands have no effect on vectors and masks.

In the 8086 mode a line is announced with its number in the vectors. In the other mode the
controller announces a call, and the byte that stands for the vector is the low byte of its address.

After a command with a mode to come and a second controller, three bytes at the data port initialize
the controller, whatever it was before (`data_data_data`).
-/

set_option autoImplicit false

namespace CocosOS.Library.InterruptController

open ByteMemory

/-- What the next byte at the data port is taken for. -/
inductive Awaited where
  | vectors
  | wiring
  | mode
  | mask
  deriving DecidableEq, Repr

structure Controller where
  /-- The command of the last initialization. -/
  initialization : Byte
  vectors : Byte
  wiring : Byte
  mode : Byte
  mask : Byte
  awaited : Awaited
  deriving DecidableEq, Repr

namespace Controller

def command (value : Byte) (controller : Controller) : Controller :=
  if value.getLsbD 4 then
    { controller with
      initialization := value, wiring := 0, mode := 0, mask := 0, awaited := .vectors }
  else controller

/-- Whether the mode is still to come behind the wiring. -/
def afterWiring (controller : Controller) : Awaited :=
  if controller.initialization.getLsbD 0 then .mode else .mask

def data (value : Byte) (controller : Controller) : Controller :=
  match controller.awaited with
  | .vectors =>
    { controller with
      vectors := value
      awaited := if controller.initialization.getLsbD 1 then controller.afterWiring else .wiring }
  | .wiring => { controller with wiring := value, awaited := controller.afterWiring }
  | .mode => { controller with mode := value, awaited := .mask }
  | .mask => { controller with mask := value }

/-- The byte that the processor takes for the vector of a line. -/
def vector (controller : Controller) (line : BitVec 3) : Byte :=
  if controller.mode.getLsbD 0 then (controller.vectors &&& 0xF8) ||| line.setWidth 8
  else if controller.initialization.getLsbD 2 then
    (controller.initialization &&& 0xE0) ||| (line.setWidth 8 <<< 2)
  else (controller.initialization &&& 0xC0) ||| (line.setWidth 8 <<< 3)

/-- A line that is not masked is announced. -/
def Enabled (controller : Controller) (line : BitVec 3) : Prop :=
  controller.mask.getLsbD line.toNat = false

/-- **An initialization forgets what the controller was.** -/
theorem data_data_data {value : Byte} (starts : value.getLsbD 4 = true)
    (announced : value.getLsbD 0 = true) (cascade : value.getLsbD 1 = false)
    (vectors wiring mode : Byte) (controller : Controller) :
    (((controller.command value).data vectors).data wiring).data mode =
      ⟨value, vectors, wiring, mode, 0, .mask⟩ := by
  rw [command, if_pos starts]
  simp only [data, afterWiring, announced, cascade, Bool.false_eq_true, if_false, if_true]

end Controller

end CocosOS.Library.InterruptController
