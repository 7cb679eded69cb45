import CocosOS.Kernel.Drivers.Disk
import CocosOS.Library.BoundedArray

/-!
# The start of the kernel

`kernel_main` reads sector 0 and stops in `internal_error_handler` if the driver does not return 0.
The driver always returns 1 and does not look at the error bit of the status. So every start stops
there (`kernelMain_eq`), and that is right exactly if the device did report an error
(`bootsRight_iff`).

The device may do anything: it is busy for finitely many reads of the status, twice, then its
status is any with which it is not busy, and the data port delivers any words. The ideal device is
one of these (`diskReadSector_ideal`). A call of another part of the kernel is only told, and
returns.
-/

set_option autoImplicit false

namespace CocosOS.Kernel.KernelMain

open Library.AtaDevice Library.BoundedArray Library.ByteMemory Library.CString

/-! ## Ports -/

/-- What the next reads of the status port and of the data port deliver, and what was written, the
first one first. -/
structure Ports where
  statuses : List Byte
  words : List (BitVec 16)
  written : List (BitVec 16 × Byte)

namespace Ports

/-- `outb`. -/
def outb (ports : Ports) (port : BitVec 16) (value : Byte) : Ports :=
  { ports with written := ports.written ++ [(port, value)] }

/-- `inw` of the data port. -/
def inw (ports : Ports) : BitVec 16 × Ports :=
  (ports.words.headD 0xFFFF, { ports with words := ports.words.tail })

end Ports

/-- The loop of `ata_wait`. It has no result while the device has been busy all the time. -/
def waitReady : List Byte → Option (List Byte)
  | [] => none
  | status :: statuses => if status &&& 0x80 ≠ 0 then waitReady statuses else some statuses

/-- `ata_wait`. -/
def ataWait (ports : Ports) : Option Ports :=
  (waitReady ports.statuses).map fun statuses => { ports with statuses := statuses }

/-- The loop over the data port, from a word of the buffer on. -/
def readData : ℕ → ℕ → Bytes → Ports → Bytes × Ports
  | 0, _, buffer, ports => (buffer, ports)
  | rounds + 1, index, buffer, ports =>
    readData rounds (index + 1) (setWord buffer index ports.inw.1) ports.inw.2

/-- What `disk_read_sector` returns, the buffer, and the ports after it. -/
structure ReadResult where
  returned : ℕ
  buffer : Bytes
  ports : Ports

/-- `disk_read_sector`. -/
def diskReadSector (lba : Word) (buffer : Bytes) (ports : Ports) : Option ReadResult := do
  let ports ← ataWait ports
  let ports := ports.outb Device.DRIVE (0xE0 ||| ((lba >>> 24) &&& (0x0F : Word)).setWidth 8)
  let ports := ports.outb Device.SECTOR_COUNT 1
  let ports := ports.outb Device.LBA_LOW (lba.setWidth 8)
  let ports := ports.outb Device.LBA_MID ((lba >>> 8).setWidth 8)
  let ports := ports.outb Device.LBA_HIGH ((lba >>> 16).setWidth 8)
  let ports := ports.outb Device.COMMAND Drivers.Disk.ATA_CMD_READ
  let ports ← ataWait ports
  let data := readData 256 0 buffer ports
  return ⟨1, data.1, data.2⟩

/-! ## The start -/

/-- The calls of `kernel_main` and of `internal_error_handler`. -/
inductive Call where
  | logError (msg : String)
  | internalErrorHandler
  | cli
  | displayClear
  | eventInit
  | bladeInit
  | displayPrint (str : String) (pos : ℕ)
  | logInit
  | logInfo (msg : String)
  | logWarn (msg : String)
  | memoryInit (start size : ℕ)
  | memoryAlloc (size : ℕ)
  | gdtInit
  | idtInit
  | picInit
  | pitInit (frequency : ℕ)
  | sti
  | kernelStage2
  deriving DecidableEq, Repr

/-- The calls so far, the buffer of `kernel_main`, and whether the processor stays in an endless
loop. -/
structure Boot where
  calls : List Call
  buffer : Bytes
  halted : Bool

/-- A call that returns. Nothing is called out of an endless loop. -/
def Boot.call (boot : Boot) (call : Call) : Boot :=
  if boot.halted then boot else { boot with calls := boot.calls ++ [call] }

/-- `internal_error_handler`, which ends in an endless loop. -/
def internalErrorHandler (boot : Boot) : Boot :=
  let boot := boot.call .internalErrorHandler
  let boot := boot.call (.logError "Error critico del sistema")
  let boot := boot.call .cli
  { boot with halted := true }

/-- The calls of `kernel_main` behind its test. -/
def remainingCalls : List Call :=
  [.displayClear, .eventInit, .bladeInit, .displayPrint "cocos OS iniciado" 0, .logInit,
    .logInfo "Kernel iniciado", .logWarn "Memoria sin mapear", .logError "Un driver fallo",
    .memoryInit 0x100000 (1024 * 1024), .memoryAlloc 64, .gdtInit, .idtInit, .picInit,
    .pitInit 1000, .sti, .kernelStage2]

/-- `kernel_main`, with what its buffer holds at first. -/
def kernelMain (buffer : Bytes) (ports : Ports) : Option Boot :=
  (diskReadSector 0 buffer ports).map fun result =>
    let boot : Boot := ⟨[], result.buffer, false⟩
    let boot :=
      if result.returned ≠ 0 then
        internalErrorHandler
          (boot.call (.logError "Fallo al leer sector de disco, codigo de error: %d"))
      else boot
    remainingCalls.foldl Boot.call boot

/-! ## Devices -/

/-- The device is busy for some reads of its status, and then it is not. -/
structure Wait where
  busy : List Byte
  status : Byte
  all_busy : ∀ status ∈ busy, status &&& 0x80 ≠ 0
  ready : status &&& 0x80 = 0

/-- What the reads of the status deliver during a wait. -/
def Wait.statuses (wait : Wait) : List Byte := wait.busy ++ [wait.status]

/-- What the device does: it waits before the command and after it, and delivers a sector. -/
structure Behaviour where
  before : Wait
  after : Wait
  words : List (BitVec 16)
  full : words.length = 256

namespace Behaviour

def ports (device : Behaviour) : Ports :=
  ⟨device.before.statuses ++ device.after.statuses, device.words, []⟩

/-- The error bit of the status after the command. -/
def ReportsError (device : Behaviour) : Prop := device.after.status &&& 0x01 ≠ 0

instance : DecidablePred ReportsError := fun _ => inferInstanceAs (Decidable (_ ≠ _))

end Behaviour

/-- The bytes of a word in memory. -/
def wordBytes (value : BitVec 16) : List Byte := [value.extractLsb' 0 8, value.extractLsb' 8 8]

/-- The bytes that a device delivers. -/
def Behaviour.delivered (device : Behaviour) : List Byte := device.words.flatMap wordBytes

/-- `kernel_main` enters `internal_error_handler` exactly if the device reported an error, and else
goes on to `kernel_stage2` with the sector in its buffer. -/
def BootsRight (device : Behaviour) (buffer : Bytes) : Prop :=
  ∃ boot, kernelMain buffer device.ports = some boot ∧
    (.internalErrorHandler ∈ boot.calls ↔ device.ReportsError) ∧
    (¬ device.ReportsError →
      .kernelStage2 ∈ boot.calls ∧ slice boot.buffer 0 512 = device.delivered)

/-! ## Reading -/

theorem waitReady_statuses (wait : Wait) (rest : List Byte) :
    waitReady (wait.statuses ++ rest) = some rest := by
  obtain ⟨busy, status, all_busy, ready⟩ := wait
  rw [Wait.statuses]
  dsimp only
  induction busy with
  | nil => exact if_neg fun set => set ready
  | cons first busy ih =>
      rw [List.cons_append, List.cons_append, waitReady, if_pos (all_busy first List.mem_cons_self)]
      exact ih fun status member => all_busy status (List.mem_cons_of_mem _ member)

theorem length_flatMap_wordBytes (words : List (BitVec 16)) :
    (words.flatMap wordBytes).length = 2 * words.length := by
  induction words with
  | nil => rfl
  | cons value words ih =>
      rw [List.flatMap_cons, List.length_append, ih, List.length_cons, Nat.mul_succ, Nat.add_comm]
      rfl

/-- A word that is stored starts an overlay. -/
theorem overlay_setWord (buffer : Bytes) (index : ℕ) (value : BitVec 16) (bytes : List Byte) :
    overlay (setWord buffer index value) (2 * (index + 1)) bytes =
      overlay buffer (2 * index) (wordBytes value ++ bytes) := by
  rw [setWord, Nat.mul_succ, overlay_cons, overlay_cons]
  rfl

/-- **The loop over the data port lays the words over the buffer.** -/
theorem readData_eq (words : List (BitVec 16)) (index : ℕ) (buffer : Bytes) (ports : Ports) :
    readData words.length index buffer { ports with words := words } =
      (overlay buffer (2 * index) (words.flatMap wordBytes), { ports with words := [] }) := by
  induction words generalizing index buffer with
  | nil => rw [List.length_nil, readData, List.flatMap_nil, overlay_nil]
  | cons value words ih =>
      rw [List.length_cons, readData, List.flatMap_cons, ← overlay_setWord]
      exact ih (index + 1) (setWord buffer index value)

/-- What `disk_read_sector` writes to the registers. -/
def commands (lba : Word) : List (BitVec 16 × Byte) :=
  [(Device.DRIVE, 0xE0 ||| ((lba >>> 24) &&& (0x0F : Word)).setWidth 8), (Device.SECTOR_COUNT, 1),
    (Device.LBA_LOW, lba.setWidth 8), (Device.LBA_MID, (lba >>> 8).setWidth 8),
    (Device.LBA_HIGH, (lba >>> 16).setWidth 8), (Device.COMMAND, Drivers.Disk.ATA_CMD_READ)]

/-- **A read takes the sector into the buffer and returns 1**, whatever the status is. -/
theorem diskReadSector_eq (lba : Word) (buffer : Bytes) (device : Behaviour) :
    diskReadSector lba buffer device.ports =
      some ⟨1, overlay buffer 0 device.delivered, ⟨[], [], commands lba⟩⟩ := by
  have first := waitReady_statuses device.before device.after.statuses
  have second := waitReady_statuses device.after []
  rw [List.append_nil] at second
  have data := readData_eq device.words 0 buffer ⟨[], device.words, commands lba⟩
  rw [device.full, Nat.mul_zero] at data
  rw [diskReadSector, ataWait, Behaviour.ports]
  dsimp only
  rw [first]
  dsimp only [Option.map_some, Option.bind_eq_bind, Option.bind_some]
  rw [ataWait]
  dsimp only [Ports.outb]
  rw [second]
  exact congrArg (fun data : Bytes × Ports => some (⟨1, data.1, data.2⟩ : ReadResult)) data

/-! ## The ideal device -/

/-- A device is busy for some reads. -/
def Wait.busyFor (reads : ℕ) : Wait where
  busy := List.replicate reads 0x80
  status := 0x40
  all_busy status member := by
    rw [List.eq_of_mem_replicate member]
    decide
  ready := by decide

/-- What the ideal device does when it is asked for a sector. -/
def Behaviour.ideal (dev : Device) (lba : Word) : Behaviour where
  before := .busyFor dev.busy
  after := .busyFor (dev.delays 0)
  words := (List.range 256).map (word (dev.sectors (Drivers.Disk.sectorNumber lba)))
  full := by rw [List.length_map, List.length_range]

/-- Copying words lays their bytes over the buffer. -/
theorem copyWords_eq_overlay (buffer source : Bytes) (count : ℕ) :
    copyWords buffer source count =
      overlay buffer 0 (((List.range count).map (word source)).flatMap wordBytes) := by
  induction count with
  | zero => exact (copyWords_zero buffer source).trans (overlay_nil buffer 0).symm
  | succ count ih =>
      have last := overlay_setWord (copyWords buffer source count) count (word source count) []
      rw [overlay_nil, setWord_copyWords, List.append_nil] at last
      rw [last, List.range_succ, List.map_append, List.flatMap_append, ← overlay_overlay, ← ih,
        length_flatMap_wordBytes, List.length_map, List.length_range, Nat.zero_add]
      rfl

/-- **The ideal device is one of the devices**: the driver returns the same and fills the buffer in
the same way. -/
theorem diskReadSector_ideal (lba : Word) (buffer : Bytes) (dev : Device) :
    (diskReadSector lba buffer (Behaviour.ideal dev lba).ports).map
        (fun result => (result.returned, result.buffer)) =
      some ((Drivers.Disk.diskReadSector lba buffer dev).returned,
        (Drivers.Disk.diskReadSector lba buffer dev).buffer) := by
  obtain ⟨returned, read, -⟩ := Drivers.Disk.diskReadSector_eq lba buffer dev
  rw [diskReadSector_eq, returned, read, copyWords_eq_overlay]
  rfl

/-! ## Where a start ends -/

@[simp] theorem Boot.call_running (calls : List Call) (buffer : Bytes) (call : Call) :
    (Boot.mk calls buffer false).call call = ⟨calls ++ [call], buffer, false⟩ := rfl

/-- Nothing is called behind an endless loop. -/
theorem foldl_call_halted (boot : Boot) (halted : boot.halted = true) (calls : List Call) :
    calls.foldl Boot.call boot = boot := by
  induction calls with
  | nil => rfl
  | cons call calls ih =>
      rw [List.foldl_cons, Boot.call, if_pos halted]
      exact ih

/-- **Every start ends in `internal_error_handler`**, with the sector in the buffer. -/
theorem kernelMain_eq (device : Behaviour) (buffer : Bytes) :
    kernelMain buffer device.ports = some
      { calls :=
          [.logError "Fallo al leer sector de disco, codigo de error: %d", .internalErrorHandler,
            .logError "Error critico del sistema", .cli]
        buffer := overlay buffer 0 device.delivered
        halted := true } := by
  rw [kernelMain, diskReadSector_eq, Option.map_some]
  refine congrArg some ?_
  dsimp only
  rw [if_pos Nat.one_ne_zero, Boot.call_running]
  exact foldl_call_halted _ rfl _

/-- **The start is right exactly if the device reports an error.** -/
theorem bootsRight_iff (device : Behaviour) (buffer : Bytes) :
    BootsRight device buffer ↔ device.ReportsError := by
  have boot := kernelMain_eq device buffer
  constructor
  · rintro ⟨boot', started, handler, -⟩
    obtain rfl := Option.some.inj (boot.symm.trans started)
    exact handler.mp (List.mem_cons_of_mem _ List.mem_cons_self)
  · intro failed
    refine ⟨_, boot, iff_of_true ?_ failed, fun succeeded => absurd failed succeeded⟩
    exact List.mem_cons_of_mem _ List.mem_cons_self

/-- A start from the ideal device stops, although the sector was read. -/
theorem boot_stops : ¬ ∀ device buffer, BootsRight device buffer := by
  intro right
  obtain ⟨boot, started, handler, -⟩ := right (.ideal Drivers.Disk.blank 0) fun _ => 0
  obtain rfl := Option.some.inj ((kernelMain_eq _ _).symm.trans started)
  have failed := handler.mp (List.mem_cons_of_mem _ List.mem_cons_self)
  exact absurd failed (by decide)

end CocosOS.Kernel.KernelMain
