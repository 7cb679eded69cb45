import CocosOS.Library.CString
import Mathlib.Logic.Function.Basic
import Mathlib.Tactic.Common
import Mathlib.Tactic.SplitIfs

/-!
# An ATA device behind its ports

An ideal ATA device: it stores 512 bytes for each 28-bit address and takes the address from the
drive, high, mid and low registers. A command makes it busy for some reads of its status, as
many as `delays` tells for that command; then the data port moves the words of one sector, the
first one first. While the device is busy, or when no transfer is under way, the data port moves
nothing.

After a read command, and once the device is no longer busy, 256 reads of the data port return
the words of the addressed sector (`readWords_eq`). After a write command, 256 stores to it leave
these words in the addressed sector and every other sector as it was (`writeWords_eq`).
-/

set_option autoImplicit false

namespace CocosOS.Library.AtaDevice

open CString

/-! ## Words and bytes -/

/-- The word of the two bytes at `2 * index`, little endian. -/
def word (bytes : Bytes) (index : ℕ) : BitVec 16 := bytes (2 * index + 1) ++ bytes (2 * index)

/-- Store a word in the two bytes at `2 * index`. -/
def setWord (bytes : Bytes) (index : ℕ) (value : BitVec 16) : Bytes :=
  Function.update (Function.update bytes (2 * index) (value.extractLsb' 0 8)) (2 * index + 1)
    (value.extractLsb' 8 8)

/-- The bytes below twice the number of words are those of another buffer. -/
def copyWords (dst src : Bytes) (count : ℕ) : Bytes :=
  fun offset => if offset < 2 * count then src offset else dst offset

theorem copyWords_zero (dst src : Bytes) : copyWords dst src 0 = dst := by
  funext offset
  exact if_neg (Nat.not_lt_zero _)

theorem copyWords_apply {dst src : Bytes} {count offset : ℕ} (inside : offset < 2 * count) :
    copyWords dst src count offset = src offset := if_pos inside

/-- A copy depends only on the bytes it reads. -/
theorem copyWords_congr {dst src src' : Bytes} {count : ℕ}
    (same : ∀ offset < 2 * count, src' offset = src offset) :
    copyWords dst src' count = copyWords dst src count := by
  funext offset
  by_cases inside : offset < 2 * count
  · rw [copyWords_apply inside, copyWords_apply inside, same offset inside]
  · rw [copyWords, copyWords, if_neg inside, if_neg inside]

/-- Copying one more word. -/
theorem setWord_copyWords (dst src : Bytes) (count : ℕ) :
    setWord (copyWords dst src count) count (word src count) = copyWords dst src (count + 1) := by
  have low : (word src count).extractLsb' 0 8 = src (2 * count) := by
    refine BitVec.eq_of_getElem_eq fun i small => ?_
    simp only [word, BitVec.getElem_extractLsb', BitVec.getLsbD_append]
    simp [small]
  have high : (word src count).extractLsb' 8 8 = src (2 * count + 1) := by
    refine BitVec.eq_of_getElem_eq fun i small => ?_
    simp only [word, BitVec.getElem_extractLsb', BitVec.getLsbD_append]
    simp [small]
  funext offset
  rw [setWord, low, high]
  by_cases second : offset = 2 * count + 1
  · rw [second, Function.update_self, copyWords, if_pos (by omega)]
  · rw [Function.update_of_ne second]
    by_cases first : offset = 2 * count
    · rw [first, Function.update_self, copyWords, if_pos (by omega)]
    · rw [Function.update_of_ne first, copyWords, copyWords]
      exact if_congr (by omega) rfl rfl

/-! ## The device -/

/-- What the data port moves: the words of a sector from an index on, in or out. -/
inductive Transfer where
  | idle
  | reading (sector : BitVec 28) (index : ℕ)
  | writing (sector : BitVec 28) (index : ℕ)
  deriving DecidableEq, Repr

structure Device where
  sectors : BitVec 28 → Bytes
  drive : BitVec 8
  sectorCount : BitVec 8
  lbaLow : BitVec 8
  lbaMid : BitVec 8
  lbaHigh : BitVec 8
  transfer : Transfer
  /-- How many more reads of the status show the device busy. -/
  busy : ℕ
  /-- How long each command to come makes the device busy. -/
  delays : ℕ → ℕ

namespace Device

def DATA : BitVec 16 := 0x1F0

def SECTOR_COUNT : BitVec 16 := 0x1F2

def LBA_LOW : BitVec 16 := 0x1F3

def LBA_MID : BitVec 16 := 0x1F4

def LBA_HIGH : BitVec 16 := 0x1F5

def DRIVE : BitVec 16 := 0x1F6

/-- The command port, which reads as the status. -/
def COMMAND : BitVec 16 := 0x1F7

/-- The address in the registers. -/
def address (dev : Device) : BitVec 28 :=
  dev.drive.extractLsb' 0 4 ++ dev.lbaHigh ++ dev.lbaMid ++ dev.lbaLow

/-- Start a command. Only transfers of a single sector are there. -/
def command (dev : Device) (value : BitVec 8) : Device :=
  { dev with
    transfer :=
      if dev.sectorCount ≠ 1 then .idle
      else if value = 0x20 then .reading dev.address 0
      else if value = 0x30 then .writing dev.address 0
      else .idle
    busy := dev.delays 0
    delays := fun number => dev.delays (number + 1) }

def outb (dev : Device) (port : BitVec 16) (value : BitVec 8) : Device :=
  if port = SECTOR_COUNT then { dev with sectorCount := value }
  else if port = LBA_LOW then { dev with lbaLow := value }
  else if port = LBA_MID then { dev with lbaMid := value }
  else if port = LBA_HIGH then { dev with lbaHigh := value }
  else if port = DRIVE then { dev with drive := value }
  else if port = COMMAND then dev.command value
  else dev

/-- Reading the status is the only read of a byte. -/
def inb (dev : Device) (port : BitVec 16) : BitVec 8 × Device :=
  if port = COMMAND then
    if dev.busy = 0 then (0x40, dev) else (0x80, { dev with busy := dev.busy - 1 })
  else (0xFF, dev)

theorem inb_of_ready {dev : Device} (ready : dev.busy = 0) : dev.inb COMMAND = (0x40, dev) := by
  rw [inb, if_pos rfl, if_pos ready]

theorem inb_of_busy {dev : Device} (busy : dev.busy ≠ 0) :
    dev.inb COMMAND = (0x80, { dev with busy := dev.busy - 1 }) := by
  rw [inb, if_pos rfl, if_neg busy]

/-- The transfer after one more word. -/
def Transfer.next : Transfer → Transfer
  | .idle => .idle
  | .reading sector index => if index = 255 then .idle else .reading sector (index + 1)
  | .writing sector index => if index = 255 then .idle else .writing sector (index + 1)

def inw (dev : Device) (port : BitVec 16) : BitVec 16 × Device :=
  match dev.transfer with
  | .reading sector index =>
    if port = DATA ∧ dev.busy = 0 then
      (word (dev.sectors sector) index, { dev with transfer := Transfer.next dev.transfer })
    else (0xFFFF, dev)
  | _ => (0xFFFF, dev)

def outw (dev : Device) (port : BitVec 16) (value : BitVec 16) : Device :=
  match dev.transfer with
  | .writing sector index =>
    if port = DATA ∧ dev.busy = 0 then
      { dev with
        sectors := Function.update dev.sectors sector
          (setWord (dev.sectors sector) index value)
        transfer := Transfer.next dev.transfer }
    else dev
  | _ => dev

/-! ## Whole sectors -/

/-- Read the words from `index` on into a buffer. -/
def readWords : ℕ → ℕ → Bytes → Device → Bytes × Device
  | 0, _, buffer, dev => (buffer, dev)
  | rounds + 1, index, buffer, dev =>
    let (value, dev) := dev.inw DATA
    readWords rounds (index + 1) (setWord buffer index value) dev

/-- Store the words of a buffer from `index` on. -/
def writeWords : ℕ → ℕ → Bytes → Device → Device
  | 0, _, _, dev => dev
  | rounds + 1, index, buffer, dev =>
    writeWords rounds (index + 1) buffer (dev.outw DATA (word buffer index))

variable {sector : BitVec 28}

/-- **Reading moves the sector into the buffer** and leaves the sectors alone. -/
theorem readWords_eq (rounds index : ℕ) (dev : Device) (positive : 0 < rounds)
    (rest : index + rounds = 256) (buffer : Bytes)
    (reading : dev.transfer = .reading sector index) (ready : dev.busy = 0) :
    readWords rounds index (copyWords buffer (dev.sectors sector) index) dev =
      (copyWords buffer (dev.sectors sector) 256, { dev with transfer := .idle }) := by
  induction rounds generalizing index dev with
  | zero => exact absurd positive (Nat.lt_irrefl 0)
  | succ rounds ih =>
      have step : dev.inw DATA = (word (dev.sectors sector) index,
          { dev with transfer := Transfer.next (.reading sector index) }) := by
        rw [inw, reading]
        exact if_pos ⟨rfl, ready⟩
      rw [readWords, step]
      dsimp only
      rw [setWord_copyWords]
      rcases Nat.eq_zero_or_pos rounds with rfl | more
      · have last : index = 255 := by omega
        rw [readWords, last, Transfer.next, if_pos rfl]
      · have going : Transfer.next (.reading sector index) = .reading sector (index + 1) :=
          if_neg (by omega)
        have later : index + 1 + rounds = 256 := by omega
        rw [going]
        exact ih (index + 1) { dev with transfer := .reading sector (index + 1) } more later rfl
          ready

/-- **Writing moves the buffer into the sector**, and no other sector changes. -/
theorem writeWords_eq (rounds index : ℕ) (dev : Device) (positive : 0 < rounds)
    (rest : index + rounds = 256) (buffer content : Bytes)
    (here : dev.sectors sector = copyWords content buffer index)
    (writing : dev.transfer = .writing sector index) (ready : dev.busy = 0) :
    writeWords rounds index buffer dev =
      { dev with
        sectors := Function.update dev.sectors sector (copyWords content buffer 256)
        transfer := .idle } := by
  induction rounds generalizing index dev with
  | zero => exact absurd positive (Nat.lt_irrefl 0)
  | succ rounds ih =>
      have step : dev.outw DATA (word buffer index) = { dev with
          sectors := Function.update dev.sectors sector (copyWords content buffer (index + 1))
          transfer := Transfer.next (.writing sector index) } := by
        rw [outw, writing]
        dsimp only
        rw [if_pos ⟨rfl, ready⟩, here, setWord_copyWords]
      rw [writeWords, step]
      rcases Nat.eq_zero_or_pos rounds with rfl | more
      · have last : index = 255 := by omega
        rw [writeWords, last, Transfer.next, if_pos rfl]
      · have going : Transfer.next (.writing sector index) = .writing sector (index + 1) :=
          if_neg (by omega)
        have later : index + 1 + rounds = 256 := by omega
        rw [going]
        refine (ih (index + 1)
          { dev with
            sectors := Function.update dev.sectors sector (copyWords content buffer (index + 1))
            transfer := .writing sector (index + 1) }
          more later (Function.update_self ..) rfl ready).trans ?_
        simp only [Function.update_idem]

end Device

end CocosOS.Library.AtaDevice
