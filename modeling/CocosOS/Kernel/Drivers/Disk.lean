import CocosOS.Library.AtaDevice
import CocosOS.Library.ByteMemory

/-!
# The disk driver

`kernel/drivers/disk/disk.c` against an ideal ATA device. The driver waits while the device is
busy, puts a 32-bit address into the registers, and moves 256 words through the data port. A
buffer is the bytes the caller passes. Both functions always report success.

The registers hold 28 bits of an address and the driver drops the other four without a word
(`sectorNumber`, `address_select`). So a call reaches the sector of its low 28 bits
(`diskReadSector_eq`, `diskWriteSector_eq`), and the calls on a set of addresses read back what
they wrote, each at its own address, exactly if no two of these addresses agree in their low 28
bits (`disk_addresses_iff`).
-/

set_option autoImplicit false

namespace CocosOS.Kernel.Drivers.Disk

open Library.ByteMemory Library.CString Library.AtaDevice Device

/-! ## The driver -/

/-- `ATA_CMD_READ`. -/
def ATA_CMD_READ : Byte := 0x20

/-- `ATA_CMD_WRITE`. -/
def ATA_CMD_WRITE : Byte := 0x30

theorem status_ready : (0x40 : Byte) &&& (0x80 : Byte) = 0 := by decide

/-- `ata_wait`. The loop ends because the device is busy for finitely many reads. -/
def ataWait (dev : Device) : Device :=
  if (dev.inb COMMAND).1 &&& (0x80 : Byte) ≠ 0 then ataWait (dev.inb COMMAND).2
  else (dev.inb COMMAND).2
termination_by dev.busy
decreasing_by
  rename_i status
  have busy : dev.busy ≠ 0 := by
    intro ready
    rw [inb_of_ready ready] at status
    exact status status_ready
  rw [inb_of_busy busy]
  exact Nat.sub_lt (Nat.pos_of_ne_zero busy) Nat.one_pos

/-- The writes to the registers that both functions make before their command. -/
def select (lba : Word) (dev : Device) : Device :=
  let dev := dev.outb DRIVE (0xE0 ||| ((lba >>> 24) &&& (0x0F : Word)).setWidth 8)
  let dev := dev.outb SECTOR_COUNT 1
  let dev := dev.outb LBA_LOW (lba.setWidth 8)
  let dev := dev.outb LBA_MID ((lba >>> 8).setWidth 8)
  dev.outb LBA_HIGH ((lba >>> 16).setWidth 8)

/-- What `disk_read_sector` returns, the buffer, and the device after it. -/
structure ReadResult where
  returned : ℕ
  buffer : Bytes
  device : Device

/-- `disk_read_sector`. -/
def diskReadSector (lba : Word) (buffer : Bytes) (dev : Device) : ReadResult :=
  let dev := ataWait dev
  let dev := select lba dev
  let dev := dev.outb COMMAND ATA_CMD_READ
  let dev := ataWait dev
  let words := readWords 256 0 buffer dev
  ⟨1, words.1, words.2⟩

/-- `disk_write_sector`, with what it returns. -/
def diskWriteSector (lba : Word) (buffer : Bytes) (dev : Device) : ℕ × Device :=
  let dev := ataWait dev
  let dev := select lba dev
  let dev := dev.outb COMMAND ATA_CMD_WRITE
  let dev := ataWait dev
  (1, writeWords 256 0 buffer dev)

/-! ## What a call does -/

/-- The sector that the registers name for an address: its low 28 bits. -/
def sectorNumber (lba : Word) : BitVec 28 := lba.setWidth 28

theorem ataWait_eq (dev : Device) : ataWait dev = { dev with busy := 0 } := by
  induction count : dev.busy generalizing dev with
  | zero =>
      rw [ataWait, inb_of_ready count, ← count]
      exact if_neg fun set => set status_ready
  | succ count' ih =>
      have busy : dev.busy ≠ 0 := by omega
      have status : ((0x80 : Byte) &&& (0x80 : Byte)) ≠ 0 := by decide
      rw [ataWait, inb_of_busy busy, if_pos status]
      exact ih { dev with busy := dev.busy - 1 } (by simp [count])

/-- **The registers hold the low 28 bits of the address.** -/
theorem address_select (lba : Word) (dev : Device) :
    (select lba dev).address = sectorNumber lba := by
  have registers : (select lba dev).address =
      (0xE0 ||| ((lba >>> 24) &&& (0x0F : Word)).setWidth 8 : Byte).extractLsb' 0 4 ++
        (lba >>> 16).setWidth 8 ++ (lba >>> 8).setWidth 8 ++ lba.setWidth 8 := rfl
  rw [registers, sectorNumber]
  refine BitVec.eq_of_getLsbD_eq fun i small => ?_
  simp only [BitVec.getLsbD_append, BitVec.getLsbD_extractLsb', BitVec.getLsbD_setWidth,
    BitVec.getLsbD_or, BitVec.getLsbD_and, BitVec.getLsbD_ushiftRight]
  by_cases low : i < 8
  · simp [low, small]
  by_cases mid : i < 16
  · have inner : i - 8 < 8 := by omega
    have back : 8 + (i - 8) = i := by omega
    simp [low, inner, back, small]
  by_cases high : i < 24
  · have inner : i - 8 - 8 < 8 := by omega
    have middle : ¬ i - 8 < 8 := by omega
    have back : 16 + (i - 8 - 8) = i := by omega
    simp [low, middle, inner, back, small]
  · have top : i = 24 ∨ i = 25 ∨ i = 26 ∨ i = 27 := by omega
    rcases top with rfl | rfl | rfl | rfl <;> simp

/-- The device when the loop over the data port starts. -/
def started (lba : Word) (command : Byte) (dev : Device) : Device :=
  ataWait ((select lba (ataWait dev)).outb COMMAND command)

theorem started_busy (lba : Word) (command : Byte) (dev : Device) :
    (started lba command dev).busy = 0 := by
  rw [started, ataWait_eq]

theorem started_sectors (lba : Word) (command : Byte) (dev : Device) :
    (started lba command dev).sectors = dev.sectors := by
  rw [started, ataWait_eq, ataWait_eq]
  rfl

theorem started_read (lba : Word) (dev : Device) :
    (started lba ATA_CMD_READ dev).transfer = .reading (sectorNumber lba) 0 := by
  rw [started, ataWait_eq, ← address_select lba (ataWait dev)]
  rfl

theorem started_write (lba : Word) (dev : Device) :
    (started lba ATA_CMD_WRITE dev).transfer = .writing (sectorNumber lba) 0 := by
  rw [started, ataWait_eq, ← address_select lba (ataWait dev)]
  rfl

/-- **A read returns the sector of the low 28 bits** and changes no sector. -/
theorem diskReadSector_eq (lba : Word) (buffer : Bytes) (dev : Device) :
    (diskReadSector lba buffer dev).returned = 1 ∧
      (diskReadSector lba buffer dev).buffer =
        copyWords buffer (dev.sectors (sectorNumber lba)) 256 ∧
      (diskReadSector lba buffer dev).device.sectors = dev.sectors := by
  have sectors := started_sectors lba ATA_CMD_READ dev
  have words := readWords_eq 256 0 (started lba ATA_CMD_READ dev) (by decide) rfl buffer
    (started_read lba dev) (started_busy _ _ _)
  rw [copyWords_zero, sectors] at words
  rw [started] at words
  rw [diskReadSector, words]
  exact ⟨rfl, rfl, rfl⟩

/-- **A write replaces the sector of the low 28 bits** and no other. -/
theorem diskWriteSector_eq (lba : Word) (buffer : Bytes) (dev : Device) :
    (diskWriteSector lba buffer dev).1 = 1 ∧
      (diskWriteSector lba buffer dev).2.sectors =
        Function.update dev.sectors (sectorNumber lba)
          (copyWords (dev.sectors (sectorNumber lba)) buffer 256) := by
  have sectors := started_sectors lba ATA_CMD_WRITE dev
  have words := writeWords_eq 256 0 (started lba ATA_CMD_WRITE dev) (by decide) rfl buffer
    (dev.sectors (sectorNumber lba)) (by rw [sectors, copyWords_zero]) (started_write lba dev)
    (started_busy _ _ _)
  rw [started] at words
  rw [diskWriteSector, words, ← started, sectors]
  exact ⟨rfl, rfl⟩

/-! ## Sequences of calls -/

/-- A call, with the buffer it is passed. -/
inductive DiskCall where
  | read (lba : Word) (buffer : Bytes)
  | write (lba : Word) (buffer : Bytes)

namespace DiskCall

def lba : DiskCall → Word
  | .read lba _ => lba
  | .write lba _ => lba

def perform (dev : Device) : DiskCall → Device
  | .read lba buffer => (diskReadSector lba buffer dev).device
  | .write lba buffer => (diskWriteSector lba buffer dev).2

end DiskCall

/-- The device after calls, the first one first. -/
def after (dev : Device) (calls : List DiskCall) : Device := calls.foldl DiskCall.perform dev

/-- What a call leaves as the last data written to an address. -/
def writtenStep (lba : Word) (last : Option Bytes) : DiskCall → Option Bytes
  | .read _ _ => last
  | .write other buffer => if other = lba then some buffer else last

/-- The data last written to an address. Every write reports success. -/
def lastWritten (lba : Word) (calls : List DiskCall) : Option Bytes :=
  calls.foldl (writtenStep lba) none

theorem after_concat (dev : Device) (calls : List DiskCall) (call : DiskCall) :
    after dev (calls ++ [call]) = call.perform (after dev calls) := by
  simp [after]

theorem lastWritten_concat (lba : Word) (calls : List DiskCall) (call : DiskCall) :
    lastWritten lba (calls ++ [call]) = writtenStep lba (lastWritten lba calls) call := by
  simp [lastWritten]

/-- The driver addresses the sectors it is asked for: a read returns the 512 bytes last written
to its address, and a write changes nothing that is read at another address. -/
structure AddressesSectors (dev : Device) (calls : List DiskCall) : Prop where
  readsBack : ∀ before lba buffer data, before ++ [.read lba buffer] <+: calls →
    lastWritten lba before = some data →
    (diskReadSector lba buffer (after dev before)).buffer = copyWords buffer data 256
  apart : ∀ before lba data other buffer, before ++ [.write lba data] <+: calls →
    other ∈ calls.map DiskCall.lba → other ≠ lba →
    (diskReadSector other buffer (after dev (before ++ [.write lba data]))).buffer =
      (diskReadSector other buffer (after dev before)).buffer

/-- **While no two addresses share a sector, a sector holds what was last written to its
address.** -/
theorem sectors_after {lbas : Set Word} (apart : Set.InjOn sectorNumber lbas) (dev : Device)
    {calls : List DiskCall} (inside : ∀ call ∈ calls, call.lba ∈ lbas) {lba : Word}
    (member : lba ∈ lbas) {data : Bytes} (written : lastWritten lba calls = some data)
    {offset : ℕ} (small : offset < 512) :
    (after dev calls).sectors (sectorNumber lba) offset = data offset := by
  induction calls using List.reverseRecOn generalizing data with
  | nil => exact absurd written nofun
  | append_singleton calls call ih =>
      have before : ∀ call ∈ calls, call.lba ∈ lbas := fun other there =>
        inside other (List.mem_append_left _ there)
      have here := inside call (List.mem_append_right _ List.mem_cons_self)
      rw [lastWritten_concat] at written
      rw [after_concat]
      cases call with
      | read other buffer =>
          rw [DiskCall.perform, (diskReadSector_eq other buffer _).2.2]
          exact ih before written
      | write other buffer =>
          rw [DiskCall.perform, (diskWriteSector_eq other buffer _).2]
          by_cases same : other = lba
          · subst same
            rw [writtenStep, if_pos rfl, Option.some.injEq] at written
            rw [Function.update_self, copyWords_apply small, written]
          · rw [writtenStep, if_neg same] at written
            have distinct : sectorNumber lba ≠ sectorNumber other := fun collide =>
              same (apart here member collide.symm)
            rw [Function.update_of_ne distinct]
            exact ih before written

/-- A write changes what is read at an address that shares its sector. -/
theorem write_reaches {lba other : Word} (ne : lba ≠ other)
    (collide : sectorNumber lba = sectorNumber other) (dev : Device)
    (zeros : ∀ sector, dev.sectors sector = fun _ => 0) :
    ¬ AddressesSectors dev [.write other fun _ => 1, .read lba fun _ => 0] := by
  intro addressed
  have written : [] ++ [.write other fun _ => 1] <+:
      [DiskCall.write other fun _ => 1, .read lba fun _ => 0] := List.prefix_append ..
  have kept := addressed.apart [] other (fun _ => 1) lba (fun _ => 0) written
    (List.mem_cons_of_mem _ List.mem_cons_self) ne
  rw [(diskReadSector_eq lba _ _).2.1, (diskReadSector_eq lba _ _).2.1, after_concat,
    DiskCall.perform, (diskWriteSector_eq other _ _).2, collide, Function.update_self] at kept
  have first := congrFun kept 0
  have nothing : after dev [] = dev := rfl
  rw [copyWords_apply (by decide), copyWords_apply (by decide), copyWords_apply (by decide),
    nothing, zeros] at first
  have differ : (1 : Byte) ≠ 0 := by decide
  exact differ first

/-- A device that holds only zeros. -/
def blank : Device := ⟨fun _ _ => 0, 0, 0, 0, 0, 0, .idle, 0, fun _ => 0⟩

/-- **The calls on a set of addresses read back what they wrote, each at its own address, exactly
if no two of these addresses agree in their low 28 bits.** -/
theorem disk_addresses_iff (lbas : Set Word) :
    (∀ dev calls, (∀ call ∈ calls, call.lba ∈ lbas) → AddressesSectors dev calls) ↔
      Set.InjOn sectorNumber lbas := by
  constructor
  · intro addressed lba member other member' collide
    by_contra ne
    refine write_reaches ne collide blank (fun _ => rfl) (addressed blank _ fun call there => ?_)
    rcases List.mem_cons.mp there with rfl | there
    · exact member'
    · rw [List.mem_singleton.mp there]
      exact member
  · intro apart dev calls inside
    constructor
    · intro before lba buffer data prior written
      have part : ∀ call ∈ before ++ [.read lba buffer], call.lba ∈ lbas := fun call there =>
        inside call (prior.subset there)
      have member := part _ (List.mem_append_right _ List.mem_cons_self)
      rw [(diskReadSector_eq lba buffer _).2.1]
      exact copyWords_congr fun offset small => sectors_after apart dev
        (fun call there => part call (List.mem_append_left _ there)) member written small
    · intro before lba data other buffer prior among ne
      obtain ⟨call, there, rfl⟩ := List.mem_map.mp among
      have member := inside _ (prior.subset (List.mem_append_right _ List.mem_cons_self))
      have distinct : sectorNumber call.lba ≠ sectorNumber lba := fun collide =>
        ne (apart (inside call there) member collide)
      rw [(diskReadSector_eq _ buffer _).2.1, (diskReadSector_eq _ buffer _).2.1, after_concat,
        DiskCall.perform, (diskWriteSector_eq lba data _).2, Function.update_of_ne distinct]

/-- A write to address `0x10000000` changes what is read at address 0. -/
theorem sector_overwritten : ¬ ∀ dev calls, AddressesSectors dev calls := fun addressed =>
  write_reaches (by decide : (0 : Word) ≠ 0x10000000) (by decide) blank (fun _ => rfl)
    (addressed blank _)

end CocosOS.Kernel.Drivers.Disk
