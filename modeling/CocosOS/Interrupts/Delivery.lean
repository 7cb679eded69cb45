import CocosOS.Interrupts.Gates
import CocosOS.Library.InterruptController

/-!
# Which interrupts are delivered

`idt_init` gives the descriptor 32 to `irq0_handler`, and loads the table. The table was zero, so
that only the interrupt 32 is delivered (`delivered_iff`).

`pic_init` starts the initialization of both controllers, but it does not tell them their vectors:
what it writes for the wiring is taken for the vectors, the mode for the wiring, and the mask for the
mode. So no line is masked, and the timer is announced as the interrupt 0, which is not delivered
(`timer_not_delivered`).
-/

set_option autoImplicit false

namespace CocosOS.Interrupts

open Library.ByteMemory Library.InterruptController

/-! ## `idt_init` -/

/-- What the processor knows of the table. -/
structure Idtr where
  limit : BitVec 16
  base : Word
  deriving DecidableEq, Repr

/-- `idt_load`: `lidt` reads six packed bytes. -/
def idtLoad (pointer : Word) (m : Mem) : Idtr := ⟨load16 m pointer, load32 m (pointer + 2)⟩

/-- `idt_init`, for the addresses of `idt`, of `idtp` and of the handler. -/
def idtInit (idt idtp irq0Handler : Word) (m : Mem) : Mem × Idtr :=
  let m := store16 m idtp (.ofNat 16 (8 * IDT_ENTRIES - 1))
  let m := store32 m (idtp + 2) idt
  let m := idtSetGate idt 32 irq0Handler 0x08 0x8E m
  (m, idtLoad idtp m)

/-- The types of descriptors that an interrupt can go through. -/
def gateTypes : List (BitVec 5) := [0x05, 0x06, 0x07, 0x0E, 0x0F]

/-- The interrupt goes through this descriptor: it is in the table, it is present, and it has one of
the types. -/
def Delivered (m : Mem) (idtr : Idtr) (vector : Byte) (gate : Gate) : Prop :=
  8 * vector.toNat + 7 ≤ idtr.limit.toNat ∧ gateAt m (gateAddress idtr.base vector) = gate ∧
    gate.flags.getLsbD 7 = true ∧ gate.flags.extractLsb' 0 5 ∈ gateTypes

/-- `idt` is a table of zeros, and `idtp` is behind or before it. -/
structure Blank (idt idtp : Word) (m : Mem) : Prop where
  fits : idt.toNat + 8 * IDT_ENTRIES ≤ 2 ^ 32
  fits' : idtp.toNat + 6 ≤ 2 ^ 32
  apart : idt.toNat + 8 * IDT_ENTRIES ≤ idtp.toNat ∨ idtp.toNat + 6 ≤ idt.toNat
  zero : ∀ x, Covers idt (8 * IDT_ENTRIES) x → m x = 0

section

variable {idt idtp : Word} {m : Mem} (blank : Blank idt idtp m) (irq0Handler : Word)
include blank

/-- The processor knows the whole table. -/
theorem idtInit_snd : (idtInit idt idtp irq0Handler m).2 = ⟨2047, idt⟩ := by
  have fits := blank.fits
  have fits' := blank.fits'
  have apart := blank.apart
  rw [IDT_ENTRIES] at fits apart
  have outside (k : Word) (small : k.toNat < 6) (i : Word) (small' : i.toNat < 8) :
      idtp + k ≠ gateAddress idt 32 + i := by
    unfold gateAddress
    bv_omega
  have first : ∀ i : Word, i.toNat < 8 → idtp ≠ gateAddress idt 32 + i := by
    simpa using outside 0 (by decide)
  have kept (m : Mem) : load16 (store32 m (idtp + 2) idt) idtp = load16 m idtp := by
    refine load16_congr (store32_apply_of_not_covers ?_ ?_) (store32_apply_of_not_covers ?_ ?_) <;>
      first | bv_omega | (unfold Covers; bv_omega)
  have limit (m : Mem) : load16 (idtSetGate idt 32 irq0Handler 0x08 0x8E m) idtp =
      load16 m idtp :=
    load16_congr (idtSetGate_apply_of_ne first)
      (idtSetGate_apply_of_ne (outside 1 (by decide)))
  have base (m : Mem) : load32 (idtSetGate idt 32 irq0Handler 0x08 0x8E m) (idtp + 2) =
      load32 m (idtp + 2) := by
    refine load32_congr (by bv_omega) fun x covered => idtSetGate_apply_of_ne ?_
    have place : x = idtp + (x - idtp) := by bv_omega
    rw [place]
    refine outside _ ?_
    unfold Covers at covered
    bv_omega
  rw [idtInit, idtLoad]
  dsimp only
  rw [limit, base, kept, load16_store16, load32_store32]
  rfl

theorem gateAt_idtInit (n : Byte) :
    gateAt (idtInit idt idtp irq0Handler m).1 (gateAddress idt n) =
      if n = 32 then ⟨irq0Handler, 0x08, 0x8E⟩ else ⟨0, 0, 0⟩ := by
  have fits := blank.fits
  have fits' := blank.fits'
  have apart := blank.apart
  rw [IDT_ENTRIES] at fits apart
  have zero (i : Word) (small : i.toNat < 8) :
      store32 (store16 m idtp (.ofNat 16 (8 * IDT_ENTRIES - 1))) (idtp + 2) idt
        (gateAddress idt n + i) = 0 := by
    have number := n.isLt
    have inside : Covers idt (8 * IDT_ENTRIES) (gateAddress idt n + i) := by
      unfold Covers gateAddress IDT_ENTRIES
      bv_omega
    unfold Covers IDT_ENTRIES at inside
    rw [store32_apply_of_not_covers (by bv_omega) (by unfold Covers; bv_omega),
      store16_apply_of_ne (by bv_omega) (by bv_omega)]
    exact blank.zero _ inside
  refine (gateAt_run idt _ ⟨32, irq0Handler, 0x08, 0x8E⟩ n).trans (if_congr eq_comm rfl ?_)
  rw [gateAt_congr zero (m := fun _ => 0), gateAt, load16, load16, load16]
  rfl

/-- **Only the interrupt 32 is delivered.** -/
theorem delivered_iff {vector : Byte} {gate : Gate} :
    Delivered (idtInit idt idtp irq0Handler m).1 (idtInit idt idtp irq0Handler m).2 vector gate ↔
      vector = 32 ∧ gate = ⟨irq0Handler, 0x08, 0x8E⟩ := by
  rw [Delivered, idtInit_snd blank, gateAt_idtInit blank]
  split_ifs with timer
  · subst timer
    constructor
    · rintro ⟨-, rfl, -⟩
      exact ⟨rfl, rfl⟩
    · rintro ⟨-, rfl⟩
      dsimp only
      exact ⟨by decide, rfl, by decide, by decide⟩
  · refine iff_of_false ?_ fun both => timer both.1
    rintro ⟨-, rfl, present, -⟩
    exact absurd present (by decide)

end

/-! ## `pic_init` -/

/-- The first controller, whose line 0 is the timer, and the second. -/
structure Pics where
  pic1 : Controller
  pic2 : Controller
  deriving DecidableEq, Repr

def PIC1_COMMAND : BitVec 16 := 0x20

def PIC1_DATA : BitVec 16 := 0x21

def PIC2_COMMAND : BitVec 16 := 0xA0

def PIC2_DATA : BitVec 16 := 0xA1

def ICW1_INIT : Byte := 0x10

def ICW1_ICW4 : Byte := 0x01

def ICW4_8086 : Byte := 0x01

def outb (port : BitVec 16) (val : Byte) (pics : Pics) : Pics :=
  if port = PIC1_COMMAND then { pics with pic1 := pics.pic1.command val }
  else if port = PIC1_DATA then { pics with pic1 := pics.pic1.data val }
  else if port = PIC2_COMMAND then { pics with pic2 := pics.pic2.command val }
  else if port = PIC2_DATA then { pics with pic2 := pics.pic2.data val }
  else pics

def picInit (pics : Pics) : Pics :=
  let pics := outb PIC1_COMMAND (ICW1_INIT ||| ICW1_ICW4) pics
  let pics := outb PIC2_COMMAND (ICW1_INIT ||| ICW1_ICW4) pics
  let pics := outb PIC1_DATA 0x04 pics
  let pics := outb PIC2_DATA 0x02 pics
  let pics := outb PIC1_DATA ICW4_8086 pics
  let pics := outb PIC2_DATA ICW4_8086 pics
  let pics := outb PIC1_DATA 0xFC pics
  outb PIC2_DATA 0xFF pics

/-- Both controllers are initialized, with each byte taken for the one before. -/
theorem picInit_eq (pics : Pics) :
    picInit pics = ⟨⟨0x11, 0x04, 0x01, 0xFC, 0, .mask⟩, ⟨0x11, 0x02, 0x01, 0xFF, 0, .mask⟩⟩ := by
  have first := @Controller.data_data_data 0x11 (by decide) (by decide) (by decide)
    0x04 0x01 0xFC pics.pic1
  have second := @Controller.data_data_data 0x11 (by decide) (by decide) (by decide)
    0x02 0x01 0xFF pics.pic2
  rw [← first, ← second]
  rfl

/-- **The timer is announced and not delivered.** -/
theorem timer_not_delivered {idt idtp : Word} {m : Mem} (blank : Blank idt idtp m)
    (irq0Handler : Word) (pics : Pics) :
    (picInit pics).pic1.Enabled 0 ∧ ∀ gate,
      ¬ Delivered (idtInit idt idtp irq0Handler m).1 (idtInit idt idtp irq0Handler m).2
        ((picInit pics).pic1.vector 0) gate := by
  rw [picInit_eq]
  refine ⟨rfl, fun gate delivered => ?_⟩
  exact absurd ((delivered_iff blank irq0Handler).mp delivered).1 (by decide)

/-- From controllers whose vectors are those of the start of the machine. -/
theorem timer_not_delivered_at_start :
    ¬ Delivered (idtInit 0x10000 0x20000 0x9000 fun _ => 0).1
      (idtInit 0x10000 0x20000 0x9000 fun _ => 0).2
      ((picInit ⟨⟨0x11, 0x08, 0x04, 0x01, 0xB8, .mask⟩,
        ⟨0x11, 0x70, 0x02, 0x01, 0x8F, .mask⟩⟩).pic1.vector 0) ⟨0x9000, 0x08, 0x8E⟩ := by
  have blank : Blank 0x10000 0x20000 fun _ => 0 :=
    ⟨by decide, by decide, by decide, fun _ _ => rfl⟩
  exact (timer_not_delivered blank 0x9000 _).2 _

end CocosOS.Interrupts
