import CocosOS.Library.ByteMemory
import CocosOS.Library.LastCall

/-!
# The interrupt descriptor table

A descriptor is eight packed bytes: the low half of the address, the selector, a zero, the flags and
the high half of the address. `idt_set_gate` stores its arguments there, and the processor reads
them when an interrupt comes.

After any calls of `idt_set_gate` with numbers in the table, each descriptor is that of the last call
for its number, as it was before where there is none, and no other byte has changed
(`gates_of_calls`).
-/

set_option autoImplicit false

namespace CocosOS.Interrupts

open Library.ByteMemory Library.LastCall

/-! ## The source -/

def IDT_ENTRIES : ℕ := 256

/-- `&idt[n]`, for a table at this address. -/
def gateAddress (idt : Word) (n : Byte) : Word := idt + 8 * n.setWidth 32

/-- `idt_set_gate`, for a number in the table. The fields of a descriptor are packed in the order
`base_low`, `selector`, `zero`, `flags`, `base_high`. -/
def idtSetGate (idt : Word) (n : Byte) (base : Word) (selector flags : BitVec 16) (m : Mem) : Mem :=
  let entry := gateAddress idt n
  let m := store16 m entry ((base &&& 0xFFFF).setWidth 16)
  let m := store16 m (entry + 6) (((base >>> 16) &&& 0xFFFF).setWidth 16)
  let m := store16 m (entry + 2) selector
  let m := store8 m (entry + 4) 0
  store8 m (entry + 5) (flags.setWidth 8)

/-! ## What the processor reads -/

/-- Where an interrupt goes, and its flags. -/
structure Gate where
  offset : Word
  selector : BitVec 16
  flags : Byte
  deriving DecidableEq, Repr

/-- The descriptor at this address. -/
def gateAt (m : Mem) (entry : Word) : Gate :=
  ⟨load16 m (entry + 6) ++ load16 m entry, load16 m (entry + 2), m (entry + 5)⟩

theorem setWidth_and (w : Word) : (w &&& 0xFFFF).setWidth 16 = w.setWidth 16 := by
  refine BitVec.eq_of_toNat_eq ?_
  rw [BitVec.toNat_setWidth, BitVec.toNat_setWidth, BitVec.toNat_and]
  have low : w.toNat &&& 65535 = w.toNat % 65536 := Nat.and_two_pow_sub_one_eq_mod w.toNat 16
  rw [show (0xFFFF : Word).toNat = 65535 from rfl, low, Nat.mod_mod]

/-- The halves of an address make up the address. -/
theorem halves (base : Word) : (base >>> 16).setWidth 16 ++ base.setWidth 16 = base := by
  refine BitVec.eq_of_getLsbD_eq fun i small => ?_
  rw [BitVec.getLsbD_append]
  split_ifs with low
  · simp [low]
  · have high : i - 16 < 16 := by omega
    have place : 16 + (i - 16) = i := by omega
    simp [high, place]

/-- What `idt_set_gate` stores is read back. -/
theorem gateAt_idtSetGate (idt : Word) (n : Byte) (base : Word) (selector flags : BitVec 16)
    (m : Mem) : gateAt (idtSetGate idt n base selector flags m) (gateAddress idt n) =
      ⟨base, selector, flags.setWidth 8⟩ := by
  rw [gateAt, idtSetGate, setWidth_and, setWidth_and]
  have offset := halves base
  generalize gateAddress idt n = entry
  generalize base.setWidth 16 = low at offset ⊢
  generalize (base >>> 16).setWidth 16 = high at offset ⊢
  simp [load16, store16, store8, BitVec.add_assoc, extract_append, offset]

/-- Only the eight bytes of the descriptor are stored. -/
theorem idtSetGate_apply_of_ne {idt base x : Word} {n : Byte} {selector flags : BitVec 16} {m : Mem}
    (outside : ∀ i : Word, i.toNat < 8 → x ≠ gateAddress idt n + i) :
    idtSetGate idt n base selector flags m x = m x := by
  have first : x ≠ gateAddress idt n := by simpa using outside 0 (by decide)
  have second (i : Word) (small : (i + 1).toNat < 8) : x ≠ gateAddress idt n + i + 1 := by
    rw [BitVec.add_assoc]
    exact outside _ small
  rw [idtSetGate, store8_apply_of_ne (outside 5 (by decide)),
    store8_apply_of_ne (outside 4 (by decide)),
    store16_apply_of_ne (outside 2 (by decide)) (second 2 (by decide)),
    store16_apply_of_ne (outside 6 (by decide)) (second 6 (by decide)),
    store16_apply_of_ne first (outside 1 (by decide))]

/-- A descriptor is read from its eight bytes. -/
theorem gateAt_congr {m m' : Mem} {entry : Word}
    (same : ∀ i : Word, i.toNat < 8 → m' (entry + i) = m (entry + i)) :
    gateAt m' entry = gateAt m entry := by
  have first : m' entry = m entry := by simpa using same 0 (by decide)
  have second (i : Word) (small : (i + 1).toNat < 8) :
      m' (entry + i + 1) = m (entry + i + 1) := by
    rw [BitVec.add_assoc]
    exact same _ small
  rw [gateAt, gateAt, load16_congr first (same 1 (by decide)),
    load16_congr (same 6 (by decide)) (second 6 (by decide)),
    load16_congr (same 2 (by decide)) (second 2 (by decide)), same 5 (by decide)]

/-- Two descriptors have no byte in common. -/
theorem gateAddress_add_ne {idt : Word} {n k : Byte} (ne : n ≠ k) {i j : Word} (small : i.toNat < 8)
    (small' : j.toNat < 8) : gateAddress idt n + i ≠ gateAddress idt k + j := by
  unfold gateAddress
  bv_omega

/-! ## Runs -/

/-- A call of `idt_set_gate`, for one of the numbers in the table. -/
structure GateCall where
  n : Byte
  base : Word
  selector : BitVec 16
  flags : BitVec 16
  deriving DecidableEq, Repr

namespace GateCall

def run (idt : Word) (m : Mem) (call : GateCall) : Mem :=
  idtSetGate idt call.n call.base call.selector call.flags m

/-- Of the flags the low byte is left. -/
def gate (call : GateCall) : Gate := ⟨call.base, call.selector, call.flags.setWidth 8⟩

end GateCall

theorem gateAt_run (idt : Word) (m : Mem) (call : GateCall) (n : Byte) :
    gateAt (call.run idt m) (gateAddress idt n) =
      if call.n = n then call.gate else gateAt m (gateAddress idt n) := by
  split_ifs with here
  · subst here
    exact gateAt_idtSetGate idt call.n call.base call.selector call.flags m
  · refine gateAt_congr fun i small => idtSetGate_apply_of_ne fun j small' => ?_
    exact gateAddress_add_ne (Ne.symm here) small small'

/-- A call stores in the table. -/
theorem run_apply_of_not_covers {idt : Word} (fits : idt.toNat + 8 * IDT_ENTRIES ≤ 2 ^ 32) (m : Mem)
    (call : GateCall) {x : Word} (outside : ¬ Covers idt (8 * IDT_ENTRIES) x) :
    call.run idt m x = m x := by
  refine idtSetGate_apply_of_ne fun i small same => outside ?_
  have number := call.n.isLt
  rw [IDT_ENTRIES] at fits ⊢
  rw [same, gateAddress, Covers]
  bv_omega

/-- **The table after any calls with numbers in the table**: each descriptor is that of the last
call for its number, and no byte outside of the table has changed. -/
theorem gates_of_calls {idt : Word} (fits : idt.toNat + 8 * IDT_ENTRIES ≤ 2 ^ 32) (m : Mem)
    (calls : List GateCall) :
    (∀ n, gateAt (calls.foldl (GateCall.run idt) m) (gateAddress idt n) =
      (lastLeft GateCall.n GateCall.gate calls n).getD (gateAt m (gateAddress idt n))) ∧
    ∀ x, ¬ Covers idt (8 * IDT_ENTRIES) x → calls.foldl (GateCall.run idt) m x = m x := by
  constructor
  · exact read_calls (fun m n => gateAt m (gateAddress idt n)) (gateAt_run idt) calls m
  · intro x outside
    induction calls using List.reverseRecOn with
    | nil => rfl
    | append_singleton calls call ih =>
        rw [List.foldl_concat, run_apply_of_not_covers fits _ call outside]
        exact ih

/-- The last call for a number counts, and the high byte of its flags is lost. -/
theorem gate_of_last_call : gateAt
    ([⟨32, 0x9000, 8, 0x8E⟩, ⟨33, 0xA000, 8, 0x8E⟩, ⟨32, 0xB000, 8, 0x18F⟩].foldl
      (GateCall.run 0x10000) fun _ => 0) (gateAddress 0x10000 32) = ⟨0xB000, 8, 0x8F⟩ :=
  ((gates_of_calls (by decide) _ _).1 32).trans (by decide)

end CocosOS.Interrupts
