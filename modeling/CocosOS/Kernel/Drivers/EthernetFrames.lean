import CocosOS.Library.BoundedArray
import CocosOS.Library.ByteMemory

/-!
# Ethernet frames

`net_send_frame` writes a header of 14 bytes and the payload into an array on its stack and hands
it to the `send` of the default card. A payload that does not fit is refused before anything is
written. So every write stays inside the array, `send` is called exactly once where the payload
fits, and the frame reads back as what it was made of (`frames_encode_faithfully`).
-/

set_option autoImplicit false

namespace CocosOS.Kernel.Drivers.Nic

open Library.BoundedArray Library.ByteMemory

/-! ## Sending -/

def ETH_FRAME_MAX : ℕ := 1518

/-- What `net_send_frame` reads of the default card. A null `send` is `none`; it returns a number
for a buffer and a length. -/
structure Sender where
  mac : ℕ → Byte
  send : Option ((ℕ → Byte) → Word → ℤ)

/-- A loop that copies bytes into the frame, from an offset on. -/
def copyLoop (offset : Word) (src : ℕ → Byte) : ℕ → Word → (ℕ → Byte) → Option (ℕ → Byte)
  | 0, _, frame => some frame
  | rounds + 1, i, frame => do
    let frame ← put ETH_FRAME_MAX frame (offset + i).toNat (src i.toNat)
    copyLoop offset src rounds (i + 1) frame

/-- `net_send_frame`: the calls of `send`, and what is returned. The stack holds anything where the
frame is put, and a write outside the frame has no result. -/
def netSendFrame (defaultNic : Option Sender) (stack destMac : ℕ → Byte) (ethertype : BitVec 16)
    (payload : ℕ → Byte) (len : Word) : Option (List ((ℕ → Byte) × Word) × ℤ) :=
  match defaultNic with
  | none => some ([], -1)
  | some ⟨_, none⟩ => some ([], -1)
  | some ⟨mac, some send⟩ =>
    if len > BitVec.ofNat 32 (ETH_FRAME_MAX - 14) then some ([], -2)
    else do
      let frame ← copyLoop 0 destMac 6 0 stack
      let frame ← copyLoop 6 mac 6 0 frame
      let frame ← put ETH_FRAME_MAX frame 12 (((ethertype >>> 8) &&& 0xFF).setWidth 8)
      let frame ← put ETH_FRAME_MAX frame 13 ((ethertype &&& 0xFF).setWidth 8)
      let frame ← copyLoop 14 payload len.toNat 0 frame
      some ([(frame, 14 + len)], send frame (14 + len))

/-! ## Receiving -/

/-- What a frame says. -/
structure Frame where
  destination : List Byte
  source : List Byte
  ethertype : BitVec 16
  payload : List Byte
  deriving DecidableEq

/-- The frame in a buffer: 6 bytes destination, 6 bytes source, the type with its high byte first,
and the payload. -/
def decodeFrame (buffer : List Byte) : Option Frame :=
  if buffer.length < 14 then none
  else some ⟨buffer.take 6, (buffer.drop 6).take 6, buffer.getD 12 0 ++ buffer.getD 13 0,
    buffer.drop 14⟩

/-- The bytes of a frame. -/
def Frame.bytes (frame : Frame) : List Byte :=
  frame.destination ++ (frame.source ++ (frame.ethertype.extractLsb' 8 8 ::
    frame.ethertype.extractLsb' 0 8 :: frame.payload))

/-- **A frame is read back from its bytes.** -/
theorem decodeFrame_bytes {frame : Frame} (destination : frame.destination.length = 6)
    (source : frame.source.length = 6) : decodeFrame frame.bytes = some frame := by
  obtain ⟨dst, src, type, payload⟩ := frame
  have length : (Frame.bytes ⟨dst, src, type, payload⟩).length = 14 + payload.length := by
    simp only [Frame.bytes, List.length_append, List.length_cons, destination, source]
    omega
  have header : (dst ++ src).length = 12 := by
    rw [List.length_append, destination, source]
  have split : Frame.bytes ⟨dst, src, type, payload⟩ =
      (dst ++ src) ++ (type.extractLsb' 8 8 :: type.extractLsb' 0 8 :: payload) := by
    rw [Frame.bytes, List.append_assoc]
  rw [decodeFrame, if_neg (by omega), Option.some.injEq, Frame.mk.injEq]
  refine ⟨List.take_left' destination, ?_, ?_, ?_⟩
  · rw [Frame.bytes, List.drop_left' destination]
    exact List.take_left' source
  · rw [split, List.getD_append_right _ _ _ _ header.le,
      List.getD_append_right _ _ _ _ (header.le.trans (Nat.le_succ 12)), header]
    show type.extractLsb' 8 8 ++ type.extractLsb' 0 8 = type
    exact (BitVec.extractLsb'_append_extractLsb'_eq_extractLsb' rfl).trans
      BitVec.extractLsb'_eq_self
  · rw [split, ← List.drop_drop (i := 2) (j := 12), List.drop_left' header]
    rfl

/-! ## Every write stays inside -/

/-- **A loop that stays inside the frame overlays it with the bytes it copies.** -/
theorem copyLoop_of_fits (offset : Word) (src frame : ℕ → Byte) (rounds : ℕ) (i : Word)
    (fits : offset.toNat + i.toNat + rounds ≤ ETH_FRAME_MAX) :
    copyLoop offset src rounds i frame =
      some (overlay frame (offset.toNat + i.toNat) (slice src i.toNat rounds)) := by
  have all : putAll ETH_FRAME_MAX frame (offset.toNat + i.toNat) (slice src i.toNat rounds) =
      some (overlay frame (offset.toNat + i.toNat) (slice src i.toNat rounds)) :=
    putAll_of_fits (by rw [length_slice]; exact fits)
  rw [← all]
  clear all
  have limit : ETH_FRAME_MAX = 1518 := rfl
  induction rounds generalizing i frame with
  | zero => rfl
  | succ rounds ih =>
      have index : (offset + i).toNat = offset.toNat + i.toNat := by
        rw [BitVec.toNat_add, Nat.mod_eq_of_lt (by omega)]
      have next : (i + 1).toNat = i.toNat + 1 :=
        BitVec.toNat_add_of_lt (show i.toNat + 1 < 2 ^ 32 by omega)
      rw [copyLoop, index, slice_succ, putAll]
      refine Option.bind_congr fun written _ => ?_
      rw [ih written (i + 1) (by rw [next]; omega), next, Nat.add_assoc]

/-- The two bytes of the type. -/
theorem ethertype_bytes (ethertype : BitVec 16) :
    ((ethertype >>> 8) &&& 0xFF).setWidth 8 = ethertype.extractLsb' 8 8 ∧
      (ethertype &&& 0xFF).setWidth 8 = ethertype.extractLsb' 0 8 := by
  have mask : ((0xFF : BitVec 16)).setWidth 8 = BitVec.allOnes 8 := rfl
  rw [BitVec.setWidth_and, BitVec.setWidth_and, mask, BitVec.and_allOnes, BitVec.and_allOnes]
  exact ⟨BitVec.setWidth_ushiftRight_eq_extractLsb, BitVec.setWidth_eq_extractLsb' (by decide)⟩

/-- **A payload that fits is sent** behind the header. -/
theorem netSendFrame_of_le (mac : ℕ → Byte) (send : (ℕ → Byte) → Word → ℤ)
    (stack destMac : ℕ → Byte) (ethertype : BitVec 16) (payload : ℕ → Byte) {len : Word}
    (small : len.toNat ≤ ETH_FRAME_MAX - 14) :
    ∃ frame, netSendFrame (some ⟨mac, some send⟩) stack destMac ethertype payload len =
        some ([(frame, 14 + len)], send frame (14 + len)) ∧
      (14 + len).toNat = 14 + len.toNat ∧
      slice frame 0 (14 + len.toNat) =
        Frame.bytes ⟨slice destMac 0 6, slice mac 0 6, ethertype, slice payload 0 len.toNat⟩ := by
  have room : 14 + len.toNat ≤ 1518 := Nat.add_le_of_le_sub' (by decide) small
  have fits : ¬ len > BitVec.ofNat 32 (ETH_FRAME_MAX - 14) := Nat.not_lt_of_le small
  have count : (14 + len).toNat = 14 + len.toNat :=
    BitVec.toNat_add_of_lt (show 14 + len.toNat < 2 ^ 32 by omega)
  have destination : slice (overlay stack 0 (slice destMac 0 6)) 0 6 = slice destMac 0 6 :=
    slice_overlay_self
  let header := overlay (overlay stack 0 (slice destMac 0 6)) 6 (slice mac 0 6)
  let typed := overlay (overlay header 12 [ethertype.extractLsb' 8 8]) 13
    [ethertype.extractLsb' 0 8]
  refine ⟨overlay typed 14 (slice payload 0 len.toNat), ?_, count, ?_⟩
  · rw [netSendFrame, if_neg fits, (ethertype_bytes ethertype).1, (ethertype_bytes ethertype).2]
    simp only [Option.bind_eq_bind]
    rw [copyLoop_of_fits 0 destMac stack 6 0 (by decide), Option.bind_some,
      copyLoop_of_fits 6 mac _ 6 0 (by decide), Option.bind_some,
      put_of_lt (by decide), Option.bind_some, put_of_lt (by decide), Option.bind_some,
      update_eq_overlay, update_eq_overlay,
      copyLoop_of_fits 14 payload _ len.toNat 0 room, Option.bind_some]
    rfl
  · have addresses : slice header 0 12 = slice destMac 0 6 ++ slice mac 0 6 := by
      rw [← destination]
      exact slice_overlay_append _ 0 6 (slice mac 0 6)
    have types : slice typed 0 14 = slice header 0 12 ++ [ethertype.extractLsb' 8 8] ++
        [ethertype.extractLsb' 0 8] := by
      rw [← slice_overlay_append header 0 12]
      exact slice_overlay_append _ 0 13 [ethertype.extractLsb' 0 8]
    have whole := slice_overlay_append typed 0 14 (slice payload 0 len.toNat)
    rw [length_slice, types, addresses] at whole
    rw [whole, Frame.bytes]
    simp only [List.append_assoc, List.cons_append, List.nil_append]

/-- A payload that does not fit is refused, and nothing is sent. -/
theorem netSendFrame_of_gt (mac : ℕ → Byte) (send : (ℕ → Byte) → Word → ℤ)
    (stack destMac : ℕ → Byte) (ethertype : BitVec 16) (payload : ℕ → Byte) {len : Word}
    (large : ETH_FRAME_MAX - 14 < len.toNat) :
    netSendFrame (some ⟨mac, some send⟩) stack destMac ethertype payload len = some ([], -2) :=
  if_pos large

/-- **Frames encode faithfully.** A payload of more than 1504 bytes is refused. Any other is sent in
one call, without a write outside the frame, and the buffer reads back as the destination, the
address of the card, the type and the payload; so different messages make different buffers. -/
theorem frames_encode_faithfully (mac : ℕ → Byte) (send : (ℕ → Byte) → Word → ℤ)
    (stack destMac : ℕ → Byte) (ethertype : BitVec 16) (payload : ℕ → Byte) (len : Word) :
    (1504 < len.toNat →
      netSendFrame (some ⟨mac, some send⟩) stack destMac ethertype payload len =
        some ([], -2)) ∧
    (len.toNat ≤ 1504 → ∃ frame,
      netSendFrame (some ⟨mac, some send⟩) stack destMac ethertype payload len =
        some ([(frame, 14 + len)], send frame (14 + len)) ∧
      (14 + len).toNat = 14 + len.toNat ∧
      decodeFrame (slice frame 0 (14 + len.toNat)) =
        some ⟨slice destMac 0 6, slice mac 0 6, ethertype, slice payload 0 len.toNat⟩ ∧
      ∀ (stack' destMac' : ℕ → Byte) (ethertype' : BitVec 16) (payload' : ℕ → Byte) (len' : Word)
          (frame' : ℕ → Byte) (returned : ℤ),
        netSendFrame (some ⟨mac, some send⟩) stack' destMac' ethertype' payload' len' =
          some ([(frame', 14 + len')], returned) →
        slice frame 0 (14 + len).toNat = slice frame' 0 (14 + len').toNat →
        slice destMac 0 6 = slice destMac' 0 6 ∧ ethertype = ethertype' ∧ len = len' ∧
          slice payload 0 len.toNat = slice payload' 0 len'.toNat) := by
  have decoded : ∀ (dst : ℕ → Byte) type (data : ℕ → Byte) (count : Word), decodeFrame
      (Frame.bytes ⟨slice dst 0 6, slice mac 0 6, type, slice data 0 count.toNat⟩) =
        some ⟨slice dst 0 6, slice mac 0 6, type, slice data 0 count.toNat⟩ :=
    fun dst type data count => decodeFrame_bytes (length_slice ..) (length_slice ..)
  refine ⟨fun large => netSendFrame_of_gt mac send stack destMac ethertype payload large,
    fun small => ?_⟩
  obtain ⟨frame, sent, count, bytes⟩ :=
    netSendFrame_of_le mac send stack destMac ethertype payload small
  refine ⟨frame, sent, count, by rw [bytes, decoded], ?_⟩
  intro stack' destMac' ethertype' payload' len' frame' returned sent' same
  rcases Nat.lt_or_ge 1504 len'.toNat with large | small'
  · -- a refused payload is not sent
    rw [netSendFrame_of_gt mac send stack' destMac' ethertype' payload' large] at sent'
    exact absurd (Prod.mk.inj (Option.some.inj sent')).1 nofun
  · obtain ⟨other, made, count', bytes'⟩ :=
      netSendFrame_of_le mac send stack' destMac' ethertype' payload' small'
    rw [made] at sent'
    obtain ⟨calls, -⟩ := Prod.mk.inj (Option.some.inj sent')
    obtain rfl : other = frame' := (Prod.mk.inj (List.singleton_inj.mp calls)).1
    rw [count, count', bytes, bytes'] at same
    have equal := congrArg decodeFrame same
    rw [decoded, decoded, Option.some.injEq, Frame.mk.injEq] at equal
    obtain ⟨destinations, -, types, payloads⟩ := equal
    refine ⟨destinations, types, ?_, payloads⟩
    have lengths := congrArg List.length payloads
    rw [length_slice, length_slice] at lengths
    exact BitVec.eq_of_toNat_eq lengths

end CocosOS.Kernel.Drivers.Nic
