import Rekuiper.Lib.Words

/-!
# Modbus RTU frames

`send_and_recv_rtu` puts a checksum behind a frame and takes an answer only if its checksum is
right. So none is taken with a burst of wrong bits that is no longer than the checksum.
-/

namespace Rekuiper.Connectors

open Lib

def modbusPoly : BitVec 16 := 0xA001

def crcByte (crc : BitVec 16) (b : UInt8) : BitVec 16 :=
  (shiftOut modbusPoly)^[8] (crc ^^^ b.toBitVec.setWidth 16)

def modbusCrc16 (data : List UInt8) : UInt16 := .ofBitVec (data.foldl crcByte 0xFFFF)

/-- The frame that `send_and_recv_rtu` writes. -/
def rtuFrame (unitId : UInt8) (pdu : List UInt8) : List UInt8 :=
  let crc := modbusCrc16 (unitId :: pdu)
  unitId :: pdu ++ [loByte crc, hiByte crc]

/-- `:#06x` -/
def crcText (crc : UInt16) : String :=
  "0x" ++ String.ofList ((Nat.toDigits 16 crc.toNat).leftpad 4 '0')

/-- The rest of `send_and_recv_rtu`, which reads once, into a buffer of 256 bytes. -/
def recvRtu (unitId : UInt8) (answer : List UInt8) : Except String (List UInt8) :=
  let resp := answer.take 256
  let n := resp.length
  if n < 4 then .error s!"Modbus RTU response too short ({n} bytes)"
  else
    let payload := resp.take (n - 2)
    let respCrc := wordOf (resp.getD (n - 1) 0) (resp.getD (n - 2) 0)
    let calcCrc := modbusCrc16 payload
    if respCrc ≠ calcCrc then
      .error s!"Modbus RTU CRC mismatch: received {crcText respCrc}, calculated {crcText calcCrc}"
    else if payload.headD 0 ≠ unitId then
      .error s!"Modbus RTU unit ID mismatch: expected {unitId}, got {payload.headD 0}"
    else .ok payload.tail

/-- The bits of a frame as they are sent. -/
def wireBits (frame : List UInt8) : List Bool := frame.flatMap fun b => lowBits 8 b.toNat

variable {unitId : UInt8} {pdu resp payload : List UInt8}

theorem feedBits_wireBits (crc : BitVec 16) (data : List UInt8) :
    feedBits modbusPoly crc (wireBits data) = data.foldl crcByte crc := by
  induction data generalizing crc with
  | nil => rfl
  | cons b data ih =>
    have hb : (b.toBitVec.setWidth 16).toNat = b.toNat := by simp
    rw [wireBits, List.flatMap_cons, feedBits_append, ← wireBits, ih, List.foldl_cons, ← hb,
      feedBits_lowBits (hb ▸ b.toNat_lt), crcByte]

/-- Together with its checksum a frame leaves nothing. -/
theorem feedBits_checked (lo hi : UInt8) (h : wordOf hi lo = modbusCrc16 payload) :
    feedBits modbusPoly 0xFFFF (wireBits (payload ++ [lo, hi])) = 0 := by
  have hword : (wordOf hi lo).toBitVec.toNat = hi.toNat * 2 ^ 8 + lo.toNat := toNat_wordOf hi lo
  have hbits : wireBits (payload ++ [lo, hi]) =
      wireBits payload ++ lowBits (8 + 8) (wordOf hi lo).toBitVec.toNat := by
    rw [hword, ← lowBits_append lo.toNat_lt]
    simp [wireBits]
  have hcrc : (modbusCrc16 payload).toBitVec = feedBits modbusPoly 0xFFFF (wireBits payload) :=
    (feedBits_wireBits _ _).symm
  rw [hbits, feedBits_append, feedBits_lowBits (BitVec.isLt _), h, hcrc, BitVec.xor_self]
  exact Function.iterate_fixed (by simp [shiftOut]) _

theorem recvRtu_ok_iff {lo hi : UInt8} (hfits : payload.length + 2 ≤ 256) :
    recvRtu unitId (payload ++ [lo, hi]) = .ok pdu ↔
      payload = unitId :: pdu ∧ pdu ≠ [] ∧ wordOf hi lo = modbusCrc16 payload := by
  have hwhole : (payload ++ [lo, hi]).take 256 = payload ++ [lo, hi] :=
    List.take_of_length_le (by simpa using hfits)
  unfold recvRtu
  rw [hwhole]
  clear hwhole hfits
  rcases payload with _ | ⟨first, _ | ⟨code, rest⟩⟩
  · simp
  · simp +contextual
  · have hlong : ¬(rest.length + 2 + 1 + 1 < 4) := by omega
    rcases eq_or_ne first unitId with rfl | hunit <;>
      by_cases hcrc : wordOf hi lo = modbusCrc16 (first :: code :: rest) <;>
        simp [*]
    rintro rfl
    simp

theorem feedBits_response (hfits : resp.length ≤ 256) (h : recvRtu unitId resp = .ok pdu) :
    feedBits modbusPoly 0xFFFF (wireBits resp) = 0 := by
  rcases List.eq_nil_or_concat resp with rfl | ⟨resp, hi, rfl⟩
  · cases h
  rcases List.eq_nil_or_concat resp with rfl | ⟨payload, lo, rfl⟩
  · cases h
  rw [List.concat_eq_append, List.concat_eq_append, List.append_assoc] at h hfits ⊢
  exact feedBits_checked lo hi ((recvRtu_ok_iff (by simpa using hfits)).mp h).2.2

theorem length_wireBits (frame : List UInt8) : (wireBits frame).length = 8 * frame.length := by
  induction frame with
  | nil => rfl
  | cons b frame ih => simp_all [wireBits, lowBits]; omega

/-- A frame of the unit that one read holds is read back from a response. With wrong bits, no
further apart than the checksum is long, it is refused. -/
theorem damaged_frame_refused {damaged : List UInt8} {before bits bits' after : List Bool}
    (hpdu : pdu ≠ []) (hfits : pdu.length ≤ 253)
    (hbits : wireBits (rtuFrame unitId pdu) = before ++ bits ++ after)
    (hdamaged : wireBits damaged = before ++ bits' ++ after)
    (hlen : bits.length = bits'.length) (hburst : bits.length ≤ 16) (hne : bits ≠ bits') :
    recvRtu unitId (rtuFrame unitId pdu) = .ok pdu ∧
      ∀ unitId', ∃ e, recvRtu unitId' damaged = .error e := by
  have hpayload : (unitId :: pdu).length + 2 ≤ 256 := by
    rw [List.length_cons]
    omega
  have hread : recvRtu unitId (rtuFrame unitId pdu) = .ok pdu :=
    (recvRtu_ok_iff hpayload).mpr ⟨rfl, hpdu, wordOf_bytes _⟩
  have hframe : (rtuFrame unitId pdu).length ≤ 256 := by
    rw [rtuFrame, List.length_append]
    exact hpayload
  have hsize : damaged.length = (rtuFrame unitId pdu).length := by
    have hframe := congrArg List.length hbits
    have hother := congrArg List.length hdamaged
    simp only [length_wireBits, List.length_append] at hframe hother
    omega
  refine ⟨hread, fun unitId' => ?_⟩
  cases hresult : recvRtu unitId' damaged with
  | error e => exact ⟨e, rfl⟩
  | ok pdu' =>
    have hsame := (feedBits_response hframe hread).trans
      (feedBits_response (hsize ▸ hframe) hresult).symm
    rw [hbits, hdamaged] at hsame
    simp only [feedBits_append] at hsame
    have hpoly : modbusPoly.msb = true := by decide
    exact absurd ((bits_eq_of_feedBits hpoly hlen hburst (feedBits_inj hpoly hsame)).2 rfl) hne

/-- The frame that reads the first register of unit 1, with a bit of the count turned. -/
theorem damaged_frame_refused_count :
    recvRtu 1 (rtuFrame 1 [3, 0, 0, 0, 1]) = .ok [3, 0, 0, 0, 1] ∧
      ∀ unitId', ∃ e, recvRtu unitId' [1, 3, 0, 0, 0, 0, 0x84, 0x0A] = .error e :=
  have hbits : wireBits (rtuFrame 1 [3, 0, 0, 0, 1]) =
      wireBits [1, 3, 0, 0, 0] ++ lowBits 8 1 ++ wireBits [0x84, 0x0A] := by decide +kernel
  have hdamaged : wireBits [1, 3, 0, 0, 0, 0, 0x84, 0x0A] =
      wireBits [1, 3, 0, 0, 0] ++ lowBits 8 0 ++ wireBits [0x84, 0x0A] := by decide
  damaged_frame_refused (by decide) (by decide) hbits hdamaged rfl (by decide) (by decide)

end Rekuiper.Connectors
