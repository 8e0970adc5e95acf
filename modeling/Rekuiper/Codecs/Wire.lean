import Rekuiper.Lib.Words

/-!
# The protobuf wire format

Varints, tags, length-delimited bytes and fixed-width numbers. Reading has a cursor: it
gives what it has read and the position behind it, or nothing where the bytes are
malformed, which fails the whole message. What is written at a position reads back from
there, whatever stands before and behind it.
-/

namespace Rekuiper.Codecs

variable {bytes after raw : List UInt8} {pos : Nat}

-- ---- Varints

def readVarintFrom (bytes : List UInt8) : List Nat → UInt64 → Nat → Option (UInt64 × Nat)
  | [], _, _ => none
  | shift :: shifts, result, pos =>
    match bytes[pos]? with
    | none => none
    | some b =>
      let result := result ||| ((b &&& 0x7F).toUInt64 <<< UInt64.ofNat shift)
      if b &&& 0x80 = 0 then some (result, pos + 1)
      else readVarintFrom bytes shifts result (pos + 1)

def readVarint (bytes : List UInt8) (pos : Nat) : Option (UInt64 × Nat) :=
  readVarintFrom bytes ((List.range 10).map (7 * ·)) 0 pos

def writeVarintFrom : Nat → UInt64 → List UInt8
  | 0, _ => []
  | rounds + 1, value =>
    let bits := (value &&& 0x7F).toUInt8
    let value := value >>> 7
    if value = 0 then [bits] else (bits ||| 0x80) :: writeVarintFrom rounds value

/-- The bytes `write_varint` pushes: 64 bits are gone after ten rounds. -/
def writeVarint (value : UInt64) : List UInt8 := writeVarintFrom 10 value

theorem drop_behind (h : bytes.drop pos = raw ++ after) : bytes.drop (pos + raw.length) = after := by
  rw [← List.drop_drop, h, List.drop_left]

theorem drop_byte {b : UInt8} (h : bytes.drop pos = b :: after) : bytes.drop (pos + 1) = after := by
  rw [← List.drop_drop, h]
  rfl

theorem getElem?_of_drop {b : UInt8} (h : bytes.drop pos = b :: after) : bytes[pos]? = some b := by
  rw [← Nat.add_zero pos, ← List.getElem?_drop, h]
  rfl

theorem toNat_bits (value : UInt64) : (value &&& 0x7F).toUInt8.toNat = value.toNat % 128 := by
  rw [UInt64.toNat_toUInt8, UInt64.toNat_and]
  have h := Nat.and_two_pow_sub_one_eq_mod value.toNat 7
  have hlt := Nat.mod_lt value.toNat (show 0 < 2 ^ 7 by decide)
  rw [show (0x7F : UInt64).toNat = 2 ^ 7 - 1 from rfl, h]
  omega

theorem goes_on (b : UInt8) (h : b.toNat < 128) :
    (b ||| 0x80) &&& 0x80 ≠ 0 ∧ (b ||| 0x80) &&& 0x7F = b := by
  have hall : ∀ n < 128, (UInt8.ofNat n ||| 0x80) &&& 0x80 ≠ 0 ∧
      (UInt8.ofNat n ||| 0x80) &&& 0x7F = UInt8.ofNat n := by decide
  simpa using hall b.toNat h

theorem goes_not_on (b : UInt8) (h : b.toNat < 128) : b &&& 0x80 = 0 ∧ b &&& 0x7F = b := by
  have hall : ∀ n < 128, UInt8.ofNat n &&& 0x80 = 0 ∧ UInt8.ofNat n &&& 0x7F = UInt8.ofNat n := by
    decide
  simpa using hall b.toNat h

theorem toNat_or_shift (result : UInt64) (b : UInt8) (hk : k < 10)
    (hresult : result.toNat < 2 ^ (7 * k)) (hfit : b.toNat * 2 ^ (7 * k) < 2 ^ 64) :
    (result ||| (b.toUInt64 <<< UInt64.ofNat (7 * k))).toNat =
      result.toNat + b.toNat * 2 ^ (7 * k) := by
  rw [UInt64.toNat_or, UInt64.toNat_shiftLeft, UInt8.toNat_toUInt64, UInt64.toNat_ofNat',
    Nat.mod_eq_of_lt (by omega : 7 * k < 2 ^ 64), Nat.mod_eq_of_lt (by omega : 7 * k < 64),
    Nat.shiftLeft_eq, Nat.mod_eq_of_lt hfit, Nat.or_comm, Nat.mul_comm,
    ← Nat.two_pow_add_eq_or_of_lt hresult, Nat.add_comm]

theorem readVarintFrom_writeVarintFrom (n k : Nat) (value result : UInt64) (hn : 0 < n)
    (hk : k + n = 10) (hvalue : value.toNat < 2 ^ (64 - 7 * k))
    (hresult : result.toNat < 2 ^ (7 * k))
    (h : bytes.drop pos = writeVarintFrom n value ++ after) :
    ∃ read, readVarintFrom bytes ((List.range' k n).map (7 * ·)) result pos =
        some (read, pos + (writeVarintFrom n value).length) ∧
      read.toNat = result.toNat + value.toNat * 2 ^ (7 * k) := by
  induction n generalizing k value result pos with
  | zero => omega
  | succ n ih =>
    have hpow : 2 ^ (7 * (k + 1)) = 128 * 2 ^ (7 * k) := by
      rw [show 7 * (k + 1) = 7 * k + 7 by omega, Nat.pow_add, Nat.mul_comm]
    have hsplit : value.toNat * 2 ^ (7 * k) =
        value.toNat / 128 * 2 ^ (7 * (k + 1)) + value.toNat % 128 * 2 ^ (7 * k) := by
      conv => lhs; rw [← Nat.div_add_mod value.toNat 128]
      rw [hpow, Nat.add_mul, Nat.mul_comm 128, Nat.mul_assoc]
    have hbits := toNat_bits value
    have hrest : (value >>> 7).toNat = value.toNat / 128 := by
      rw [UInt64.toNat_shiftRight]
      exact Nat.shiftRight_eq_div_pow value.toNat 7
    have hlow : (value &&& 0x7F).toUInt8.toNat < 128 := by omega
    have hfits : value.toNat * 2 ^ (7 * k) < 2 ^ 64 := by
      rw [show 2 ^ 64 = 2 ^ (64 - 7 * k) * 2 ^ (7 * k) by rw [← Nat.pow_add]; congr 1; omega]
      exact Nat.mul_lt_mul_of_pos_right hvalue (Nat.two_pow_pos _)
    have hadd := toNat_or_shift result (value &&& 0x7F).toUInt8 (by omega) hresult (by
      rw [hbits]
      omega)
    rw [hbits] at hadd
    rw [writeVarintFrom] at h ⊢
    by_cases hlast : value >>> 7 = 0
    · have hzero : value.toNat / 128 = 0 := by rw [← hrest, hlast]; rfl
      rw [if_pos hlast] at h ⊢
      obtain ⟨hstop, hsame⟩ := goes_not_on _ hlow
      rw [List.range'_succ, List.map_cons, readVarintFrom, getElem?_of_drop h]
      dsimp only
      rw [if_pos hstop, hsame]
      refine ⟨_, rfl, ?_⟩
      rw [hadd, hsplit, hzero, Nat.zero_mul, Nat.zero_add]
    · have hmore : value.toNat / 128 ≠ 0 := by
        intro hzero
        exact hlast (UInt64.toNat_inj.mp (by rw [hrest, hzero]; rfl))
      rw [if_neg hlast] at h ⊢
      obtain ⟨hgoes, hsame⟩ := goes_on _ hlow
      -- two bits are left for the tenth byte, which ends the number
      have hk8 : k ≤ 8 := by
        refine Nat.le_of_not_lt fun hk8 => ?_
        obtain rfl : k = 9 := by omega
        have : value.toNat < 2 := hvalue
        omega
      obtain ⟨read, hread, htotal⟩ := ih (k + 1) (value >>> 7)
        (result ||| ((value &&& 0x7F).toUInt8.toUInt64 <<< UInt64.ofNat (7 * k)))
        (by omega) (by omega) (by
          rw [hrest]
          refine Nat.div_lt_of_lt_mul ?_
          rw [show 128 = 2 ^ 7 from rfl, ← Nat.pow_add]
          exact Nat.lt_of_lt_of_eq hvalue (by congr 1; omega))
        (by
          have hpart : value.toNat % 128 * 2 ^ (7 * k) ≤ 127 * 2 ^ (7 * k) :=
            Nat.mul_le_mul_right _ (by omega)
          omega)
        (drop_byte h)
      rw [List.range'_succ, List.map_cons, readVarintFrom, getElem?_of_drop h]
      dsimp only
      rw [if_neg hgoes, hsame]
      refine ⟨read, ?_, ?_⟩
      · refine hread.trans (congrArg some (Prod.ext rfl ?_))
        simp only [List.length_cons]
        omega
      · rw [htotal, hadd, hrest, hsplit]
        omega

theorem readVarint_writeVarint {value : UInt64} (h : bytes.drop pos = writeVarint value ++ after) :
    readVarint bytes pos = some (value, pos + (writeVarint value).length) := by
  obtain ⟨read, hread, htotal⟩ := readVarintFrom_writeVarintFrom 10 0 value 0 (by decide) rfl
    value.toNat_lt (by decide) h
  have hvalue : read = value := UInt64.toNat_inj.mp (by simpa using htotal)
  rw [readVarint, List.range_eq_range', hread, hvalue]
  rfl

theorem writeVarint_ne_nil (value : UInt64) : writeVarint value ≠ [] := by
  rw [writeVarint, writeVarintFrom]
  split <;> simp

-- ---- Tags, lengths and fixed widths

def writeTag (number : UInt32) (wireType : UInt8) : List UInt8 :=
  writeVarint (number.toUInt64 <<< 3 ||| wireType.toUInt64)

/-- The largest `usize` is one less. -/
def usizeBound : Nat := 2 ^ 64

def checkedAdd (a b : Nat) : Option Nat := if a + b < usizeBound then some (a + b) else none

def readLenBytes (bytes : List UInt8) (pos : Nat) : Option (List UInt8 × Nat) := do
  let (len, pos) ← readVarint bytes pos
  let stop ← checkedAdd pos len.toNat
  if bytes.length < stop then none else some ((bytes.drop pos).take (stop - pos), stop)

/-- `read_fixed::<N>` -/
def readFixed (n : Nat) (bytes : List UInt8) (pos : Nat) : Option (List UInt8 × Nat) := do
  let stop ← checkedAdd pos n
  if bytes.length < stop then none else some ((bytes.drop pos).take (stop - pos), stop)

/-- `to_le_bytes` of a number of `n` bytes -/
def toLeBytes : Nat → Nat → List UInt8
  | 0, _ => []
  | n + 1, value => .ofNat (value % 256) :: toLeBytes n (value / 256)

def fromLeBytes : List UInt8 → Nat
  | [] => 0
  | b :: rest => b.toNat + 256 * fromLeBytes rest

/-- The position behind a field that is not wanted. -/
def skipField (bytes : List UInt8) (pos : Nat) (wireType : UInt8) : Option Nat := do
  if wireType = 0 then
    let (_, pos) ← readVarint bytes pos
    some pos
  else if wireType = 1 then
    let pos ← checkedAdd pos 8
    if bytes.length < pos then none else some pos
  else if wireType = 2 then
    let (len, pos) ← readVarint bytes pos
    let pos ← checkedAdd pos len.toNat
    if bytes.length < pos then none else some pos
  else if wireType = 5 then
    let pos ← checkedAdd pos 4
    if bytes.length < pos then none else some pos
  else none

theorem tag_parts (number : UInt32) (wireType : UInt8) (hw : wireType.toNat < 8) :
    ((number.toUInt64 <<< 3 ||| wireType.toUInt64) >>> 3).toUInt32 = number ∧
      ((number.toUInt64 <<< 3 ||| wireType.toUInt64) &&& 0x07).toUInt8 = wireType := by
  have hn := number.toNat_lt
  have htag : (number.toUInt64 <<< 3 ||| wireType.toUInt64).toNat =
      2 ^ 3 * number.toNat + wireType.toNat := by
    rw [Nat.two_pow_add_eq_or_of_lt hw, UInt64.toNat_or, UInt64.toNat_shiftLeft,
      UInt32.toNat_toUInt64, UInt8.toNat_toUInt64, Nat.shiftLeft_eq, Nat.mul_comm]
    congr 1
    exact Nat.mod_eq_of_lt (by
      rw [show (3 : UInt64).toNat % 64 = 3 from rfl]
      omega)
  constructor
  · refine UInt32.toNat_inj.mp ?_
    rw [UInt64.toNat_toUInt32, UInt64.toNat_shiftRight, htag,
      show (3 : UInt64).toNat % 64 = 3 from rfl, Nat.shiftRight_eq_div_pow]
    omega
  · refine UInt8.toNat_inj.mp ?_
    rw [UInt64.toNat_toUInt8, UInt64.toNat_and, htag,
      show (0x07 : UInt64).toNat = 2 ^ 3 - 1 from rfl, Nat.and_two_pow_sub_one_eq_mod]
    omega

theorem le_of_drop (h : bytes.drop pos = raw ++ after) (hne : raw ≠ []) :
    pos + raw.length + after.length = bytes.length := by
  have hlen := congrArg List.length h
  rw [List.length_drop, List.length_append] at hlen
  have := List.length_pos_iff.mpr hne
  omega

theorem checkedAdd_le (bytes : List UInt8) (h : a + b ≤ bytes.length) (hsize : bytes.length < usizeBound) :
    checkedAdd a b = some (a + b) :=
  if_pos (by omega)

theorem readLenBytes_written (hsize : bytes.length < usizeBound)
    (h : bytes.drop pos = writeVarint (.ofNat raw.length) ++ (raw ++ after)) :
    readLenBytes bytes pos =
      some (raw, pos + (writeVarint (.ofNat raw.length) ++ raw).length) := by
  have hall : bytes.drop pos = (writeVarint (.ofNat raw.length) ++ raw) ++ after := by
    rw [h, List.append_assoc]
  have hle := le_of_drop hall (by simp [writeVarint_ne_nil])
  rw [List.length_append] at hle
  have hraw : (UInt64.ofNat raw.length).toNat = raw.length := by
    rw [UInt64.toNat_ofNat', Nat.mod_eq_of_lt]
    rw [usizeBound] at hsize
    omega
  have hbehind := drop_behind h
  rw [readLenBytes, readVarint_writeVarint h]
  simp only [Option.bind_eq_bind, Option.bind_some, hraw]
  rw [checkedAdd_le bytes (by omega) hsize]
  simp only [Option.bind_some]
  rw [if_neg (by omega), hbehind, Nat.add_sub_cancel_left, List.take_left, List.length_append,
    Nat.add_assoc]

theorem readFixed_written (hsize : bytes.length < usizeBound) (h : bytes.drop pos = raw ++ after)
    (hne : raw ≠ []) : readFixed raw.length bytes pos = some (raw, pos + raw.length) := by
  have hle := le_of_drop h hne
  rw [readFixed, checkedAdd_le bytes (by omega) hsize]
  simp only [Option.bind_eq_bind, Option.bind_some]
  rw [if_neg (by omega), h, Nat.add_sub_cancel_left, List.take_left]

theorem length_toLeBytes (n value : Nat) : (toLeBytes n value).length = n := by
  induction n generalizing value with
  | zero => rfl
  | succ n ih => rw [toLeBytes, List.length_cons, ih]

theorem fromLeBytes_toLeBytes (n value : Nat) (h : value < 256 ^ n) :
    fromLeBytes (toLeBytes n value) = value := by
  induction n generalizing value with
  | zero =>
    rw [Nat.pow_zero] at h
    simp only [toLeBytes, fromLeBytes]
    omega
  | succ n ih =>
    rw [Nat.pow_succ] at h
    rw [toLeBytes, fromLeBytes, ih _ (Nat.div_lt_of_lt_mul (by rwa [Nat.mul_comm])),
      UInt8.toNat_ofNat', Nat.mod_eq_of_lt (by omega : value % 256 < 2 ^ 8), Nat.mod_add_div]

end Rekuiper.Codecs
