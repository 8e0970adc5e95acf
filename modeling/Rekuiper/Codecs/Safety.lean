import Rekuiper.Codecs.RoundTrip

/-!
# Decoding arbitrary bytes

The decoder once more, as the machine runs it: with the position that every call leaves, and
with additions that may overflow and slices that may be out of bounds. Whatever the bytes are, it
runs into none of this. A call that reads something leaves the position further on and within the
slice, one that does not ends the decoding, and what comes out is what the codec says.
-/

namespace Rekuiper.Codecs.Machine

variable {α β : Type} {bytes : List UInt8} {pos low : Nat}

-- ---- The machine

/-- Why a run stops without a result. -/
inductive Panic
  | overflow
  | bounds
  | unfinished
  deriving DecidableEq

abbrev Result := Except Panic

/-- What a call returns, and the position it leaves. -/
abbrev Read (α : Type) := Option α × Nat

/-- A byte slice: its length is a `usize`. -/
structure Slice where
  bytes : List UInt8
  fits : bytes.length < usizeBound

def andThen (m : Result (Read α)) (f : α → Nat → Result (Read β)) : Result (Read β) :=
  match m with
  | .error panic => .error panic
  | .ok (none, pos) => .ok (none, pos)
  | .ok (some a, pos) => f a pos

def mapRead (m : Result (Read α)) (f : α → β) : Result (Read β) :=
  andThen m fun a pos => .ok (some (f a), pos)

/-- `+=` on a `usize` -/
def addAssign (a b : Nat) : Result Nat := if a + b < usizeBound then .ok (a + b) else .error .overflow

/-- `<<` on a `u64` -/
def shiftLeft (v : UInt64) (shift : Nat) : Result UInt64 :=
  if shift < 64 then .ok (v <<< .ofNat shift) else .error .overflow

/-- `&bytes[start..stop]` -/
def sliceOf (bytes : List UInt8) (start stop : Nat) : Result (List UInt8) :=
  if start ≤ stop ∧ stop ≤ bytes.length then .ok ((bytes.drop start).take (stop - start))
  else .error .bounds

/-- `copy_from_slice` into an array of `n` bytes -/
def copyFromSlice (n : Nat) (raw : List UInt8) : Result (List UInt8) :=
  if raw.length = n then .ok raw else .error .bounds

-- ---- The decoder

def readVarintFrom (bytes : List UInt8) : List Nat → UInt64 → Nat → Result (Read UInt64)
  | [], _, pos => .ok (none, pos)
  | shift :: shifts, result, pos =>
    match bytes[pos]? with
    | none => .ok (none, pos)
    | some b => do
      let pos ← addAssign pos 1
      let bits ← shiftLeft (b &&& 0x7F).toUInt64 shift
      let result := result ||| bits
      if b &&& 0x80 = 0 then .ok (some result, pos) else readVarintFrom bytes shifts result pos

def readVarint (bytes : List UInt8) (pos : Nat) : Result (Read UInt64) :=
  readVarintFrom bytes ((List.range 10).map (7 * ·)) 0 pos

def skipBytes (bytes : List UInt8) (pos n : Nat) : Result (Read Unit) :=
  match checkedAdd pos n with
  | none => .ok (none, pos)
  | some pos => if bytes.length < pos then .ok (none, pos) else .ok (some (), pos)

def skipField (bytes : List UInt8) (pos : Nat) (wireType : UInt8) : Result (Read Unit) :=
  if wireType = 0 then mapRead (readVarint bytes pos) fun _ => ()
  else if wireType = 1 then skipBytes bytes pos 8
  else if wireType = 2 then
    andThen (readVarint bytes pos) fun len pos => skipBytes bytes pos len.toNat
  else if wireType = 5 then skipBytes bytes pos 4
  else .ok (none, pos)

/-- The bytes up to an end that is checked first. -/
def takeBytes (bytes : List UInt8) (pos n : Nat) : Result (Read (List UInt8)) :=
  match checkedAdd pos n with
  | none => .ok (none, pos)
  | some stop =>
    if bytes.length < stop then .ok (none, pos)
    else do
      let raw ← sliceOf bytes pos stop
      .ok (some raw, stop)

def readLenBytes (bytes : List UInt8) (pos : Nat) : Result (Read (List UInt8)) :=
  andThen (readVarint bytes pos) fun len pos => takeBytes bytes pos len.toNat

/-- `read_fixed::<N>` -/
def readFixed (n : Nat) (bytes : List UInt8) (pos : Nat) : Result (Read (List UInt8)) :=
  andThen (takeBytes bytes pos n) fun raw pos => do
    let out ← copyFromSlice n raw
    .ok (some out, pos)

variable {F : Type}

def readInt (bytes : List UInt8) (pos : Nat) (as : UInt64 → Int) : Result (Read (Option (Value F))) :=
  mapRead (readVarint bytes pos) fun v => some (int (as v))

def readFixedInt (n : Nat) (bytes : List UInt8) (pos : Nat) (as : UInt64 → Int) :
    Result (Read (Option (Value F))) :=
  mapRead (readFixed n bytes pos) fun raw => some (int (as (.ofNat (fromLeBytes raw))))

variable [Float64 F] [FloatBits F]

abbrev Nested (F : Type) := String → Option (List UInt8 → Result (Option (Value F)))

def decodeOther (nested : Nested F) (bytes : List UInt8) (pos : Nat) (wireType : UInt8)
    (field : ProtoField) : Result (Read (Option (Value F))) :=
  match if wireType = 2 then nested field.protoType else none with
  | some decode =>
    andThen (readLenBytes bytes pos) fun raw pos => do
      let value ← decode raw
      .ok (some value, pos)
  | none => mapRead (skipField bytes pos wireType) fun _ => none

def decodeFieldSized (nested : Nested F) (bytes : List UInt8) (pos : Nat) (wireType : UInt8)
    (field : ProtoField) : Result (Read (Option (Value F))) :=
  match field.type, wireType with
  | .string, 2 => mapRead (readLenBytes bytes pos) fun raw => some (.string (Lib.fromUtf8Lossy raw))
  | .bytes, 2 => mapRead (readLenBytes bytes pos) fun raw => some (.string (Lib.Base64.encode raw))
  | .float, 5 =>
    mapRead (readFixed 4 bytes pos) fun raw =>
      finiteNumber (FloatBits.ofF32 (.ofNat (fromLeBytes raw)))
  | .double, 1 =>
    mapRead (readFixed 8 bytes pos) fun raw =>
      finiteNumber (FloatBits.ofBits (.ofNat (fromLeBytes raw)))
  | .fixed64, 1 => readFixedInt 8 bytes pos fun v => v.toNat
  | .sfixed64, 1 => readFixedInt 8 bytes pos fun v => v.toInt64.toInt
  | .fixed32, 5 => readFixedInt 4 bytes pos fun v => v.toUInt32.toNat
  | .sfixed32, 5 => readFixedInt 4 bytes pos fun v => v.toUInt32.toInt32.toInt
  | _, _ => decodeOther nested bytes pos wireType field

def decodeField (nested : Nested F) (bytes : List UInt8) (pos : Nat) (wireType : UInt8)
    (field : ProtoField) : Result (Read (Option (Value F))) :=
  match field.type, wireType with
  | .int32, 0 => readInt bytes pos fun v => v.toUInt32.toInt32.toInt
  | .int64, 0 => readInt bytes pos fun v => v.toInt64.toInt
  | .uint32, 0 => readInt bytes pos fun v => v.toUInt32.toNat
  | .uint64, 0 => readInt bytes pos fun v => v.toNat
  | .sint32, 0 => readInt bytes pos fun v => (unzigzag v).toInt32.toInt
  | .sint64, 0 => readInt bytes pos fun v => (unzigzag v).toInt
  | .bool, 0 => mapRead (readVarint bytes pos) fun v => some (.bool (v != 0))
  | _, _ => decodeFieldSized nested bytes pos wireType field

/-- One pass of the loop of `decode_inner`: the object after it. -/
def decodeRound (fields : List ProtoField) (nested : Nested F) (bytes : List UInt8) (pos : Nat)
    (map : List (String × Value F)) : Result (Read (List (String × Value F))) :=
  andThen (readVarint bytes pos) fun tag pos =>
    let number := (tag >>> 3).toUInt32
    let wireType := (tag &&& 0x07).toUInt8
    match fields.find? fun field => field.number == number with
    | none => mapRead (skipField bytes pos wireType) fun _ => map
    | some field =>
      mapRead (decodeField nested bytes pos wireType field) fun value =>
        value.elim map fun value => putField field value map

def decodeLoop (fields : List ProtoField) (nested : Nested F) (bytes : List UInt8) :
    Nat → Nat → List (String × Value F) → Result (Option (List (String × Value F)))
  | rounds, pos, map =>
    if pos < bytes.length then
      match rounds with
      | 0 => .error .unfinished
      | rounds + 1 => do
        match ← decodeRound fields nested bytes pos map with
        | (none, _) => .ok none
        | (some map, pos) => decodeLoop fields nested bytes rounds pos map
    else .ok (some map)

mutual
def decodeInner : ProtoMessage → List UInt8 → Result (Option (Value F))
  | ⟨fields, nested⟩, bytes => do
    let map ← decodeLoop fields (decodeNested nested) bytes bytes.length 0 []
    .ok (map.map .object)
def decodeNested : List (String × ProtoMessage) → Nested F
  | [], _ => none
  | (name, msg) :: rest, key => if name = key then some (decodeInner msg) else decodeNested rest key
end

/-- `ProtobufCodec::decode` -/
def decode (slice : Slice) (msg : ProtoMessage) : Result (Value F) := do
  let value ← decodeInner msg slice.bytes
  .ok (value.getD .null)

-- ---- What a call does

/-- A call does not panic. It reads the value and leaves the position within the slice and not
below a bound, or there is no value and it reads nothing. -/
inductive Moves (bytes : List UInt8) (low : Nat) (value : Option (α × Nat)) : Result (Read α) → Prop
  | read {a : α} {pos : Nat} (hvalue : value = some (a, pos)) (hlow : low ≤ pos)
      (hin : pos ≤ bytes.length) : Moves bytes low value (.ok (some a, pos))
  | ended {pos : Nat} (hvalue : value = none) : Moves bytes low value (.ok (none, pos))

theorem Moves.andThen {value : Option (α × Nat)} {next : α → Nat → Option (β × Nat)}
    {m : Result (Read α)} {f : α → Nat → Result (Read β)} (h : Moves bytes low value m)
    (hf : ∀ a pos, value = some (a, pos) → low ≤ pos → pos ≤ bytes.length →
      Moves bytes low (next a pos) (f a pos)) :
    Moves bytes low (value.bind fun (a, pos) => next a pos) (andThen m f) := by
  cases h with
  | read hvalue hlow hin => simpa [Machine.andThen, hvalue] using hf _ _ hvalue hlow hin
  | ended hvalue => exact .ended (by simp [hvalue])

theorem Moves.map {value : Option (α × Nat)} {m : Result (Read α)} (h : Moves bytes low value m)
    (f : α → β) : Moves bytes low (value.map fun (a, pos) => (f a, pos)) (mapRead m f) := by
  cases h with
  | read hvalue hlow hin => exact .read (by simp [hvalue]) hlow hin
  | ended hvalue => exact .ended (by simp [hvalue])

theorem Moves.weaken {low' : Nat} {value : Option (α × Nat)} {m : Result (Read α)}
    (h : Moves bytes low value m) (hle : low' ≤ low) : Moves bytes low' value m := by
  cases h with
  | read hvalue hlow hin => exact .read hvalue (Nat.le_trans hle hlow) hin
  | ended hvalue => exact .ended hvalue

theorem addAssign_ok {a b : Nat} (h : a + b < usizeBound) : addAssign a b = .ok (a + b) := if_pos h

theorem readVarintFrom_moves (hsize : bytes.length < usizeBound) {shifts : List Nat}
    (hshifts : ∀ shift ∈ shifts, shift < 64) (result : UInt64) (pos : Nat) :
    Moves bytes (pos + 1) (Codecs.readVarintFrom bytes shifts result pos)
      (readVarintFrom bytes shifts result pos) := by
  induction shifts generalizing result pos with
  | nil => exact .ended rfl
  | cons shift shifts ih =>
    obtain ⟨hshift, hshifts⟩ := List.forall_mem_cons.mp hshifts
    rw [readVarintFrom, Codecs.readVarintFrom]
    cases hb : bytes[pos]? with
    | none => exact .ended rfl
    | some b =>
      have hpos : pos < bytes.length := (List.getElem?_eq_some_iff.mp hb).1
      have hadd : addAssign pos 1 = .ok (pos + 1) := addAssign_ok (by omega)
      have hbits : shiftLeft (b &&& 0x7F).toUInt64 shift =
          .ok ((b &&& 0x7F).toUInt64 <<< UInt64.ofNat shift) := if_pos hshift
      simp only [hadd, hbits, bind, Except.bind]
      split
      · exact .read rfl (Nat.le_refl _) hpos
      · exact (ih hshifts _ (pos + 1)).weaken (Nat.le_succ _)

theorem readVarint_moves (hsize : bytes.length < usizeBound) (pos : Nat) :
    Moves bytes (pos + 1) (Codecs.readVarint bytes pos) (readVarint bytes pos) :=
  readVarintFrom_moves hsize (by decide) 0 pos

theorem Moves.of_eq {value value' : Option (α × Nat)} {m : Result (Read α)}
    (h : Moves bytes low value m) (heq : value' = value) : Moves bytes low value' m := heq ▸ h

theorem skipBytes_moves (bytes : List UInt8) (pos n : Nat) :
    Moves bytes (pos + n)
      ((checkedAdd pos n).bind fun pos => if bytes.length < pos then none else some ((), pos))
      (skipBytes bytes pos n) := by
  unfold skipBytes
  cases hadd : checkedAdd pos n with
  | none => exact .ended rfl
  | some stop =>
    obtain ⟨-, hstop⟩ := Option.ite_none_right_eq_some.mp hadd
    obtain rfl := Option.some.inj hstop
    by_cases hout : bytes.length < pos + n
    · simpa [hout] using Moves.ended rfl
    · simpa [hout] using Moves.read rfl (Nat.le_refl _) (by omega)

theorem takeBytes_moves (bytes : List UInt8) (pos n : Nat) :
    Moves bytes (pos + n)
      ((checkedAdd pos n).bind fun stop =>
        if bytes.length < stop then none else some ((bytes.drop pos).take (stop - pos), stop))
      (takeBytes bytes pos n) := by
  unfold takeBytes
  cases hadd : checkedAdd pos n with
  | none => exact .ended rfl
  | some stop =>
    obtain ⟨-, hstop⟩ := Option.ite_none_right_eq_some.mp hadd
    obtain rfl := Option.some.inj hstop
    by_cases hout : bytes.length < pos + n
    · simpa [hout] using Moves.ended rfl
    · have hslice : sliceOf bytes pos (pos + n) = .ok ((bytes.drop pos).take (pos + n - pos)) :=
        if_pos ⟨by omega, by omega⟩
      simp only [hout, if_false, hslice, bind, Except.bind, Option.bind_some]
      exact .read rfl (Nat.le_refl _) (by omega)

theorem skipField_moves (hsize : bytes.length < usizeBound) (pos : Nat) (wireType : UInt8) :
    Moves bytes (pos + 1) ((Codecs.skipField bytes pos wireType).map fun pos => ((), pos))
      (skipField bytes pos wireType) := by
  have hskip : ∀ pos n, ((checkedAdd pos n).bind fun pos => if bytes.length < pos then none
      else some pos).map (fun pos => ((), pos)) =
        (checkedAdd pos n).bind fun pos => if bytes.length < pos then none else some ((), pos) := by
    intro pos n
    cases checkedAdd pos n with
    | none => rfl
    | some stop =>
      simp only [Option.bind_some]
      split <;> rfl
  have hvarint := readVarint_moves hsize pos
  simp only [skipField, Codecs.skipField, bind]
  split
  · exact (hvarint.map fun _ => ()).of_eq (by cases Codecs.readVarint bytes pos <;> rfl)
  split
  · exact ((skipBytes_moves bytes pos 8).weaken (by omega)).of_eq (hskip pos 8)
  split
  · refine (hvarint.andThen fun len pos' _ hlow _ =>
      (skipBytes_moves bytes pos' len.toNat).weaken (by omega)).of_eq ?_
    cases Codecs.readVarint bytes pos with
    | none => rfl
    | some read => exact hskip read.2 read.1.toNat
  split
  · exact ((skipBytes_moves bytes pos 4).weaken (by omega)).of_eq (hskip pos 4)
  · exact .ended rfl

theorem readLenBytes_moves (hsize : bytes.length < usizeBound) (pos : Nat) :
    Moves bytes (pos + 1) (Codecs.readLenBytes bytes pos) (readLenBytes bytes pos) := by
  refine ((readVarint_moves hsize pos).andThen fun len pos' _ hlow _ =>
    (takeBytes_moves bytes pos' len.toNat).weaken (by omega)).of_eq ?_
  rfl

theorem readFixed_moves (n : Nat) (bytes : List UInt8) (pos : Nat) :
    Moves bytes (pos + n) (Codecs.readFixed n bytes pos) (readFixed n bytes pos) := by
  unfold readFixed takeBytes Codecs.readFixed
  cases hadd : checkedAdd pos n with
  | none => exact .ended rfl
  | some stop =>
    obtain ⟨-, hstop⟩ := Option.ite_none_right_eq_some.mp hadd
    obtain rfl := Option.some.inj hstop
    by_cases hout : bytes.length < pos + n
    · simpa [hout, andThen] using Moves.ended rfl
    · have hslice : sliceOf bytes pos (pos + n) = .ok ((bytes.drop pos).take (pos + n - pos)) :=
        if_pos ⟨by omega, by omega⟩
      have hcopy : copyFromSlice n ((bytes.drop pos).take (pos + n - pos)) =
          .ok ((bytes.drop pos).take (pos + n - pos)) := by
        refine if_pos ?_
        rw [List.length_take, List.length_drop]
        omega
      simp only [hout, if_false, hslice, bind, Except.bind, andThen, hcopy, Option.bind_some]
      exact .read rfl (Nat.le_refl _) (by omega)

-- ---- Fields

variable {F : Type}

theorem readInt_moves (hsize : bytes.length < usizeBound) (pos : Nat) (as : UInt64 → Int) :
    Moves bytes (pos + 1) (Codecs.readInt bytes pos as : Option (Option (Value F) × Nat))
      (readInt bytes pos as) :=
  (readVarint_moves hsize pos).map fun v => some (int (as v))

theorem readFixedInt_moves {n : Nat} (hn : 0 < n) (bytes : List UInt8) (pos : Nat)
    (as : UInt64 → Int) :
    Moves bytes (pos + 1) (Codecs.readFixedInt n bytes pos as : Option (Option (Value F) × Nat))
      (readFixedInt n bytes pos as) :=
  ((readFixed_moves n bytes pos).weaken (Nat.add_le_add_left hn pos)).map fun raw =>
    some (int (as (.ofNat (fromLeBytes raw))))

theorem length_readLenBytes {raw : List UInt8} {pos' : Nat}
    (h : Codecs.readLenBytes bytes pos = some (raw, pos')) : raw.length ≤ bytes.length := by
  simp only [Codecs.readLenBytes, bind, Option.bind_eq_some_iff] at h
  obtain ⟨⟨len, start⟩, -, stop, -, hstop⟩ := h
  obtain ⟨-, hraw⟩ := Option.ite_none_left_eq_some.mp hstop
  obtain ⟨rfl, -⟩ := Prod.mk.inj (Option.some.inj hraw)
  simp only [List.length_take, List.length_drop]
  omega

variable [Float64 F] [FloatBits F]

def SafeNested (nested : Nested F) (pure : String → Option (List UInt8 → Option (Value F))) : Prop :=
  ∀ key, Option.Rel (fun decode value => ∀ raw : List UInt8, raw.length < usizeBound →
    decode raw = .ok (value raw)) (nested key) (pure key)

omit [Float64 F] [FloatBits F] in
theorem decodeOther_moves {nested : Nested F} {pure : String → Option (List UInt8 → Option (Value F))}
    (hsize : bytes.length < usizeBound) (hnested : SafeNested nested pure) (pos : Nat)
    (wireType : UInt8) (field : ProtoField) :
    Moves bytes (pos + 1) (Codecs.decodeOther pure bytes pos wireType field)
      (decodeOther nested bytes pos wireType field) := by
  have hvalue : ((Codecs.skipField bytes pos wireType).map fun pos =>
      ((none : Option (Value F)), pos)) =
      ((Codecs.skipField bytes pos wireType).map fun pos => ((), pos)).map fun r => (none, r.2) := by
    cases Codecs.skipField bytes pos wireType <;> rfl
  have hskip := ((skipField_moves hsize pos wireType).map fun _ => (none : Option (Value F))).of_eq
    hvalue
  unfold decodeOther Codecs.decodeOther
  by_cases hwire : wireType = 2
  · have hfield := hnested field.protoType
    simp only [hwire, if_true]
    generalize nested field.protoType = found at hfield
    generalize pure field.protoType = value at hfield
    cases hfield with
    | none => simpa [hwire] using hskip
    | @some decode value hdecode =>
      simp only
      have hraws : ∀ raw pos', Codecs.readLenBytes bytes pos = some (raw, pos') → pos + 1 ≤ pos' →
          pos' ≤ bytes.length → Moves bytes (pos + 1) (some (value raw, pos'))
            (do let v ← decode raw; .ok (some v, pos')) := by
        intro raw pos' hraw hlow hin
        have hfits : raw.length < usizeBound := Nat.lt_of_le_of_lt (length_readLenBytes hraw) hsize
        simp only [hdecode raw hfits, bind, Except.bind]
        exact .read rfl hlow hin
      exact ((readLenBytes_moves hsize pos).andThen hraws).of_eq (Option.map_eq_bind ..)
  · simpa [hwire] using hskip

theorem decodeFieldSized_moves {nested : Nested F}
    {pure : String → Option (List UInt8 → Option (Value F))} (hsize : bytes.length < usizeBound)
    (hnested : SafeNested nested pure) (pos : Nat) (wireType : UInt8) (field : ProtoField) :
    Moves bytes (pos + 1) (Codecs.decodeFieldSized pure bytes pos wireType field)
      (decodeFieldSized nested bytes pos wireType field) := by
  have hother := decodeOther_moves hsize hnested pos wireType field
  have hlen := readLenBytes_moves hsize pos
  have hfixed := fun n (hn : 0 < n) => readFixedInt_moves (F := F) hn bytes pos
  have hle : ∀ n, 0 < n → pos + 1 ≤ pos + n := fun n hn => Nat.add_le_add_left hn pos
  have hfour := (readFixed_moves 4 bytes pos).weaken (hle 4 (by decide))
  have height := (readFixed_moves 8 bytes pos).weaken (hle 8 (by decide))
  unfold decodeFieldSized
  split
  · rename_i htype
    simpa [Codecs.decodeFieldSized, htype] using hlen.map fun raw =>
      some (Value.string (Lib.fromUtf8Lossy raw))
  · rename_i htype
    simpa [Codecs.decodeFieldSized, htype] using hlen.map fun raw =>
      some (Value.string (Lib.Base64.encode raw))
  · rename_i htype
    simpa [Codecs.decodeFieldSized, htype] using hfour.map fun raw =>
      (finiteNumber (FloatBits.ofF32 (.ofNat (fromLeBytes raw))) : Option (Value F))
  · rename_i htype
    simpa [Codecs.decodeFieldSized, htype] using height.map fun raw =>
      (finiteNumber (FloatBits.ofBits (.ofNat (fromLeBytes raw))) : Option (Value F))
  · rename_i htype
    simpa [Codecs.decodeFieldSized, htype] using hfixed 8 (by decide) fun v => v.toNat
  · rename_i htype
    simpa [Codecs.decodeFieldSized, htype] using hfixed 8 (by decide) fun v => v.toInt64.toInt
  · rename_i htype
    simpa [Codecs.decodeFieldSized, htype] using hfixed 4 (by decide) fun v => v.toUInt32.toNat
  · rename_i htype
    simpa [Codecs.decodeFieldSized, htype] using hfixed 4 (by decide) fun v => v.toUInt32.toInt32.toInt
  · simp [Codecs.decodeFieldSized, *]

theorem decodeField_moves {nested : Nested F}
    {pure : String → Option (List UInt8 → Option (Value F))} (hsize : bytes.length < usizeBound)
    (hnested : SafeNested nested pure) (pos : Nat) (wireType : UInt8) (field : ProtoField) :
    Moves bytes (pos + 1) (Codecs.decodeField pure bytes pos wireType field)
      (decodeField nested bytes pos wireType field) := by
  have hsized := decodeFieldSized_moves hsize hnested pos wireType field
  have hint := readInt_moves (F := F) hsize pos
  unfold decodeField
  split
  · rename_i htype
    simpa [Codecs.decodeField, htype] using hint fun v => v.toUInt32.toInt32.toInt
  · rename_i htype
    simpa [Codecs.decodeField, htype] using hint fun v => v.toInt64.toInt
  · rename_i htype
    simpa [Codecs.decodeField, htype] using hint fun v => v.toUInt32.toNat
  · rename_i htype
    simpa [Codecs.decodeField, htype] using hint fun v => v.toNat
  · rename_i htype
    simpa [Codecs.decodeField, htype] using hint fun v => (unzigzag v).toInt32.toInt
  · rename_i htype
    simpa [Codecs.decodeField, htype] using hint fun v => (unzigzag v).toInt
  · rename_i htype
    simpa [Codecs.decodeField, htype] using (readVarint_moves hsize pos).map fun v =>
      some (Value.bool (F := F) (v != 0))
  · simp [Codecs.decodeField, *]

-- ---- Messages

def fieldValue (fields : List ProtoField) (pure : String → Option (List UInt8 → Option (Value F)))
    (bytes : List UInt8) (map : List (String × Value F)) (tag : UInt64) (pos : Nat) :
    Option (List (String × Value F) × Nat) :=
  match fields.find? fun field => field.number == (tag >>> 3).toUInt32 with
  | none => ((Codecs.skipField bytes pos (tag &&& 0x07).toUInt8)).map fun pos => (map, pos)
  | some field =>
    (Codecs.decodeField pure bytes pos (tag &&& 0x07).toUInt8 field).map fun (value, pos) =>
      (value.elim map fun value => putField field value map, pos)

def roundValue (fields : List ProtoField) (pure : String → Option (List UInt8 → Option (Value F)))
    (bytes : List UInt8) (pos : Nat) (map : List (String × Value F)) :
    Option (List (String × Value F) × Nat) :=
  (Codecs.readVarint bytes pos).bind fun (tag, pos) => fieldValue fields pure bytes map tag pos

theorem codec_loop (fields : List ProtoField) (pure : String → Option (List UInt8 → Option (Value F)))
    (rounds : Nat) {pos : Nat} (hpos : pos < bytes.length) (map : List (String × Value F)) :
    Codecs.decodeLoop fields pure bytes (rounds + 1) pos map =
      (roundValue fields pure bytes pos map).bind fun (map, pos) =>
        Codecs.decodeLoop fields pure bytes rounds pos map := by
  rw [Codecs.decodeLoop, if_pos hpos, roundValue]
  cases Codecs.readVarint bytes pos with
  | none => rfl
  | some read =>
    simp only [bind, Option.bind_some, fieldValue]
    cases fields.find? fun field => field.number == (read.1 >>> 3).toUInt32 with
    | none => cases Codecs.skipField bytes read.2 (read.1 &&& 7).toUInt8 <;> rfl
    | some field =>
      dsimp only
      cases Codecs.decodeField pure bytes read.2 (read.1 &&& 7).toUInt8 field with
      | none => rfl
      | some decoded => cases decoded with | mk value pos => cases value <;> rfl

theorem decodeRound_moves {nested : Nested F}
    {pure : String → Option (List UInt8 → Option (Value F))} (hsize : bytes.length < usizeBound)
    (hnested : SafeNested nested pure) (fields : List ProtoField) (pos : Nat)
    (map : List (String × Value F)) :
    Moves bytes (pos + 1) (roundValue fields pure bytes pos map)
      (decodeRound fields nested bytes pos map) := by
  unfold roundValue
  refine (readVarint_moves hsize pos).andThen fun tag pos' _ hlow _ => ?_
  unfold fieldValue
  dsimp only
  split
  · refine (((skipField_moves hsize pos' _).weaken (by omega)).map fun _ => map).of_eq ?_
    cases Codecs.skipField bytes pos' _ <;> rfl
  · exact ((decodeField_moves hsize hnested pos' _ _).weaken (by omega)).map fun value =>
      value.elim map fun value => putField _ value map

theorem decodeLoop_eq {nested : Nested F}
    {pure : String → Option (List UInt8 → Option (Value F))} (hsize : bytes.length < usizeBound)
    (hnested : SafeNested nested pure) (fields : List ProtoField) {rounds pos : Nat}
    (hrounds : bytes.length ≤ pos + rounds) (map : List (String × Value F)) :
    decodeLoop fields nested bytes rounds pos map =
      .ok (Codecs.decodeLoop fields pure bytes rounds pos map) := by
  induction rounds generalizing pos map with
  | zero =>
    have hpos : ¬ pos < bytes.length := by omega
    simp [decodeLoop, Codecs.decodeLoop, hpos]
  | succ rounds ih =>
    by_cases hpos : pos < bytes.length
    · rw [decodeLoop, if_pos hpos, codec_loop fields pure rounds hpos]
      have hround := decodeRound_moves hsize hnested fields pos map
      generalize decodeRound fields nested bytes pos map = m at hround
      cases hround with
      | read hvalue hlow hin => simpa [hvalue, bind, Except.bind] using ih (by omega) _
      | ended hvalue => simp [hvalue, bind, Except.bind]
    · rw [decodeLoop, if_neg hpos]
      simp [Codecs.decodeLoop, hpos]

mutual
theorem decodeInner_eq (msg : ProtoMessage) (bytes : List UInt8) (hsize : bytes.length < usizeBound) :
    (decodeInner msg bytes : Result (Option (Value F))) = .ok (Codecs.decodeInner msg bytes) := by
  match msg with
  | ⟨fields, nested⟩ =>
    rw [decodeInner, Codecs.decodeInner,
      decodeLoop_eq hsize (decodeNested_safe nested) fields (Nat.le_add_left _ _) []]
    rfl
theorem decodeNested_safe (nested : List (String × ProtoMessage)) :
    SafeNested (F := F) (decodeNested nested) (Codecs.decodeNested nested) := by
  match nested with
  | [] => exact fun _ => .none
  | (name, msg) :: rest =>
    intro key
    rw [decodeNested, Codecs.decodeNested]
    split
    · exact .some fun raw hraw => decodeInner_eq msg raw hraw
    · exact decodeNested_safe rest key
end

-- ---- Safety

/-- A call does not panic. If the decoding goes on, its position is further on and within the
slice. -/
def Advances (bytes : List UInt8) (pos : Nat) (m : Result (Read α)) : Prop :=
  ∃ read pos', m = .ok (read, pos') ∧ (read.isSome → pos < pos' ∧ pos' ≤ bytes.length)

theorem Moves.advances {value : Option (α × Nat)} {m : Result (Read α)}
    (h : Moves bytes (pos + 1) value m) : Advances bytes pos m := by
  cases h with
  | read hvalue hlow hin => exact ⟨_, _, rfl, fun _ => ⟨hlow, hin⟩⟩
  | ended hvalue => exact ⟨_, _, rfl, nofun⟩

/-- On every slice and for every message, no pass of the loop of `decode_inner` and no skip
panics. Each moves the position further on within the slice, or it ends the decoding. The decoding
gives an object or `null`, which is what the codec says. -/
theorem decode_safe (slice : Slice) (msg : ProtoMessage) :
    (∀ pos (map : List (String × Value F)), Advances slice.bytes pos
      (decodeRound msg.fields (decodeNested msg.nested) slice.bytes pos map)) ∧
    (∀ pos wireType, Advances slice.bytes pos (skipField slice.bytes pos wireType)) ∧
      ∃ value : Value F, decode slice msg = .ok value ∧ value = Codecs.decode slice.bytes msg ∧
        (value = .null ∨ ∃ fields, value = .object fields) := by
  refine ⟨fun pos map => ?_, fun pos wireType => ?_, ?_⟩
  · exact (decodeRound_moves slice.fits (decodeNested_safe msg.nested) msg.fields pos map).advances
  · exact (skipField_moves slice.fits pos wireType).advances
  · refine ⟨Codecs.decode slice.bytes msg, ?_, rfl, ?_⟩
    · simp [decode, decodeInner_eq msg slice.bytes slice.fits, bind, Except.bind, Codecs.decode]
    · obtain ⟨fields, nested⟩ := msg
      rw [Codecs.decode, Codecs.decodeInner]
      cases Codecs.decodeLoop fields (Codecs.decodeNested nested) slice.bytes slice.bytes.length 0
          ([] : List (String × Value F)) with
      | none => exact .inl rfl
      | some map => exact .inr ⟨map, rfl⟩

/-- The tag of an eight-byte field alone: its skip leaves a position behind the end, and ends the
decoding. -/
theorem skip_leaves_slice : ¬ ∀ (slice : Slice) (msg : ProtoMessage) (pos : Nat)
    (map : List (String × Value ℚ)) (left : Read (List (String × Value ℚ))),
    pos < slice.bytes.length →
      decodeRound msg.fields (decodeNested msg.nested) slice.bytes pos map = .ok left →
        left.2 ≤ slice.bytes.length := by
  intro h
  exact absurd (h ⟨[0x09], by decide⟩ ⟨[], []⟩ 0 [] (none, 9) (by decide) rfl) (by decide)

end Rekuiper.Codecs.Machine
