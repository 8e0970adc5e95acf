import Rekuiper.Codecs.Protobuf

/-!
# Decoding undoes encoding

An object that conforms to a message definition comes back from its wire bytes. Each value
is written as a tag and a payload that reads back wherever it stands; so the decoder's loop
meets the values one after the other, in the order of the definition's fields, and puts each
where it was. The induction is on the definition and its nested definitions.
-/

namespace Rekuiper.Codecs

open Lib

variable {F : Type} {field : ProtoField}

-- ---- Conforming objects

/-- The numbers of an integer type: from the first one up to, not including, the second. -/
def ProtoType.range : ProtoType → Option (Int × Int)
  | .int32 | .sint32 | .sfixed32 => some (-2 ^ 31, 2 ^ 31)
  | .int64 | .sint64 | .sfixed64 => some (-2 ^ 63, 2 ^ 63)
  | .uint32 | .fixed32 => some (0, 2 ^ 32)
  | .uint64 | .fixed64 => some (0, 2 ^ 64)
  | .bool | .float | .double | .string | .bytes | .message => none

/-- One value of a field. `nested` says it for the messages that are defined. -/
def ConformsItem (nested : String → Value F → Prop) (field : ProtoField) (v : Value F) : Prop :=
  match field.type.range with
  | some (low, high) => ∃ n, v = int n ∧ low ≤ n ∧ n < high
  | none =>
    match field.type with
    | .bool => ∃ b, v = .bool b
    | .string => ∃ s, v = .string s
    | .bytes => ∃ raw, v = .string (Base64.encode raw)
    | .message => nested field.protoType v
    | _ => False

def ConformsField (nested : String → Value F → Prop) (field : ProtoField) (v : Value F) : Prop :=
  if field.repeated then
    ∃ items, v = .array items ∧ items ≠ [] ∧ ∀ item ∈ items, ConformsItem nested field item
  else ConformsItem nested field v

mutual
/-- An object with values of the fields' types and no unknown keys. -/
def Conforms : ProtoMessage → Value F → Prop
  | ⟨fields, nested⟩, v => ∃ map, v = .object map ∧ SortedFields map ∧
      (∀ entry ∈ map, entry.1 ∈ fields.map ProtoField.name) ∧
      ∀ field ∈ fields, ∀ v, Rekuiper.field field.name map = some v →
        ConformsField (conformsNested nested) field v
def conformsNested : List (String × ProtoMessage) → String → Value F → Prop
  | [], _, _ => False
  | (name, msg) :: rest, key, v => if name = key then Conforms msg v else conformsNested rest key v
end

mutual
/-- Distinct names, distinct numbers from 1 to 2^29 - 1, and the messages that the fields
use defined, and well-formed in their turn. -/
def ProtoMessage.WellFormed : ProtoMessage → Prop
  | ⟨fields, nested⟩ => (fields.map ProtoField.name).Nodup ∧ (fields.map ProtoField.number).Nodup ∧
      (∀ field ∈ fields, 0 < field.number.toNat ∧ field.number.toNat < 2 ^ 29) ∧
      ∀ field ∈ fields, field.type = .message → definesWellFormed nested field.protoType
def definesWellFormed : List (String × ProtoMessage) → String → Prop
  | [], _ => False
  | (name, msg) :: rest, key =>
    if name = key then msg.WellFormed else definesWellFormed rest key
end

theorem Conforms.isObject {msg : ProtoMessage} {v : Value F} (h : Conforms msg v) :
    ∃ map, v = .object map := by
  obtain ⟨fields, nested⟩ := msg
  rw [Conforms] at h
  obtain ⟨map, hv, -⟩ := h
  exact ⟨map, hv⟩

theorem mem_fieldValues {conforms : String → Value F → Prop} {entries : List (String × Value F)}
    (hconf : ∀ v, Rekuiper.field field.name entries = some v → ConformsField conforms field v)
    {v : Value F} (hv : v ∈ fieldValues field entries) : ConformsItem conforms field v := by
  cases hentry : Rekuiper.field field.name entries with
  | none =>
    rw [fieldValues, hentry] at hv
    simp at hv
  | some w =>
    have hw := hconf w hentry
    rw [ConformsField] at hw
    cases hrep : field.repeated with
    | true =>
      rw [if_pos hrep] at hw
      obtain ⟨items, rfl, -, hitems⟩ := hw
      rw [fieldValues, hentry] at hv
      dsimp only at hv
      rw [if_pos hrep] at hv
      exact hitems v hv
    | false =>
      rw [if_neg (by simp [hrep])] at hw
      have hvalues : fieldValues field entries = [w] := by
        rw [fieldValues, hentry]
        cases w <;> simp [hrep]
      rw [hvalues, List.mem_singleton] at hv
      exact hv ▸ hw

mutual
theorem ProtoMessage.nestedInduction {motive : ProtoMessage → Prop}
    (h : ∀ fields nested, (∀ entry ∈ nested, motive entry.2) → motive ⟨fields, nested⟩) :
    ∀ msg, motive msg
  | ⟨fields, nested⟩ => h fields nested (nestedInductionAll h nested)
theorem nestedInductionAll {motive : ProtoMessage → Prop}
    (h : ∀ fields nested, (∀ entry ∈ nested, motive entry.2) → motive ⟨fields, nested⟩) :
    ∀ nested : List (String × ProtoMessage), ∀ entry ∈ nested, motive entry.2
  | [], entry, hentry => by simp at hentry
  | (name, msg) :: rest, entry, hentry => by
    rcases List.mem_cons.mp hentry with rfl | hrest
    · exact ProtoMessage.nestedInduction h msg
    · exact nestedInductionAll h rest entry hrest
end

-- ---- The object that is decoded

theorem foldl_putField_repeated (hrep : field.repeated = true) (items before : List (Value F))
    {map : List (String × Value F)} (hmap : SortedFields map) :
    items.foldl (fun map v => putField field v map) (setField field.name (.array before) map) =
      setField field.name (.array (before ++ items)) map := by
  induction items generalizing before with
  | nil => rw [List.foldl_nil, List.append_nil]
  | cons v items ih =>
    have hput : putField field v (setField field.name (.array before) map) =
        setField field.name (.array (before ++ [v])) map := by
      rw [putField, if_pos hrep, field_setField_self]
      exact setField_setField _ _ _ hmap
    rw [List.foldl_cons, hput, ih, List.append_assoc]
    rfl

theorem foldl_putField {conforms : String → Value F → Prop} {entries map : List (String × Value F)}
    (hconf : ∀ v, Rekuiper.field field.name entries = some v → ConformsField conforms field v)
    (hmap : SortedFields map) (hnew : Rekuiper.field field.name map = none) :
    (fieldValues field entries).foldl (fun map v => putField field v map) map =
      match Rekuiper.field field.name entries with
      | some v => setField field.name v map
      | none => map := by
  cases hentry : Rekuiper.field field.name entries with
  | none =>
    rw [fieldValues, hentry]
    rfl
  | some v =>
    have hv := hconf v hentry
    rw [ConformsField] at hv
    cases hrep : field.repeated with
    | true =>
      rw [if_pos hrep] at hv
      obtain ⟨items, rfl, hne, -⟩ := hv
      cases items with
      | nil => exact absurd rfl hne
      | cons first items =>
        have hput : putField field first map = setField field.name (.array [first]) map := by
          rw [putField, if_pos hrep, hnew]
        have hvalues : fieldValues field entries = first :: items := by
          rw [fieldValues, hentry]
          exact if_pos hrep
        rw [hvalues, List.foldl_cons, hput, foldl_putField_repeated hrep items [first] hmap]
        rfl
    | false =>
      have hvalues : fieldValues field entries = [v] := by
        rw [fieldValues, hentry]
        cases v <;> simp [hrep]
      rw [hvalues, List.foldl_cons, List.foldl_nil, putField, if_neg (by simp [hrep])]

theorem foldl_fields {conforms : String → Value F → Prop} {entries : List (String × Value F)}
    (fields : List ProtoField) (map : List (String × Value F))
    (hnodup : (fields.map ProtoField.name).Nodup) (hmap : SortedFields map)
    (hconf : ∀ field ∈ fields, ∀ v, Rekuiper.field field.name entries = some v →
      ConformsField conforms field v)
    (hnew : ∀ field ∈ fields, Rekuiper.field field.name map = none) :
    ∃ result, fields.foldl (fun map field =>
        (fieldValues field entries).foldl (fun map v => putField field v map) map) map = result ∧
      SortedFields result ∧ ∀ key, Rekuiper.field key result =
        if key ∈ fields.map ProtoField.name then Rekuiper.field key entries
        else Rekuiper.field key map := by
  induction fields generalizing map with
  | nil => exact ⟨map, rfl, hmap, fun key => by simp⟩
  | cons field fields ih =>
    rw [List.map_cons, List.nodup_cons] at hnodup
    obtain ⟨hconf, hconfs⟩ := List.forall_mem_cons.mp hconf
    obtain ⟨hnew, hnews⟩ := List.forall_mem_cons.mp hnew
    rw [List.foldl_cons, foldl_putField hconf hmap hnew]
    have hothers : ∀ other ∈ fields, other.name ≠ field.name := fun other hother heq =>
      hnodup.1 (heq ▸ List.mem_map_of_mem hother)
    cases hentry : Rekuiper.field field.name entries with
    | none =>
      obtain ⟨result, hresult, hsorted, hlookup⟩ := ih _ hnodup.2 hmap hconfs hnews
      refine ⟨result, hresult, hsorted, fun key => ?_⟩
      rw [hlookup, List.map_cons]
      by_cases hkey : key = field.name
      · subst hkey
        rw [if_neg hnodup.1, if_pos List.mem_cons_self, hentry, hnew]
      · simp [hkey]
    | some v =>
      obtain ⟨result, hresult, hsorted, hlookup⟩ := ih _ hnodup.2
        (hmap.setField field.name v) hconfs fun other hother => by rw [field_setField_ne (hothers other hother), hnews other hother]
      refine ⟨result, hresult, hsorted, fun key => ?_⟩
      rw [hlookup, List.map_cons]
      by_cases hkey : key = field.name
      · subst hkey
        rw [if_neg hnodup.1, if_pos List.mem_cons_self, hentry, field_setField_self]
      · rw [field_setField_ne hkey]
        simp [hkey]

-- ---- Single values

theorem unzigzag_zigzag64 (i : Int64) : unzigzag (zigzag64 i) = i := by
  refine Int64.toBitVec_inj.mp ?_
  have h := Lib.unzigzag_zigzag (v := 64) i.toBitVec (by decide) (Nat.le_refl _)
  simpa [unzigzag, zigzag64] using h

theorem unzigzag_zigzag32 (i : Int32) : (unzigzag (zigzag32 i).toUInt64).toInt32 = i := by
  refine Int32.toBitVec_inj.mp ?_
  have h := Lib.unzigzag_zigzag (v := 64) i.toBitVec (by decide) (by decide)
  simpa [unzigzag, zigzag32, BitVec.signExtend_eq_setWidth_of_le] using h

variable {bytes after raw : List UInt8} {pos : Nat}
  {nested : String → Option (List UInt8 → Option (Value F))}

theorem readInt_written {value : UInt64} (as : UInt64 → Int)
    (h : bytes.drop pos = writeVarint value ++ after) :
    readInt bytes pos as = some (some (int (as value) : Value F), pos + (writeVarint value).length) := by
  rw [readInt, readVarint_writeVarint h, Option.map_some]

theorem readFixedInt_written {n value : Nat} (as : UInt64 → Int) (hn : 0 < n)
    (hvalue : value < 256 ^ n) (hsize : bytes.length < usizeBound)
    (h : bytes.drop pos = toLeBytes n value ++ after) :
    readFixedInt n bytes pos as =
      some (some (int (as (.ofNat value)) : Value F), pos + (toLeBytes n value).length) := by
  have hne : toLeBytes n value ≠ [] := by
    rw [← List.length_pos_iff, length_toLeBytes]
    exact hn
  have hread := readFixed_written hsize h hne
  rw [length_toLeBytes] at hread
  rw [readFixedInt, hread, Option.map_some]
  dsimp only
  rw [fromLeBytes_toLeBytes n value hvalue, length_toLeBytes]

variable [Float64 F] [FloatBits F]

def ReadsAs (nested : String → Option (List UInt8 → Option (Value F))) (field : ProtoField)
    (wireType : UInt8) (payload : List UInt8) (v : Value F) : Prop :=
  ∀ bytes pos after, bytes.length < usizeBound → bytes.drop pos = payload ++ after →
    decodeField nested bytes pos wireType field = some (some v, pos + payload.length)

/-- The bytes of a value of a field: a tag and a payload that reads back. -/
def WrittenAs (nested : String → Option (List UInt8 → Option (Value F))) (field : ProtoField)
    (written : List UInt8) (v : Value F) : Prop :=
  ∃ wireType payload, wireType.toNat < 8 ∧ written = writeTag field.number wireType ++ payload ∧
    ReadsAs nested field wireType payload v

omit [FloatBits F] in
theorem numToI64_int {n : Int} (hhigh : n ≤ maxI64) :
    numToI64 (int n : Value F) = some (.ofInt n) := by
  simp [numToI64, int, Value.asI64, Number.asI64, hhigh]

theorem numToU64_int {n : Int} (h : 0 ≤ n) : numToU64 (int n : Value F) = some (.ofNat n.toNat) := by
  simp [numToU64, int, Value.asU64, Number.asU64, h]

theorem toInt_int32 {n : Int} (hlow : -2 ^ 31 ≤ n) (hhigh : n < 2 ^ 31) :
    (Int64.ofInt n).toInt32.toInt = n := by
  rw [Int64.toInt_toInt32, Int64.toInt_ofInt_of_le (by omega) (by omega), Int.bmod_eq_of_le]
  all_goals omega

theorem toInt_int64 {n : Int} (hlow : -2 ^ 63 ≤ n) (hhigh : n < 2 ^ 63) :
    (Int64.ofInt n).toInt = n :=
  Int64.toInt_ofInt_of_le hlow hhigh

theorem toNat_uint64 {n : Int} (hlow : 0 ≤ n) (hhigh : n < 2 ^ 64) :
    ((UInt64.ofNat n.toNat).toNat : Int) = n := by
  rw [UInt64.toNat_ofNat']
  omega

theorem toNat_uint32 {n : Int} (hlow : 0 ≤ n) (hhigh : n < 2 ^ 32) :
    ((UInt64.ofNat n.toNat).toUInt32.toNat : Int) = n := by
  rw [UInt64.toNat_toUInt32, UInt64.toNat_ofNat']
  omega

theorem truncated_extended (i : Int32) : i.toInt64.toUInt64.toUInt32.toInt32 = i := by
  refine Int32.toBitVec_inj.mp ?_
  have hbits : i.toInt64.toUInt64.toUInt32.toInt32.toBitVec =
      (i.toBitVec.signExtend 64).setWidth 32 := by simp
  rw [hbits]
  ext j hj
  have hwide : j < 64 := by omega
  rw [BitVec.getElem_setWidth, BitVec.getLsbD_signExtend]
  simp [hj, hwide]

theorem ofNat_toNat32 (x : UInt32) : (UInt64.ofNat x.toNat).toUInt32 = x :=
  UInt32.toNat_inj.mp (by
    have := x.toNat_lt
    rw [UInt64.toNat_toUInt32, UInt64.toNat_ofNat']
    omega)

theorem writtenAs_int (encoders : String → Option (Value F → List UInt8)) {n low high : Int}
    (hrange : field.type.range = some (low, high)) (hlow : low ≤ n) (hhigh : n < high) :
    WrittenAs nested field (encodeField encoders field (int n)) (int n) := by
  have varint : ∀ (value : UInt64) (as : UInt64 → Int), as value = n →
      (∀ bytes pos, decodeField nested bytes pos 0 field = readInt bytes pos as) →
      WrittenAs nested field (tagged field 0 (some (writeVarint value))) (int n) := by
    intro value as hvalue hdecode
    refine ⟨0, _, by decide, rfl, fun bytes pos after _ h => ?_⟩
    rw [hdecode, readInt_written as h, hvalue]
  have fixed : ∀ (width value : Nat) (wireType : UInt8) (as : UInt64 → Int), 0 < width →
      wireType.toNat < 8 → value < 256 ^ width → as (.ofNat value) = n →
      (∀ bytes pos, decodeField nested bytes pos wireType field = readFixedInt width bytes pos as) →
      WrittenAs nested field (tagged field wireType (some (toLeBytes width value))) (int n) := by
    intro width value wireType as hwidth hwire hvalue hn hdecode
    refine ⟨wireType, _, hwire, rfl, fun bytes pos after hsize h => ?_⟩
    rw [hdecode, readFixedInt_written as hwidth hvalue hsize h, hn]
  unfold encodeField
  cases htype : field.type <;> rw [htype] at hrange <;>
    simp only [ProtoType.range, Option.some.injEq, Prod.mk.injEq, reduceCtorEq] at hrange <;>
    obtain ⟨rfl, rfl⟩ := hrange
  case int32 =>
    rw [numToI64_int (by rw [maxI64]; omega)]
    refine varint _ (fun v => v.toUInt32.toInt32.toInt) ?_ fun _ _ => by simp only [decodeField, htype]
    exact (congrArg Int32.toInt (truncated_extended _)).trans (toInt_int32 hlow hhigh)
  case int64 =>
    rw [numToI64_int (by rw [maxI64]; omega)]
    refine varint _ (fun v => v.toInt64.toInt) ?_ fun _ _ => by simp only [decodeField, htype]
    exact toInt_int64 hlow hhigh
  case uint32 =>
    rw [numToU64_int hlow]
    refine varint _ (fun v => v.toUInt32.toNat) ?_ fun _ _ => by simp only [decodeField, htype]
    exact toNat_uint32 hlow hhigh
  case uint64 =>
    rw [numToU64_int hlow]
    refine varint _ (fun v => v.toNat) ?_ fun _ _ => by simp only [decodeField, htype]
    exact toNat_uint64 hlow hhigh
  case sint32 =>
    rw [numToI64_int (by rw [maxI64]; omega)]
    refine varint _ (fun v => (unzigzag v).toInt32.toInt) ?_ fun _ _ => by
      simp only [decodeField, htype]
    exact (congrArg Int32.toInt (unzigzag_zigzag32 _)).trans (toInt_int32 hlow hhigh)
  case sint64 =>
    rw [numToI64_int (by rw [maxI64]; omega)]
    refine varint _ (fun v => (unzigzag v).toInt) ?_ fun _ _ => by simp only [decodeField, htype]
    exact (congrArg Int64.toInt (unzigzag_zigzag64 _)).trans (toInt_int64 hlow hhigh)
  case fixed64 =>
    rw [numToU64_int hlow]
    refine fixed 8 _ 1 (fun v => v.toNat) (by decide) (by decide) (UInt64.toNat_lt _) ?_ fun _ _ => by
      simp only [decodeField, decodeFieldSized, htype]
    rw [UInt64.ofNat_toNat]
    exact toNat_uint64 hlow hhigh
  case sfixed64 =>
    rw [numToI64_int (by rw [maxI64]; omega)]
    refine fixed 8 _ 1 (fun v => v.toInt64.toInt) (by decide) (by decide) (UInt64.toNat_lt _) ?_
      fun _ _ => by simp only [decodeField, decodeFieldSized, htype]
    rw [UInt64.ofNat_toNat]
    exact toInt_int64 hlow hhigh
  case fixed32 =>
    rw [numToU64_int hlow]
    refine fixed 4 _ 5 (fun v => v.toUInt32.toNat) (by decide) (by decide) (UInt32.toNat_lt _) ?_
      fun _ _ => by simp only [decodeField, decodeFieldSized, htype]
    rw [ofNat_toNat32]
    exact toNat_uint32 hlow hhigh
  case sfixed32 =>
    rw [numToI64_int (by rw [maxI64]; omega)]
    refine fixed 4 _ 5 (fun v => v.toUInt32.toInt32.toInt) (by decide) (by decide)
      (UInt32.toNat_lt _) ?_ fun _ _ => by simp only [decodeField, decodeFieldSized, htype]
    rw [ofNat_toNat32]
    exact toInt_int32 hlow hhigh

theorem writtenAs_bytes {v : Value F} (raw : List UInt8) (make : List UInt8 → Option (Value F))
    (hdecode : ∀ bytes pos, decodeField nested bytes pos 2 field =
      (readLenBytes bytes pos).map fun (raw, pos) => (make raw, pos))
    (hmake : raw.length < usizeBound → make raw = some v) :
    WrittenAs nested field (tagged field 2 (some (lengthDelimited raw))) v := by
  refine ⟨2, _, by decide, rfl, fun bytes pos after hsize h => ?_⟩
  rw [lengthDelimited, List.append_assoc] at h
  have hall : bytes.drop pos = (writeVarint (.ofNat raw.length) ++ raw) ++ after := by
    rw [h, List.append_assoc]
  have hle := le_of_drop hall (by simp [writeVarint_ne_nil])
  rw [List.length_append] at hle
  rw [hdecode, readLenBytes_written hsize h, Option.map_some]
  dsimp only
  rw [hmake (by omega), lengthDelimited]

theorem writtenAs_item (encoders : String → Option (Value F → List UInt8))
    (conforms : String → Value F → Prop)
    (hnested : field.type = .message → ∀ v, conforms field.protoType v →
      ∃ encode decode map, encoders field.protoType = some encode ∧
        nested field.protoType = some decode ∧ v = .object map ∧
        ((encode v).length < usizeBound → decode (encode v) = some v))
    {v : Value F} (hv : ConformsItem conforms field v) :
    WrittenAs nested field (encodeField encoders field v) v := by
  unfold ConformsItem at hv
  cases hrange : field.type.range with
  | some bounds =>
    rw [hrange] at hv
    obtain ⟨n, rfl, hlow, hhigh⟩ := hv
    exact writtenAs_int encoders hrange hlow hhigh
  | none =>
    rw [hrange] at hv
    dsimp only at hv
    cases htype : field.type <;> rw [htype] at hv hrange <;>
      simp only [ProtoType.range, reduceCtorEq] at hrange
    case bool =>
      obtain ⟨b, rfl⟩ := hv
      refine ⟨0, writeVarint (if b then 1 else 0), by decide, by simp [encodeField, htype, valueToBool, tagged],
        fun bytes pos after _ h => ?_⟩
      simp only [decodeField, htype]
      rw [readVarint_writeVarint h]
      cases b <;> rfl
    case string =>
      obtain ⟨s, rfl⟩ := hv
      have henc : encodeField encoders field (.string s) =
          tagged field 2 (some (lengthDelimited (utf8Bytes s))) := by
        simp [encodeField, htype, stringBytes]
      rw [henc]
      refine writtenAs_bytes _ (fun raw => some (.string (fromUtf8Lossy raw))) (fun _ _ => ?_)
        fun _ => by rw [fromUtf8Lossy_utf8Bytes]
      simp only [decodeField, decodeFieldSized, htype]
    case bytes =>
      obtain ⟨raw, rfl⟩ := hv
      have henc : encodeField encoders field (.string (Base64.encode raw)) =
          tagged field 2 (some (lengthDelimited raw)) := by
        simp [encodeField, htype, rawBytes, Base64.trim_encode, Base64.decode_encode]
      rw [henc]
      refine writtenAs_bytes _ (fun raw => some (.string (Base64.encode raw))) (fun _ _ => ?_)
        fun _ => rfl
      simp only [decodeField, decodeFieldSized, htype]
    case message =>
      obtain ⟨encode, decode, map, hencode, hdecode, rfl, hback⟩ := hnested htype _ hv
      have henc : encodeField encoders field (.object map) =
          tagged field 2 (some (lengthDelimited (encode (.object map)))) := by
        simp [encodeField, htype, hencode]
      rw [henc]
      refine writtenAs_bytes _ decode (fun _ _ => ?_) hback
      simp [decodeField, decodeFieldSized, decodeOther, htype, hdecode]
    all_goals exact hv.elim

-- ---- The loop

theorem find_number {fields : List ProtoField} (hnodup : (fields.map ProtoField.number).Nodup)
    (hfield : field ∈ fields) :
    (fields.find? fun other => other.number == field.number) = some field := by
  induction fields with
  | nil => simp at hfield
  | cons first fields ih =>
    rw [List.map_cons, List.nodup_cons] at hnodup
    rcases List.mem_cons.mp hfield with rfl | hrest
    · simp
    · have hne : (first.number == field.number) = false :=
        beq_eq_false_iff_ne.mpr fun heq => hnodup.1 (heq ▸ List.mem_map_of_mem hrest)
      rw [List.find?_cons, hne]
      exact ih hnodup.2 hrest

/-- The bytes of a record of a field, and what it leaves there: a value, or nothing. -/
def LeavesIn (nested : String → Option (List UInt8 → Option (Value F))) (field : ProtoField)
    (written : List UInt8) (left : Option (Value F)) : Prop :=
  ∃ wireType payload, wireType.toNat < 8 ∧ written = writeTag field.number wireType ++ payload ∧
    ∀ bytes pos after, bytes.length < usizeBound → bytes.drop pos = payload ++ after →
      decodeField nested bytes pos wireType field = some (left, pos + payload.length)

theorem decodeLoop_records {fields : List ProtoField}
    (records : List (ProtoField × List UInt8 × Option (Value F)))
    (hrecords : ∀ record ∈ records,
      (fields.find? fun other => other.number == record.1.number) = some record.1 ∧
        LeavesIn nested record.1 record.2.1 record.2.2)
    (hsize : bytes.length < usizeBound) (pos rounds : Nat) (map : List (String × Value F))
    (hrounds : bytes.length ≤ pos + rounds)
    (h : bytes.drop pos = records.flatMap fun record => record.2.1) :
    decodeLoop fields nested bytes rounds pos map =
      some (records.foldl
        (fun map record => record.2.2.elim map fun v => putField record.1 v map) map) := by
  induction records generalizing rounds pos map with
  | nil =>
    have hstop : ¬ pos < bytes.length := by
      have := congrArg List.length h
      rw [List.length_drop, List.flatMap_nil, List.length_nil] at this
      omega
    unfold decodeLoop
    rw [if_neg hstop, List.foldl_nil]
  | cons record records ih =>
    obtain ⟨⟨hfind, wireType, payload, hwire, hwritten, hleaves⟩, hrest⟩ :=
      List.forall_mem_cons.mp hrecords
    rw [List.flatMap_cons, hwritten, List.append_assoc] at h
    have htag := drop_behind h
    have hpayload := drop_behind htag
    have hle := le_of_drop h (writeVarint_ne_nil _)
    have hpos := List.length_pos_iff.mpr (writeVarint_ne_nil
      (record.1.number.toUInt64 <<< 3 ||| wireType.toUInt64))
    obtain ⟨hnumber, htype⟩ := tag_parts record.1.number wireType hwire
    have hread := hleaves _ _ _ hsize htag
    unfold decodeLoop
    rw [writeTag] at h hle htag hread hpayload
    rw [if_pos (by omega)]
    cases rounds with
    | zero => omega
    | succ rounds =>
      dsimp only
      rw [readVarint_writeVarint h]
      simp only [Option.bind_eq_bind, Option.bind_some, hnumber, htype, hfind, hread]
      rw [List.foldl_cons]
      cases record.2.2 with
      | none => exact ih hrest _ _ _ (by omega) hpayload
      | some v => exact ih hrest _ _ _ (by omega) hpayload

theorem decodeLoop_written {fields : List ProtoField}
    (encoders : String → Option (Value F → List UInt8)) (items : List (ProtoField × Value F))
    (hnodup : (fields.map ProtoField.number).Nodup)
    (hitems : ∀ item ∈ items, item.1 ∈ fields ∧
      WrittenAs nested item.1 (encodeField encoders item.1 item.2) item.2)
    (hsize : bytes.length < usizeBound) (pos rounds : Nat) (map : List (String × Value F))
    (hrounds : bytes.length ≤ pos + rounds)
    (h : bytes.drop pos = items.flatMap fun item => encodeField encoders item.1 item.2) :
    decodeLoop fields nested bytes rounds pos map =
      some (items.foldl (fun map item => putField item.1 item.2 map) map) := by
  let record (item : ProtoField × Value F) : ProtoField × List UInt8 × Option (Value F) :=
    (item.1, encodeField encoders item.1 item.2, some item.2)
  have hrecords : ∀ r ∈ items.map record,
      (fields.find? fun other => other.number == r.1.number) = some r.1 ∧
        LeavesIn nested r.1 r.2.1 r.2.2 := by
    simp only [List.forall_mem_map]
    exact fun item hitem => ⟨find_number hnodup (hitems item hitem).1, (hitems item hitem).2⟩
  rw [decodeLoop_records _ hrecords hsize pos rounds map hrounds (by rw [h, List.flatMap_map]),
    List.foldl_map]
  rfl

-- ---- Messages

/-- An object of a message comes back from its bytes. -/
def ComesBack (F : Type) [Float64 F] [FloatBits F] (msg : ProtoMessage) : Prop :=
  msg.WellFormed → ∀ v : Value F, Conforms msg v → (encodeMessage msg v).length < usizeBound →
    decodeInner msg (encodeMessage msg v) = some v

theorem nested_comesBack {definitions : List (String × ProtoMessage)} {key : String} {v : Value F}
    (hind : ∀ entry ∈ definitions, ComesBack F entry.2) (hdef : definesWellFormed definitions key)
    (hconf : conformsNested definitions key v) :
    ∃ encode decode map, encodeNested definitions key = some encode ∧
      decodeNested definitions key = some decode ∧ v = .object map ∧
      ((encode v).length < usizeBound → decode (encode v) = some v) := by
  induction definitions with
  | nil => exact hdef.elim
  | cons entry definitions ih =>
    obtain ⟨name, msg⟩ := entry
    obtain ⟨hfirst, hrest⟩ := List.forall_mem_cons.mp hind
    rw [definesWellFormed] at hdef
    rw [conformsNested] at hconf
    rw [encodeNested, decodeNested]
    by_cases hname : name = key
    · rw [if_pos hname] at hdef hconf ⊢
      rw [if_pos hname]
      obtain ⟨map, hmap⟩ := hconf.isObject
      exact ⟨_, _, map, rfl, rfl, hmap, hfirst hdef v hconf⟩
    · rw [if_neg hname] at hdef hconf ⊢
      rw [if_neg hname]
      exact ih hrest hdef hconf

theorem comesBack (msg : ProtoMessage) : ComesBack F msg := by
  induction msg using ProtoMessage.nestedInduction with
  | h fields definitions hind =>
    intro hmsg v hv hsize
    rw [ProtoMessage.WellFormed] at hmsg
    obtain ⟨hnames, hnumbers, hrange, hdefined⟩ := hmsg
    rw [Conforms] at hv
    obtain ⟨entries, rfl, hsorted, hknown, hconf⟩ := hv
    let items := fields.flatMap fun field => (fieldValues field entries).map (Prod.mk field)
    have hbytes : encodeMessage ⟨fields, definitions⟩ (.object entries) =
        items.flatMap fun item => encodeField (encodeNested definitions) item.1 item.2 := by
      rw [encodeMessage, List.flatMap_assoc]
      exact List.flatMap_congr fun field _ => by rw [List.flatMap_map]
    have hitems : ∀ item ∈ items, item.1 ∈ fields ∧ WrittenAs (decodeNested definitions) item.1
        (encodeField (encodeNested definitions) item.1 item.2) item.2 := by
      intro item hitem
      obtain ⟨field, hfield, hitem⟩ := List.mem_flatMap.mp hitem
      obtain ⟨v, hv, rfl⟩ := List.mem_map.mp hitem
      refine ⟨hfield, writtenAs_item _ (conformsNested definitions) (fun htype v hv => ?_)
        (mem_fieldValues (hconf field hfield) hv)⟩
      exact nested_comesBack hind (hdefined field hfield htype) hv
    have hloop := decodeLoop_written (encodeNested definitions) items hnumbers hitems hsize 0
      (encodeMessage ⟨fields, definitions⟩ (.object entries)).length [] (by omega) hbytes
    obtain ⟨result, hresult, hresultSorted, hlookup⟩ := foldl_fields fields [] hnames
      List.Pairwise.nil hconf (fun _ _ => rfl)
    have hfold : items.foldl (fun map item => putField item.1 item.2 map) [] = result := by
      rw [← hresult, List.foldl_flatMap]
      simp only [List.foldl_map]
    have hsame : result = entries := by
      refine hresultSorted.ext hsorted fun key => ?_
      rw [hlookup]
      split
      · rfl
      · rename_i hkey
        refine Eq.symm ?_
        rw [field, List.find?_eq_none.mpr, Option.map_none]
        · rfl
        · intro entry hentry heq
          exact hkey (eq_of_beq heq ▸ hknown entry hentry)
    rw [decodeInner, hloop, hfold, hsame, Option.map_some]

/-- `decode` undoes `encode` on every object that conforms to a well-formed definition, its
bytes being no more than a `Vec` can hold. -/
theorem protobuf_round_trip (msg : ProtoMessage) (v : Value F) (hmsg : msg.WellFormed)
    (hv : Conforms msg v) (hsize : (encode v msg).length < usizeBound) :
    decode (encode v msg) msg = v := by
  rw [decode, encode, comesBack msg hmsg v hv hsize, Option.getD_some]

instance noFloats : FloatBits ℚ where
  toU64 _ := 0
  toF32 _ := 0
  ofF32 _ := 0
  toBits _ := 0
  ofBits _ := 0
  parseF32 _ := none
  parseF64 _ := none

def reading : ProtoMessage :=
  ⟨[⟨"level", "sint32", 1, false⟩, ⟨"notes", "string", 2, true⟩, ⟨"raw", "Blob", 3, false⟩],
    [("Blob", ⟨[⟨"data", "bytes", 1, false⟩], []⟩)]⟩

theorem protobuf_round_trip_reading :
    let v : Value ℚ := .object [("level", .number (.int (-5))),
      ("notes", .array [.string "a", .string ""]), ("raw", .object [("data", .string "AQI=")])]
    decode (encode v reading) reading = v := by
  intro v
  refine protobuf_round_trip reading v ?_ ?_ (by decide)
  · simp [reading, ProtoMessage.WellFormed, definesWellFormed, ProtoField.type, ProtoType.ofName]
  · simp only [reading, Conforms, conformsNested]
    refine ⟨_, rfl, by decide, by simp, ?_⟩
    simp [field, ConformsField, ConformsItem, ProtoField.type, ProtoType.ofName, ProtoType.range, int]
    exact ⟨List.pairwise_singleton _ _, [1, 2], by decide⟩

end Rekuiper.Codecs
