import Rekuiper.Codecs.RoundTrip

/-!
# Packed and unpacked records of a repeated scalar

The wire format writes the values of a repeated scalar field one to a record, or
packed, many to a length-delimited record, in any mixture. The decoder knows
scalar types under their own wire type only. A packed record falls to the branch
for nested messages, which skips it, or reads it as the message that is defined
under the name of the scalar type. So the values all arrive if and only if none of
them is packed, and none is a float that JSON has no number for.
-/

namespace Rekuiper.Codecs

variable {F : Type} [Float64 F] [FloatBits F]

-- ---- Scalars on the wire

inductive Scalar
  | int (n : Int)
  | bool (b : Bool)
  | float (bits : UInt32)
  | double (bits : UInt64)

def Scalar.json : Scalar → Option (Value F)
  | .int n => some (Codecs.int n)
  | .bool b => some (.bool b)
  | .float bits => finiteNumber (FloatBits.ofF32 bits)
  | .double bits => finiteNumber (FloatBits.ofBits bits)

def Scalar.OfType : ProtoType → Scalar → Prop
  | .bool, .bool _ | .float, .float _ | .double, .double _ => True
  | type, .int n => ∃ low high, type.range = some (low, high) ∧ low ≤ n ∧ n < high
  | _, _ => False

/-- The wire type of a scalar type, and the bytes of a scalar without a tag. -/
def scalarWire : ProtoType → Scalar → UInt8 × List UInt8
  | .uint32, .int n | .uint64, .int n => (0, writeVarint (.ofNat n.toNat))
  | .sint32, .int n => (0, writeVarint (zigzag32 (Int64.ofInt n).toInt32).toUInt64)
  | .sint64, .int n => (0, writeVarint (zigzag64 (Int64.ofInt n)))
  | .fixed32, .int n => (5, toLeBytes 4 n.toNat)
  | .fixed64, .int n => (1, toLeBytes 8 n.toNat)
  | .sfixed32, .int n => (5, toLeBytes 4 (Int64.ofInt n).toInt32.toUInt32.toNat)
  | .sfixed64, .int n => (1, toLeBytes 8 (Int64.ofInt n).toUInt64.toNat)
  -- `int32` and `int64`: the varint of the sign-extended number
  | _, .int n => (0, writeVarint (Int64.ofInt n).toUInt64)
  | _, .bool b => (0, writeVarint (if b then 1 else 0))
  | _, .float bits => (5, toLeBytes 4 bits.toNat)
  | _, .double bits => (1, toLeBytes 8 bits.toNat)

inductive Record
  | unpacked (value : Scalar)
  | packed (values : List Scalar)

def Record.values : Record → List Scalar
  | .unpacked value => [value]
  | .packed values => values

def Record.bytes (field : ProtoField) : Record → List UInt8
  | .unpacked value =>
    writeTag field.number (scalarWire field.type value).1 ++ (scalarWire field.type value).2
  | .packed values =>
    writeTag field.number 2 ++
      lengthDelimited (values.flatMap fun value => (scalarWire field.type value).2)

-- ---- What a record leaves

variable {nested : String → Option (List UInt8 → Option (Value F))} {field : ProtoField}

omit [Float64 F] [FloatBits F] in
theorem toInt32_ofInt64 (i : Int64) : i.toUInt64.toUInt32.toInt32 = i.toInt32 := by
  refine Int32.toBitVec_inj.mp ?_
  simp [BitVec.signExtend_eq_setWidth_of_le]

theorem leavesIn_unpacked {value : Scalar} (h : Scalar.OfType field.type value) :
    LeavesIn nested field (Record.bytes field (.unpacked value)) (value.json : Option (Value F)) := by
  have varint : ∀ (wire : UInt64) (as : UInt64 → Value F) (v : Value F), as wire = v →
      (∀ bytes pos, decodeField nested bytes pos 0 field =
        (readVarint bytes pos).map fun r => (some (as r.1), r.2)) →
      LeavesIn nested field (writeTag field.number 0 ++ writeVarint wire) (some v) := by
    intro wire as v hv hdecode
    refine ⟨0, _, by decide, rfl, fun bytes pos after _ h => ?_⟩
    rw [hdecode, readVarint_writeVarint h, Option.map_some]
    dsimp only
    rw [hv]
  have fixed : ∀ (width number : Nat) (wireType : UInt8) (make : Nat → Option (Value F))
      (v : Option (Value F)), 0 < width → wireType.toNat < 8 → number < 256 ^ width →
      make number = v →
      (∀ bytes pos, decodeField nested bytes pos wireType field =
        (readFixed width bytes pos).map fun r => (make (fromLeBytes r.1), r.2)) →
      LeavesIn nested field (writeTag field.number wireType ++ toLeBytes width number) v := by
    intro width number wireType make v hwidth hwire hnumber hv hdecode
    refine ⟨wireType, _, hwire, rfl, fun bytes pos after hsize h => ?_⟩
    have hne : toLeBytes width number ≠ [] := by
      rw [← List.length_pos_iff, length_toLeBytes]
      exact hwidth
    have hread := readFixed_written hsize h hne
    rw [length_toLeBytes] at hread
    rw [hdecode, hread, Option.map_some]
    dsimp only
    rw [fromLeBytes_toLeBytes width number hnumber, hv, length_toLeBytes]
  unfold Record.bytes
  cases htype : field.type <;> rw [htype] at h <;> cases value <;>
    simp only [Scalar.OfType, ProtoType.range, Option.some.injEq, Prod.mk.injEq, reduceCtorEq,
      false_and, exists_const] at h <;>
    simp only [scalarWire, Scalar.json]
  case bool.bool b =>
    refine varint _ (fun v => .bool (v != 0)) _ ?_ fun _ _ => by simp only [decodeField, htype]
    cases b <;> rfl
  case float.float bits =>
    refine fixed 4 _ 5 (fun n => finiteNumber (FloatBits.ofF32 (.ofNat n))) _ (by decide)
      (by decide) (UInt32.toNat_lt _) ?_ fun _ _ => by simp only [decodeField, decodeFieldSized, htype]
    rw [UInt32.ofNat_toNat]
  case double.double bits =>
    refine fixed 8 _ 1 (fun n => finiteNumber (FloatBits.ofBits (.ofNat n))) _ (by decide)
      (by decide) (UInt64.toNat_lt _) ?_ fun _ _ => by simp only [decodeField, decodeFieldSized, htype]
    rw [UInt64.ofNat_toNat]
  all_goals obtain ⟨_, _, ⟨rfl, rfl⟩, hlow, hhigh⟩ := h
  case int32.int n =>
    refine varint _ (fun v => int v.toUInt32.toInt32.toInt) _ ?_ fun _ _ => by
      simp only [decodeField, htype, readInt]
    rw [toInt32_ofInt64, toInt_int32 hlow hhigh]
  case int64.int n =>
    refine varint _ (fun v => int v.toInt64.toInt) _ ?_ fun _ _ => by
      simp only [decodeField, htype, readInt]
    exact congrArg int (toInt_int64 hlow hhigh)
  case uint32.int n =>
    refine varint _ (fun v => int v.toUInt32.toNat) _ ?_ fun _ _ => by
      simp only [decodeField, htype, readInt]
    exact congrArg int (toNat_uint32 hlow hhigh)
  case uint64.int n =>
    refine varint _ (fun v => int v.toNat) _ ?_ fun _ _ => by
      simp only [decodeField, htype, readInt]
    exact congrArg int (toNat_uint64 hlow hhigh)
  case sint32.int n =>
    refine varint _ (fun v => int (unzigzag v).toInt32.toInt) _ ?_ fun _ _ => by
      simp only [decodeField, htype, readInt]
    rw [unzigzag_zigzag32, toInt_int32 hlow hhigh]
  case sint64.int n =>
    refine varint _ (fun v => int (unzigzag v).toInt) _ ?_ fun _ _ => by
      simp only [decodeField, htype, readInt]
    rw [unzigzag_zigzag64, toInt_int64 hlow hhigh]
  case fixed64.int n =>
    refine fixed 8 _ 1 (fun k => some (int (UInt64.ofNat k).toNat)) _ (by decide) (by decide)
      (by omega) ?_ fun _ _ => by simp only [decodeField, decodeFieldSized, htype, readFixedInt]
    rw [toNat_uint64 hlow hhigh]
  case sfixed64.int n =>
    refine fixed 8 _ 1 (fun k => some (int (UInt64.ofNat k).toInt64.toInt)) _ (by decide) (by decide)
      (UInt64.toNat_lt _) ?_ fun _ _ => by
        simp only [decodeField, decodeFieldSized, htype, readFixedInt]
    rw [UInt64.ofNat_toNat]
    exact congrArg (fun n => some (int n)) (toInt_int64 hlow hhigh)
  case fixed32.int n =>
    refine fixed 4 _ 5 (fun k => some (int (UInt64.ofNat k).toUInt32.toNat)) _ (by decide)
      (by decide) (by omega) ?_ fun _ _ => by
        simp only [decodeField, decodeFieldSized, htype, readFixedInt]
    rw [toNat_uint32 hlow hhigh]
  case sfixed32.int n =>
    refine fixed 4 _ 5 (fun k => some (int (UInt64.ofNat k).toUInt32.toInt32.toInt)) _ (by decide)
      (by decide) (UInt32.toNat_lt _) ?_ fun _ _ => by
        simp only [decodeField, decodeFieldSized, htype, readFixedInt]
    rw [ofNat_toNat32]
    exact congrArg (fun n => some (int n)) (toInt_int32 hlow hhigh)

omit [Float64 F] [FloatBits F] in
theorem skipField_len (bytes : List UInt8) (pos : Nat) :
    skipField bytes pos 2 = (readLenBytes bytes pos).map Prod.snd := by
  unfold skipField readLenBytes
  rw [if_neg (by decide), if_neg (by decide), if_pos rfl]
  cases readVarint bytes pos with
  | none => rfl
  | some read =>
    simp only [Option.bind_eq_bind, Option.bind_some]
    cases checkedAdd read.2 read.1.toNat with
    | none => rfl
    | some stop =>
      simp only [Option.bind_some]
      split <;> rfl

/-- What a packed record leaves: what the message under the type's name, if there is one, reads
in its bytes. -/
def packedLeaves (nested : String → Option (List UInt8 → Option (Value F))) (field : ProtoField)
    (values : List Scalar) : Option (Value F) :=
  (nested field.protoType).bind fun decode =>
    decode (values.flatMap fun value => (scalarWire field.type value).2)

theorem leavesIn_packed (htype : field.type ≠ .string ∧ field.type ≠ .bytes)
    (values : List Scalar) :
    LeavesIn nested field (Record.bytes field (.packed values)) (packedLeaves nested field values) := by
  have hother : ∀ bytes pos,
      decodeField nested bytes pos 2 field = decodeOther nested bytes pos 2 field := by
    intro bytes pos
    cases h : field.type <;> simp_all [decodeField, decodeFieldSized]
  refine ⟨2, _, by decide, rfl, fun bytes pos after hsize h => ?_⟩
  rw [lengthDelimited, List.append_assoc] at h
  rw [hother, decodeOther, if_pos rfl, skipField_len, readLenBytes_written hsize h, packedLeaves,
    lengthDelimited]
  cases nested field.protoType <;> rfl

def Record.leaves (nested : String → Option (List UInt8 → Option (Value F))) (field : ProtoField) :
    Record → Option (Value F)
  | .unpacked value => value.json
  | .packed values => packedLeaves nested field values

-- ---- The array that is decoded

def arrayField (name : String) (items : List (Value F)) : List (String × Value F) :=
  if items.isEmpty then [] else [(name, .array items)]

omit [Float64 F] [FloatBits F] in
theorem arrayField_inj {name : String} {xs ys : List (Value F)}
    (h : arrayField name xs = arrayField name ys) : xs = ys := by
  cases xs <;> cases ys <;> simp_all [arrayField]

omit [Float64 F] [FloatBits F] in
theorem foldl_leaves {α : Type} (hrep : field.repeated = true) (leaves : α → Option (Value F))
    (records : List α) :
    records.foldl (fun map record => (leaves record).elim map fun v => putField field v map) [] =
      arrayField field.name (records.filterMap leaves) := by
  have hfilter : ∀ map : List (String × Value F),
      records.foldl (fun map record => (leaves record).elim map fun v => putField field v map) map =
        (records.filterMap leaves).foldl (fun map v => putField field v map) map := by
    induction records with
    | nil => exact fun _ => rfl
    | cons record records ih =>
      intro map
      rw [List.foldl_cons, ih, List.filterMap_cons]
      cases leaves record <;> rfl
  rw [hfilter]
  cases records.filterMap leaves with
  | nil => rfl
  | cons v items =>
    have hput : putField field v ([] : List (String × Value F)) =
        setField field.name (.array [v]) [] := by
      rw [putField, if_pos hrep]
      rfl
    rw [List.foldl_cons, hput, foldl_putField_repeated hrep items [v] List.Pairwise.nil]
    rfl

structure RepeatedScalar (msg : ProtoMessage) (field : ProtoField) : Prop where
  found : (msg.fields.find? fun other => other.number == field.number) = some field
  repeated : field.repeated = true
  scalar : field.type ≠ .string ∧ field.type ≠ .bytes ∧ field.type ≠ .message

theorem decode_records {msg : ProtoMessage} {records : List Record}
    (hfield : RepeatedScalar msg field)
    (hvalues : ∀ value ∈ records.flatMap Record.values, Scalar.OfType field.type value)
    (hsize : (records.flatMap (Record.bytes field)).length < usizeBound) :
    decode (records.flatMap (Record.bytes field)) msg = (.object (arrayField field.name
      (records.filterMap (Record.leaves (decodeNested msg.nested) field))) : Value F) := by
  obtain ⟨fields, definitions⟩ := msg
  have hleaves : ∀ record ∈ records, LeavesIn (decodeNested definitions) field
      (Record.bytes field record) (Record.leaves (decodeNested definitions) field record : Option (Value F)) := by
    intro record hrecord
    cases record with
    | unpacked value =>
      exact leavesIn_unpacked (hvalues value (List.mem_flatMap.mpr ⟨_, hrecord, by simp [Record.values]⟩))
    | packed values => exact leavesIn_packed ⟨hfield.scalar.1, hfield.scalar.2.1⟩ values
  let entry (record : Record) : ProtoField × List UInt8 × Option (Value F) :=
    (field, Record.bytes field record, Record.leaves (decodeNested definitions) field record)
  have hentries : ∀ e ∈ records.map entry,
      (fields.find? fun other => other.number == e.1.number) = some e.1 ∧
        LeavesIn (decodeNested definitions) e.1 e.2.1 e.2.2 := by
    simp only [List.forall_mem_map]
    exact fun record hrecord => ⟨hfield.found, hleaves record hrecord⟩
  have hloop := decodeLoop_records (records.map entry) hentries hsize 0
    (records.flatMap (Record.bytes field)).length [] (by omega) (by rw [List.drop_zero, List.flatMap_map])
  rw [List.foldl_map] at hloop
  rw [decode, decodeInner, hloop, Option.map_some, Option.getD_some]
  exact congrArg Value.object (foldl_leaves hfield.repeated _ records)

-- ---- When every value arrives

/-- Decoding gives the array of all the values, in order. -/
def AllArrive (F : Type) [Float64 F] [FloatBits F] (msg : ProtoMessage) (field : ProtoField)
    (records : List Record) : Prop :=
  ∃ items : List (Value F), (records.flatMap Record.values).map Scalar.json = items.map some ∧
    decode (records.flatMap (Record.bytes field)) msg = .object (arrayField field.name items)

theorem decodeNested_object {definitions : List (String × ProtoMessage)} {key : String}
    {decode : List UInt8 → Option (Value F)} (h : decodeNested definitions key = some decode) :
    (∀ bytes v, decode bytes = some v → ∃ map, v = .object map) ∧ decode [] = some (.object []) := by
  induction definitions with
  | nil => cases h
  | cons entry definitions ih =>
    obtain ⟨name, fields, inner⟩ := entry
    rw [decodeNested] at h
    split at h
    · cases h
      refine ⟨fun bytes v hv => ?_, rfl⟩
      rw [decodeInner, Option.map_eq_some_iff] at hv
      obtain ⟨map, -, rfl⟩ := hv
      exact ⟨map, rfl⟩
    · exact ih h

theorem json_ne_object {value : Scalar} {map : List (String × Value F)} :
    (value.json : Option (Value F)) ≠ some (.object map) := by
  cases value with
  | int n | bool b => simp [Scalar.json, int]
  | float bits | double bits =>
    simp only [Scalar.json, finiteNumber]
    split <;> simp

omit [Float64 F] [FloatBits F] in
theorem length_leaves {α β γ : Type} {leaves : α → Option β} {values : α → List γ} {rs : List α}
    (hle : ∀ r ∈ rs, (leaves r).toList.length ≤ (values r).length) :
    (rs.filterMap leaves).length ≤ (rs.flatMap values).length ∧
      ((rs.filterMap leaves).length = (rs.flatMap values).length →
        ∀ r ∈ rs, (values r).length = (leaves r).toList.length) := by
  induction rs with
  | nil => simp
  | cons r rs ih =>
    obtain ⟨hr, hrs⟩ := List.forall_mem_cons.mp hle
    obtain ⟨hrest, hall⟩ := ih hrs
    have hcons : ((r :: rs).filterMap leaves).length =
        (leaves r).toList.length + (rs.filterMap leaves).length := by
      rw [List.filterMap_cons]
      cases leaves r <;> simp [Nat.add_comm]
    rw [hcons, List.flatMap_cons, List.length_append]
    refine ⟨by omega, fun h => List.forall_mem_cons.mpr ⟨by omega, hall (by omega)⟩⟩

omit [Float64 F] [FloatBits F] in
theorem decodeNested_eq_none_iff {definitions : List (String × ProtoMessage)} {key : String}
    [Float64 F] [FloatBits F] :
    (decodeNested definitions key : Option (List UInt8 → Option (Value F))) = none ↔
      key ∉ definitions.map Prod.fst := by
  induction definitions with
  | nil => simp [decodeNested]
  | cons entry definitions ih =>
    obtain ⟨name, msg⟩ := entry
    rw [decodeNested]
    by_cases h : name = key
    · simp [h]
    · rw [if_neg h, ih]
      simp [Ne.symm h]

theorem leaves_eq {nested : String → Option (List UInt8 → Option (Value F))} {records : List Record}
    (hpacked : ∀ values, .packed values ∈ records → values = [] ∧ nested field.protoType = none) :
    records.filterMap (Record.leaves nested field) =
      (records.flatMap Record.values).filterMap Scalar.json := by
  induction records with
  | nil => rfl
  | cons record records ih =>
    have hrest := ih fun values hvalues => hpacked values (List.mem_cons_of_mem _ hvalues)
    rw [List.flatMap_cons, List.filterMap_append, ← hrest, List.filterMap_cons]
    cases record with
    | unpacked value =>
      simp only [Record.leaves, Record.values, List.filterMap_cons, List.filterMap_nil]
      cases (value.json : Option (Value F)) <;> rfl
    | packed values =>
      obtain ⟨rfl, hnone⟩ := hpacked values List.mem_cons_self
      simp [Record.leaves, Record.values, packedLeaves, hnone]

/-- Decoding gives every value of every split into records if and only if no packed record
holds a value, no message bears the name of the type of an empty one, and every float is
finite. -/
theorem all_arrive_iff (msg : ProtoMessage) (field : ProtoField) (records : List Record)
    (hfield : RepeatedScalar msg field)
    (hvalues : ∀ value ∈ records.flatMap Record.values, Scalar.OfType field.type value)
    (hsize : (records.flatMap (Record.bytes field)).length < usizeBound) :
    AllArrive F msg field records ↔
      (∀ value ∈ records.flatMap Record.values, (value.json : Option (Value F)).isSome) ∧
        ∀ values, .packed values ∈ records →
          values = [] ∧ field.protoType ∉ msg.nested.map Prod.fst := by
  rw [AllArrive, decode_records hfield hvalues hsize]
  constructor
  · rintro ⟨items, hjson, hitems⟩
    have hleft := arrayField_inj (Value.object.inj hitems)
    have hsome : ∀ value ∈ records.flatMap Record.values, (value.json : Option (Value F)).isSome := by
      intro value hvalue
      have hmem := List.mem_map_of_mem (f := Scalar.json (F := F)) hvalue
      rw [hjson] at hmem
      obtain ⟨v, -, hv⟩ := List.mem_map.mp hmem
      rw [← hv]
      rfl
    have hnone : ∀ values, .packed values ∈ records →
        (packedLeaves (decodeNested msg.nested) field values : Option (Value F)) = none := by
      intro values hrecord
      by_contra hleaves
      obtain ⟨v, hv⟩ := Option.ne_none_iff_exists'.mp hleaves
      -- what a message leaves is an object, and no scalar is one
      obtain ⟨decode, hdecode, hread⟩ := Option.bind_eq_some_iff.mp hv
      obtain ⟨map, rfl⟩ := (decodeNested_object hdecode).1 _ _ hread
      have hmem : Value.object map ∈ items := by
        rw [← hleft]
        exact List.mem_filterMap.mpr ⟨_, hrecord, hv⟩
      have hscalar := List.mem_map_of_mem (f := some) hmem
      rw [← hjson] at hscalar
      obtain ⟨value, -, hvalue⟩ := List.mem_map.mp hscalar
      exact json_ne_object hvalue
    have hle : ∀ record ∈ records,
        (Record.leaves (decodeNested msg.nested) field record : Option (Value F)).toList.length ≤
          record.values.length := by
      intro record hrecord
      cases record with
      | unpacked value => exact Option.length_toList_le
      | packed values => simp [Record.leaves, hnone values hrecord]
    have hlength : (records.filterMap (Record.leaves (F := F) (decodeNested msg.nested) field)).length =
        (records.flatMap Record.values).length := by
      have := congrArg List.length hjson
      simp only [List.length_map] at this
      rw [hleft, this]
    refine ⟨hsome, fun values hrecord => ?_⟩
    have hempty := (length_leaves hle).2 hlength _ hrecord
    simp only [Record.leaves, Record.values, hnone values hrecord, Option.toList_none,
      List.length_nil, List.length_eq_zero_iff] at hempty
    subst hempty
    refine ⟨rfl, decodeNested_eq_none_iff (F := F) |>.mp ?_⟩
    by_contra hdefined
    obtain ⟨decode, hdecode⟩ := Option.ne_none_iff_exists'.mp hdefined
    have hread := hnone [] hrecord
    rw [packedLeaves, hdecode, Option.bind_some, List.flatMap_nil,
      (decodeNested_object hdecode).2] at hread
    cases hread
  · rintro ⟨hsome, hpacked⟩
    refine ⟨(records.flatMap Record.values).filterMap Scalar.json, ?_, ?_⟩
    · generalize records.flatMap Record.values = values at hsome
      induction values with
      | nil => rfl
      | cons value values ih =>
        obtain ⟨hvalue, hrest⟩ := List.forall_mem_cons.mp hsome
        obtain ⟨v, hv⟩ := Option.isSome_iff_exists.mp hvalue
        rw [List.filterMap_cons, hv, List.map_cons, List.map_cons, hv, ih hrest]
    · rw [leaves_eq fun values hrecord =>
        ⟨(hpacked values hrecord).1, decodeNested_eq_none_iff.mpr (hpacked values hrecord).2⟩]

/-- A message with a repeated `int32` field. -/
def samples : ProtoMessage := ⟨[⟨"xs", "int32", 1, true⟩], []⟩

theorem all_arrive_iff_samples :
    AllArrive ℚ samples ⟨"xs", "int32", 1, true⟩ [.unpacked (.int 1), .packed [.int 2]] ↔
      (∀ value ∈ [Scalar.int 1, .int 2], (value.json : Option (Value ℚ)).isSome) ∧
        ∀ values, .packed values ∈ [Record.unpacked (.int 1), .packed [.int 2]] →
          values = [] ∧ "int32" ∉ samples.nested.map Prod.fst :=
  all_arrive_iff samples ⟨"xs", "int32", 1, true⟩ [.unpacked (.int 1), .packed [.int 2]]
    ⟨rfl, rfl, by decide⟩
    (by simp [Record.values, Scalar.OfType, ProtoField.type, ProtoType.ofName, ProtoType.range])
    (by decide)

/-- The packed record of the one value `1` is skipped without an error, and its unpacked record
gives the array. -/
theorem packed_values_dropped :
    let field : ProtoField := ⟨"xs", "int32", 1, true⟩
    Record.bytes field (.packed [.int 1]) = [0x0a, 0x01, 0x01] ∧
      decode (Record.bytes field (.packed [.int 1])) samples = (.object [] : Value ℚ) ∧
      decode (Record.bytes field (.unpacked (.int 1))) samples =
        (.object [("xs", .array [int 1])] : Value ℚ) ∧
      ¬ AllArrive ℚ samples field [.packed [.int 1]] := by
  have hdropped : decode (Record.bytes ⟨"xs", "int32", 1, true⟩ (.packed [.int 1])) samples =
      (.object [] : Value ℚ) := rfl
  refine ⟨by decide, hdropped, rfl, ?_⟩
  rintro ⟨items, hitems, hdecode⟩
  rw [List.flatMap_singleton, hdropped] at hdecode
  have hnone : ([] : List (Value ℚ)) = items := arrayField_inj (Value.object.inj hdecode)
  simp [← hnone, Record.values] at hitems

end Rekuiper.Codecs
