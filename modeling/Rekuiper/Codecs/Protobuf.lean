import Rekuiper.Codecs.Fields
import Rekuiper.Codecs.Wire
import Rekuiper.Lib.Base64
import Rekuiper.Lib.Text

/-!
# The protobuf codec

`ProtobufCodec` turns a JSON object into wire bytes and back, following a parsed message
definition. Nested definitions are looked up by name in the message that uses them, so a
decoder and an encoder get those of the nested messages as functions of the name.
-/

namespace Rekuiper

-- ---- The text of a value

def hexDigit (n : Nat) : Char := if n < 10 then Char.ofNat (n + 48) else Char.ofNat (n + 87)

/-- A character of a JSON string, escaped as `serde_json` does. -/
def escapeChar (c : Char) : List Char :=
  match c with
  | '"' => ['\\', '"']
  | '\\' => ['\\', '\\']
  | '\n' => ['\\', 'n']
  | '\r' => ['\\', 'r']
  | '\t' => ['\\', 't']
  | c =>
    if c.toNat = 8 then ['\\', 'b']
    else if c.toNat = 12 then ['\\', 'f']
    else if c.toNat < 32 then ['\\', 'u', '0', '0', hexDigit (c.toNat / 16), hexDigit (c.toNat % 16)]
    else [c]

def quoted (s : String) : String := "\"" ++ String.ofList (s.toList.flatMap escapeChar) ++ "\""

mutual
/-- `serde_json::to_string` -/
def Value.toJson {F : Type} [Float64 F] : Value F → String
  | .null => "null"
  | .bool true => "true"
  | .bool false => "false"
  | .number n => n.render
  | .string s => quoted s
  | .array items => "[" ++ String.intercalate "," (Value.itemsToJson items) ++ "]"
  | .object fields => "\x7b" ++ String.intercalate "," (Value.fieldsToJson fields) ++ "\x7d"
def Value.itemsToJson {F : Type} [Float64 F] : List (Value F) → List String
  | [] => []
  | item :: items => item.toJson :: itemsToJson items
def Value.fieldsToJson {F : Type} [Float64 F] : List (String × Value F) → List String
  | [] => []
  | (k, v) :: fields => (quoted k ++ ":" ++ v.toJson) :: fieldsToJson fields
end

namespace Codecs

open Lib

/-- What the codec uses of floats beyond their arithmetic: their bits, and their texts. -/
class FloatBits (F : Type) where
  /-- `as u64` after `trunc` -/
  toU64 : F → UInt64
  /-- the bits of `as f32` -/
  toF32 : F → UInt32
  /-- `f32::from_bits(..) as f64` -/
  ofF32 : UInt32 → F
  toBits : F → UInt64
  ofBits : UInt64 → F
  /-- the bits of `parse::<f32>` -/
  parseF32 : String → Option UInt32
  /-- `parse::<f64>` -/
  parseF64 : String → Option F

-- ---- Messages

structure ProtoField where
  name : String
  protoType : String
  number : UInt32
  repeated : Bool

structure ProtoMessage where
  fields : List ProtoField
  nested : List (String × ProtoMessage)

/-- The scalar types the codec knows by name; any other name is a message's. -/
inductive ProtoType
  | int32
  | int64
  | uint32
  | uint64
  | sint32
  | sint64
  | bool
  | float
  | double
  | fixed64
  | sfixed64
  | fixed32
  | sfixed32
  | string
  | bytes
  | message
  deriving DecidableEq

def ProtoType.ofName : String → ProtoType
  | "int32" => .int32
  | "int64" => .int64
  | "uint32" => .uint32
  | "uint64" => .uint64
  | "sint32" => .sint32
  | "sint64" => .sint64
  | "bool" => .bool
  | "float" => .float
  | "double" => .double
  | "fixed64" => .fixed64
  | "sfixed64" => .sfixed64
  | "fixed32" => .fixed32
  | "sfixed32" => .sfixed32
  | "string" => .string
  | "bytes" => .bytes
  | _ => .message

def ProtoField.type (field : ProtoField) : ProtoType := .ofName field.protoType

variable {F : Type}

/-- `Value::from` an integer -/
def int (n : Int) : Value F := .number (.int n)

-- ---- Decoding

/-- `((v >> 1) as i64) ^ -((v & 1) as i64)` -/
def unzigzag (v : UInt64) : Int64 := (v >>> 1).toInt64 ^^^ -(v &&& 1).toInt64

def readInt (bytes : List UInt8) (pos : Nat) (as : UInt64 → Int) :
    Option (Option (Value F) × Nat) :=
  (readVarint bytes pos).map fun (v, pos) => (some (int (as v)), pos)

def readFixedInt (n : Nat) (bytes : List UInt8) (pos : Nat) (as : UInt64 → Int) :
    Option (Option (Value F) × Nat) :=
  (readFixed n bytes pos).map fun (raw, pos) => (some (int (as (.ofNat (fromLeBytes raw)))), pos)

variable [Float64 F] [FloatBits F]

def finiteNumber (f : F) : Option (Value F) :=
  if Float64.isFinite f then some (.number (.float f)) else none

def decodeOther (nested : String → Option (List UInt8 → Option (Value F))) (bytes : List UInt8)
    (pos : Nat) (wireType : UInt8) (field : ProtoField) : Option (Option (Value F) × Nat) :=
  match if wireType = 2 then nested field.protoType else none with
  | some decode => (readLenBytes bytes pos).map fun (raw, pos) => (decode raw, pos)
  | none => (skipField bytes pos wireType).map fun pos => (none, pos)

def decodeFieldSized (nested : String → Option (List UInt8 → Option (Value F)))
    (bytes : List UInt8) (pos : Nat) (wireType : UInt8) (field : ProtoField) :
    Option (Option (Value F) × Nat) :=
  match field.type, wireType with
  | .string, 2 =>
    (readLenBytes bytes pos).map fun (raw, pos) => (some (.string (fromUtf8Lossy raw)), pos)
  | .bytes, 2 =>
    (readLenBytes bytes pos).map fun (raw, pos) => (some (.string (Base64.encode raw)), pos)
  | .float, 5 =>
    (readFixed 4 bytes pos).map fun (raw, pos) =>
      (finiteNumber (FloatBits.ofF32 (.ofNat (fromLeBytes raw))), pos)
  | .double, 1 =>
    (readFixed 8 bytes pos).map fun (raw, pos) =>
      (finiteNumber (FloatBits.ofBits (.ofNat (fromLeBytes raw))), pos)
  | .fixed64, 1 => readFixedInt 8 bytes pos fun v => v.toNat
  | .sfixed64, 1 => readFixedInt 8 bytes pos fun v => v.toInt64.toInt
  | .fixed32, 5 => readFixedInt 4 bytes pos fun v => v.toUInt32.toNat
  | .sfixed32, 5 => readFixedInt 4 bytes pos fun v => v.toUInt32.toInt32.toInt
  | _, _ => decodeOther nested bytes pos wireType field

def decodeField (nested : String → Option (List UInt8 → Option (Value F))) (bytes : List UInt8)
    (pos : Nat) (wireType : UInt8) (field : ProtoField) : Option (Option (Value F) × Nat) :=
  match field.type, wireType with
  | .int32, 0 => readInt bytes pos fun v => v.toUInt32.toInt32.toInt
  | .int64, 0 => readInt bytes pos fun v => v.toInt64.toInt
  | .uint32, 0 => readInt bytes pos fun v => v.toUInt32.toNat
  | .uint64, 0 => readInt bytes pos fun v => v.toNat
  | .sint32, 0 => readInt bytes pos fun v => (unzigzag v).toInt32.toInt
  | .sint64, 0 => readInt bytes pos fun v => (unzigzag v).toInt
  | .bool, 0 => (readVarint bytes pos).map fun (v, pos) => (some (.bool (v != 0)), pos)
  | _, _ => decodeFieldSized nested bytes pos wireType field

def putField (field : ProtoField) (value : Value F) (map : List (String × Value F)) :
    List (String × Value F) :=
  if field.repeated then
    match Rekuiper.field field.name map with
    | some (.array items) => setField field.name (.array (items ++ [value])) map
    | some before => setField field.name (.array [before, value]) map
    | none => setField field.name (.array [value]) map
  else setField field.name value map

/-- The loop of `decode_inner`; every round reads a byte at least, so the length of the
bytes bounds their number. -/
def decodeLoop (fields : List ProtoField) (nested : String → Option (List UInt8 → Option (Value F)))
    (bytes : List UInt8) : Nat → Nat → List (String × Value F) → Option (List (String × Value F))
  | rounds, pos, map =>
    if pos < bytes.length then
      match rounds with
      | 0 => none
      | rounds + 1 => do
        let (tag, pos) ← readVarint bytes pos
        let number := (tag >>> 3).toUInt32
        let wireType := (tag &&& 0x07).toUInt8
        match fields.find? fun field => field.number == number with
        | none =>
          let pos ← skipField bytes pos wireType
          decodeLoop fields nested bytes rounds pos map
        | some field =>
          let (value, pos) ← decodeField nested bytes pos wireType field
          match value with
          | none => decodeLoop fields nested bytes rounds pos map
          | some value => decodeLoop fields nested bytes rounds pos (putField field value map)
    else some map

mutual
def decodeInner : ProtoMessage → List UInt8 → Option (Value F)
  | ⟨fields, nested⟩, bytes =>
    (decodeLoop fields (decodeNested nested) bytes bytes.length 0 []).map .object
def decodeNested : List (String × ProtoMessage) → String → Option (List UInt8 → Option (Value F))
  | [], _ => none
  | (name, msg) :: rest, key => if name = key then some (decodeInner msg) else decodeNested rest key
end

/-- `ProtobufCodec::decode`: malformed input gives `null`. -/
def decode (bytes : List UInt8) (msg : ProtoMessage) : Value F := (decodeInner msg bytes).getD .null

-- ---- Encoding

def parseWithin (low high : Int) (s : String) : Option Int :=
  (parseInt s).filter fun n => low ≤ n && n ≤ high

/-- `parse::<u64>` takes no minus sign. -/
def parseUnsigned (s : String) : Option Int :=
  if startsWith s "-" then none else parseWithin 0 (2 ^ 64 - 1) s

def numToI64 (v : Value F) : Option Int64 :=
  match v.asI64, v.asU64 with
  | some i, _ => some (.ofInt i)
  | none, some u => if u ≤ maxI64 then some (.ofInt u) else none
  | none, none =>
    ((v.asF64.filter Float64.isFinite).map fun f => .ofInt (Float64.toInt f)) <|>
      (v.asStr.bind fun s => (parseWithin minI64 maxI64 (trim s)).map .ofInt) <|>
      v.asBool.map fun b => if b then 1 else 0

def numToU64 (v : Value F) : Option UInt64 :=
  match v.asU64, v.asI64 with
  | some u, _ => some (.ofNat u.toNat)
  | none, some i => if 0 ≤ i then some (.ofNat i.toNat) else none
  | none, none =>
    ((v.asF64.filter fun f => Float64.isFinite f && Float64.le (Float64.ofInt 0) f).map
        FloatBits.toU64) <|>
      (v.asStr.bind fun s => (parseUnsigned (trim s)).map fun n => .ofNat n.toNat) <|>
      v.asBool.map fun b => if b then 1 else 0

def valueToBool : Value F → Option Bool
  | .bool b => some b
  | .number n => some !Float64.eq n.asF64 (Float64.ofInt 0)
  | .string s =>
    match toAsciiLowercase (trim s) with
    | "true" | "1" => some true
    | "false" | "0" => some false
    | _ => none
  | _ => none

/-- The bits of an `f32` or `f64` field: of a number, or of a text that is one. -/
def floatBits {Bits : Type} (ofFloat : F → Bits) (parse : String → Option Bits) (v : Value F) :
    Option Bits :=
  match v.asF64 <|> (numToI64 v).map fun i => Float64.ofInt i.toInt with
  | some f => some (ofFloat f)
  | none => v.asStr.bind fun s => parse (trim s)

def tagged (field : ProtoField) (wireType : UInt8) : Option (List UInt8) → List UInt8
  | some payload => writeTag field.number wireType ++ payload
  | none => []

def lengthDelimited (raw : List UInt8) : List UInt8 := writeVarint (.ofNat raw.length) ++ raw

/-- The bytes of a value in a field of type `string`. -/
def stringBytes : Value F → Option (List UInt8)
  | .string s => some (utf8Bytes s)
  | .null => none
  | other => some (utf8Bytes other.toJson)

/-- The bytes of a value in a field of type `bytes`. -/
def rawBytes : Value F → Option (List UInt8)
  | .string s => some ((Base64.decode (trim s)).getD (utf8Bytes s))
  | .null => none
  | other => some (utf8Bytes other.toJson)

/-- `((i << 1) ^ (i >> 31)) as u32` -/
def zigzag32 (i : Int32) : UInt32 := (i <<< (1 : Int32) ^^^ i >>> (31 : Int32)).toUInt32

/-- `((i << 1) ^ (i >> 63)) as u64` -/
def zigzag64 (i : Int64) : UInt64 := (i <<< (1 : Int64) ^^^ i >>> (63 : Int64)).toUInt64

/-- The bytes `encode_field` pushes. -/
def encodeField (nested : String → Option (Value F → List UInt8)) (field : ProtoField)
    (v : Value F) : List UInt8 :=
  match field.type with
  | .int32 =>
    tagged field 0 ((numToI64 v).map fun i => writeVarint i.toInt32.toInt64.toUInt64)
  | .int64 => tagged field 0 ((numToI64 v).map fun i => writeVarint i.toUInt64)
  | .uint32 => tagged field 0 ((numToU64 v).map writeVarint)
  | .uint64 => tagged field 0 ((numToU64 v).map writeVarint)
  | .sint32 =>
    tagged field 0 ((numToI64 v).map fun i => writeVarint (zigzag32 i.toInt32).toUInt64)
  | .sint64 => tagged field 0 ((numToI64 v).map fun i => writeVarint (zigzag64 i))
  | .bool => tagged field 0 ((valueToBool v).map fun b => writeVarint (if b then 1 else 0))
  | .float =>
    tagged field 5 ((floatBits FloatBits.toF32 (FloatBits.parseF32 F) v).map fun bits =>
      toLeBytes 4 bits.toNat)
  | .double =>
    tagged field 1 ((floatBits FloatBits.toBits (fun s => (FloatBits.parseF64 s : Option F).map
      FloatBits.toBits) v).map fun bits => toLeBytes 8 bits.toNat)
  | .fixed64 => tagged field 1 ((numToU64 v).map fun u => toLeBytes 8 u.toNat)
  | .sfixed64 => tagged field 1 ((numToI64 v).map fun i => toLeBytes 8 i.toUInt64.toNat)
  | .fixed32 => tagged field 5 ((numToU64 v).map fun u => toLeBytes 4 u.toUInt32.toNat)
  | .sfixed32 =>
    tagged field 5 ((numToI64 v).map fun i => toLeBytes 4 i.toInt32.toUInt32.toNat)
  | .string => tagged field 2 ((stringBytes v).map lengthDelimited)
  | .bytes => tagged field 2 ((rawBytes v).map lengthDelimited)
  | .message =>
    match v with
    | .object _ => tagged field 2 ((nested field.protoType).map fun encode => lengthDelimited (encode v))
    | _ => []

def fieldValues (field : ProtoField) (map : List (String × Value F)) : List (Value F) :=
  match Rekuiper.field field.name map with
  | some (.array items) => if field.repeated then items else [.array items]
  | some v => [v]
  | none => []

mutual
/-- `ProtobufCodec::encode` -/
def encodeMessage : ProtoMessage → Value F → List UInt8
  | ⟨fields, nested⟩, .object map =>
    fields.flatMap fun field => (fieldValues field map).flatMap (encodeField (encodeNested nested) field)
  | _, _ => []
/-- The encoders of the nested messages by name. -/
def encodeNested : List (String × ProtoMessage) → String → Option (Value F → List UInt8)
  | [], _ => none
  | (name, msg) :: rest, key => if name = key then some (encodeMessage msg) else encodeNested rest key
end

def encode (value : Value F) (msg : ProtoMessage) : List UInt8 := encodeMessage msg value

end Codecs

end Rekuiper
