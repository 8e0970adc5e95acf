import Rekuiper.Codecs.Protobuf
import Rekuiper.Lib.Outcome
import Rekuiper.Lib.Words

/-!
# Modbus

`ModbusSink` writes one field of a record to a register, `ModbusSource` reads
registers and decodes them. The two sides agree for 16-bit types and addresses
that both translate alike. The sink has no encoding of its own for wider integers:
it writes the low word, big-endian, to one register. In PLC notation it takes 1
off a short address where the source takes 4001 off or nothing.
-/

namespace Rekuiper.Connectors

open Lib
open Codecs (FloatBits)

variable {F : Type}

-- ---- Settings

inductive ModbusByteOrder
  | abcd
  | cdab
  | badc
  | dcba
  deriving DecidableEq

def ModbusByteOrder.parse (s : String) : ModbusByteOrder :=
  let upper := toAsciiUppercase s
  if upper = "CDAB" then .cdab
  else if upper = "BADC" then .badc
  else if upper = "DCBA" then .dcba
  else .abcd

inductive ModbusFunction
  | coil
  | discreteInput
  | holding
  | input
  deriving DecidableEq

def ModbusFunction.parse (s : String) : Except String ModbusFunction :=
  let lower := toAsciiLowercase s
  if lower ∈ ["coil", "coils", "fc01", "1"] then .ok .coil
  else if lower ∈ ["discrete", "discrete_input", "discreteinput", "fc02", "2"] then
    .ok .discreteInput
  else if lower ∈ ["holding", "holding_register", "holdingregister", "fc03", "3"] then .ok .holding
  else if lower ∈ ["input", "input_register", "inputregister", "fc04", "4"] then .ok .input
  else .error s!"Unknown Modbus function '{s}'; must be coil, discrete, holding, or input"

def ModbusFunction.isBitAccess : ModbusFunction → Bool
  | .coil | .discreteInput => true
  | .holding | .input => false

inductive ModbusDataType
  | bool
  | int16
  | uint16
  | int32
  | uint32
  | float32
  | int64
  | uint64
  | float64
  | string
  deriving DecidableEq

namespace ModbusDataType

def parse (s : String) : Except String ModbusDataType :=
  let lower := toAsciiLowercase s
  if lower ∈ ["bool", "boolean"] then .ok .bool
  else if lower ∈ ["int16", "short"] then .ok .int16
  else if lower ∈ ["uint16", "ushort", "word"] then .ok .uint16
  else if lower ∈ ["int32", "int"] then .ok .int32
  else if lower ∈ ["uint32", "uint", "dword"] then .ok .uint32
  else if lower ∈ ["float32", "float", "single"] then .ok .float32
  else if lower ∈ ["int64", "bigint", "long"] then .ok .int64
  else if lower ∈ ["uint64", "ubigint", "ulong", "qword"] then .ok .uint64
  else if lower ∈ ["float64", "double"] then .ok .float64
  else if lower ∈ ["string", "str"] then .ok .string
  else .error s!"Unknown Modbus data type '{s}'"

def wordCount (t : ModbusDataType) (length : Option UInt16) : Nat :=
  match t with
  | .bool | .int16 | .uint16 => 1
  | .int32 | .uint32 | .float32 => 2
  | .int64 | .uint64 | .float64 => 4
  | .string => max ((length.map UInt16.toNat).getD 1) 1

def range : ModbusDataType → Option (Int × Int)
  | .int16 => some (-2 ^ 15, 2 ^ 15 - 1)
  | .uint16 => some (0, 2 ^ 16 - 1)
  | .int32 => some (-2 ^ 31, 2 ^ 31 - 1)
  | .uint32 => some (0, 2 ^ 32 - 1)
  | .int64 => some (-2 ^ 63, 2 ^ 63 - 1)
  | .uint64 => some (0, 2 ^ 64 - 1)
  | .bool | .float32 | .float64 | .string => none

end ModbusDataType

/-- One register of a source's configuration. -/
structure ModbusRegister (F : Type) where
  name : String
  function : String
  address : UInt16
  dataType : String
  byteOrder : Option String
  scale : Option F
  offset : Option F
  length : Option UInt16

/-- A register ready for polling and decoding. -/
structure PreparedRegister (F : Type) where
  name : String
  function : ModbusFunction
  wireAddress : Nat
  dataType : ModbusDataType
  wordCount : Nat
  byteOrder : ModbusByteOrder
  scale : Option F
  offset : Option F
  length : Option UInt16

def sourceWireAddress (function : ModbusFunction) (address : Nat) (addressBase : Option UInt16)
    (plcAddressing : Bool) : Nat :=
  if plcAddressing then
    match function with
    | .holding =>
      if 40001 ≤ address then address - 40001
      else if 4001 ≤ address then address - 4001
      else address
    | .input =>
      if 30001 ≤ address then address - 30001
      else if 3001 ≤ address then address - 3001
      else address
    | .discreteInput =>
      if 10001 ≤ address then address - 10001
      else if 1001 ≤ address then address - 1001
      else address
    | .coil => if 1 ≤ address then address - 1 else address
  else if addressBase = some 1 then address - 1
  else address

def PreparedRegister.fromConfig (reg : ModbusRegister F) (defaultOrder : ModbusByteOrder)
    (addressBase : Option UInt16) (plcAddressing : Bool) : Except String (PreparedRegister F) := do
  let function ← ModbusFunction.parse reg.function
  let dataType ← ModbusDataType.parse reg.dataType
  .ok {
    name := reg.name
    function := function
    wireAddress := sourceWireAddress function reg.address.toNat addressBase plcAddressing
    dataType := dataType
    wordCount := if function.isBitAccess then 1 else dataType.wordCount reg.length
    byteOrder := (reg.byteOrder.map ModbusByteOrder.parse).getD defaultOrder
    scale := reg.scale
    offset := reg.offset
    length := reg.length }

/-- What `write_record` reads of a sink's configuration. -/
structure ModbusSinkConfig where
  byteOrder : String
  addressBase : Option UInt16
  plcAddressing : Bool
  function : String
  registerAddress : UInt16
  dataType : String
  field : Option String

def ModbusSinkConfig.wireAddress (config : ModbusSinkConfig) : Nat :=
  let address := config.registerAddress.toNat
  if config.plcAddressing then
    if 40001 ≤ address then address - 40001
    else if 1 ≤ address then address - 1
    else address
  else if config.addressBase = some 1 then address - 1
  else address

-- ---- Decoding

/-- The bytes of one word, most significant first. -/
def orderBytes16 (order : ModbusByteOrder) (w : UInt16) : List UInt8 :=
  match order with
  | .badc | .dcba => [loByte w, hiByte w]
  | .abcd | .cdab => [hiByte w, loByte w]

def orderBytes32 (order : ModbusByteOrder) (w₀ w₁ : UInt16) : List UInt8 :=
  let b₀ := hiByte w₀
  let b₁ := loByte w₀
  let b₂ := hiByte w₁
  let b₃ := loByte w₁
  match order with
  | .abcd => [b₀, b₁, b₂, b₃]
  | .cdab => [b₂, b₃, b₀, b₁]
  | .badc => [b₁, b₀, b₃, b₂]
  | .dcba => [b₃, b₂, b₁, b₀]

def orderBytes64 (order : ModbusByteOrder) (w₀ w₁ w₂ w₃ : UInt16) : List UInt8 :=
  let b₀ := hiByte w₀
  let b₁ := loByte w₀
  let b₂ := hiByte w₁
  let b₃ := loByte w₁
  let b₄ := hiByte w₂
  let b₅ := loByte w₂
  let b₆ := hiByte w₃
  let b₇ := loByte w₃
  match order with
  | .abcd => [b₀, b₁, b₂, b₃, b₄, b₅, b₆, b₇]
  | .cdab => [b₂, b₃, b₀, b₁, b₆, b₇, b₄, b₅]
  | .badc => [b₁, b₀, b₃, b₂, b₅, b₄, b₇, b₆]
  | .dcba => [b₇, b₆, b₅, b₄, b₃, b₂, b₁, b₀]

def wordChars (order : ModbusByteOrder) (w : UInt16) : List Char :=
  let bytes := match order with
    | .badc | .dcba => [loByte w, hiByte w]
    | .abcd | .cdab => [hiByte w, loByte w]
  (bytes.filter (· ≠ 0)).map fun b => Char.ofNat b.toNat

def rawWordsText (words : List UInt16) : String :=
  "[" ++ String.intercalate ", " (words.map fun w => toString w.toNat) ++ "]"

section

variable [Float64 F]

def applyMath (reg : PreparedRegister F) (words : List UInt16) (val : F) : Except String F :=
  let place := "register '" ++ reg.name ++ "' at address " ++ toString reg.wireAddress
  if ¬ Float64.isFinite val then
    .error (place ++ " decoded to non-finite float (" ++ Float64.render val ++ ", raw words: " ++
      rawWordsText words ++ ")")
  else
    let scaled := match reg.scale with
      | some s => Float64.mul val s
      | none => val
    let offsetted := match reg.offset with
      | some o => Float64.add scaled o
      | none => scaled
    if ¬ Float64.isFinite offsetted then
      .error (place ++ " scaled to non-finite float (" ++ Float64.render offsetted ++ ")")
    else .ok offsetted

def decodeInteger (reg : PreparedRegister F) (words : List UInt16) (n : Int) :
    Except String (Value F) := do
  let val ← applyMath reg words (Float64.ofInt n)
  if reg.scale.isNone ∧ reg.offset.isNone then .ok (.number (.int n))
  else .ok (.number (.float val))

def decodeFloat (reg : PreparedRegister F) (words : List UInt16) (f : F) :
    Except String (Value F) := do
  let val ← applyMath reg words f
  .ok (.number (.float val))

def expectsWords (reg : PreparedRegister F) (words : List UInt16) (count bytes : Nat) : String :=
  "register '" ++ reg.name ++ "' at address " ++ toString reg.wireAddress ++ " expects " ++
    toString count ++ " words (" ++ toString bytes ++ " bytes), got " ++ toString words.length

variable [FloatBits F]

def decodeRegisterValue (reg : PreparedRegister F) (words : List UInt16) :
    Except String (Value F) :=
  match reg.dataType with
  | .bool => .ok (.bool (words.head?.getD 0 != 0))
  | .int16 =>
    decodeInteger reg words
      (asSigned 16 (fromBeBytes (orderBytes16 reg.byteOrder (words.head?.getD 0))))
  | .uint16 =>
    decodeInteger reg words (fromBeBytes (orderBytes16 reg.byteOrder (words.head?.getD 0)))
  | .int32 =>
    match words with
    | w₀ :: w₁ :: _ =>
      decodeInteger reg words (asSigned 32 (fromBeBytes (orderBytes32 reg.byteOrder w₀ w₁)))
    | _ => .error (expectsWords reg words 2 4)
  | .uint32 =>
    match words with
    | w₀ :: w₁ :: _ => decodeInteger reg words (fromBeBytes (orderBytes32 reg.byteOrder w₀ w₁))
    | _ => .error (expectsWords reg words 2 4)
  | .float32 =>
    match words with
    | w₀ :: w₁ :: _ =>
      decodeFloat reg words
        (FloatBits.ofF32 (.ofNat (fromBeBytes (orderBytes32 reg.byteOrder w₀ w₁))))
    | _ => .error (expectsWords reg words 2 4)
  | .int64 =>
    match words with
    | w₀ :: w₁ :: w₂ :: w₃ :: _ =>
      decodeInteger reg words
        (asSigned 64 (fromBeBytes (orderBytes64 reg.byteOrder w₀ w₁ w₂ w₃)))
    | _ => .error (expectsWords reg words 4 8)
  | .uint64 =>
    match words with
    | w₀ :: w₁ :: w₂ :: w₃ :: _ =>
      decodeInteger reg words (fromBeBytes (orderBytes64 reg.byteOrder w₀ w₁ w₂ w₃))
    | _ => .error (expectsWords reg words 4 8)
  | .float64 =>
    match words with
    | w₀ :: w₁ :: w₂ :: w₃ :: _ =>
      decodeFloat reg words
        (FloatBits.ofBits (.ofNat (fromBeBytes (orderBytes64 reg.byteOrder w₀ w₁ w₂ w₃))))
    | _ => .error (expectsWords reg words 4 8)
  | .string => .ok (.string (String.ofList (words.flatMap (wordChars reg.byteOrder))))

-- ---- Writing

/-- The two bytes of an address or a count. -/
def wireBytes (n : Nat) : List UInt8 := [hiByte (.ofNat n), loByte (.ofNat n)]

omit [FloatBits F] in
/-- `as_i64`, else `as_f64` cut to an integer, else zero; of it the low word. -/
def lowWord (val : Value F) : UInt16 :=
  .ofInt (val.asI64.getD ((val.asF64.map Float64.toInt).getD 0))

/-- The request `write_record` builds for a value, or its error and whether that is permanent. -/
def writePdu (config : ModbusSinkConfig) (val : Value F) : Except (Bool × String) (List UInt8) :=
  let address := wireBytes config.wireAddress
  if eqIgnoreAsciiCase config.function "coil" then
    -- FC05
    let b := val.asBool.getD (val.asI64.getD 0 != 0)
    .ok ([0x05] ++ address ++ if b then [0xFF, 0x00] else [0x00, 0x00])
  else
    match ModbusDataType.parse config.dataType with
    | .error e => .error (true, e)
    | .ok .int16 | .ok .uint16 =>
      -- FC06
      .ok ([0x06] ++ address ++
        orderBytes16 (ModbusByteOrder.parse config.byteOrder) (lowWord val))
    | .ok .float32 =>
      -- FC16, two registers of four bytes
      let bits := FloatBits.toF32 (val.asF64.getD (Float64.ofInt 0))
      if ¬ Float64.isFinite (FloatBits.ofF32 bits : F) then
        .error (true, "Cannot write non-finite float32 (" ++
          Float64.render (FloatBits.ofF32 bits : F) ++ ") to Modbus register")
      else
        .ok ([0x10] ++ address ++ [0x00, 0x02, 0x04] ++
          orderBytes32 (ModbusByteOrder.parse config.byteOrder) (.ofNat (bits.toNat / 2 ^ 16))
            (.ofNat bits.toNat))
    | .ok _ =>
      -- every other type is written like a 16-bit one in the default order
      .ok ([0x06] ++ address ++ [hiByte (lowWord val), loByte (lowWord val)])

def recordValue (config : ModbusSinkConfig) (record : Row F) : Option (Value F) :=
  (record.lookup (config.field.getD "value")).or (record.lookup "val")

end

end Rekuiper.Connectors
