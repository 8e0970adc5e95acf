import Rekuiper.Sql.Eval

/-!
# Records

What a rule's task looks at in a record before it evaluates anything: whether it is an
error record, its event time, and the columns that the stream declares.
-/

namespace Rekuiper.Pipeline

open Lib Sql

variable {F : Type}

def bareEnv : Env ℚ where
  now := 0
  toEkuiperString _ := ""
  debugText _ := ""
  jsonText _ := ""
  parseJson _ := none
  parseF64 _ := none
  parseRfc3339 _ := none
  parseNaiveDateTime _ _ := none
  parseNaiveDate _ _ := none
  likeMatch _ _ := false
  evalCall _ _ := .ok .null
  aggregate _ _ _ _ := .ok .null
  analytic _ := pure .null

-- ---- Error records

def checkRecordError (env : Env F) (data : Row F) : Option String :=
  (data.entries.find? fun entry =>
    entry.1 == "error" || entry.1 == "__error" || entry.1 == "__raw_error__").map fun entry =>
      entry.2.asStr.getD (env.jsonText entry.2)

-- ---- Event time

/-- `as i64` of a `u64` -/
def wrapI64 (n : Int) : Int := if n ≤ maxI64 then n else n - 2 ^ 64

def parseTimestampVal [Float64 F] (env : Env F) : Value F → Option Int
  | .number (.int n) => some (wrapI64 n)
  | .number (.float f) => some (Float64.toInt f)
  | .string s => (parseI64 s).or (env.parseRfc3339 s)
  | _ => none

def extractEventTimestamp [Float64 F] (env : Env F) (data : Row F)
    (configuredField : Option String) : Int :=
  ((configuredField.toList ++ ["timestamp", "ts", "event_time", "time"]).findSome? fun key =>
    (data.lookup key).bind (parseTimestampVal env)).getD env.now

-- ---- Declared columns

structure StreamField where
  name : String
  fieldType : String
  defaultValue : Option String

section
variable [Float64 F]

def coerceInteger (env : Env F) : Value F → Value F
  | .number (.int n) => ofI64 (wrapI64 n)
  | .number (.float f) => ofI64 (Float64.toInt f)
  | .string s =>
    match parseI64 (trim s), env.parseF64 (trim s) with
    | some n, _ => ofI64 n
    | none, some f => ofI64 (Float64.toInt f)
    | none, none => .null
  | .bool b => ofI64 (if b then 1 else 0)
  | _ => .null

def coerceFloat (env : Env F) : Value F → Value F
  | .number n => ofFloat n.asF64
  | .string s => ((env.parseF64 (trim s)).map ofFloat).getD .null
  | .bool b => ofFloat (Float64.ofInt (if b then 1 else 0))
  | _ => .null

def coerceString (env : Env F) : Value F → Value F
  | .string s => .string s
  | .number n => .string n.render
  | .bool b => .string (toString b)
  | .null => .null
  | other => .string (env.jsonText other)

def coerceBoolean : Value F → Value F
  | .bool b => .bool b
  | .string s =>
    let text := toAsciiLowercase (trim s)
    if ["true", "1", "t"].contains text then .bool true
    else if ["false", "0", "f"].contains text then .bool false
    else .null
  | .number (.int n) => if n = 1 then .bool true else if n = 0 then .bool false else .null
  | _ => .null

def coerceDateTime (env : Env F) : Value F → Value F
  | .number n => .number n
  | .string s =>
    let t := trim s
    let parsed := (env.parseRfc3339 t).or
      ((["%Y-%m-%d %H:%M:%S", "%Y-%m-%dT%H:%M:%S", "%Y-%m-%d %H:%M:%S%.f",
        "%Y-%m-%dT%H:%M:%S%.f"].findSome? fun format => env.parseNaiveDateTime format t).or
          ((env.parseNaiveDate "%Y-%m-%d" t).or (parseI64 t)))
    (parsed.map ofI64).getD .null
  | _ => .null

def coerceBinary : Value F → Value F
  | .string s => .string s
  | .array items => .array items
  | _ => .null

def coerceDecimal (env : Env F) : Value F → Value F
  | .number n => .number n
  | .string s => ((env.parseF64 (trim s)).map ofFloat).getD .null
  | _ => .null

def itemType (ty : String) : Option String :=
  if startsWith ty "array" then
    if startsWith ty "array(" && endsWith ty ")" || startsWith ty "array[" && endsWith ty "]" then
      let inner := trim (String.ofList ((ty.toList.drop 6).dropLast))
      if inner = "" then none else some inner
    else none
  else some (trim (String.ofList (ty.toList.take (ty.toList.length - 2))))

mutual
def coerceValueToType (env : Env F) (val : Value F) (targetType : String) : Value F :=
  let ty := toAsciiLowercase (trim targetType)
  if ["bigint", "int", "integer", "smallint", "tinyint"].contains ty then coerceInteger env val
  else if ["float", "double", "real"].contains ty then coerceFloat env val
  else if ["string", "text", "varchar", "char"].contains ty then coerceString env val
  else if ["boolean", "bool"].contains ty then coerceBoolean val
  else if ["datetime", "timestamp", "date", "time"].contains ty then coerceDateTime env val
  else if ["bytea", "binary", "blob"].contains ty then coerceBinary val
  else if startsWith ty "decimal" || startsWith ty "numeric" then coerceDecimal env val
  else if startsWith ty "array" || endsWith ty "[]" then
    match val with
    | .array items =>
      match itemType ty with
      | some inner => .array (coerceItems env items inner)
      | none => .array items
    | _ => .null
  else if startsWith ty "struct" then
    match val with
    | .object fields => .object fields
    | _ => .null
  else val
def coerceItems (env : Env F) : List (Value F) → String → List (Value F)
  | [], _ => []
  | item :: items, inner => coerceValueToType env item inner :: coerceItems env items inner
end

def unquote (s : String) : Option String :=
  let quoted (quote : String) := startsWith s quote && endsWith s quote && 2 ≤ s.toList.length
  if quoted "'" || quoted "\"" then some (String.ofList (s.toList.tail.dropLast)) else none

def parseDefaultValue (env : Env F) (raw fieldType : String) : Value F :=
  let s := trim raw
  if s = "" ∨ eqIgnoreAsciiCase s "null" then .null
  else
    match unquote s, env.parseJson s with
    | some text, _ => coerceValueToType env (.string text) fieldType
    | none, some parsed => coerceValueToType env parsed fieldType
    | none, none => coerceValueToType env (.string s) fieldType

def existingKey (data : Row F) (name : String) : Option String :=
  if (data.lookup name).isSome then some name
  else data.keys.find? fun key => eqIgnoreAsciiCase key name

def missingField (env : Env F) (data : Row F) (declared : StreamField) : Row F :=
  match declared.defaultValue with
  | some raw => data.insert declared.name (parseDefaultValue env raw declared.fieldType)
  | none =>
    if eqIgnoreAsciiCase declared.fieldType "bytea" || eqIgnoreAsciiCase declared.fieldType "binary"
    then ((data.lookup "self").map fun value => data.insert declared.name value).getD data
    else data

def nullField (env : Env F) (declared : StreamField) : Value F :=
  (declared.defaultValue.map fun raw => parseDefaultValue env raw declared.fieldType).getD .null

def enforceField (env : Env F) (data : Row F) (declared : StreamField) : Row F :=
  match existingKey data declared.name with
  | some key =>
    let val := (data.lookup key).getD .null
    let coerced :=
      if val.isNull then nullField env declared
      else coerceValueToType env val declared.fieldType
    (data.erase key).insert declared.name coerced
  | none => missingField env data declared

def enforceStreamSchema (env : Env F) (data : Row F) (fields : List StreamField) : Row F :=
  fields.foldl (enforceField env) data

structure SchemaMismatchError where
  field : String
  expected : String
  actualValue : String
  deriving DecidableEq, Repr

def enforceFieldChecked (env : Env F) (data : Row F) (declared : StreamField) :
    Except SchemaMismatchError (Row F) :=
  match existingKey data declared.name with
  | some key =>
    let val := (data.lookup key).getD .null
    if val.isNull then .ok ((data.erase key).insert declared.name (nullField env declared))
    else
      let coerced := coerceValueToType env val declared.fieldType
      if coerced.isNull then .error ⟨declared.name, declared.fieldType, env.jsonText val⟩
      else .ok ((data.erase key).insert declared.name coerced)
  | none => .ok (missingField env data declared)

def enforceStreamSchemaChecked (env : Env F) (data : Row F) (fields : List StreamField) :
    Except SchemaMismatchError (Row F) :=
  fields.foldlM (enforceFieldChecked env) data

end

end Rekuiper.Pipeline
