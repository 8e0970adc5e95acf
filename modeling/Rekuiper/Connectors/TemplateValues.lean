import Rekuiper.Json
import Rekuiper.Lib.Scanner

/-!
# Values of data templates

The values that a data template computes with, and its functions. The arithmetic of integers is
that of `i64` without a check, and all comparisons are read off one three-way comparison, which
takes values that it does not know for ascending.
-/

namespace Rekuiper.Connectors.DataTemplate

open Lib

variable {F : Type}

inductive TemplateValue (F : Type)
  | noValue
  | nil
  | bool (b : Bool)
  | int (i : Int64)
  | float (f : F)
  | string (s : String)
  | array (items : List (TemplateValue F))
  | map (fields : List (String × TemplateValue F))

structure TemplateEnv (F : Type) where
  /-- `serde_json::to_string` -/
  toText : Value F → String
  /-- `parse::<f64>` -/
  parseF64 : String → Option F
  /-- `{:.0}` -/
  formatWhole : F → String
  /-- the functions for texts (`base64`, `printf`, `upper`, `trim`, `replace`, ...), given the dot
  and the arguments -/
  textFunction : String → Option (TemplateValue F → List (TemplateValue F) → String)

namespace TemplateValue

mutual
/-- `from_json`; a larger `u64` wraps. -/
def fromJson : Value F → TemplateValue F
  | .null => .nil
  | .bool b => .bool b
  | .number (.int n) => .int (Int64.ofInt n)
  | .number (.float f) => .float f
  | .string s => .string s
  | .array items => .array (fromItems items)
  | .object fields => .map (fromFields fields)
def fromItems : List (Value F) → List (TemplateValue F)
  | [] => []
  | v :: rest => fromJson v :: fromItems rest
def fromFields : List (String × Value F) → List (String × TemplateValue F)
  | [] => []
  | (k, v) :: rest =>
    if startsWith k "__" then fromFields rest else (k, fromJson v) :: fromFields rest
end

mutual
def toJson [Float64 F] : TemplateValue F → Value F
  | .noValue | .nil => .null
  | .bool b => .bool b
  | .int i => .number (.int i.toInt)
  | .float f => if Float64.isFinite f then .number (.float f) else .null
  | .string s => .string s
  | .array items => .array (toItems items)
  | .map fields => .object (toFields fields)
def toItems [Float64 F] : List (TemplateValue F) → List (Value F)
  | [] => []
  | v :: rest => toJson v :: toItems rest
def toFields [Float64 F] : List (String × TemplateValue F) → List (String × Value F)
  | [] => []
  | (k, v) :: rest => (k, toJson v) :: toFields rest
end

section

variable [Float64 F]

def isTruthy : TemplateValue F → Bool
  | .noValue | .nil => false
  | .bool b => b
  | .int i => i != 0
  | .float f => !Float64.eq f (Float64.ofInt 0)
  | .string s => !s.isEmpty
  | .array items => !items.isEmpty
  | .map fields => !fields.isEmpty

/-- `fract() == 0.0` -/
def isWhole (f : F) : Bool := Float64.eq (Float64.rem f (Float64.ofInt 1)) (Float64.ofInt 0)

mutual
def render (env : TemplateEnv F) : TemplateValue F → String
  | .noValue | .nil => "<no value>"
  | .bool b => if b then "true" else "false"
  | .int i => toString i.toInt
  | .float f =>
    if isWhole f && Float64.lt (Float64.abs f) (Float64.ofInt (10 ^ 15)) then env.formatWhole f
    else Float64.render f
  | .string s => s
  | .array items => "[" ++ renderItems env items ++ "]"
  | .map fields => "map[" ++ renderFields env fields ++ "]"
def renderItems (env : TemplateEnv F) : List (TemplateValue F) → String
  | [] => ""
  | [v] => render env v
  | v :: rest => render env v ++ " " ++ renderItems env rest
def renderFields (env : TemplateEnv F) : List (String × TemplateValue F) → String
  | [] => ""
  | [(k, v)] => k ++ ":" ++ render env v
  | (k, v) :: rest => k ++ ":" ++ render env v ++ " " ++ renderFields env rest
end

end

end TemplateValue

-- ---- Arithmetic

def InI64 (n : Int) : Prop := minI64 ≤ n ∧ n ≤ maxI64

instance (n : Int) : Decidable (InI64 n) := inferInstanceAs (Decidable (_ ∧ _))

/-- The result of `+`, `-` or `*` on `i64`. An overflow is a panic, unless the build lets it wrap. -/
def i64Result (n : Int) : Except Stop Int64 :=
  if InI64 n then .ok (Int64.ofInt n) else .error .panic

section

variable [Float64 F]

structure AddState (F : Type) where
  floatMode : Bool
  intSum : Int64
  floatSum : F

def addArg (s : AddState F) : TemplateValue F → Except Stop (AddState F)
  | .float f =>
    let floatSum := if s.floatMode then s.floatSum else Float64.ofInt s.intSum.toInt
    .ok { s with floatMode := true, floatSum := Float64.add floatSum f }
  | .int i =>
    if s.floatMode then .ok { s with floatSum := Float64.add s.floatSum (Float64.ofInt i.toInt) }
    else do
      let intSum ← i64Result (s.intSum.toInt + i.toInt)
      return { s with intSum }
  | _ => .ok s

def addArgs (args : List (TemplateValue F)) : Except Stop (TemplateValue F) := do
  let s ← args.foldlM addArg ⟨false, 0, Float64.ofInt 0⟩
  return if s.floatMode then .float s.floatSum else .int s.intSum

def toF64Val (env : TemplateEnv F) : Option (TemplateValue F) → F
  | some (.float f) => f
  | some (.int i) => Float64.ofInt i.toInt
  | some (.string s) => (env.parseF64 s).getD (Float64.ofInt 0)
  | _ => Float64.ofInt 0

/-- `sub` and `mul`: of integers if both arguments are, else of floats -/
def binary (env : TemplateEnv F) (onInts : Int → Int → Int) (onFloats : F → F → F) :
    Option (TemplateValue F) → Option (TemplateValue F) → Except Stop (TemplateValue F)
  | some (.int x), some (.int y) => (i64Result (onInts x.toInt y.toInt)).map .int
  | a, b => .ok (.float (onFloats (toF64Val env a) (toF64Val env b)))

def divArgs (env : TemplateEnv F) (args : List (TemplateValue F)) : TemplateValue F :=
  let a := toF64Val env args[0]?
  let b := toF64Val env args[1]?
  if Float64.eq b (Float64.ofInt 0) then .float (Float64.ofInt 0)
  else
    let res := Float64.div a b
    if TemplateValue.isWhole res then .int (Int64.ofInt (Float64.toInt res)) else .float res

-- ---- Comparisons

def compareF64 (x y : F) : Ordering :=
  if Float64.lt x y then .lt else if Float64.lt y x then .gt else .eq

/-- `compare_vals`, with its `-1`, `0` and `1` -/
def compareVals : Option (TemplateValue F) → Option (TemplateValue F) → Ordering
  | some (.int x), some (.int y) => compare x.toInt y.toInt
  | some (.float x), some (.float y) => compareF64 x y
  | some (.int x), some (.float y) => compareF64 (Float64.ofInt x.toInt) y
  | some (.float x), some (.int y) => compareF64 x (Float64.ofInt y.toInt)
  | some (.string x), some (.string y) => compare x y
  | some (.bool x), some (.bool y) => compare x y
  | none, none | some .nil, some .nil | some .noValue, some .noValue => .eq
  | _, _ => .lt

-- ---- Functions

def callJson (env : TemplateEnv F) (target : TemplateValue F) : TemplateValue F :=
  .string (env.toText target.toJson)

def indexValue (cur : TemplateValue F) : List (TemplateValue F) → TemplateValue F
  | [] => cur
  | key :: rest =>
    match cur, key with
    | .map fields, .string k =>
      match fields.lookup k with
      | some value => indexValue value rest
      | none => .noValue
    | .array items, .int idx =>
      if 0 ≤ idx.toInt then
        match items[idx.toInt.toNat]? with
        | some value => indexValue value rest
        | none => .noValue
      else .noValue
    | _, _ => .noValue

def lenValue : Option (TemplateValue F) → Int64
  | some (.array items) => Int64.ofNat items.length
  | some (.map fields) => Int64.ofNat fields.length
  | some (.string s) => Int64.ofNat s.length
  | _ => 0

/-- `call_function`; an unknown function gives its first argument back. -/
def callFunction (env : TemplateEnv F) (name : String) (args : List (TemplateValue F))
    (dot : TemplateValue F) : Except Stop (TemplateValue F) :=
  match name with
  | "json" | "toJson" => .ok (callJson env (args.head?.getD dot))
  | "index" => .ok (match args with | [] => .noValue | cur :: keys => indexValue cur keys)
  | "len" => .ok (.int (lenValue args[0]?))
  | "add" => addArgs args
  | "sub" => binary env (· - ·) Float64.sub args[0]? args[1]?
  | "mul" => binary env (· * ·) Float64.mul args[0]? args[1]?
  | "div" => .ok (divArgs env args)
  | "gt" => .ok (.bool (compareVals args[0]? args[1]? == .gt))
  | "ge" => .ok (.bool (compareVals args[0]? args[1]? != .lt))
  | "lt" => .ok (.bool (compareVals args[0]? args[1]? == .lt))
  | "le" => .ok (.bool (compareVals args[0]? args[1]? != .gt))
  | "eq" => .ok (.bool (compareVals args[0]? args[1]? == .eq))
  | "ne" => .ok (.bool (compareVals args[0]? args[1]? != .eq))
  | "default" =>
    let val := args[1]?.getD .noValue
    .ok (if val.isTruthy then val else args[0]?.getD .noValue)
  | name =>
    match env.textFunction name with
    | some f => .ok (.string (f dot args))
    | none => .ok (args[0]?.getD .noValue)

end

/-- A configured text of a sink, which is a template if it holds `{{`; `apply` stands for
`apply_data_template_value`. -/
def resolveText (apply : String → Value F → String) (text : String) (record : Row F) : String :=
  if ['{', '{'] <:+: text.toList then apply text (Value.ofMap record) else text

end Rekuiper.Connectors.DataTemplate
