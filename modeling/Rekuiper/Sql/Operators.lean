import Rekuiper.Sql.Ast
import Mathlib.Data.Int.Bitwise

/-!
# Operators

What the operators of expressions do on values. An operation gives a value, an error
message, or a panic, which ends the task that runs it.
-/

namespace Rekuiper.Sql

open Lib

variable {F : Type}

inductive Failure
  | message (text : String)
  | panic (text : String)
  deriving DecidableEq, Repr

def unwrapOr {α : Type} (default : α) : Except Failure α → Except Failure α
  | .error (.message _) => .ok default
  | result => result

-- ---- Values

section
variable [Float64 F]

/-- `json!` of an `f64` -/
def ofFloat (f : F) : Value F := if Float64.isFinite f then .number (.float f) else .null

def ofI64 (n : Int) : Value F := .number (.int n)

def formatEkuiperValType : Value F → String
  | .null => "nil"
  | .bool b => s!"bool({b})"
  | .number (.int n) => s!"int64({n})"
  | .number (.float f) => let text := Float64.render f; s!"float64({text})"
  | .string s => s!"string({s})"
  | .array _ => "[]interface \x7b\x7d"
  | .object _ => "map[string]interface \x7b\x7d"

/-- `partial_cmp` -/
def compareFloat (a b : F) : Option Ordering :=
  if Float64.lt a b then some .lt
  else if Float64.eq a b then some .eq
  else if Float64.lt b a then some .gt
  else none

/-- The equality of SQL: numbers are compared by their values, and `NULL` is equal
to nothing. -/
def valuesEqual : Value F → Value F → Bool
  | .null, _ => false
  | _, .null => false
  | .number a, .number b =>
    match a.asI64, b.asI64 with
    | some i, some j => i == j
    | _, _ =>
      match a.asU64, b.asU64 with
      | some i, some j => i == j
      | _, _ => Float64.eq a.asF64 b.asF64
  | a, b => a.same b

def compareValues : Value F → Value F → Option Ordering
  | .number a, .number b => compareFloat a.asF64 b.asF64
  | .string a, .string b => some (compare a b)
  | .bool a, .bool b => some (compare a b)
  | _, _ => none

def parseI64 (s : String) : Option Int :=
  (parseInt s).filter fun n => minI64 ≤ n && n ≤ maxI64

def asIndexI64 : Value F → Option Int
  | .number (.int n) => if n ≤ maxI64 then some n else none
  | .number (.float f) => if Float64.isFinite f then some (Float64.toInt f) else none
  | .string s => parseI64 (trim s)
  | _ => none

def indexValue (base index : Value F) : Value F :=
  match base with
  | .array items =>
    match asIndexI64 index with
    | none => .null
    | some i =>
      let position := if 0 ≤ i then i else items.length + i
      if position < 0 then .null else items.getD position.toNat .null
  | .object fields =>
    match index with
    | .string key => (field key fields).getD .null
    | _ => .null
  | _ => .null

def sliceBound (length : Int) (default : Int) : Option (Value F) → Option Int
  | none => some default
  | some v => (asIndexI64 v).map fun i => if 0 ≤ i then i else length + i

def sliceValue (base : Value F) (lo hi : Option (Value F)) : Value F :=
  match base with
  | .array items =>
    let length : Int := items.length
    match sliceBound length 0 lo, sliceBound length length hi with
    | some l, some h =>
      let l := max 0 (min length l)
      let h := max 0 (min length h)
      if h ≤ l then .array [] else .array ((items.take h.toNat).drop l.toNat)
    | _, _ => .null
  | _ => .null

-- ---- Operators

def evalUnaryOp : UnaryOperator → Value F → Value F
  | .not, .bool b => .bool !b
  | .not, _ => .null
  | .neg, .number (.int n) =>
    if n = minI64 then ofFloat (Float64.neg (Float64.ofInt n))
    else if n ≤ maxI64 then ofI64 (-n)
    else ofFloat (Float64.neg (Float64.ofInt n))
  | .neg, .number (.float f) => ofFloat (Float64.neg f)
  | .neg, _ => .null

def opToken : BinaryOperator → String
  | .add => "+"
  | .sub => "-"
  | .mul => "*"
  | .div => "/"
  | .mod => "%"
  | .eq => "="
  | .neq => "!="
  | .lt => "<"
  | .lte => "<="
  | .gt => ">"
  | .gte => ">="
  | .and => "AND"
  | .or => "OR"
  | .bitAnd => "&"
  | .bitOr => "|"
  | .bitXor => "^"
  | .like => "LIKE"

def invalidOperation (left : Value F) (op : BinaryOperator) (right : Value F) :
    Except Failure (Value F) :=
  let l := formatEkuiperValType left
  let token := opToken op
  let r := formatEkuiperValType right
  .error (.message s!"invalid operation {l} {token} {r}")

/-- `saturating_add` and its like -/
def saturate (n : Int) : Int := max minI64 (min maxI64 n)

/-- `+`, `-` and `*`: on two `i64` saturating, otherwise on `f64`. -/
def arith (ints : Int → Int → Int) (floats : F → F → F) (left : Value F) (op : BinaryOperator)
    (right : Value F) : Except Failure (Value F) :=
  match left, right with
  | .number a, .number b =>
    match a.asI64, b.asI64 with
    | some i, some j => .ok (ofI64 (saturate (ints i j)))
    | _, _ => .ok (ofFloat (floats a.asF64 b.asF64))
  | _, _ => invalidOperation left op right

/-- `/` and `%`: the smallest `i64` by `-1` panics with a text. -/
def divide (ints : Int → Int → Int) (floats : F → F → F) (overflow : String) (left : Value F)
    (op : BinaryOperator) (right : Value F) : Except Failure (Value F) :=
  match left, right with
  | .number a, .number b =>
    if Float64.eq b.asF64 (Float64.ofInt 0) then .error (.message "divided by zero")
    else
      match a.asI64, b.asI64 with
      | some i, some j =>
        if j = 0 then .error (.message "divided by zero")
        else if i = minI64 ∧ j = -1 then .error (.panic overflow)
        else .ok (ofI64 (ints i j))
      | _, _ => .ok (ofFloat (floats a.asF64 b.asF64))
  | _, _ => invalidOperation left op right

def equality (whenEqual : Bool) (left : Value F) (op : BinaryOperator) (right : Value F) :
    Except Failure (Value F) :=
  match left, right with
  | .number _, .number _ => .ok (.bool (valuesEqual left right == whenEqual))
  | .string a, .string b => .ok (.bool ((a == b) == whenEqual))
  | .bool a, .bool b => .ok (.bool ((a == b) == whenEqual))
  | _, _ => invalidOperation left op right

def comparison (accepts : Ordering → Bool) (left : Value F) (op : BinaryOperator)
    (right : Value F) : Except Failure (Value F) :=
  match left, right with
  | .number a, .number b => .ok (.bool ((compareFloat a.asF64 b.asF64).any accepts))
  | .string a, .string b => .ok (.bool (accepts (compare a b)))
  | .bool a, .bool b => .ok (.bool (accepts (compare a b)))
  | _, _ => invalidOperation left op right

/-- `AND` and `OR` -/
def logic (bools : Bool → Bool → Bool) (left : Value F) (op : BinaryOperator) (right : Value F) :
    Except Failure (Value F) :=
  match left, right with
  | .bool a, .bool b => .ok (.bool (bools a b))
  | _, _ => invalidOperation left op right

def evalBitwise (bools : Bool → Bool → Bool) (ints : Int → Int → Int) (left right : Value F) :
    Value F :=
  match left, right with
  | .bool a, .bool b => .bool (bools a b)
  | .number a, .number b =>
    match a.asI64, b.asI64 with
    | some i, some j => ofI64 (ints i j)
    | _, _ =>
      match a.asU64, b.asU64 with
      | some i, some j => ofI64 (ints i j)
      | _, _ => .null
  | _, _ => .null

def nullOperand : BinaryOperator → Value F
  | .add | .sub | .mul | .div | .mod | .like => .null
  | _ => .bool false

def evalBinaryOp (likeMatch : String → String → Bool) (left : Value F) (op : BinaryOperator)
    (right : Value F) : Except Failure (Value F) :=
  if left.isNull || right.isNull then .ok (nullOperand op)
  else
    match op with
    | .and => logic (· && ·) left op right
    | .or => logic (· || ·) left op right
    | .eq => equality true left op right
    | .neq => equality false left op right
    | .lt => comparison (· == .lt) left op right
    | .lte => comparison (· != .gt) left op right
    | .gt => comparison (· == .gt) left op right
    | .gte => comparison (· != .lt) left op right
    | .add => arith (· + ·) Float64.add left op right
    | .sub => arith (· - ·) Float64.sub left op right
    | .mul => arith (· * ·) Float64.mul left op right
    | .div => divide Int.tdiv Float64.div "attempt to divide with overflow" left op right
    | .mod =>
      divide Int.tmod Float64.rem "attempt to calculate the remainder with overflow" left op right
    | .like =>
      match left, right with
      | .string s, .string pattern => .ok (.bool (likeMatch s pattern))
      | _, _ => .ok (.bool false)
    | .bitAnd => .ok (evalBitwise (· && ·) Int.land left right)
    | .bitOr => .ok (evalBitwise (· || ·) Int.lor left right)
    | .bitXor => .ok (evalBitwise (· != ·) Int.xor left right)

def evalBetween (value low high : Value F) (negated : Bool) : Except Failure (Value F) :=
  if value.isNull || low.isNull || high.isNull then .ok (.bool false)
  else
    let cannotCompare (bound : Value F) : Except Failure (Value F) :=
      let v := formatEkuiperValType value
      let b := formatEkuiperValType bound
      .error (.message s!"between operator cannot compare {v} and {b}")
    match compareValues value low with
    | none => cannotCompare low
    | some atLow =>
      match compareValues value high with
      | none => cannotCompare high
      | some atHigh =>
        let inRange := atLow != .lt && atHigh != .gt
        .ok (.bool (inRange != negated))

end

end Rekuiper.Sql
