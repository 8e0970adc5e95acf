import Mathlib.Data.Rat.Floor
import Rekuiper.Lib.Maps
import Rekuiper.Lib.Text

/-!
# JSON values

The values of `serde_json`. A number is an integer in the range of `i64` and `u64`
together, or a finite `f64`; the type of floats and their arithmetic are a
parameter.
-/

namespace Rekuiper

open Lib

/-- What the program uses of `f64`. -/
class Float64 (F : Type) where
  /-- `as f64` -/
  ofInt : Int → F
  /-- `as i64` after `trunc` -/
  toInt : F → Int
  add : F → F → F
  sub : F → F → F
  mul : F → F → F
  div : F → F → F
  rem : F → F → F
  neg : F → F
  abs : F → F
  /-- `f64::EPSILON` -/
  epsilon : F
  /-- `==`, `<` and `<=` -/
  eq : F → F → Bool
  lt : F → F → Bool
  le : F → F → Bool
  isFinite : F → Bool
  /-- `to_string` -/
  render : F → String

/-- What proofs use of `f64`. Infinities are equal to themselves, and their difference is
not a number, which compares to nothing. -/
class LawfulFloat64 (F : Type) [Float64 F] : Prop where
  eq_ofInt : ∀ n : Int, Float64.eq (Float64.ofInt n : F) (Float64.ofInt n) = true
  not_apart : ∀ f g : F, Float64.eq f g = true →
    Float64.le Float64.epsilon (Float64.abs (Float64.sub f g)) = false
  le_of_lt : ∀ f g : F, Float64.lt f g = true → Float64.le f g = true
  le_of_eq : ∀ f g : F, Float64.eq f g = true → Float64.le f g = true
  ge_of_eq : ∀ f g : F, Float64.eq f g = true → Float64.le g f = true

/-- Finite `f64` are totally ordered, up to the sign of zero. -/
class OrderedFloat64 (F : Type) [Float64 F] : Prop where
  total : ∀ f g : F, Float64.isFinite f = true → Float64.isFinite g = true →
    Float64.le f g = true ∨ Float64.le g f = true
  trans : ∀ f g h : F, Float64.le f g = true → Float64.le g h = true → Float64.le f h = true
  lt_iff : ∀ f g : F, Float64.isFinite f = true → Float64.isFinite g = true →
    (Float64.lt f g = true ↔ Float64.le g f = false)
  eq_iff : ∀ f g : F, Float64.eq f g = true ↔ Float64.le f g = true ∧ Float64.le g f = true

/-- A `serde_json::Number`. -/
inductive Number (F : Type) where
  | int (n : Int)
  | float (f : F)

/-- A `serde_json::Value`. -/
inductive Value (F : Type) where
  | null
  | bool (b : Bool)
  | number (n : Number F)
  | string (s : String)
  | array (items : List (Value F))
  | object (fields : List (String × Value F))

/-- The largest `i64`. -/
def maxI64 : Int := 2 ^ 63 - 1

/-- The smallest `i64`. -/
def minI64 : Int := -2 ^ 63

namespace Number

variable {F : Type}

def asI64 : Number F → Option Int
  | .int n => if n ≤ maxI64 then some n else none
  | .float _ => none

def asU64 : Number F → Option Int
  | .int n => if 0 ≤ n then some n else none
  | .float _ => none

def asF64 [Float64 F] : Number F → F
  | .int n => Float64.ofInt n
  | .float f => f

def same [Float64 F] : Number F → Number F → Bool
  | .int n, .int m => n == m
  | .float f, .float g => Float64.eq f g
  | _, _ => false

/-- `to_string` -/
def render [Float64 F] : Number F → String
  | .int n => toString n
  | .float f => Float64.render f

end Number

/-- `get` of an object's fields -/
def field {F : Type} (key : String) (fields : List (String × Value F)) : Option (Value F) :=
  (fields.find? fun entry => entry.1 == key).map Prod.snd

/-- `insert` into an object's fields, which are sorted by their keys. -/
def setField {F : Type} (key : String) (value : Value F) :
    List (String × Value F) → List (String × Value F)
  | [] => [(key, value)]
  | (k, v) :: rest =>
    if key = k then (key, value) :: rest
    else if key < k then (key, value) :: (k, v) :: rest
    else (k, v) :: setField key value rest

namespace Value

variable {F : Type}

def isNull : Value F → Bool
  | .null => true
  | _ => false

def isNumber : Value F → Bool
  | .number _ => true
  | _ => false

/-- `is_i64() || is_u64()` -/
def isInteger : Value F → Bool
  | .number (.int _) => true
  | _ => false

def asI64 : Value F → Option Int
  | .number n => n.asI64
  | _ => none

def asU64 : Value F → Option Int
  | .number n => n.asU64
  | _ => none

def asF64 [Float64 F] : Value F → Option F
  | .number n => some n.asF64
  | _ => none

def asBool : Value F → Option Bool
  | .bool b => some b
  | _ => none

def asStr : Value F → Option String
  | .string s => some s
  | _ => none

def asArray : Value F → Option (List (Value F))
  | .array items => some items
  | _ => none

def asObject : Value F → Option (List (String × Value F))
  | .object fields => some fields
  | _ => none

def ofMap (m : HashMap String (Value F)) : Value F :=
  .object (m.entries.foldl (fun fields entry => setField entry.1 entry.2 fields) [])

def get (v : Value F) (key : String) : Option (Value F) := v.asObject.bind (field key)

mutual
def same [Float64 F] : Value F → Value F → Bool
  | .null, .null => true
  | .bool a, .bool b => a == b
  | .number a, .number b => a.same b
  | .string a, .string b => a == b
  | .array xs, .array ys => sameItems xs ys
  | .object xs, .object ys => sameFields xs ys
  | _, _ => false
def sameItems [Float64 F] : List (Value F) → List (Value F) → Bool
  | [], [] => true
  | x :: xs, y :: ys => same x y && sameItems xs ys
  | _, _ => false
def sameFields [Float64 F] : List (String × Value F) → List (String × Value F) → Bool
  | [], [] => true
  | (k, x) :: xs, (l, y) :: ys => k == l && same x y && sameFields xs ys
  | _, _ => false
end

end Value

/-- Rational numbers stand for floats in runs where nothing is rounded. -/
instance : Float64 ℚ where
  ofInt n := n
  toInt f := max minI64 (min maxI64 (f.num.tdiv f.den))
  add := (· + ·)
  sub := (· - ·)
  mul := (· * ·)
  div := (· / ·)
  rem f g := f - g * ((f / g).num.tdiv (f / g).den)
  neg f := -f
  abs f := if f < 0 then -f else f
  epsilon := 1 / 2 ^ 52
  eq f g := f == g
  lt f g := decide (f < g)
  le f g := decide (f ≤ g)
  isFinite _ := true
  render f := if f.den = 1 then s!"{f.num}.0" else s!"{f.num}/{f.den}"

instance : LawfulFloat64 ℚ where
  eq_ofInt n := beq_self_eq_true (n : ℚ)
  not_apart f g h := by
    obtain rfl : f = g := eq_of_beq h
    simp [Float64.le, Float64.abs, Float64.sub, Float64.epsilon]
  le_of_lt f g h := decide_eq_true (le_of_lt (of_decide_eq_true h))
  le_of_eq f g h := decide_eq_true (le_of_eq (eq_of_beq h))
  ge_of_eq f g h := decide_eq_true (ge_of_eq (eq_of_beq h))

instance : OrderedFloat64 ℚ where
  total f g _ _ := by
    simp only [Float64.le, decide_eq_true_eq]
    exact le_total f g
  trans f g h hfg hgh := by
    simp only [Float64.le, decide_eq_true_eq] at hfg hgh ⊢
    exact le_trans hfg hgh
  lt_iff f g _ _ := by simp [Float64.lt, Float64.le]
  eq_iff f g := by
    simp only [Float64.eq, Float64.le, beq_iff_eq, decide_eq_true_eq]
    exact le_antisymm_iff

/-- One record, or one row of a window or join. -/
abbrev Row (F : Type) := HashMap String (Value F)

-- ---- Equality

theorem Number.same_comm {F : Type} [Float64 F] [OrderedFloat64 F] (a b : Number F) :
    a.same b = b.same a := by
  cases a <;> cases b <;> simp only [Number.same]
  · exact Bool.beq_comm
  · exact Bool.eq_iff_iff.mpr (by simp only [OrderedFloat64.eq_iff, and_comm])

theorem Number.same_trans {F : Type} [Float64 F] [OrderedFloat64 F] {a b c : Number F}
    (hab : a.same b = true) (hbc : b.same c = true) : a.same c = true := by
  cases a <;> cases b <;> cases c <;> simp only [Number.same, Bool.false_eq_true] at hab hbc ⊢
  · exact beq_iff_eq.mpr ((eq_of_beq hab).trans (eq_of_beq hbc))
  · rw [OrderedFloat64.eq_iff] at hab hbc ⊢
    exact ⟨OrderedFloat64.trans _ _ _ hab.1 hbc.1, OrderedFloat64.trans _ _ _ hbc.2 hab.2⟩

namespace Value
variable {F : Type} [Float64 F]

mutual
theorem same_comm [OrderedFloat64 F] : ∀ a b : Value F, a.same b = b.same a
  | .number a, b => by cases b <;> simp [same, a.same_comm]
  | .array xs, b => by cases b <;> simp [same, sameItems_comm xs]
  | .object xs, b => by cases b <;> simp [same, sameFields_comm xs]
  | .null, b => by cases b <;> simp [same]
  | .bool a, b => by cases b <;> simp [same, Bool.beq_comm]
  | .string a, b => by cases b <;> simp [same, Bool.beq_comm]
theorem sameItems_comm [OrderedFloat64 F] : ∀ xs ys : List (Value F), sameItems xs ys = sameItems ys xs
  | [], ys => by cases ys <;> simp [sameItems]
  | x :: xs, ys => by cases ys <;> simp [sameItems, same_comm x, sameItems_comm xs]
theorem sameFields_comm [OrderedFloat64 F] : ∀ xs ys : List (String × Value F),
    sameFields xs ys = sameFields ys xs
  | [], ys => by cases ys <;> simp [sameFields]
  | (k, x) :: xs, ys => by
    cases ys <;> simp [sameFields, same_comm x, sameFields_comm xs, Bool.beq_comm]
end

mutual
theorem same_trans [OrderedFloat64 F] : ∀ a b c : Value F, a.same b = true → b.same c = true →
    a.same c = true
  | .number a, b, c => by
    cases b <;> cases c <;> simp [same]
    exact Number.same_trans
  | .array xs, b, c => by cases b <;> cases c <;> simp [same]; exact sameItems_trans xs _ _
  | .object xs, b, c => by cases b <;> cases c <;> simp [same]; exact sameFields_trans xs _ _
  | .null, b, c => by cases b <;> cases c <;> simp [same]
  | .bool a, b, c => by cases b <;> cases c <;> simp [same]; exact Eq.trans
  | .string a, b, c => by cases b <;> cases c <;> simp [same]; exact Eq.trans
theorem sameItems_trans [OrderedFloat64 F] : ∀ xs ys zs : List (Value F),
    sameItems xs ys = true → sameItems ys zs = true → sameItems xs zs = true
  | [], ys, zs => by cases ys <;> cases zs <;> simp [sameItems]
  | x :: xs, ys, zs => by
    cases ys <;> cases zs <;> simp [sameItems]
    exact fun h hs h' hs' => ⟨same_trans x _ _ h h', sameItems_trans xs _ _ hs hs'⟩
theorem sameFields_trans [OrderedFloat64 F] : ∀ xs ys zs : List (String × Value F),
    sameFields xs ys = true → sameFields ys zs = true → sameFields xs zs = true
  | [], ys, zs => by cases ys <;> cases zs <;> simp [sameFields]
  | (k, x) :: xs, ys, zs => by
    cases ys <;> cases zs <;> simp [sameFields]
    exact fun e h hs e' h' hs' => ⟨⟨e.trans e', same_trans x _ _ h h'⟩, sameFields_trans xs _ _ hs hs'⟩
end

end Value

end Rekuiper
