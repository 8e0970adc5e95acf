import Rekuiper.Lib.Scanner
import Rekuiper.Lib.Text
import Rekuiper.Sql.Panics
import Rekuiper.Sql.Radix

/-!
# Functions that panic

`substr`, `array_slice`, `element_at`, `mod`, `power`, `abs`, `sign`, `conv` and `format` with the
panics of their arithmetic, their slices and their indices. Most check what they compute with.
Three do not: the end of `substr` is the start plus the length, `mod` takes any remainder of `i64`,
and `format` asks for any precision.
-/

namespace Rekuiper.Sql

open Lib

variable {F : Type} [Float64 F]

-- ---- Operations that may panic

def subI64 (i j : Int) : Except Failure Int :=
  if minI64 ≤ i - j ∧ i - j ≤ maxI64 then .ok (i - j)
  else .error (.panic "attempt to subtract with overflow")

def subUsize (i j : Nat) : Except Failure Nat :=
  if j ≤ i then .ok (i - j) else .error (.panic "attempt to subtract with overflow")

def remI64 (i j : Int) : Except Failure Int :=
  if j = 0 then .error (.panic "attempt to calculate the remainder with a divisor of zero")
  else if i = minI64 ∧ j = -1 then
    .error (.panic "attempt to calculate the remainder with overflow")
  else .ok (i.tmod j)

/-- `chars[l as usize..h as usize]` -/
def charsBetween (chars : List Char) (l h : Int) : Except Failure (List Char) :=
  if 0 ≤ l ∧ l ≤ h ∧ h ≤ chars.length then .ok ((chars.take h.toNat).drop l.toNat)
  else .error (.panic "range out of bounds")

/-- `&s[i..]` -/
def sliceText (cs : List Char) (i : Nat) : Except Failure (List Char) :=
  match sliceFrom cs i with
  | some rest => .ok rest
  | none => .error (.panic "byte index is not a char boundary")

/-- `parts[0]` -/
def partAt (parts : List String) (i : Nat) : Except Failure String :=
  match parts[i]? with
  | some part => .ok part
  | none => .error (.panic "index out of bounds")

-- ---- Texts and arrays

def substrStart (start : Int) : Except Failure Int := if start ≤ 0 then .ok 0 else subI64 start 1

def substrLength (chars : List Char) (startIdx len : Int) : Except Failure (Value F) :=
  if len < 0 then .ok .null
  else if len = 0 then .ok (.string "")
  else do
    let sum ← addI64 startIdx len
    let between ← charsBetween chars startIdx (min sum chars.length)
    return .string (String.ofList between)

def substrFrom (env : Env F) (chars : List Char) (start : Int) (lenArg : Option (Value F)) :
    Except Failure (Value F) := do
  let n : Int := chars.length
  let startIdx ← substrStart start
  if n ≤ startIdx then return .string ""
  else
    match lenArg with
    | none =>
      let between ← charsBetween chars startIdx n
      return .string (String.ofList between)
    | some value =>
      match toI64Arg env value with
      | none => return .null
      | some len => substrLength chars startIdx len

def funcSubstr (env : Env F) (args : List (Value F)) : Except Failure (Value F) :=
  match args with
  | text :: startArg :: rest =>
    if 1 < rest.length ∨ args.any Value.isNull then .ok .null
    else
      match toI64Arg env startArg with
      | some start => substrFrom env (toStringAlways env text).toList start rest.head?
      | none => .ok .null
  | _ => .ok .null

def funcArraySlice (env : Env F) (args : List (Value F)) : Except Failure (Value F) :=
  match args with
  | [.array items, startArg, endArg] =>
    match toI64Arg env startArg, toI64Arg env endArg with
    | some start, some stop => do
      let length : Int := items.length
      let start := if start < 1 then 1 else start
      let stop := if length < stop then length else stop
      if stop < start ∨ length < start ∨ stop < 1 then return .array []
      else
        let first ← subI64 start 1
        let between ← itemsBetween items first stop
        return .array between
    | _, _ => .ok .null
  | _ => .ok .null

def funcElementAt (env : Env F) (args : List (Value F)) : Except Failure (Value F) :=
  match args with
  | [.object fields, .string key] => .ok ((field key fields).getD .null)
  | [.array items, indexArg] =>
    match toI64Arg env indexArg with
    | some index => do
      let pos ← offset items.length index
      if pos < 0 || items.length ≤ pos then return .null else itemAt items pos
    | none => .ok .null
  | _ => .ok .null

-- ---- Numbers

def toF64 (env : Env F) : Value F → Option F
  | .number n => some n.asF64
  | .string s => env.parseF64 (trim s)
  | _ => none

def cannotConvert (value : Value F) : Except Failure (Value F) :=
  let text := formatEkuiperValType value
  .error (.message s!"call func mod error: cannot convert {text} to float64")

def funcModFallible (env : Env F) (args : List (Value F)) : Except Failure (Value F) :=
  match args with
  | [left, right] =>
    if left.isNull || right.isNull then .ok .null
    else
      match toF64 env left, toF64 env right with
      | none, _ => cannotConvert left
      | _, none => cannotConvert right
      | some f, some g =>
        if Float64.eq g (Float64.ofInt 0) then
          .error (.message "call func mod error: divided by zero")
        else
          match left.asI64, right.asI64 with
          | some i, some j =>
            if j = 0 then .error (.message "call func mod error: divided by zero")
            else (remI64 i j).map ofI64
          | _, _ => .ok (ofFloat (Float64.rem f g))
  | _ => .ok .null

/-- `checked_pow`, of an exponent that is a `u32` -/
def checkedPow (base exp : Int) : Option Int :=
  if exp < 2 ^ 32 ∧ minI64 ≤ base ^ exp.toNat ∧ base ^ exp.toNat ≤ maxI64 then
    some (base ^ exp.toNat)
  else none

/-- `power`; `powf` is that of `f64`. -/
def funcPower (env : Env F) (powf : F → F → F) (args : List (Value F)) :
    Except Failure (Value F) :=
  match args with
  | [left, right] =>
    if left.isNull || right.isNull then .ok .null
    else
      let floats : Value F :=
        match toF64 env left, toF64 env right with
        | some x, some y => ofFloat (powf x y)
        | _, _ => .null
      match left.asI64, right.asI64 with
      | some base, some exp =>
        if 0 ≤ exp then .ok (((checkedPow base exp).map ofI64).getD .null) else .ok floats
      | _, _ => .ok floats
  | _ => .ok .null

def funcAbsFallible (args : List (Value F)) : Except Failure (Value F) :=
  match args with
  | [.null] => .ok .null
  | [.number (.int n)] =>
    if maxI64 < n then .ok (ofI64 n)
    else if n = minI64 then .ok (ofFloat (Float64.abs (Float64.ofInt n)))
    else .ok (ofI64 |n|)
  | [.number (.float f)] => .ok (ofFloat (Float64.abs f))
  | [_] => .error (.message "call func abs error: only float64 & int type are supported")
  | _ => .ok .null

def funcSign (env : Env F) (args : List (Value F)) : Except Failure (Value F) :=
  match args with
  | [.number (.int n)] => .ok (ofI64 n.sign)
  | [value] =>
    match toF64 env value with
    | some f =>
      if Float64.lt (Float64.ofInt 0) f then .ok (ofI64 1)
      else if Float64.lt f (Float64.ofInt 0) then .ok (ofI64 (-1))
      else .ok (ofI64 0)
    | none => .ok .null
  | _ => .ok .null

-- ---- Radix conversion and `format`

def toDigitPanics (radix : Nat) (c : Char) : Except Failure (Option Nat) :=
  if 2 ≤ radix ∧ radix ≤ 36 then .ok (toDigit radix c)
  else .error (.panic "to_digit: invalid radix -- radix must be in the range 2 to 36 inclusive")

def fromDigitPanics (d radix : Nat) : Except Failure (Option Char) :=
  if radix ≤ 36 then .ok (fromDigit radix d)
  else .error (.panic "from_digit: radix is too high (maximum 36)")

/-- The digits of `parse_radix`, which ends at the first that is none. -/
def parseDigitsPanics (base : Nat) (acc : Int) : List Char → Except Failure (Option Int)
  | [] => .ok (some acc)
  | c :: rest => do
    match ← toDigitPanics base c with
    | none => return none
    | some d =>
      match (checkedMul acc base).bind fun product => checkedAdd product d with
      | none => return none
      | some acc => parseDigitsPanics base acc rest

def parseRadixPanics (text : String) (base : Nat) : Except Failure (Option Int) :=
  let (negative, digits) := signedDigits (trim text).toList
  if digits = [] then .ok none
  else do
    let acc ← parseDigitsPanics base 0 digits
    return acc.bind fun acc => if negative then checkedNeg acc else some acc

def formatRadixPanics (value : Int) (base : Nat) : Except Failure String :=
  if value = 0 then .ok "0"
  else if base = 0 then
    .error (.panic "attempt to calculate the remainder with a divisor of zero")
  else do
    let n := if value < 0 then wrappingNeg (castU64 value) else castU64 value
    let out ← (Nat.digits base n).mapM fun d => do return (← fromDigitPanics d base).getD '?'
    return String.ofList (if value < 0 then out ++ ['-'] else out).reverse

def funcConvPanics (env : Env F) (args : List (Value F)) : Except Failure (Value F) :=
  match args with
  | [value, fromArg, toArg] =>
    if args.any Value.isNull then .ok .null
    else
      match toI64Arg env fromArg, toI64Arg env toArg with
      | some fromBase, some toBase =>
        if ¬(2 ≤ fromBase ∧ fromBase ≤ 36) ∨ ¬(2 ≤ toBase ∧ toBase ≤ 36) then .ok .null
        else
          match convDigits env value with
          | some digits => do
            match ← parseRadixPanics digits fromBase.toNat with
            | some n =>
              let text ← formatRadixPanics n toBase.toNat
              return .string text
            | none => return .null
          | none => .ok .null
      | _, _ => .ok .null
  | _ => .ok .null

/-- Whether a separator stands before the byte `i` of an integer part -/
def atGroup (length i : Nat) : Except Failure Bool :=
  if 0 < i then (subUsize length i).map fun left => left % 3 == 0 else .ok false

/-- The characters of an integer part with separators, where `i` of its `length` bytes come before. -/
def withSeparators (sep : Char) (length : Nat) : Nat → List Char → Except Failure (List Char)
  | _, [] => .ok []
  | i, c :: rest => do
    let group ← atGroup length i
    let tail ← withSeparators sep length (i + 1) rest
    return if group then sep :: c :: tail else c :: tail

def withoutSign (isNeg : Bool) (intPart : String) : Except Failure (List Char) :=
  if isNeg then sliceText intPart.toList 1 else .ok intPart.toList

/-- `format!("{:.prec$}", num, prec = decimals)`: a precision is a `u16`. -/
def formatPrecision (formatFixed : F → Nat → String) (num : F) (decimals : Nat) :
    Except Failure String :=
  if decimals ≤ 65535 then .ok (formatFixed num decimals)
  else .error (.panic "Formatting argument out of range")

/-- `format` with a locale -/
def formatLocale (formatFixed : F → Nat → String) (num : F) (decimals : Nat) (locale : String) :
    Except Failure (Value F) := do
  let isCommaDecimal := ["de", "fr", "it"].any fun tag => startsWith locale tag
  let (thousandSep, decimalSep) := if isCommaDecimal then ('.', ',') else (',', '.')
  let formattedBase ← formatPrecision formatFixed num decimals
  let parts := splitText '.' formattedBase
  let intPart ← partAt parts 0
  let isNeg := startsWith intPart "-"
  let rawInt ← withoutSign isNeg intPart
  let withCommas ← withSeparators thousandSep (byteLen rawInt) 0 rawInt
  let res := if isNeg then '-' :: withCommas else withCommas
  if 0 < decimals && decide (1 < parts.length) then
    let fraction ← partAt parts 1
    return .string (String.ofList (res ++ decimalSep :: fraction.toList))
  else return .string (String.ofList res)

def funcFormat (env : Env F) (formatFixed : F → Nat → String) (args : List (Value F)) :
    Except Failure (Value F) :=
  match args with
  | [] => .ok .null
  | value :: rest =>
    if 2 < rest.length then .ok .null
    else
      match toF64 env value with
      | none => .ok .null
      | some num =>
        let decimals := (max 0 ((rest[0]?.bind Value.asI64).getD 0)).toNat
        if rest.length ≤ 1 then (formatPrecision formatFixed num decimals).map Value.string
        else
          let locale := (rest[1]?.bind Value.asStr).getD "en_US"
          formatLocale formatFixed num decimals locale

/-- The functions, on the arguments of a call -/
def checkedFunctions (env : Env F) (powf : F → F → F) (formatFixed : F → Nat → String) :
    List (List (Value F) → Except Failure (Value F)) :=
  [funcSubstr env, funcArraySlice env, funcElementAt env, funcModFallible env, funcPower env powf,
    funcAbsFallible, funcSign env, funcConvPanics env, funcFormat env formatFixed]

/-- The start of a `substr` in its text plus the length is no `i64`. -/
def SubstrOverflows (env : Env F) (args : List (Value F)) : Prop :=
  ∃ text startArg lenArg start len, args = [text, startArg, lenArg] ∧
    args.any Value.isNull = false ∧ toI64Arg env startArg = some start ∧
      toI64Arg env lenArg = some len ∧
        max 0 (start - 1) < (toStringAlways env text).toList.length ∧
          maxI64 < max 0 (start - 1) + len

/-- The remainder of the smallest `i64` by `-1` -/
def ModOverflows (args : List (Value F)) : Prop :=
  ∃ left right, args = [left, right] ∧ left.asI64 = some minI64 ∧ right.asI64 = some (-1)

/-- A `format` of a number with more than 65535 decimals -/
def TooPrecise (env : Env F) (args : List (Value F)) : Prop :=
  args.length ≤ 3 ∧ (args[0]?.bind (toF64 env)).isSome ∧
    ∃ decimals, args[1]?.bind Value.asI64 = some decimals ∧ 65535 < decimals

-- ---- Texts and arrays do not panic otherwise

variable {env : Env F} {args : List (Value F)}

theorem toI64Arg_inI64 (hcast : ∀ f : F, InI64 (Float64.toInt f)) {v : Value F} (hv : InRange v)
    {i : Int} (h : toI64Arg env v = some i) : InI64 i := by
  have hfloat : ∀ f : F, (if Float64.isFinite f then some (Float64.toInt f) else none) = some i →
      InI64 i := by
    rintro f hf
    rw [Option.ite_none_right_eq_some] at hf
    exact Option.some.inj hf.2 ▸ hcast f
  cases v with
  | number n =>
    cases n with
    | int n =>
      rw [toI64Arg, Option.ite_none_right_eq_some, Option.some.injEq] at h
      exact ⟨h.2 ▸ hv n rfl, h.2 ▸ h.1⟩
    | float f => exact hfloat f h
  | string s =>
    rw [toI64Arg, Option.or_eq_some_iff] at h
    rcases h with h | ⟨-, h⟩
    · have hrange := (Option.filter_eq_some_iff.mp h).2
      simpa [InI64] using hrange
    · obtain ⟨f, -, hf⟩ := Option.bind_eq_some_iff.mp h
      exact hfloat f hf
  | bool b =>
    cases b with
    | true => exact Option.some.inj h ▸ ⟨by decide, by decide⟩
    | false => exact Option.some.inj h ▸ ⟨by decide, by decide⟩
  | _ => cases h

theorem charsBetween_ok {chars : List Char} {l h : Int} (hl : 0 ≤ l) (hlh : l ≤ h)
    (hh : h ≤ chars.length) :
    charsBetween chars l h = .ok ((chars.take h.toNat).drop l.toNat) := if_pos ⟨hl, hlh, hh⟩

omit [Float64 F] in
theorem substrLength_panics_iff {chars : List Char} {first len : Int} (hzero : 0 ≤ first)
    (hbound : first ≤ maxI64) (hlast : first < chars.length) :
    Panics (substrLength chars first len : Except Failure (Value F)) ↔ maxI64 < first + len := by
  have hmin : minI64 ≤ 0 := by decide
  unfold substrLength
  split
  · exact iff_of_false (panics_ok _) (by omega)
  · split
    · exact iff_of_false (panics_ok _) (by omega)
    · by_cases hover : maxI64 < first + len
      · rw [addI64, if_neg (by omega)]
        exact iff_of_true (panics_panic _) hover
      · refine iff_of_false ?_ hover
        have hbetween := charsBetween_ok hzero (le_min (by omega) hlast.le)
          (min_le_right (first + len) (chars.length : Int))
        rw [addI64, if_pos (by omega)]
        simp only [bind, Except.bind, hbetween]
        exact panics_ok _

theorem substrFrom_panics_iff (chars : List Char) {start : Int} (hstart : InI64 start)
    (lenArg : Option (Value F)) :
    Panics (substrFrom env chars start lenArg) ↔ ∃ value len, lenArg = some value ∧
      toI64Arg env value = some len ∧ max 0 (start - 1) < chars.length ∧
        maxI64 < max 0 (start - 1) + len := by
  have hmin : minI64 ≤ 0 := by decide
  have hfirst : substrStart start = .ok (max 0 (start - 1)) := by
    unfold InI64 at hstart
    unfold substrStart
    split
    · rw [max_eq_left (by omega)]
    · rw [subI64, if_pos (by omega), max_eq_right (by omega)]
  have hzero : 0 ≤ max 0 (start - 1) := le_max_left _ _
  have hbound : max 0 (start - 1) ≤ maxI64 := by
    unfold InI64 at hstart
    have : (0 : Int) ≤ maxI64 := by decide
    omega
  unfold substrFrom
  rw [hfirst]
  generalize max 0 (start - 1) = first at *
  simp only [bind, Except.bind]
  split
  · next hlast =>
    refine iff_of_false (panics_ok _) ?_
    rintro ⟨_, _, -, -, hlt, -⟩
    exact absurd hlt (not_lt.mpr hlast)
  · next hlast =>
    rw [not_le] at hlast
    cases lenArg with
    | none =>
      refine iff_of_false ?_ nofun
      simp only [charsBetween_ok hzero hlast.le le_rfl]
      exact panics_ok _
    | some value =>
      simp only
      cases hlen : toI64Arg env value with
      | none =>
        refine iff_of_false (panics_ok _) ?_
        rintro ⟨_, len, ⟨⟩, hsome, -⟩
        rw [hlen] at hsome
        cases hsome
      | some len =>
        simp only
        rw [substrLength_panics_iff hzero hbound hlast]
        constructor
        · rintro hover
          exact ⟨value, len, rfl, hlen, hlast, hover⟩
        · rintro ⟨_, k, ⟨⟩, hk, -, hover⟩
          obtain rfl : len = k := Option.some.inj (hlen.symm.trans hk)
          exact hover

theorem funcSubstr_panics_iff (hcast : ∀ f : F, InI64 (Float64.toInt f))
    (hrange : ∀ v ∈ args, InRange v) : Panics (funcSubstr env args) ↔ SubstrOverflows env args := by
  unfold funcSubstr
  split
  · next text startArg rest =>
    split
    · next hnull =>
      refine iff_of_false (panics_ok _) ?_
      rintro ⟨_, _, _, _, _, heq, hnone, -⟩
      obtain ⟨rfl, rfl, rfl⟩ := by simpa using heq
      rcases hnull with hlength | hnull
      · simp at hlength
      · rw [hnone] at hnull
        cases hnull
    · next hnull =>
      obtain ⟨hlength, hnone⟩ := not_or.mp hnull
      rw [Bool.not_eq_true] at hnone
      split
      · next start hstart =>
        rw [substrFrom_panics_iff _ (toI64Arg_inI64 hcast (hrange startArg (by simp)) hstart)]
        constructor
        · rintro ⟨value, len, hvalue, hlen, hlast, hover⟩
          obtain rfl : rest = [value] := by
            cases rest with
            | nil => cases hvalue
            | cons first more =>
              have hmore : more = [] := List.eq_nil_of_length_eq_zero (by simpa using hlength)
              subst hmore
              exact congrArg (fun v => [v]) (Option.some.inj hvalue)
          exact ⟨text, startArg, value, start, len, rfl, hnone, hstart, hlen, hlast, hover⟩
        · rintro ⟨_, _, value, k, len, heq, -, hk, hlen, hlast, hover⟩
          obtain ⟨rfl, rfl, rfl⟩ := by simpa using heq
          obtain rfl : start = k := Option.some.inj (hstart.symm.trans hk)
          exact ⟨value, len, rfl, hlen, hlast, hover⟩
      · next hstart =>
        refine iff_of_false (panics_ok _) ?_
        rintro ⟨_, _, _, _, _, heq, -, hk, -⟩
        obtain ⟨rfl, rfl, rfl⟩ := by simpa using heq
        rw [hstart] at hk
        cases hk
  · next hshort =>
    refine iff_of_false (panics_ok _) ?_
    rintro ⟨_, _, _, _, _, rfl, -⟩
    exact hshort _ _ _ rfl

theorem funcArraySlice_safe (hcast : ∀ f : F, InI64 (Float64.toInt f))
    (hrange : ∀ v ∈ args, InRange v) : ¬Panics (funcArraySlice env args) := by
  unfold funcArraySlice
  split
  · next items startArg endArg =>
    split
    · next start stop hstart hstop =>
      have hin := toI64Arg_inI64 hcast (hrange startArg (by simp)) hstart
      unfold InI64 at hin
      have hmin : minI64 ≤ 0 := by decide
      have hmax : 1 ≤ maxI64 := by decide
      have hfirst : 1 ≤ (if start < 1 then 1 else start) ∧ (if start < 1 then 1 else start) ≤ maxI64 := by
        split <;> omega
      have hlast : (if (items.length : Int) < stop then (items.length : Int) else stop) ≤
          items.length := by
        split <;> omega
      simp only
      generalize (if start < 1 then 1 else start) = first at *
      generalize (if (items.length : Int) < stop then (items.length : Int) else stop) = last at *
      by_cases hcut : last < first ∨ (items.length : Int) < first ∨ last < 1
      · rw [if_pos hcut]
        exact panics_ok _
      · rw [if_neg hcut, subI64, if_pos (by omega)]
        simp only [bind, Except.bind]
        rw [itemsBetween, if_pos (by omega)]
        exact panics_ok _
    · exact panics_ok _
  · exact panics_ok _

theorem funcElementAt_safe (hcast : ∀ f : F, InI64 (Float64.toInt f))
    (hrange : ∀ v ∈ args, InRange v)
    (hlength : ∀ v ∈ args, ∀ items, v = .array items → (items.length : Int) ≤ maxI64) :
    ¬Panics (funcElementAt env args) := by
  unfold funcElementAt
  split
  · exact panics_ok _
  · next items indexArg =>
    split
    · next index hindex =>
      have hin := toI64Arg_inI64 hcast (hrange indexArg (by simp)) hindex
      rw [offset_ok (by omega) (hlength _ (by simp) items rfl) hin.1]
      simp only [bind, Except.bind]
      generalize (if 0 ≤ index then index else (items.length : Int) + index) = pos
      split
      · exact panics_ok _
      · next hcut =>
        simp only [Bool.or_eq_true, decide_eq_true_eq, not_or, not_lt, not_le] at hcut
        rw [itemAt, dif_pos hcut]
        exact panics_ok _
    · exact panics_ok _
  · exact panics_ok _

-- ---- Numbers

theorem remI64_panics_iff {i j : Int} (hj : j ≠ 0) :
    Panics (remI64 i j) ↔ i = minI64 ∧ j = -1 := by
  rw [remI64, if_neg hj]
  split
  · next h => exact iff_of_true (panics_panic _) h
  · next h => exact iff_of_false (panics_ok _) h

omit [Float64 F] in
theorem value_of_asI64 {v : Value F} {i : Int} (h : v.asI64 = some i) : v = .number (.int i) := by
  cases v with
  | number n => rw [eq_of_asI64 h]
  | _ => cases h

theorem funcModFallible_panics_iff
    (hminus : Float64.eq (Float64.ofInt (-1) : F) (Float64.ofInt 0) = false) :
    Panics (funcModFallible env args) ↔ ModOverflows args := by
  unfold funcModFallible
  split
  · next left right =>
    have hiff : ModOverflows [left, right] ↔ left.asI64 = some minI64 ∧ right.asI64 = some (-1) := by
      constructor
      · rintro ⟨_, _, heq, h⟩
        obtain ⟨rfl, rfl⟩ := by simpa using heq
        exact h
      · rintro h
        exact ⟨_, _, rfl, h⟩
    rw [hiff]
    split
    · next hnull =>
      refine iff_of_false (panics_ok _) ?_
      rintro ⟨hleft, hright⟩
      rw [value_of_asI64 hleft, value_of_asI64 hright] at hnull
      cases hnull
    · split
      · next hnone =>
        refine iff_of_false (panics_message _) ?_
        rintro ⟨hleft, -⟩
        rw [value_of_asI64 hleft] at hnone
        cases hnone
      · next hnone _ =>
        refine iff_of_false (panics_message _) ?_
        rintro ⟨-, hright⟩
        rw [value_of_asI64 hright] at hnone
        cases hnone
      · next f g _ hg =>
        split
        · next hzero =>
          refine iff_of_false (panics_message _) ?_
          rintro ⟨-, hright⟩
          rw [value_of_asI64 hright] at hg
          rw [← Option.some.inj hg, Number.asF64, hminus] at hzero
          cases hzero
        · split
          · next i j hleft hright =>
            rw [hleft, hright, Option.some.injEq, Option.some.injEq]
            split
            · next hj =>
              refine iff_of_false (panics_message _) ?_
              rintro ⟨-, rfl⟩
              cases hj
            · next hj =>
              rw [← remI64_panics_iff hj]
              cases remI64 i j with
              | error failure =>
                constructor
                · rintro ⟨text, heq⟩
                  exact ⟨text, congrArg _ (Except.error.inj heq)⟩
                · rintro ⟨text, heq⟩
                  exact ⟨text, congrArg _ (Except.error.inj heq)⟩
              | ok n => exact iff_of_false (panics_ok _) (panics_ok _)
          · next hints =>
            refine iff_of_false (panics_ok _) ?_
            rintro ⟨hleft, hright⟩
            exact hints _ _ hleft hright
  · next hshape =>
    refine iff_of_false (panics_ok _) ?_
    rintro ⟨_, _, rfl, -⟩
    exact hshape _ _ rfl

theorem funcPower_safe (powf : F → F → F) : ¬Panics (funcPower env powf args) := by
  unfold funcPower
  split
  · split
    · exact panics_ok _
    · simp only
      split
      · split <;> exact panics_ok _
      · exact panics_ok _
  · exact panics_ok _

theorem funcAbsFallible_safe : ¬Panics (funcAbsFallible args) := by
  unfold funcAbsFallible
  split
  · exact panics_ok _
  · split
    · exact panics_ok _
    · split <;> exact panics_ok _
  · exact panics_ok _
  · exact panics_message _
  · exact panics_ok _

theorem funcSign_safe : ¬Panics (funcSign env args) := by
  unfold funcSign
  split
  · exact panics_ok _
  · split
    · split
      · exact panics_ok _
      · split <;> exact panics_ok _
    · exact panics_ok _
  · exact panics_ok _

-- ---- Radix conversion and `format`

section
variable {base : Nat}

theorem parseDigitsPanics_ok (hbase : IsBase base) (acc : Int) (cs : List Char) :
    parseDigitsPanics base acc cs = .ok (cs.foldlM (parseDigit base) acc) := by
  induction cs generalizing acc with
  | nil => rfl
  | cons c cs ih =>
    have hdigit : toDigitPanics base c = .ok (toDigit base c) := if_pos hbase
    rw [List.foldlM_cons, parseDigitsPanics, hdigit]
    simp only [bind, Except.bind, parseDigit]
    cases toDigit base c with
    | none => rfl
    | some d =>
      simp only [Option.bind]
      cases checkedMul acc base with
      | none => rfl
      | some product =>
        simp only
        cases checkedAdd product d with
        | none => rfl
        | some acc => exact ih acc

theorem parseRadixPanics_ok (hbase : IsBase base) (text : String) :
    parseRadixPanics text base = .ok (parseRadix text base) := by
  unfold parseRadixPanics parseRadix
  obtain ⟨negative, digits⟩ := signedDigits (trim text).toList
  simp only [parseRadixDigits]
  by_cases hnone : digits = []
  · rw [if_pos hnone, if_pos hnone]
    rfl
  · rw [if_neg hnone, if_neg hnone, parseDigitsPanics_ok hbase]
    rfl

theorem formatRadixPanics_ok (hbase : IsBase base) (value : Int) :
    formatRadixPanics value base = .ok (formatRadix value base) := by
  unfold formatRadixPanics formatRadix
  split
  · rfl
  · have hne : base ≠ 0 := by
      rintro rfl
      exact absurd hbase.1 (by decide)
    have hchar : ∀ ds : List Nat, ds.mapM (fun d => do return (← fromDigitPanics d base).getD '?') =
        (.ok (ds.map (radixChar base)) : Except Failure (List Char)) := by
      intro ds
      refine mapM_ok fun d _ => ?_
      rw [fromDigitPanics, if_pos hbase.2]
      rfl
    rw [if_neg hne]
    simp only [hchar]
    rfl

theorem funcConvPanics_ok (args : List (Value F)) :
    funcConvPanics env args = .ok (funcConv env args) := by
  match args with
  | [] => rfl
  | [_] => rfl
  | [_, _] => rfl
  | _ :: _ :: _ :: _ :: _ => rfl
  | [value, fromArg, toArg] =>
    unfold funcConvPanics funcConv
    by_cases hnull : [value, fromArg, toArg].any Value.isNull = true
    · simp only [if_pos hnull]
    · simp only [if_neg hnull]
      cases toI64Arg env fromArg with
      | none => rfl
      | some fromBase =>
        cases toI64Arg env toArg with
        | none => rfl
        | some toBase =>
          simp only
          split
          · rfl
          · next hbases =>
            have hfrom : IsBase fromBase.toNat := by
              unfold IsBase
              omega
            have hto : IsBase toBase.toNat := by
              unfold IsBase
              omega
            cases convDigits env value with
            | none => rfl
            | some digits =>
              simp only [parseRadixPanics_ok hfrom, bind, Except.bind, Option.bind_some]
              cases parseRadix digits fromBase.toNat with
              | none => rfl
              | some n =>
                simp only [formatRadixPanics_ok hto]
                rfl

end

theorem atGroup_ok {length i : Nat} (h : i ≤ length) : ∃ group, atGroup length i = .ok group := by
  unfold atGroup
  split
  · rw [subUsize, if_pos h]
    exact ⟨_, rfl⟩
  · exact ⟨_, rfl⟩

theorem withSeparators_ok (sep : Char) {length i : Nat} {cs : List Char} (h : i + cs.length ≤ length) :
    ∃ out, withSeparators sep length i cs = .ok out := by
  induction cs generalizing i with
  | nil => exact ⟨_, rfl⟩
  | cons c cs ih =>
    rw [List.length_cons] at h
    obtain ⟨group, hgroup⟩ := @atGroup_ok length i (by omega)
    obtain ⟨tail, htail⟩ := @ih (i + 1) (by omega)
    rw [withSeparators, hgroup]
    simp only [bind, Except.bind, htail]
    exact ⟨_, rfl⟩

theorem withoutSign_ok (text : String) :
    ∃ cs, withoutSign (startsWith text "-") text = .ok cs := by
  unfold withoutSign
  split
  · next h =>
    cases hcs : text.toList with
    | nil =>
      rw [startsWith, hcs] at h
      cases h
    | cons c cs =>
      have hminus : c = '-' := by
        have hstart := List.isPrefixOf_iff_prefix.mp h
        rw [hcs] at hstart
        exact ((List.cons_prefix_cons.mp hstart).1).symm
      subst hminus
      have hrest : sliceFrom ('-' :: cs) 1 = some cs := sliceFrom_eq_some_iff.mpr ⟨['-'], rfl, rfl⟩
      refine ⟨cs, ?_⟩
      rw [sliceText, hrest]
  · exact ⟨_, rfl⟩

omit [Float64 F] in
theorem formatPrecision_panics_iff (formatFixed : F → Nat → String) (num : F) (decimals : Nat) :
    Panics ((formatPrecision formatFixed num decimals).map (Value.string (F := F))) ↔
      65535 < decimals := by
  unfold formatPrecision
  split
  · exact iff_of_false (panics_ok _) (by omega)
  · exact iff_of_true ⟨_, rfl⟩ (by omega)

omit [Float64 F] in
theorem formatLocale_panics_iff (formatFixed : F → Nat → String) (num : F) (decimals : Nat)
    (locale : String) :
    Panics (formatLocale formatFixed num decimals locale) ↔ 65535 < decimals := by
  unfold formatLocale formatPrecision
  split
  · refine iff_of_false ?_ (by omega)
    simp only [bind, Except.bind]
    obtain ⟨first, rest, hparts⟩ := List.exists_cons_of_ne_nil
      (fun h => List.splitOn_ne_nil '.' (formatFixed num decimals).toList (List.map_eq_nil_iff.mp h))
    have hfirst : partAt (splitText '.' (formatFixed num decimals)) 0 = .ok first := by
      rw [splitText, hparts]
      rfl
    obtain ⟨rawInt, hraw⟩ := withoutSign_ok first
    have hcommas : ∀ sep, ∃ out, withSeparators sep (byteLen rawInt) 0 rawInt = .ok out :=
      fun sep => withSeparators_ok sep (by simpa using length_le_byteLen rawInt)
    simp only [hfirst, hraw]
    obtain ⟨withCommas, hout⟩ := hcommas
      (if (["de", "fr", "it"].any fun tag => startsWith locale tag) = true then ('.', ',')
        else (',', '.')).1
    rw [hout]
    simp only
    split
    · next hmore =>
      have hparts : 1 < (splitText '.' (formatFixed num decimals)).length := by
        simpa using (Bool.and_eq_true_iff.mp hmore).2
      have hsecond : partAt (splitText '.' (formatFixed num decimals)) 1 =
          .ok (splitText '.' (formatFixed num decimals))[1] := by
        rw [partAt, List.getElem?_eq_getElem hparts]
      rw [hsecond]
      exact panics_ok _
    · exact panics_ok _
  · exact iff_of_true ⟨_, rfl⟩ (by omega)

theorem funcFormat_panics_iff (formatFixed : F → Nat → String) :
    Panics (funcFormat env formatFixed args) ↔ TooPrecise env args := by
  cases args with
  | nil => simp [funcFormat, TooPrecise]
  | cons value rest =>
    rw [funcFormat]
    split
    · exact iff_of_false (panics_ok _) fun h => absurd h.1 (by simp; omega)
    · cases hnum : toF64 env value with
      | none => exact iff_of_false (panics_ok _) (by simp [TooPrecise, hnum])
      | some num =>
        have hprecise : TooPrecise env (value :: rest) ↔
            65535 < (max 0 ((rest[0]?.bind Value.asI64).getD 0)).toNat := by
          have hlength : (value :: rest).length ≤ 3 := by simp; omega
          simp only [TooPrecise, hlength, List.getElem?_cons_zero, Option.bind_some, hnum,
            List.getElem?_cons_succ, Option.isSome_some, true_and]
          cases rest[0]?.bind Value.asI64 <;> simp
        rw [hprecise]
        simp only
        split
        · exact formatPrecision_panics_iff formatFixed num _
        · exact formatLocale_panics_iff formatFixed num _ _

/-- No function panics, exactly if the end of a `substr` is an `i64`, a `mod` does not divide the
smallest one by `-1` and a `format` has a precision of 16 bits. -/
theorem functions_no_panic_iff
    (hminus : Float64.eq (Float64.ofInt (-1) : F) (Float64.ofInt 0) = false)
    (hcast : ∀ f : F, InI64 (Float64.toInt f)) (env : Env F) (powf : F → F → F)
    (formatFixed : F → Nat → String) (args : List (Value F)) (hrange : ∀ v ∈ args, InRange v)
    (hlength : ∀ v ∈ args, ∀ items, v = .array items → (items.length : Int) ≤ maxI64) :
    (∀ function ∈ checkedFunctions env powf formatFixed, ¬Panics (function args)) ↔
      ¬SubstrOverflows env args ∧ ¬ModOverflows args ∧ ¬TooPrecise env args := by
  have hconv : ¬Panics (funcConvPanics env args) := by
    rw [funcConvPanics_ok]
    exact panics_ok _
  have hmod : Panics (funcModFallible env args) ↔ ModOverflows args := funcModFallible_panics_iff hminus
  rw [← funcSubstr_panics_iff hcast hrange, ← hmod, ← funcFormat_panics_iff formatFixed]
  simp [checkedFunctions, funcArraySlice_safe hcast hrange, funcElementAt_safe hcast hrange hlength,
    funcPower_safe, funcAbsFallible_safe, funcSign_safe, hconv]

theorem no_panic_of_three :
    (¬SubstrOverflows Pipeline.bareEnv [ofI64 7, ofI64 2, ofI64 3] ∧
      ¬ModOverflows [(ofI64 7 : Value ℚ), ofI64 2, ofI64 3] ∧
      ¬TooPrecise Pipeline.bareEnv [ofI64 7, ofI64 2, ofI64 3]) ∧
    ∀ function ∈ checkedFunctions Pipeline.bareEnv (fun x _ => x) (fun _ _ => ""),
      ¬Panics (function [ofI64 7, ofI64 2, ofI64 3]) := by
  have hrange : ∀ v ∈ ([ofI64 7, ofI64 2, ofI64 3] : List (Value ℚ)), InRange v := by
    rintro v hv n rfl
    have hn : n = 7 ∨ n = 2 ∨ n = 3 := by simpa [ofI64] using hv
    rcases hn with rfl | rfl | rfl <;> decide
  have hfits : ¬SubstrOverflows Pipeline.bareEnv [ofI64 7, ofI64 2, ofI64 3] ∧
      ¬ModOverflows [(ofI64 7 : Value ℚ), ofI64 2, ofI64 3] ∧
      ¬TooPrecise Pipeline.bareEnv [ofI64 7, ofI64 2, ofI64 3] := by
    refine ⟨?_, ?_, ?_⟩
    · rintro ⟨_, _, _, start, len, heq, -, hstart, hlen, -, hover⟩
      obtain ⟨rfl, rfl, rfl⟩ := by simpa using heq
      cases hstart
      cases hlen
      exact absurd hover (by decide)
    · rintro ⟨_, _, heq, -⟩
      cases heq
    · rintro ⟨-, -, decimals, hdecimals, hover⟩
      cases hdecimals
      exact absurd hover (by decide)
  refine ⟨hfits,
    (functions_no_panic_iff (by decide) (fun f => ⟨le_max_left _ _, ?_⟩) _ _ _ _ hrange ?_).mpr hfits⟩
  · exact max_le (by decide) (min_le_left _ _)
  · simp [ofI64]

/-- `substr("abc", 2, 9223372036854775807)` and `mod(-9223372036854775808, -1)` -/
theorem substr_and_mod_panic :
    Panics (funcSubstr Pipeline.bareEnv [.string "abc", ofI64 2, ofI64 maxI64]) ∧
      Panics (funcModFallible Pipeline.bareEnv [ofI64 minI64, ofI64 (-1)]) :=
  ⟨⟨_, rfl⟩, ⟨_, rfl⟩⟩

end Rekuiper.Sql
