import Mathlib.Data.Nat.Digits.Defs
import Rekuiper.Lib.Cells
import Rekuiper.Lib.Decimal
import Rekuiper.Pipeline.Record
import Rekuiper.Sql.Analytic
import Rekuiper.Sql.SlidingAccs

/-!
# Radix conversion

`conv`, `hex2dec` and `dec2hex`. Texts are written without a sign's range in mind and read as a
positive `i64` that is negated at the end; the sign of a hexadecimal text stands before its prefix,
where the reader does not look for one.
-/

namespace Rekuiper.Sql

open Lib

-- ---- Digits

def toDigit (base : Nat) (c : Char) : Option Nat :=
  let digit :=
    if '0' ≤ c ∧ c ≤ '9' then some (c.toNat - 48)
    else if 'a' ≤ c ∧ c ≤ 'z' then some (c.toNat - 87)
    else if 'A' ≤ c ∧ c ≤ 'Z' then some (c.toNat - 55)
    else none
  digit.filter fun d => d < base

def fromDigit (base d : Nat) : Option Char :=
  if d < base then some (if d < 10 then Char.ofNat (48 + d) else Char.ofNat (87 + d)) else none

def checkedMul (a b : Int) : Option Int :=
  if minI64 ≤ a * b ∧ a * b ≤ maxI64 then some (a * b) else none

def checkedNeg (a : Int) : Option Int :=
  if minI64 ≤ -a ∧ -a ≤ maxI64 then some (-a) else none

def parseDigit (base : Nat) (acc : Int) (c : Char) : Option Int := do
  let d ← toDigit base c
  let product ← checkedMul acc base
  checkedAdd product d

def parseRadixDigits (base : Nat) (digits : List Char) : Option Int :=
  if digits = [] then none else digits.foldlM (parseDigit base) 0

def signedDigits : List Char → Bool × List Char
  | '-' :: rest => (true, rest)
  | '+' :: rest => (false, rest)
  | text => (false, text)

def parseRadix (text : String) (base : Nat) : Option Int :=
  let (negative, digits) := signedDigits (trim text).toList
  (parseRadixDigits base digits).bind fun acc => if negative then checkedNeg acc else some acc

/-- `as u64` of an `i64` -/
def castU64 (n : Int) : Nat := (n % 2 ^ 64).toNat

/-- `wrapping_neg` of a `u64` -/
def wrappingNeg (n : Nat) : Nat := (2 ^ 64 - n) % 2 ^ 64

/-- `from_digit` or a question mark -/
def radixChar (base d : Nat) : Char := (fromDigit base d).getD '?'

/-- The characters of the remainders by the base, the last digit first -/
def radixChars (base n : Nat) : List Char := (Nat.digits base n).map (radixChar base)

def formatRadix (value : Int) (base : Nat) : String :=
  if value = 0 then "0"
  else
    let n := if value < 0 then wrappingNeg (castU64 value) else castU64 value
    let out := radixChars base n
    String.ofList (if value < 0 then out ++ ['-'] else out).reverse

/-- The value of the digits of `from_str_radix` -/
def digitsValue (radix : Nat) (digits : List Char) : Option Nat :=
  if digits = [] then none
  else digits.foldlM (fun acc c => (toDigit radix c).map fun d => acc * radix + d) 0

/-- `i64::from_str_radix` -/
def fromStrRadix (text : String) (radix : Nat) : Option Int :=
  let (negative, digits) := signedDigits text.toList
  let value := (digitsValue radix digits).map fun n : Nat => if negative then -(n : Int) else (n : Int)
  value.filter fun n => minI64 ≤ n && n ≤ maxI64

-- ---- Functions

section
variable {F : Type} [Float64 F] (env : Env F)

/-- The text of digits of the first argument of `conv` -/
def convDigits (value : Value F) : Option String :=
  match value with
  | .string s => some (trim s)
  | .number _ => (toI64Arg env value).map toString
  | _ => none

def funcConv (args : List (Value F)) : Value F :=
  match args with
  | [value, fromArg, toArg] =>
    if args.any Value.isNull then .null
    else
      match toI64Arg env fromArg, toI64Arg env toArg with
      | some fromBase, some toBase =>
        if ¬(2 ≤ fromBase ∧ fromBase ≤ 36) ∨ ¬(2 ≤ toBase ∧ toBase ≤ 36) then .null
        else
          match (convDigits env value).bind fun digits => parseRadix digits fromBase.toNat with
          | some n => .string (formatRadix n toBase.toNat)
          | none => .null
      | _, _ => .null
  | _ => .null

/-- A text without its prefix `0x` or `0X` -/
def hexDigits (text : String) : String :=
  match text.toList with
  | '0' :: 'x' :: digits => String.ofList digits
  | '0' :: 'X' :: digits => String.ofList digits
  | _ => text

omit [Float64 F] in
def funcHex2dec (args : List (Value F)) : Value F :=
  match args with
  | [.string s] => ((fromStrRadix (hexDigits (trim s)) 16).map ofI64).getD .null
  | _ => .null

/-- `{:x}` -/
def lowerHex (n : Nat) : String := String.ofList (Nat.toDigits 16 n)

def funcDec2hex (args : List (Value F)) : Value F :=
  match args with
  | [value] =>
    match toI64Arg env value with
    | some n =>
      let digits := lowerHex n.natAbs
      .string (if 0 ≤ n then s!"0x{digits}" else s!"-0x{digits}")
    | none => .null
  | _ => .null

structure RadixLossless (n : Int) (b c : Nat) : Prop where
  conv : ∃ t t', funcConv env [ofI64 n, ofI64 10, ofI64 b] = .string t ∧
    funcConv env [.string t, ofI64 b, ofI64 c] = .string t' ∧
      funcConv env [.string t', ofI64 c, ofI64 10] = .string (toString n)
  parse : parseRadix (formatRadix n b) b = some n
  hex : ∃ t, funcDec2hex env [ofI64 n] = .string t ∧ funcHex2dec [.string t] = (ofI64 n : Value F)

end

-- ---- Reading what was written

/-- A base that `conv` takes -/
def IsBase (base : Nat) : Prop := 2 ≤ base ∧ base ≤ 36

/-- The digits of a number in a base, as `format_radix` and `{:x}` write them. -/
def numeral (base n : Nat) : List Char := if n = 0 then ['0'] else (radixChars base n).reverse

def IsPlain (c : Char) : Prop := isWhitespace c = false ∧ c ≠ '-' ∧ c ≠ '+'

section
variable {base : Nat}

theorem radixChar_eq (hbase : IsBase base) {d : Nat} (hd : d < base) :
    radixChar base d = radixChar 36 d := by
  rw [radixChar, radixChar, fromDigit, fromDigit, if_pos hd, if_pos (hd.trans_le hbase.2)]

theorem toDigit_radixChar (hbase : IsBase base) {d : Nat} (hd : d < base) :
    toDigit base (radixChar base d) = some d := by
  have hall : ∀ d < 36, toDigit 36 (radixChar 36 d) = some d := by decide
  have h36 := hall d (hd.trans_le hbase.2)
  rw [radixChar_eq hbase hd]
  unfold toDigit at h36 ⊢
  obtain ⟨hsome, -⟩ := Option.filter_eq_some_iff.mp h36
  exact Option.filter_eq_some_iff.mpr ⟨hsome, decide_eq_true hd⟩

theorem radixChar_plain (hbase : IsBase base) {d : Nat} (hd : d < base) :
    IsPlain (radixChar base d) := by
  have hall : ∀ d < 36, isWhitespace (radixChar 36 d) = false ∧ radixChar 36 d ≠ '-' ∧
      radixChar 36 d ≠ '+' := by decide
  rw [radixChar_eq hbase hd]
  exact hall d (hd.trans_le hbase.2)

theorem numeral_digits (hbase : IsBase base) (n : Nat) :
    ∃ ds : List Nat, (∀ d ∈ ds, d < base) ∧ Nat.ofDigits base ds = n ∧
      numeral base n = (ds.map (radixChar base)).reverse := by
  by_cases h : n = 0
  · have hpos : 0 < base := lt_of_lt_of_le (by decide) hbase.1
    have hzero : radixChar base 0 = '0' := by
      rw [radixChar, fromDigit, if_pos hpos]
      rfl
    exact ⟨[0], by simpa using hpos, by simp [h], by simp [numeral, h, hzero]⟩
  · exact ⟨Nat.digits base n, fun d hd => Nat.digits_lt_base hbase.1 hd, Nat.ofDigits_digits _ _,
      by rw [numeral, if_neg h, radixChars]⟩

theorem numeral_plain (hbase : IsBase base) (n : Nat) : ∀ c ∈ numeral base n, IsPlain c := by
  obtain ⟨ds, hds, -, heq⟩ := numeral_digits hbase n
  rintro c hc
  rw [heq, List.mem_reverse] at hc
  obtain ⟨d, hd, rfl⟩ := List.mem_map.mp hc
  exact radixChar_plain hbase (hds d hd)

theorem numeral_ne_nil (base n : Nat) : numeral base n ≠ [] := by
  unfold numeral
  split
  · simp
  · next h => simpa [radixChars, Nat.digits_ne_nil_iff_ne_zero] using h

theorem parseDigit_radixChar (hbase : IsBase base) (acc : Nat) {d : Nat} (hd : d < base) :
    parseDigit base acc (radixChar base d) =
      if ((d + base * acc : Nat) : Int) ≤ maxI64 then some ((d + base * acc : Nat) : Int)
      else none := by
  have hpush : ((d + base * acc : Nat) : Int) = (acc : Int) * base + d := by push_cast; ring
  have hnonneg : 0 ≤ (acc : Int) * base := by positivity
  have hmin : minI64 ≤ 0 := by decide
  rw [parseDigit, toDigit_radixChar hbase hd, hpush]
  simp only [bind, Option.bind, checkedMul, checkedAdd]
  by_cases hmul : (acc : Int) * base ≤ maxI64
  · simp only [le_trans hmin hnonneg, hmul, and_self, if_true]
    refine if_congr (and_iff_right ?_) rfl rfl
    omega
  · rw [if_neg fun h => hmul h.2, if_neg (by omega)]

theorem foldlM_parseDigit (hbase : IsBase base) {ds : List Nat} (h : ∀ d ∈ ds, d < base) :
    (ds.map (radixChar base)).reverse.foldlM (parseDigit base) 0 =
      if ((Nat.ofDigits base ds : Nat) : Int) ≤ maxI64 then some ((Nat.ofDigits base ds : Nat) : Int)
      else none := by
  induction ds with
  | nil => rfl
  | cons d ds ih =>
    obtain ⟨hd, hds⟩ := List.forall_mem_cons.mp h
    have hvalue : Nat.ofDigits base (d :: ds) = d + base * Nat.ofDigits base ds := rfl
    rw [List.map_cons, List.reverse_cons, List.foldlM_append, ih hds, hvalue]
    by_cases hle : ((Nat.ofDigits base ds : Nat) : Int) ≤ maxI64
    · rw [if_pos hle, ← parseDigit_radixChar hbase _ hd]
      simp
    · have hgrows : Nat.ofDigits base ds ≤ d + base * Nat.ofDigits base ds := by
        have := Nat.mul_le_mul_right (Nat.ofDigits base ds) hbase.1
        omega
      rw [if_neg hle, if_neg fun h => hle (le_trans (Int.ofNat_le.mpr hgrows) h)]
      rfl

theorem parseRadixDigits_numeral (hbase : IsBase base) (n : Nat) :
    parseRadixDigits base (numeral base n) = if (n : Int) ≤ maxI64 then some (n : Int) else none := by
  obtain ⟨ds, hds, rfl, heq⟩ := numeral_digits hbase n
  rw [parseRadixDigits, if_neg (numeral_ne_nil _ _), heq, foldlM_parseDigit hbase hds]

theorem digitsValue_numeral (hbase : IsBase base) (n : Nat) :
    digitsValue base (numeral base n) = some n := by
  obtain ⟨ds, hds, rfl, heq⟩ := numeral_digits hbase n
  rw [digitsValue, if_neg (numeral_ne_nil _ _), heq]
  clear heq
  induction ds with
  | nil => rfl
  | cons d ds ih =>
    obtain ⟨hd, hds⟩ := List.forall_mem_cons.mp hds
    have hvalue : Nat.ofDigits base (d :: ds) = d + base * Nat.ofDigits base ds := rfl
    rw [List.map_cons, List.reverse_cons, List.foldlM_append, ih hds, hvalue]
    simp [toDigit_radixChar hbase hd, Nat.mul_comm, Nat.add_comm]

theorem trim_plain {cs : List Char} (h : ∀ c ∈ cs, isWhitespace c = false) :
    trim (String.ofList cs) = String.ofList cs := by
  have hstrip : strip isWhitespace cs = cs :=
    strip_eq_self (fun c hc => h c (List.mem_of_mem_head? hc))
      (fun c hc => h c (List.mem_of_mem_getLast? hc))
  rw [trim, String.toList_ofList]
  exact congrArg String.ofList hstrip

theorem formatRadix_eq (base : Nat) {n : Int} (hn : InI64 n) :
    formatRadix n base =
      String.ofList (if n < 0 then '-' :: numeral base n.natAbs else numeral base n.natAbs) := by
  have hmin : minI64 = -2 ^ 63 := rfl
  have hmax : maxI64 = 2 ^ 63 - 1 := rfl
  obtain ⟨hlow, hhigh⟩ := hn
  unfold formatRadix numeral
  by_cases hzero : n = 0
  · subst hzero
    rfl
  · have hnatAbs : n.natAbs ≠ 0 := Int.natAbs_ne_zero.mpr hzero
    by_cases hneg : n < 0
    · have hcast : wrappingNeg (castU64 n) = n.natAbs := by
        unfold wrappingNeg castU64
        omega
      simp [hzero, hneg, hcast, hnatAbs]
    · have hcast : castU64 n = n.natAbs := by
        unfold castU64
        omega
      simp [hzero, hneg, hcast, hnatAbs]

theorem signedDigits_plain {cs : List Char} (h : ∀ c ∈ cs, IsPlain c) :
    signedDigits cs = (false, cs) := by
  unfold signedDigits
  split
  · exact absurd rfl (h '-' List.mem_cons_self).2.1
  · exact absurd rfl (h '+' List.mem_cons_self).2.2
  · rfl

theorem parseRadix_formatRadix (hbase : IsBase base) {n : Int} (hn : InI64 n) :
    parseRadix (formatRadix n base) base = if n = minI64 then none else some n := by
  have hmin : minI64 = -2 ^ 63 := rfl
  have hmax : maxI64 = 2 ^ 63 - 1 := rfl
  obtain ⟨hlow, hhigh⟩ := hn
  have hplain := numeral_plain hbase n.natAbs
  rw [formatRadix_eq base ⟨hlow, hhigh⟩]
  by_cases hneg : n < 0
  · have htrim : trim (String.ofList ('-' :: numeral base n.natAbs)) =
        String.ofList ('-' :: numeral base n.natAbs) :=
      trim_plain (List.forall_mem_cons.mpr ⟨by decide, fun c hc => (hplain c hc).1⟩)
    have hsigned : signedDigits ('-' :: numeral base n.natAbs) = (true, numeral base n.natAbs) := rfl
    rw [if_pos hneg, parseRadix, htrim, String.toList_ofList, hsigned]
    simp only [parseRadixDigits_numeral hbase, if_true]
    by_cases hsmallest : n = minI64
    · rw [if_pos hsmallest, if_neg (by omega)]
      rfl
    · have hback : -(n.natAbs : Int) = n := by omega
      rw [if_neg hsmallest, if_pos (by omega), Option.bind_some, checkedNeg, hback,
        if_pos ⟨hlow, hhigh⟩]
  · have htrim : trim (String.ofList (numeral base n.natAbs)) =
        String.ofList (numeral base n.natAbs) := trim_plain fun c hc => (hplain c hc).1
    have hvalue : (n.natAbs : Int) = n := by omega
    have hread := parseRadixDigits_numeral hbase n.natAbs
    rw [hvalue, if_pos hhigh] at hread
    rw [if_neg hneg, if_neg (by omega), parseRadix, htrim, String.toList_ofList,
      signedDigits_plain hplain]
    simp only [hread]
    rfl

theorem numeral_toDigits (hbase : 1 < base) (hmost : base ≤ 16) (n : Nat) :
    numeral base n = Nat.toDigits base n := by
  have hchar : ∀ d < base, radixChar base d = Nat.digitChar d := by
    rintro d hd
    have hall : ∀ d < 16, radixChar 36 d = Nat.digitChar d := by decide
    rw [radixChar_eq ⟨hbase, hmost.trans (by decide)⟩ hd, hall d (hd.trans_le hmost)]
  induction n using Nat.strongRecOn with
  | ind n ih =>
    by_cases hlt : n < base
    · rw [Nat.toDigits_of_lt_base hlt, numeral]
      split
      · next h =>
        subst h
        rfl
      · next h => simp [radixChars, Nat.digits_of_lt base n h hlt, hchar n hlt]
    · have hpos : 0 < n := by omega
      have hrest : n / base ≠ 0 := (Nat.div_pos (not_lt.mp hlt) (by omega)).ne'
      have hread := ih (n / base) (Nat.div_lt_self hpos hbase)
      rw [numeral, if_neg hrest] at hread
      rw [Nat.toDigits_eq_if hbase, if_neg hlt, ← hread, numeral, if_neg hpos.ne', radixChars,
        Nat.digits_eq_cons_digits_div hbase hpos.ne', List.map_cons, List.reverse_cons,
        hchar _ (Nat.mod_lt _ (by omega)), radixChars]

theorem formatRadix_ten {n : Int} (hn : InI64 n) : formatRadix n 10 = toString n := by
  rw [formatRadix_eq 10 hn, ← String.toList_inj, toList_toString, String.toList_ofList,
    numeral_toDigits (by decide) (by decide)]
  by_cases hneg : n < 0
  · have hvalue : n.natAbs = (-n).toNat := by omega
    rw [if_pos hneg, if_neg (not_le.mpr hneg), hvalue]
  · have hvalue : n.natAbs = n.toNat := by omega
    rw [if_neg hneg, if_pos (not_lt.mp hneg), hvalue]

theorem trim_formatRadix (hbase : IsBase base) {n : Int} (hn : InI64 n) :
    trim (formatRadix n base) = formatRadix n base := by
  have hplain := numeral_plain hbase n.natAbs
  rw [formatRadix_eq base hn]
  split
  · exact trim_plain (List.forall_mem_cons.mpr ⟨by decide, fun c hc => (hplain c hc).1⟩)
  · exact trim_plain fun c hc => (hplain c hc).1

theorem fromStrRadix_numeral (hbase : IsBase base) {n : Nat} (hn : (n : Int) ≤ maxI64) :
    fromStrRadix (String.ofList (numeral base n)) base = some (n : Int) := by
  have hplain := numeral_plain hbase n
  have hmin : minI64 ≤ 0 := by decide
  have hnat : (0 : Int) ≤ n := Int.natCast_nonneg n
  rw [fromStrRadix, String.toList_ofList, signedDigits_plain hplain]
  simp [digitsValue_numeral hbase n, le_trans hmin hnat, hn]

-- ---- There and back

variable {F : Type} [Float64 F] (env : Env F)

theorem toI64Arg_ofI64 {n : Int} (h : n ≤ maxI64) : toI64Arg env (ofI64 n) = some n := if_pos h

theorem funcConv_eq {fromBase toBase : Nat} (hfrom : IsBase fromBase) (hto : IsBase toBase)
    {value : Value F} (hnull : value.isNull = false) :
    funcConv env [value, ofI64 fromBase, ofI64 toBase] =
      match (convDigits env value).bind fun digits => parseRadix digits fromBase with
      | some n => .string (formatRadix n toBase)
      | none => .null := by
  have hmost : (36 : Int) ≤ maxI64 := by decide
  have hread : ∀ base : Nat, IsBase base → toI64Arg env (ofI64 base) = some (base : Int) :=
    fun base h => toI64Arg_ofI64 env (by unfold IsBase at h; omega)
  unfold IsBase at hfrom hto
  have hrange : ¬(¬(2 ≤ (fromBase : Int) ∧ (fromBase : Int) ≤ 36) ∨
      ¬(2 ≤ (toBase : Int) ∧ (toBase : Int) ≤ 36)) := by omega
  have hnone : [value, ofI64 fromBase, ofI64 toBase].any Value.isNull = false := by
    rw [List.any_cons, hnull]
    rfl
  simp only [funcConv, hnone, Bool.false_eq_true, if_false, hread _ hfrom, hread _ hto, hrange,
    Int.toNat_natCast]

theorem funcConv_formatRadix {fromBase toBase : Nat} (hfrom : IsBase fromBase) (hto : IsBase toBase)
    {n : Int} (hn : InI64 n) (hsmallest : n ≠ minI64) :
    funcConv env [.string (formatRadix n fromBase), ofI64 fromBase, ofI64 toBase] =
      .string (formatRadix n toBase) := by
  rw [funcConv_eq env hfrom hto rfl, convDigits, Option.bind_some, trim_formatRadix hfrom hn,
    parseRadix_formatRadix hfrom hn, if_neg hsmallest]

theorem conv_lossless {b c : Nat} (hb : IsBase b) (hc : IsBase c) {n : Int} (hn : InI64 n)
    (hsmallest : n ≠ minI64) :
    ∃ t t', funcConv env [ofI64 n, ofI64 10, ofI64 b] = .string t ∧
      funcConv env [.string t, ofI64 b, ofI64 c] = .string t' ∧
        funcConv env [.string t', ofI64 c, ofI64 10] = .string (toString n) := by
  have hten : IsBase 10 := ⟨by decide, by decide⟩
  refine ⟨formatRadix n b, formatRadix n c, ?_, funcConv_formatRadix env hb hc hn hsmallest, ?_⟩
  · have hdigits : convDigits env (ofI64 n) = some (formatRadix n 10) := by
      rw [formatRadix_ten hn]
      exact congrArg (Option.map toString) (toI64Arg_ofI64 env hn.2)
    have hconv := @funcConv_eq F _ env _ _ hten hb (ofI64 n) rfl
    rwa [hdigits, Option.bind_some, parseRadix_formatRadix hten hn, if_neg hsmallest] at hconv
  · rw [← formatRadix_ten hn]
    exact funcConv_formatRadix env hc hten hn hsmallest

omit [Float64 F] in
theorem funcHex2dec_prefixed {n : Nat} (hn : (n : Int) ≤ maxI64) :
    funcHex2dec [.string (String.ofList ('0' :: 'x' :: numeral 16 n))] = (ofI64 n : Value F) := by
  have hbase : IsBase 16 := ⟨by decide, by decide⟩
  have htrim : trim (String.ofList ('0' :: 'x' :: numeral 16 n)) =
      String.ofList ('0' :: 'x' :: numeral 16 n) :=
    trim_plain (List.forall_mem_cons.mpr ⟨by decide, List.forall_mem_cons.mpr
      ⟨by decide, fun c hc => (numeral_plain hbase n c hc).1⟩⟩)
  rw [funcHex2dec, htrim, hexDigits, String.toList_ofList]
  simp only [fromStrRadix_numeral hbase hn]
  rfl

omit [Float64 F] in
theorem funcHex2dec_signed (n : Nat) :
    funcHex2dec [.string (String.ofList ('-' :: '0' :: 'x' :: numeral 16 n))] =
      (.null : Value F) := by
  have hbase : IsBase 16 := ⟨by decide, by decide⟩
  have htrim : trim (String.ofList ('-' :: '0' :: 'x' :: numeral 16 n)) =
      String.ofList ('-' :: '0' :: 'x' :: numeral 16 n) :=
    trim_plain (List.forall_mem_cons.mpr ⟨by decide, List.forall_mem_cons.mpr ⟨by decide,
      List.forall_mem_cons.mpr ⟨by decide, fun c hc => (numeral_plain hbase n c hc).1⟩⟩⟩)
  have hnone : digitsValue 16 ('0' :: 'x' :: numeral 16 n) = none := rfl
  have hdigits : hexDigits (String.ofList ('-' :: '0' :: 'x' :: numeral 16 n)) =
      String.ofList ('-' :: '0' :: 'x' :: numeral 16 n) := by
    rw [hexDigits, String.toList_ofList]
    rfl
  have hsigned : signedDigits ('-' :: '0' :: 'x' :: numeral 16 n) =
      (true, '0' :: 'x' :: numeral 16 n) := rfl
  rw [funcHex2dec, htrim, hdigits, fromStrRadix, String.toList_ofList, hsigned]
  simp only [hnone]
  rfl

theorem funcDec2hex_eq {n : Int} (hn : InI64 n) : funcDec2hex env [ofI64 n] =
    .string (String.ofList (if 0 ≤ n then '0' :: 'x' :: numeral 16 n.natAbs
      else '-' :: '0' :: 'x' :: numeral 16 n.natAbs)) := by
  have hdigits : (lowerHex n.natAbs).toList = numeral 16 n.natAbs := by
    rw [lowerHex, String.toList_ofList, numeral_toDigits (by decide) (by decide)]
  simp only [funcDec2hex, toI64Arg_ofI64 env hn.2, Value.string.injEq]
  rw [← String.toList_inj]
  split <;> simp [hdigits, toString]

/-- Everything there and back is lossless exactly for the numbers without a sign. -/
theorem radix_lossless_iff {n : Int} (hn : InI64 n) {b c : Nat} (hb : IsBase b) (hc : IsBase c) :
    RadixLossless env n b c ↔ 0 ≤ n := by
  have hmin : minI64 < 0 := by decide
  constructor
  · rintro ⟨-, -, t, ht, hread⟩
    by_contra hneg
    rw [funcDec2hex_eq env hn, if_neg hneg] at ht
    rw [← Value.string.inj ht, funcHex2dec_signed] at hread
    cases hread
  · rintro hnonneg
    have hsmallest : n ≠ minI64 := by omega
    refine ⟨conv_lossless env hb hc hn hsmallest, ?_, ?_⟩
    · rw [parseRadix_formatRadix hb hn, if_neg hsmallest]
    · have hvalue : (n.natAbs : Int) = n := by omega
      refine ⟨_, funcDec2hex_eq env hn, ?_⟩
      rw [if_pos hnonneg, funcHex2dec_prefixed (hvalue ▸ hn.2), hvalue]

end

theorem radix_of_255 : RadixLossless Pipeline.bareEnv 255 16 2 :=
  (radix_lossless_iff Pipeline.bareEnv ⟨by decide, by decide⟩ ⟨by decide, by decide⟩
    ⟨by decide, by decide⟩).mpr (by decide)

/-- The text of a negative number in hexadecimal is not read, nor is the smallest `i64` in any base. -/
theorem radix_of_negative :
    ¬RadixLossless Pipeline.bareEnv (-1) 16 2 ∧ parseRadix (formatRadix minI64 10) 10 = none := by
  constructor
  · rintro ⟨-, -, t, ht, hread⟩
    rw [funcDec2hex_eq _ ⟨by decide, by decide⟩, if_neg (by decide)] at ht
    rw [← Value.string.inj ht, funcHex2dec_signed] at hread
    cases hread
  · rw [parseRadix_formatRadix ⟨by decide, by decide⟩ ⟨by decide, by decide⟩, if_pos rfl]

end Rekuiper.Sql
