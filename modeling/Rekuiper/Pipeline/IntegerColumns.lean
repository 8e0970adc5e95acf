import Rekuiper.Lib.Cells
import Rekuiper.Lib.Decimal
import Rekuiper.Pipeline.Record

/-!
# Columns of integers

An integer in a record is a JSON number or the text of one. A column of type `bigint` takes it
exactly as long as it fits an `i64`: larger numbers wrap around, and the texts of such numbers are
read as floats, which end at the bounds of `i64`. The items of an array are coerced by the type that
the column names for them. A type that begins with `array` and ends with `[]` names none, so what
such an array holds stays as it is.
-/

namespace Rekuiper.Pipeline

open Lib Sql

variable {F : Type}

-- ---- Types and values

/-- `bigint`, `array(…)` and `…[]` -/
inductive ColumnType where
  | bigint
  | array (item : ColumnType)
  | list (item : ColumnType)

namespace ColumnType

def chars : ColumnType → List Char
  | .bigint => "bigint".toList
  | .array item => "array(".toList ++ item.chars ++ [')']
  | .list item => item.chars ++ ['[', ']']

def text (ty : ColumnType) : String := String.ofList ty.chars

example : (list (array bigint)).text = "array(bigint)[]" := rfl

/-- Its text begins with `array`. -/
def named : ColumnType → Bool
  | .bigint => false
  | .array _ => true
  | .list item => item.named

/-- The program finds the type of the items, down to `bigint`. -/
def coerced : ColumnType → Bool
  | .bigint => true
  | .array item => item.coerced
  | .list item => !item.named && item.coerced

end ColumnType

/-- A value that stands for an integer: a number in the range of `i64` or `u64`, or digits behind
an optional sign, with whitespace around them. -/
inductive Presents : Int → Value F → Prop
  | number {n : Int} (hlow : minI64 ≤ n) (hhigh : n < 2 ^ 64) : Presents n (.number (.int n))
  | text {n : Int} {front sign digits back : List Char}
      (hfront : ∀ c ∈ front, isWhitespace c = true) (hback : ∀ c ∈ back, isWhitespace c = true)
      (hne : digits ≠ []) (hdigits : ∀ c ∈ digits, c.isDigit)
      (hsign : (sign = [] ∨ sign = ['+']) ∧ n = readDigits 0 digits ∨
        sign = ['-'] ∧ n = -(readDigits 0 digits : Int)) :
      Presents n (.string (String.ofList (front ++ (sign ++ digits) ++ back)))

/-- A value has become the integer that it stood for, or null. -/
def Exact (v w : Value F) : Prop := ∀ n, Presents n v → w = ofI64 n ∨ w = .null

/-- What holds of the items of an array, down to its integers, before and after. -/
def Elementwise (R : Value F → Value F → Prop) : ColumnType → Value F → Value F → Prop
  | .bigint, v, w => R v w
  | .array item, v, w | .list item, v, w =>
    ∀ items, v = .array items → ∃ out, w = .array out ∧ List.Forall₂ (Elementwise R item) items out

def Each (P : Value F → Prop) : ColumnType → Value F → Prop
  | .bigint, v => P v
  | .array item, v | .list item, v =>
    ∀ items, v = .array items → ∀ x ∈ items, Each P item x

-- ---- Elements

theorem each_congr {P Q : Value F → Prop} (h : ∀ v, P v ↔ Q v) (ty : ColumnType) (v : Value F) :
    Each P ty v ↔ Each Q ty v := by
  obtain rfl : P = Q := funext fun v => propext (h v)
  rfl

theorem elementwise_self (R : Value F → Value F → Prop) (ty : ColumnType) (v : Value F) :
    Elementwise R ty v v ↔ Each (fun v => R v v) ty v := by
  induction ty generalizing v with
  | bigint => exact Iff.rfl
  | array item ih | list item ih =>
    refine forall_congr' fun items => forall_congr' fun hv => ?_
    subst hv
    simp only [Value.array.injEq, exists_eq_left', List.forall₂_same, ih]

theorem forall₂_map {α : Type} {R : α → α → Prop} {f : α → α} {xs : List α} :
    List.Forall₂ R xs (xs.map f) ↔ ∀ x ∈ xs, R x (f x) := by
  simp [List.forall₂_map_right_iff, List.forall₂_same]

-- ---- The texts of types

theorem startsWith_false {s start : String} {c d : Char} (hs : s.toList.head? = some c)
    (hstart : start.toList.head? = some d) (h : c ≠ d) : startsWith s start = false := by
  unfold startsWith
  cases hcs : s.toList with
  | nil => simp [hcs] at hs
  | cons x xs =>
    cases hds : start.toList with
    | nil => simp [hds] at hstart
    | cons y ys =>
      obtain rfl : x = c := by simpa [hcs] using hs
      obtain rfl : y = d := by simpa [hds] using hstart
      simp [List.isPrefixOf, Ne.symm h]

theorem not_contains_last {names : List String} {cs : List Char} {c : Char}
    (h : ∀ name ∈ names, name.toList.getLast? ≠ some c) :
    names.contains (String.ofList (cs ++ [c])) = false := by
  rw [Bool.eq_false_iff, ne_eq, List.contains_iff_mem]
  intro hmem
  exact h _ hmem (by simp)

theorem endsWith_iff {s : String} {t : List Char} :
    endsWith s (String.ofList t) = true ↔ t <:+ s.toList := by
  rw [endsWith, String.toList_ofList, List.isSuffixOf_iff_suffix]

namespace ColumnType

@[simp] theorem chars_array (item : ColumnType) :
    (array item).chars = "array(".toList ++ item.chars ++ [')'] := rfl

@[simp] theorem chars_list (item : ColumnType) :
    (list item).chars = item.chars ++ ['[', ']'] := rfl

theorem toList_text (ty : ColumnType) : ty.text.toList = ty.chars := String.toList_ofList

theorem head?_chars (ty : ColumnType) :
    ty.chars.head? = if ty.named then some 'a' else some 'b' := by
  induction ty with
  | bigint => rfl
  | array item => rfl
  | list item ih =>
    rw [chars_list, List.head?_append, ih, named]
    cases item.named <;> rfl

theorem chars_ne_nil (ty : ColumnType) : ty.chars ≠ [] := by
  intro h
  have := ty.head?_chars
  rw [h] at this
  split at this <;> cases this

theorem chars_of_named {ty : ColumnType} (h : ty.named = true) :
    ∃ rest, ty.chars = "array(".toList ++ rest := by
  induction ty with
  | bigint => cases h
  | array item => exact ⟨item.chars ++ [')'], List.append_assoc _ _ _⟩
  | list item ih =>
    obtain ⟨rest, hrest⟩ := ih h
    exact ⟨rest ++ ['[', ']'], by rw [chars_list, hrest, List.append_assoc]⟩

theorem mem_chars {ty : ColumnType} {c : Char} (h : c ∈ ty.chars) :
    c ∈ "bigint".toList ++ "array()[]".toList := by
  induction ty with
  | bigint => exact List.mem_append_left _ h
  | array item ih =>
    rcases List.mem_append.mp h with h | h
    · rcases List.mem_append.mp h with h | h
      · have : "array(".toList ⊆ "bigint".toList ++ "array()[]".toList := by decide
        exact this h
      · exact ih h
    · rw [List.mem_singleton.mp h]
      decide
  | list item ih =>
    rcases List.mem_append.mp h with h | h
    · exact ih h
    · have : ['[', ']'] ⊆ "bigint".toList ++ "array()[]".toList := by decide
      exact this h

theorem trim_text (ty : ColumnType) : trim ty.text = ty.text := by
  have hblank : ∀ c ∈ "bigint".toList ++ "array()[]".toList, isWhitespace c = false :=
    List.forall_iff_forall_mem.mp (by decide)
  have hstrip : strip isWhitespace ty.chars = ty.chars := by
    refine strip_eq_self (fun c hc => ?_) fun c hc => ?_
    · exact hblank c (mem_chars (List.mem_of_mem_head? hc))
    · exact hblank c (mem_chars (List.mem_of_mem_getLast? hc))
  calc trim ty.text = String.ofList (strip isWhitespace ty.text.toList) := rfl
    _ = ty.text := by rw [toList_text, hstrip, text]

theorem toAsciiLowercase_text (ty : ColumnType) : toAsciiLowercase ty.text = ty.text := by
  have hlower : ∀ c ∈ "bigint".toList ++ "array()[]".toList, c.toLower = c :=
    List.forall_iff_forall_mem.mp (by decide)
  rw [toAsciiLowercase, toList_text]
  exact congrArg String.ofList ((List.map_congr_left fun c hc => hlower c (mem_chars hc)).trans
    (List.map_id _))

theorem startsWith_array (ty : ColumnType) : startsWith ty.text "array" = ty.named := by
  cases hnamed : ty.named with
  | true =>
    obtain ⟨rest, hrest⟩ := chars_of_named hnamed
    rw [startsWith, toList_text, hrest, List.isPrefixOf_iff_prefix]
    exact ⟨'(' :: rest, rfl⟩
  | false =>
    have hhead := ty.head?_chars
    rw [hnamed, if_neg Bool.false_ne_true] at hhead
    exact startsWith_false (by rwa [toList_text]) (d := 'a') rfl (by decide)

theorem itemType_array (item : ColumnType) : itemType (array item).text = some item.text := by
  have hparen : startsWith (array item).text "array(" = true := by
    rw [startsWith, toList_text, List.isPrefixOf_iff_prefix]
    exact ⟨item.chars ++ [')'], (List.append_assoc _ _ _).symm⟩
  have hends : endsWith (array item).text ")" = true :=
    endsWith_iff (t := [')']).mpr ⟨"array(".toList ++ item.chars, by simp [text]⟩
  have hinner : ((array item).text.toList.drop 6).dropLast = item.chars := by
    rw [toList_text, chars_array, List.append_assoc]
    exact List.dropLast_concat
  have hne : item.text ≠ "" := by
    intro h
    have := congrArg String.toList h
    rw [toList_text] at this
    exact item.chars_ne_nil this
  simp only [itemType, startsWith_array, named, hparen, hends, hinner, if_true, Bool.and_self,
    Bool.true_or]
  rw [← text, trim_text, if_neg hne]

theorem itemType_list (item : ColumnType) :
    itemType (list item).text = if item.named then none else some item.text := by
  unfold itemType
  rw [startsWith_array, named]
  cases hnamed : item.named with
  | true =>
    obtain ⟨rest, hrest⟩ := chars_of_named hnamed
    have hends : endsWith (list item).text ")" = false := by
      rw [Bool.eq_false_iff, ne_eq, endsWith_iff (t := [')'])]
      rintro ⟨front, hfront⟩
      have := congrArg List.getLast? hfront
      simp [text] at this
    have hbracket : startsWith (list item).text "array[" = false := by
      rw [startsWith, toList_text, chars_list, hrest]
      rfl
    simp only [hends, hbracket, if_true, Bool.and_false, Bool.false_and, Bool.or_self,
      Bool.false_eq_true, if_false]
  | false =>
    have htake : (list item).text.toList.take ((list item).text.toList.length - 2) = item.chars := by
      rw [toList_text, chars_list, List.length_append]
      exact List.take_left
    rw [if_neg Bool.false_ne_true, htake, ← text, trim_text, if_neg Bool.false_ne_true]

end ColumnType

-- ---- Coercion

section
variable [Float64 F]

theorem coerceItems_map (env : Env F) (items : List (Value F)) (inner : String) :
    coerceItems env items inner = items.map fun item => coerceValueToType env item inner := by
  induction items with
  | nil => rw [coerceItems, List.map_nil]
  | cons item items ih => rw [coerceItems, List.map_cons, ih]

section
-- the texts that are compared stay as they are when the branches are tried
attribute [local irreducible] List.elem startsWith endsWith toAsciiLowercase trim

theorem coerce_integer (env : Env F) (v : Value F) {s : String}
    (h : ["bigint", "int", "integer", "smallint", "tinyint"].contains
      (toAsciiLowercase (trim s)) = true) :
    coerceValueToType env v s = coerceInteger env v := by
  cases v <;> exact if_pos h

theorem coerce_nested (env : Env F) (items : List (Value F)) {s ty : String}
    (hty : toAsciiLowercase (trim s) = ty)
    (hscalar : ∀ names ∈ [["bigint", "int", "integer", "smallint", "tinyint"],
      ["float", "double", "real"], ["string", "text", "varchar", "char"], ["boolean", "bool"],
      ["datetime", "timestamp", "date", "time"], ["bytea", "binary", "blob"]],
      ¬names.contains ty = true)
    (hdecimal : ¬(startsWith ty "decimal" || startsWith ty "numeric") = true)
    (hnested : (startsWith ty "array" || endsWith ty "[]") = true) :
    coerceValueToType env (.array items) s =
      match itemType ty with
      | some inner => .array (coerceItems env items inner)
      | none => .array items := by
  subst hty
  simp only [List.forall_mem_cons] at hscalar
  obtain ⟨hinteger, hfloat, hstring, hboolean, hdatetime, hbinary, -⟩ := hscalar
  refine (if_neg hinteger).trans ?_
  refine (if_neg hfloat).trans ?_
  refine (if_neg hstring).trans ?_
  refine (if_neg hboolean).trans ?_
  refine (if_neg hdatetime).trans ?_
  refine (if_neg hbinary).trans ?_
  refine (if_neg hdecimal).trans ?_
  exact if_pos hnested

end

theorem coerce_bigint (env : Env F) (v : Value F) :
    coerceValueToType env v ColumnType.bigint.text = coerceInteger env v := by
  refine coerce_integer env v ?_
  rw [ColumnType.trim_text, ColumnType.toAsciiLowercase_text]
  rfl

theorem coerce_array (env : Env F) {ty : ColumnType} (hty : ty ≠ .bigint) (items : List (Value F)) :
    coerceValueToType env (.array items) ty.text =
      match itemType ty.text with
      | some inner => .array (items.map fun item => coerceValueToType env item inner)
      | none => .array items := by
  have hscalar : ∀ names : List String,
      (∀ name ∈ names, name.toList.getLast? ≠ some ')' ∧ name.toList.getLast? ≠ some ']') →
        ¬names.contains ty.text = true := by
    intro names h
    rw [Bool.not_eq_true]
    cases ty with
    | bigint => exact absurd rfl hty
    | array item => exact not_contains_last fun name hname => (h name hname).1
    | list item =>
      have hchars : (ColumnType.list item).chars = (item.chars ++ ['[']) ++ [']'] := by
        simp
      rw [ColumnType.text, hchars]
      exact not_contains_last fun name hname => (h name hname).2
  have hother : ∀ start : String, (∃ d, start.toList.head? = some d ∧ 'a' ≠ d ∧ 'b' ≠ d) →
      startsWith ty.text start = false := by
    rintro start ⟨d, hd, ha, hb⟩
    have hhead := ty.head?_chars
    rw [← ColumnType.toList_text] at hhead
    split at hhead
    · exact startsWith_false hhead hd ha
    · exact startsWith_false hhead hd hb
  have hdecimal : ¬(startsWith ty.text "decimal" || startsWith ty.text "numeric") = true := by
    rw [hother "decimal" ⟨'d', rfl, by decide⟩, hother "numeric" ⟨'n', rfl, by decide⟩]
    simp
  have hnested : (startsWith ty.text "array" || endsWith ty.text "[]") = true := by
    cases ty with
    | bigint => exact absurd rfl hty
    | array item => rw [ColumnType.startsWith_array, ColumnType.named, Bool.true_or]
    | list item =>
      have : endsWith (ColumnType.list item).text "[]" = true :=
        (endsWith_iff (t := ['[', ']'])).mpr ⟨item.chars, by rw [ColumnType.toList_text]; rfl⟩
      rw [this, Bool.or_true]
  refine (coerce_nested env items ((congrArg toAsciiLowercase ty.trim_text).trans
    ty.toAsciiLowercase_text) ?_ hdecimal hnested).trans ?_
  · simp only [List.forall_mem_cons, List.not_mem_nil, false_imp_iff, implies_true, and_true]
    refine ⟨?_, ?_, ?_, ?_, ?_, ?_⟩ <;> exact hscalar _ (by decide)
  · simp only [coerceItems_map]

-- ---- Integers

omit [Float64 F] in
theorem Presents.parseInt {n : Int} {s : String} (h : Presents n (.string s : Value F)) :
    parseInt (trim s) = some n := by
  cases h with
  | @text front sign digits back hfront hback hne hdigits hsign =>
    have hsolid : ∀ c ∈ sign ++ digits, isWhitespace c = false := by
      have hsigns : ∀ c ∈ sign, c = '+' ∨ c = '-' := by
        rcases hsign with ⟨rfl | rfl, -⟩ | ⟨rfl, -⟩ <;> simp
      intro c hc
      rcases List.mem_append.mp hc with hc | hc
      · rcases hsigns c hc with rfl | rfl <;> decide
      · exact isWhitespace_of_isDigit (hdigits c hc)
    have htrim : trim (String.ofList (front ++ (sign ++ digits) ++ back)) =
        String.ofList (sign ++ digits) := by
      have hstrip : strip isWhitespace (sign ++ digits) = sign ++ digits :=
        strip_eq_self (fun c hc => hsolid c (List.mem_of_mem_head? hc))
          fun c hc => hsolid c (List.mem_of_mem_getLast? hc)
      calc trim (String.ofList (front ++ (sign ++ digits) ++ back))
          = String.ofList (strip isWhitespace (front ++ (sign ++ digits) ++ back)) := by
            rw [trim, String.toList_ofList, strip]
        _ = String.ofList (sign ++ digits) := by rw [strip_around hfront hback, hstrip]
    rw [htrim]
    rcases hsign with ⟨rfl | rfl, rfl⟩ | ⟨rfl, rfl⟩
    · exact (parseInt_digits hdigits _).mpr ⟨_, parseDigits_eq hne hdigits, rfl⟩
    · rw [Lib.parseInt, String.toList_ofList]
      simp [parseDigits_eq hne hdigits]
    · exact (parseInt_minus digits _).mpr ⟨_, parseDigits_eq hne hdigits, rfl⟩

theorem coerceInteger_exact {env : Env F}
    (hparse : ∀ s n, Lib.parseInt s = some n → (env.parseF64 s).isSome = true)
    (hcast : ∀ f : F, minI64 ≤ Float64.toInt f ∧ Float64.toInt f ≤ maxI64)
    {n : Int} {v : Value F} (h : Presents n v) :
    (coerceInteger env v = ofI64 n ∨ coerceInteger env v = .null) ↔ minI64 ≤ n ∧ n ≤ maxI64 := by
  have hresult : ∀ m : Int, (ofI64 m : Value F) = ofI64 n ∨ (ofI64 m : Value F) = .null ↔ m = n := by
    intro m
    simp [ofI64]
  cases hv : v with
  | number k =>
    subst hv
    cases h with
    | number hlow hhigh =>
      rw [coerceInteger, hresult, wrapI64]
      have : maxI64 = 2 ^ 63 - 1 := rfl
      split <;> omega
  | string s =>
    subst hv
    have hread := h.parseInt
    by_cases hrange : minI64 ≤ n ∧ n ≤ maxI64
    · have hint : parseI64 (trim s) = some n := by
        rw [parseI64, hread]
        simp [hrange]
      rw [coerceInteger, hint, hresult]
      exact iff_of_true rfl hrange
    · have hint : parseI64 (trim s) = none := by
        rw [parseI64, hread]
        simpa using hrange
      obtain ⟨f, hf⟩ := Option.isSome_iff_exists.mp (hparse _ _ hread)
      rw [coerceInteger, hint, hf, hresult]
      refine iff_of_false ?_ hrange
      rintro rfl
      exact hrange (hcast f)
  | null | bool _ | array _ | object _ =>
    subst hv
    nomatch h

omit [Float64 F] in
theorem exact_self (v : Value F) : Exact v v ↔ ∀ n, Presents n v → v.isNumber = true := by
  refine forall_congr' fun n => forall_congr' fun h => ?_
  cases h with
  | number hlow hhigh => exact iff_of_true (.inl rfl) rfl
  | text hfront hback hne hdigits hsign => simp [ofI64, Value.isNumber]

/-- Integers come out of a column of integers as they are, or as null, exactly if the ones that the
program coerces fit an `i64`, and the ones that it does not are numbers already. -/
theorem integer_columns (env : Env F)
    (hparse : ∀ s n, parseInt s = some n → (env.parseF64 s).isSome = true)
    (hcast : ∀ f : F, minI64 ≤ Float64.toInt f ∧ Float64.toInt f ≤ maxI64)
    (ty : ColumnType) (v : Value F) :
    Elementwise Exact ty v (coerceValueToType env v ty.text) ↔
      Each (fun leaf => ∀ n, Presents n leaf →
        if ty.coerced then minI64 ≤ n ∧ n ≤ maxI64 else leaf.isNumber = true) ty v := by
  induction ty generalizing v with
  | bigint =>
    rw [coerce_bigint]
    refine forall_congr' fun n => forall_congr' fun h => ?_
    rw [coerceInteger_exact hparse hcast h]
    rfl
  | array item ih =>
    refine forall_congr' fun items => forall_congr' fun hv => ?_
    rw [hv, coerce_array env (by simp), ColumnType.itemType_array]
    simp only [Value.array.injEq, exists_eq_left', forall₂_map, ih]
    rfl
  | list item ih =>
    refine forall_congr' fun items => forall_congr' fun hv => ?_
    rw [hv, coerce_array env (by simp), ColumnType.itemType_list]
    cases hnamed : item.named with
    | true =>
      -- the program finds no type for the items
      have hself : ∀ x : Value F, Each (fun v => Exact v v) item x ↔
          Each (fun leaf => ∀ n, Presents n leaf → leaf.isNumber = true) item x :=
        each_congr exact_self item
      simp [List.forall₂_same, elementwise_self, hself, ColumnType.coerced, hnamed]
    | false =>
      simp only [Bool.false_eq_true, if_false, Value.array.injEq, exists_eq_left', forall₂_map, ih,
        ColumnType.coerced, hnamed, Bool.not_false, Bool.true_and]

def integerEnv : Env ℚ := { bareEnv with parseF64 := fun s => (parseInt s).map fun n => (n : ℚ) }

theorem integer_columns_rows :
    Elementwise Exact (.list .bigint) (.array [.number (.int 5), .string " -12 "] : Value ℚ)
      (coerceValueToType integerEnv (.array [.number (.int 5), .string " -12 "])
        (ColumnType.list .bigint).text) := by
  refine (integer_columns integerEnv ?_ ?_ (.list .bigint) _).mpr ?_
  · intro s n h
    simp [integerEnv, h]
  · intro f
    exact ⟨le_max_left _ _, max_le (by decide) (min_le_left _ _)⟩
  · rintro items ⟨rfl⟩
    have hrange : ∀ n : Int, n = 5 ∨ n = -12 → minI64 ≤ n ∧ n ≤ maxI64 := by
      rintro n (rfl | rfl) <;> decide
    simp only [List.forall_mem_cons, List.not_mem_nil, false_imp_iff, implies_true, and_true]
    refine ⟨fun n h => hrange n (.inl ?_), fun n h => hrange n (.inr ?_)⟩
    · cases h
      rfl
    · have hread : parseInt (trim " -12 ") = some (-12) := by decide
      exact Option.some.inj (h.parseInt.symm.trans hread)

/-- A `u64` number above the range of `i64` comes out as another one. -/
theorem wrapped_integer :
    coerceValueToType integerEnv (.number (.int (2 ^ 63))) "bigint" = .number (.int (-2 ^ 63)) ∧
      ¬Exact (.number (.int (2 ^ 63)))
        (coerceValueToType integerEnv (.number (.int (2 ^ 63))) "bigint") := by
  have hwrapped : coerceValueToType integerEnv (.number (.int (2 ^ 63))) "bigint" =
      .number (.int (-2 ^ 63)) := rfl
  refine ⟨hwrapped, fun hexact => ?_⟩
  rcases hexact (2 ^ 63) (.number (by decide) (by decide)) with h | h
  · rw [hwrapped] at h
    simp [ofI64] at h
  · rw [hwrapped] at h
    cases h

end

end Rekuiper.Pipeline
