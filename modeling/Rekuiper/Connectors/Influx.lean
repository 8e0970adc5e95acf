import Mathlib.Tactic.Linarith
import Rekuiper.Binary64
import Rekuiper.Connectors.Delimited
import Rekuiper.Connectors.TemplateValues
import Rekuiper.Lib.Decimal
import Rekuiper.Lib.Outcome
import Rekuiper.Lib.StableSort

/-!
# Line protocol

A record as a line for InfluxDB: a measurement with tags, fields and a timestamp, which are parted
by commas, equals signs and spaces. Milliseconds are scaled to the precision of the sink without a
check, and integers are written as the shortest decimal of their `f64`.
-/

namespace Rekuiper.Connectors.Influx

open Lib DataTemplate

variable {F : Type}

structure InfluxEnv (F : Type) where
  /-- `apply_data_template_value` -/
  applyTemplate : String → Value F → String
  /-- `{}` of an `f64` -/
  display : F → String

/-- The arguments of `record_to_line_protocol` -/
structure Call (F : Type) where
  record : Row F
  measurementTemplate : String
  tagsSpec : Option (HashMap String String)
  fieldsFilter : Option (List String)
  tsFieldName : Option String
  precision : String

-- ---- Escapes

def escapeKeyChar : Char → List Char
  | '\n' => ['\\', 'n']
  | '\r' => ['\\', 'r']
  | '\t' => ['\\', 't']
  | c => if c = ' ' ∨ c = ',' ∨ c = '=' then ['\\', c] else [c]

def escapeKey (s : String) : List Char := s.toList.flatMap escapeKeyChar

def escapeStringChar : Char → List Char
  | '\n' => ['\\', 'n']
  | '\r' => ['\\', 'r']
  | '\t' => ['\\', 't']
  | c => if c = '"' ∨ c = '\\' then ['\\', c] else [c]

def escapeStringField (s : String) : List Char :=
  '"' :: (s.toList.flatMap escapeStringChar ++ ['"'])

-- ---- Parts of a line

/-- The text of a field: a string in quotes, or a number or boolean as it stands. -/
inductive FieldText
  | quoted (s : String)
  | plain (s : String)

def FieldText.chars : FieldText → List Char
  | .quoted s => escapeStringField s
  | .plain s => s.toList

def fieldText [Float64 F] (env : InfluxEnv F) : Value F → Option FieldText
  | .number n => if Float64.isFinite n.asF64 then some (.plain (env.display n.asF64)) else none
  | .string s => some (.quoted s)
  | .bool b => some (.plain (if b then "true" else "false"))
  | _ => none

def timestampOf [Float64 F] : Value F → Option Int
  | .number n => some (n.asI64.getD (Float64.toInt n.asF64))
  | .string s => parseI64 s
  | _ => none

/-- A product of `i64`. An overflow is a panic, unless the build lets it wrap. -/
def mulI64 (m n : Int) : Except Stop Int :=
  if InI64 (m * n) then .ok (m * n) else .error .panic

def scaleTs (precision : String) (rawTs : Int) : Except Stop Int :=
  match precision with
  | "s" => .ok (rawTs.tdiv 1000)
  | "us" => mulI64 rawTs 1000
  | "ns" => mulI64 rawTs 1000000
  | _ => .ok rawTs

namespace Call

def measurement (call : Call F) (env : InfluxEnv F) : String :=
  resolveText env.applyTemplate call.measurementTemplate call.record

def evaluatedTags (call : Call F) (env : InfluxEnv F) : List (String × String) :=
  match call.tagsSpec with
  | none => []
  | some tags =>
    sortByKey Prod.fst (tags.entries.filterMap fun tag =>
      let val := resolveText env.applyTemplate tag.2 call.record
      if trim val = "" then none else some (tag.1, val))

def isTagKey (call : Call F) (key : String) : Bool :=
  match call.tagsSpec with
  | none => false
  | some tags => key ∈ tags

def fieldKeys (call : Call F) : List String :=
  match call.fieldsFilter with
  | some filter => filter
  | none =>
    call.record.keys.filter fun k =>
      !startsWith k "__" && !call.isTagKey k && call.tsFieldName != some k

variable [Float64 F]

def lineFields (call : Call F) (env : InfluxEnv F) : List (String × FieldText) :=
  sortByKey Prod.fst (call.fieldKeys.filterMap fun k =>
    ((call.record.lookup k).bind (fieldText env)).map fun text => (k, text))

def rawTs (call : Call F) (nowMillis : Int) : Int :=
  match call.tsFieldName with
  | some field => ((call.record.lookup field).bind timestampOf).getD nowMillis
  | none => nowMillis

def finalTs (call : Call F) (nowMillis : Int) : Except Stop Int :=
  scaleTs call.precision (call.rawTs nowMillis)

end Call

-- ---- Lines

structure Line where
  measurement : String
  tags : List (String × String)
  fields : List (String × FieldText)
  timestamp : Int

def tagChars (tag : String × String) : List Char :=
  escapeKey tag.1 ++ '=' :: escapeKey tag.2

def fieldChars (field : String × FieldText) : List Char :=
  escapeKey field.1 ++ '=' :: field.2.chars

def fieldsChars : List (String × FieldText) → List Char
  | [] => []
  | field :: rest => fieldChars field ++ rest.flatMap fun field => ',' :: fieldChars field

def Line.chars (line : Line) : List Char :=
  escapeKey line.measurement ++ ((line.tags.flatMap fun tag => ',' :: tagChars tag) ++
    ' ' :: (fieldsChars line.fields ++ ' ' :: (toString line.timestamp).toList))

def Call.line [Float64 F] (call : Call F) (env : InfluxEnv F) (nowMillis : Int) :
    Except Stop (Option Line) := do
  if trim (call.measurement env) = "" then return none
  else if (call.lineFields env).isEmpty then return none
  else
    let timestamp ← call.finalTs nowMillis
    return some ⟨call.measurement env, call.evaluatedTags env, call.lineFields env, timestamp⟩

def recordToLineProtocol [Float64 F] (env : InfluxEnv F) (nowMillis : Int) (call : Call F) :
    Except Stop (Option String) := do
  let line ← call.line env nowMillis
  return line.map fun line => String.ofList line.chars

-- ---- Shortest decimals

def Coarser (m n : Int) : Prop := ∃ e : Nat, 10 ^ e ∣ m ∧ ¬10 ^ e ∣ n

/-- Of the integers of one `f64` the coarsest is printed, of these the nearest, and of two the one
away from zero. -/
def Preferred (f : ℚ) (m n : Int) : Prop :=
  Coarser m n ∨ ¬Coarser n m ∧ (|f - m| < |f - n| ∨ |f - m| = |f - n| ∧ |n| < |m|)

def ShortestDecimal (f : ℚ) (m : Int) : Prop :=
  nearestF64 m = f ∧ ∀ n : Int, nearestF64 n = f → n ≠ m → Preferred f m n

theorem Coarser.asymm {m n : Int} (h : Coarser m n) : ¬Coarser n m := by
  rintro ⟨e', hn', hm'⟩
  obtain ⟨e, hm, hn⟩ := h
  rcases le_total e e' with hle | hle
  · exact hn ((pow_dvd_pow 10 hle).trans hn')
  · exact hm' ((pow_dvd_pow 10 hle).trans hm)

theorem Preferred.asymm {f : ℚ} {m n : Int} (h : Preferred f m n) : ¬Preferred f n m := by
  rintro (hcoarser | ⟨hnot, hnear⟩)
  · rcases h with hcoarser' | ⟨hnot, -⟩
    · exact hcoarser.asymm hcoarser'
    · exact hnot hcoarser
  · rcases h with hcoarser' | ⟨-, hnear'⟩
    · exact hnot hcoarser'
    · rcases hnear with hlt | ⟨heq, habs⟩
      · rcases hnear' with hlt' | ⟨heq', -⟩
        · exact lt_asymm hlt hlt'
        · exact hlt.ne heq'.symm
      · rcases hnear' with hlt' | ⟨-, habs'⟩
        · exact hlt'.ne heq.symm
        · exact lt_asymm habs habs'

theorem ShortestDecimal.unique {f : ℚ} {m n : Int} (hm : ShortestDecimal f m)
    (hn : ShortestDecimal f n) : m = n := by
  by_contra hne
  exact (hm.2 n hn.1 (Ne.symm hne)).asymm (hn.2 m hm.1 hne)

theorem shortestDecimal_small {n : Int} (h : |n| < 2 ^ 53) : ShortestDecimal (nearestF64 n) n := by
  refine ⟨rfl, fun m hm hne => ?_⟩
  rw [nearestF64_intCast h.le] at hm ⊢
  have hlarge : ¬|m| ≤ 2 ^ 53 := by
    intro hsmall
    rw [nearestF64_intCast hsmall] at hm
    exact hne (by exact_mod_cast hm)
  have hpow : nearestF64 ((2 ^ 53 : Int) : ℚ) = (2 ^ 53 : Int) := nearestF64_intCast (by simp)
  have hneg : nearestF64 ((-2 ^ 53 : Int) : ℚ) = (-2 ^ 53 : Int) := nearestF64_intCast (by simp)
  obtain ⟨hlow, hhigh⟩ := abs_lt.mp h
  rcases le_total 0 m with hsign | hsign
  · rw [abs_of_nonneg hsign, not_le] at hlarge
    have hcast : ((2 ^ 53 : Int) : ℚ) ≤ m := by exact_mod_cast hlarge.le
    have hmono := nearestF64_mono hcast
    rw [hpow, hm] at hmono
    exact absurd (by exact_mod_cast hmono) (not_le.mpr hhigh)
  · rw [abs_of_nonpos hsign, not_le] at hlarge
    have hcast : (m : ℚ) ≤ (-2 ^ 53 : Int) := by exact_mod_cast (by linarith : m ≤ -2 ^ 53)
    have hmono := nearestF64_mono hcast
    rw [hneg, hm] at hmono
    exact absurd (by exact_mod_cast hmono) (not_le.mpr hlow)

-- ---- Timestamps

def converted (precision : String) (millis : Int) : Int :=
  match precision with
  | "s" => millis.tdiv 1000
  | "us" => millis * 1000
  | "ns" => millis * 1000000
  | _ => millis

section

variable {F : Type} [Float64 F] {env : InfluxEnv F} {call : Call F} {field : String}
  {nowMillis ts : Int}

theorem inI64_tdiv (h : InI64 ts) : InI64 (ts.tdiv 1000) := by
  obtain ⟨hlow, hhigh⟩ := h
  unfold minI64 at hlow
  unfold maxI64 at hhigh
  unfold InI64 minI64 maxI64
  obtain ⟨n, rfl | rfl⟩ := Int.eq_nat_or_neg ts
  · rw [Int.tdiv_eq_ediv_of_nonneg (Int.natCast_nonneg n)]
    omega
  · rw [Int.neg_tdiv, Int.tdiv_eq_ediv_of_nonneg (Int.natCast_nonneg n)]
    omega

theorem scaleTs_eq (precision : String) (h : InI64 ts) : scaleTs precision ts =
    if InI64 (converted precision ts) then .ok (converted precision ts) else .error .panic := by
  by_cases hs : precision = "s"
  · subst hs
    exact (if_pos (inI64_tdiv h)).symm
  by_cases hus : precision = "us"
  · subst hus
    rfl
  by_cases hns : precision = "ns"
  · subst hns
    rfl
  · have hscale : scaleTs precision ts = .ok ts := by simp [scaleTs]
    have hsame : converted precision ts = ts := by simp [converted]
    rw [hscale, hsame, if_pos h]

theorem rawTs_eq (hfield : call.tsFieldName = some field)
    (hts : call.record.lookup field = some (.number (.int ts))) (hi64 : InI64 ts) :
    call.rawTs nowMillis = ts := by
  simp [Call.rawTs, hfield, hts, timestampOf, Number.asI64, hi64.2]

def Call.Writes (call : Call F) (env : InfluxEnv F) : Prop :=
  trim (call.measurement env) ≠ "" ∧ call.lineFields env ≠ []

theorem line_eq_none (h : ¬call.Writes env) : call.line env nowMillis = .ok none := by
  unfold Call.line
  by_cases hmeasurement : trim (call.measurement env) = ""
  · exact if_pos hmeasurement
  · have hfields : (call.lineFields env).isEmpty = true := by
      by_contra hfields
      exact h ⟨hmeasurement, by simpa using hfields⟩
    exact (if_neg hmeasurement).trans (if_pos hfields)

theorem line_of_writes (h : call.Writes env) :
    call.line env nowMillis = (call.finalTs nowMillis).map fun timestamp =>
      some ⟨call.measurement env, call.evaluatedTags env, call.lineFields env, timestamp⟩ := by
  unfold Call.line
  refine ((if_neg h.1).trans (if_neg (by simpa using h.2))).trans ?_
  cases call.finalTs nowMillis <;> rfl

theorem recordToLineProtocol_ok_iff :
    (∃ result, recordToLineProtocol env nowMillis call = .ok result) ↔
      ∃ line, call.line env nowMillis = .ok line := by
  unfold recordToLineProtocol
  constructor
  · rintro ⟨result, hresult⟩
    obtain ⟨line, hline, -⟩ := bind_eq_ok hresult
    exact ⟨line, hline⟩
  · rintro ⟨line, hline⟩
    rw [hline]
    exact ⟨_, rfl⟩

-- ---- Integers

/-- The text of an integer is the shortest decimal of its `f64`. -/
def Displays (env : InfluxEnv F) (n : Int) : Prop :=
  ∃ m, ShortestDecimal (nearestF64 n) m ∧ env.display (Float64.ofInt n) = toString m

theorem text_denotes_iff {n : Int} (h : Displays env n) :
    parseInt (env.display (Float64.ofInt n)) = some n ↔ ShortestDecimal (nearestF64 n) n := by
  obtain ⟨m, hm, htext⟩ := h
  rw [htext, parseInt_toString, Option.some.injEq]
  constructor
  · rintro rfl
    exact hm
  · exact fun hn => hm.unique hn

theorem mem_lineFields {k : String} {text : FieldText} : (k, text) ∈ call.lineFields env ↔
    k ∈ call.fieldKeys ∧ (call.record.lookup k).bind (fieldText env) = some text := by
  rw [Call.lineFields, mem_sortByKey, List.mem_filterMap]
  constructor
  · rintro ⟨k', hk, h⟩
    obtain ⟨text', htext, heq⟩ := Option.map_eq_some_iff.mp h
    obtain ⟨rfl, rfl⟩ := Prod.mk.inj heq
    exact ⟨hk, htext⟩
  · rintro ⟨hk, h⟩
    exact ⟨k, hk, Option.map_eq_some_iff.mpr ⟨text, h, rfl⟩⟩

theorem fieldText_int [BinaryFloat64 F] {n : Int} (hrange : InRange64 n) :
    fieldText env (.number (.int n)) = some (.plain (env.display (Float64.ofInt n))) :=
  if_pos (isFinite_ofInt hrange)

theorem mem_lineFields_int [BinaryFloat64 F] {k : String} {n : Int} (hk : k ∈ call.fieldKeys)
    (hn : call.record.lookup k = some (.number (.int n))) (hrange : InRange64 n) {text : String} :
    (k, .plain text) ∈ call.lineFields env ↔ text = env.display (Float64.ofInt n) := by
  rw [mem_lineFields, hn, and_iff_right hk, Option.bind_some, fieldText_int hrange,
    Option.some.injEq, FieldText.plain.injEq]
  exact eq_comm

/-- The numbers of a line are those of the record: its timestamp in milliseconds, which is `ts`, and
its integers. -/
structure Exact (env : InfluxEnv F) (call : Call F) (nowMillis ts : Int) : Prop where
  noOverflow : ∃ result, recordToLineProtocol env nowMillis call = .ok result
  timestamp : ∀ line, call.line env nowMillis = .ok (some line) →
    line.timestamp = converted call.precision ts
  integers : ∀ line, call.line env nowMillis = .ok (some line) → ∀ k ∈ call.fieldKeys, ∀ n : Int,
    call.record.lookup k = some (.number (.int n)) →
      ∃ text, (k, .plain text) ∈ line.fields ∧ parseInt text = some n

/-- The timestamp fits in `i64` in the precision of the sink, and every integer is the shortest
decimal of its `f64`. -/
structure Representable (call : Call F) (ts : Int) : Prop where
  timestamp : InI64 (converted call.precision ts)
  integers : ∀ k ∈ call.fieldKeys, ∀ n : Int, call.record.lookup k = some (.number (.int n)) →
    ShortestDecimal (nearestF64 n) n

/-- The numbers of the line are exact unless there is a line and they are not representable. -/
theorem numbers_exact_iff [BinaryFloat64 F] (env : InfluxEnv F) (nowMillis : Int) {call : Call F}
    {field : String} {ts : Int} (hfield : call.tsFieldName = some field)
    (hts : call.record.lookup field = some (.number (.int ts))) (hi64 : InI64 ts)
    (hintegers : ∀ k n, call.record.lookup k = some (.number (.int n)) →
      InRange64 n ∧ Displays env n) :
    Exact env call nowMillis ts ↔ (call.Writes env → Representable call ts) := by
  have hfinal : call.finalTs nowMillis = _ :=
    (congrArg _ (rawTs_eq hfield hts hi64)).trans (scaleTs_eq call.precision hi64)
  constructor
  · intro h hwrites
    obtain ⟨line, hline⟩ := recordToLineProtocol_ok_iff.mp h.noOverflow
    rw [line_of_writes hwrites, hfinal] at hline
    split at hline
    · next hfits =>
      refine ⟨hfits, fun k hk n hn => ?_⟩
      obtain ⟨hrange, hdisplays⟩ := hintegers k n hn
      have hsome : call.line env nowMillis = .ok (some _) :=
        (line_of_writes hwrites).trans (by rw [hfinal, if_pos hfits]; rfl)
      obtain ⟨text, htext, hparse⟩ := h.integers _ hsome k hk n hn
      rw [mem_lineFields_int hk hn hrange] at htext
      exact (text_denotes_iff hdisplays).mp (htext ▸ hparse)
    · cases hline
  · intro h
    by_cases hwrites : call.Writes env
    · obtain ⟨hfits, hshortest⟩ := h hwrites
      have hline := @line_of_writes _ _ env call nowMillis hwrites
      rw [hfinal, if_pos hfits] at hline
      refine ⟨recordToLineProtocol_ok_iff.mpr ⟨_, hline⟩, ?_, ?_⟩
      · intro line hsome
        obtain rfl := Option.some.inj (Except.ok.inj (hline.symm.trans hsome))
        rfl
      · intro line hsome k hk n hn
        obtain rfl := Option.some.inj (Except.ok.inj (hline.symm.trans hsome))
        obtain ⟨hrange, hdisplays⟩ := hintegers k n hn
        exact ⟨_, (mem_lineFields_int hk hn hrange).mpr rfl,
          (text_denotes_iff hdisplays).mpr (hshortest k hk n hn)⟩
    · have hnone := @line_eq_none _ _ env call nowMillis hwrites
      refine ⟨recordToLineProtocol_ok_iff.mpr ⟨_, hnone⟩, ?_, ?_⟩
      · intro line hsome
        cases hnone.symm.trans hsome
      · intro line hsome
        cases hnone.symm.trans hsome

end

def wholeEnv : InfluxEnv Double := ⟨fun text _ => text, fun f => toString f.value.num⟩

def pressureAt (precision : String) (ts v : Int) : Call Double where
  record := (AList.insert "v" (.number (.int v)) ∅).insert "ts" (.number (.int ts))
  measurementTemplate := "m"
  tagsSpec := none
  fieldsFilter := none
  tsFieldName := some "ts"
  precision := precision

theorem wholeEnv_displays {n : Int} (h : |n| < 2 ^ 53) : Displays wholeEnv n := by
  refine ⟨n, shortestDecimal_small h, ?_⟩
  change toString (nearestF64 n).num = toString n
  rw [nearestF64_intCast h.le, Rat.num_intCast]

theorem pressure_lookup (precision : String) (ts v : Int) :
    (pressureAt precision ts v).record.lookup "v" = some (.number (.int v)) :=
  (AList.lookup_insert_ne (by decide)).trans (AList.lookup_insert _)

theorem pressure_key (precision : String) (ts v : Int) :
    "v" ∈ (pressureAt precision ts v).fieldKeys := by
  have hmem : "v" ∈ (pressureAt precision ts v).record :=
    AList.lookup_isSome.mp (by simp [pressure_lookup])
  have hplain : startsWith "v" "__" = false := by decide
  refine List.mem_filter.mpr ⟨AList.mem_keys.mp hmem, ?_⟩
  simp [hplain, Call.isTagKey, pressureAt]

theorem pressure_exact : Exact wholeEnv (pressureAt "us" 1700000000000 21) 0 1700000000000 ↔
    ((pressureAt "us" 1700000000000 21).Writes wholeEnv →
      Representable (pressureAt "us" 1700000000000 21) 1700000000000) := by
  have hfield : (pressureAt "us" 1700000000000 21).tsFieldName = some "ts" := rfl
  refine numbers_exact_iff wholeEnv 0 hfield rfl (by decide) fun k n hn => ?_
  by_cases hts : k = "ts"
  · subst hts
    obtain rfl : 1700000000000 = n := by
      simpa using (AList.lookup_insert _).symm.trans hn
    exact ⟨⟨by decide, by decide⟩, wholeEnv_displays (by decide)⟩
  · by_cases hv : k = "v"
    · subst hv
      obtain rfl : 21 = n := by
        simpa using (pressure_lookup "us" 1700000000000 21).symm.trans hn
      exact ⟨⟨by decide, by decide⟩, wholeEnv_displays (by decide)⟩
    · rw [pressureAt, AList.lookup_insert_ne hts, AList.lookup_insert_ne hv] at hn
      cases hn

theorem pressure_writes (precision : String) (ts : Int) {v : Int} (hv : InRange64 v) :
    (pressureAt precision ts v).Writes wholeEnv := by
  have hmeasurement : (pressureAt precision ts v).measurement wholeEnv = "m" := by
    simp [Call.measurement, resolveText, wholeEnv, pressureAt]
  have hfield := (@mem_lineFields_int Double _ wholeEnv _ _ "v" v (pressure_key precision ts v)
    (pressure_lookup precision ts v) hv _).mpr rfl
  exact ⟨by rw [hmeasurement]; decide, List.ne_nil_of_mem hfield⟩

/-- The largest timestamp overflows in microseconds, and `2^53 + 1` is written as `2^53`. -/
theorem numbers_not_exact : ¬Exact wholeEnv (pressureAt "us" maxI64 1) 0 maxI64 ∧
    ¬Exact wholeEnv (pressureAt "ms" 0 (2 ^ 53 + 1)) 0 0 := by
  constructor
  · intro h
    obtain ⟨line, hline⟩ := recordToLineProtocol_ok_iff.mp h.noOverflow
    rw [line_of_writes (pressure_writes "us" maxI64 ⟨by decide, by decide⟩)] at hline
    cases hline
  · intro h
    have hv : InRange64 (2 ^ 53 + 1) := ⟨by decide, by decide⟩
    obtain ⟨text, htext, hparse⟩ := h.integers _ (line_of_writes (pressure_writes "ms" 0 hv)) "v"
      (pressure_key "ms" 0 _) _ (pressure_lookup "ms" 0 _)
    have htext := (mem_lineFields_int (pressure_key "ms" 0 _) (pressure_lookup "ms" 0 _) hv).mp htext
    have hround : (nearestF64 ((2 ^ 53 + 1 : Int) : ℚ)).num = 2 ^ 53 := by decide +kernel
    have hdisplay : wholeEnv.display (Float64.ofInt (2 ^ 53 + 1)) = toString (2 ^ 53 : Int) :=
      congrArg toString hround
    rw [htext, hdisplay, parseInt_toString] at hparse
    exact absurd (Option.some.inj hparse) (by decide)

end Rekuiper.Connectors.Influx
