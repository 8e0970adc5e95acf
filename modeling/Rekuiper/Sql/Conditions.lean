import Rekuiper.Binary64
import Rekuiper.Sql.Laws

/-!
# Comparisons of integers in conditions

A condition that compares a column with a literal is decided on `f64`. The operators compare
integers exactly for equality, so the two answers differ for integers that `f64` does not tell
apart.
-/

namespace Rekuiper.Sql

open Lib

def isComparison : BinaryOperator → Bool
  | .eq | .neq | .lt | .lte | .gt | .gte => true
  | _ => false

/-- Different integers that are the same `f64`. -/
def Merged (m n : Int) : Prop := m ≠ n ∧ nearestF64 m = nearestF64 n

theorem merged_comm {m n : Int} : Merged m n ↔ Merged n m := and_congr ne_comm eq_comm

/-- The comparisons whose answer depends on telling the integers apart. -/
def MergesEqual (op : BinaryOperator) (m n : Int) : Prop := (op = .eq ∨ op = .neq) ∧ Merged m n

theorem mergesEqual_comm {op : BinaryOperator} {m n : Int} :
    MergesEqual op m n ↔ MergesEqual op n m := and_congr_right fun _ => merged_comm

section
variable {F : Type} [Float64 F] [BinaryFloat64 F] {m n : Int}

-- ---- The operators on integers

theorem nearestF64_lt_of_neg (hm : m < 0) (hn : maxI64 < n) : nearestF64 m < nearestF64 n := by
  have hzero : nearestF64 0 = 0 := roundTo_zero
  have hbig : nearestF64 (2 ^ 63) = 2 ^ 63 := nearestF64_two_pow (k := 63) (by norm_num)
  have hm' : (m : ℚ) ≤ 0 := by exact_mod_cast hm.le
  have hn' : (2 : ℚ) ^ 63 ≤ n := by
    unfold maxI64 at hn
    have : (2 : Int) ^ 63 ≤ n := by omega
    exact_mod_cast this
  calc nearestF64 m ≤ nearestF64 0 := nearestF64_mono hm'
    _ = 0 := hzero
    _ < 2 ^ 63 := by positivity
    _ = nearestF64 (2 ^ 63) := hbig.symm
    _ ≤ nearestF64 n := nearestF64_mono hn'

theorem eq_ofInt_of_neg (hm : InRange64 m) (hn : InRange64 n) (hneg : m < 0)
    (hbig : maxI64 < n) :
    Float64.eq (Float64.ofInt m : F) (Float64.ofInt n) = false ∧
      Float64.eq (Float64.ofInt n : F) (Float64.ofInt m) = false := by
  have hlt := nearestF64_lt_of_neg hneg hbig
  exact ⟨Bool.eq_false_iff.mpr ((eq_ofInt_iff hm hn).not.mpr hlt.ne),
    Bool.eq_false_iff.mpr ((eq_ofInt_iff hn hm).not.mpr hlt.ne')⟩

theorem valuesEqual_int (hm : InRange64 m) (hn : InRange64 n) :
    valuesEqual (.number (.int m) : Value F) (.number (.int n)) = decide (m = n) := by
  simp only [valuesEqual, Number.asI64, Number.asU64, Number.asF64]
  by_cases hmi : m ≤ maxI64
  · by_cases hni : n ≤ maxI64
    · simp [hmi, hni, beq_eq_decide]
    · by_cases hpos : 0 ≤ m
      · have : 0 ≤ n := by unfold maxI64 at hni; omega
        simp [hmi, hni, hpos, this, beq_eq_decide]
      · have heq := (eq_ofInt_of_neg (F := F) hm hn (not_le.mp hpos) (not_le.mp hni)).1
        have hne : m ≠ n := by omega
        simp [hmi, hni, hpos, heq, hne]
  · have hpos : 0 ≤ m := by unfold maxI64 at hmi; omega
    by_cases hneg : 0 ≤ n
    · simp [hmi, hpos, hneg, beq_eq_decide]
    · have heq := (eq_ofInt_of_neg (F := F) hn hm (not_le.mp hneg) (not_le.mp hmi)).2
      have hne : m ≠ n := by omega
      simp [hmi, hneg, heq, hne]

theorem compareFloat_ofInt (hm : InRange64 m) (hn : InRange64 n) :
    compareFloat (Float64.ofInt m : F) (Float64.ofInt n) =
      some (compare (nearestF64 m) (nearestF64 n)) := by
  unfold compareFloat
  rcases lt_trichotomy (nearestF64 m) (nearestF64 n) with hlt | heq | hgt
  · rw [if_pos ((lt_ofInt_iff hm hn).mpr hlt), compare_lt_iff_lt.mpr hlt]
  · rw [if_neg ((lt_ofInt_iff hm hn).not.mpr heq.not_lt), if_pos ((eq_ofInt_iff hm hn).mpr heq),
      compare_eq_iff_eq.mpr heq]
  · rw [if_neg ((lt_ofInt_iff hm hn).not.mpr hgt.not_gt),
      if_neg ((eq_ofInt_iff hm hn).not.mpr hgt.ne'), if_pos ((lt_ofInt_iff hn hm).mpr hgt),
      compare_gt_iff_gt.mpr hgt]

theorem comparison_int (accepts : Ordering → Bool) (op : BinaryOperator) (hm : InRange64 m)
    (hn : InRange64 n) :
    comparison accepts (.number (.int m) : Value F) op (.number (.int n)) =
      .ok (.bool (accepts (compare (nearestF64 m) (nearestF64 n)))) := by
  unfold comparison
  simp only [Number.asF64, compareFloat_ofInt hm hn, Option.any_some]

theorem equality_int (whenEqual : Bool) (op : BinaryOperator) (hm : InRange64 m)
    (hn : InRange64 n) :
    equality whenEqual (.number (.int m) : Value F) op (.number (.int n)) =
      .ok (.bool (decide (m = n) == whenEqual)) := by
  unfold equality
  simp only [valuesEqual_int hm hn]

-- ---- The two ways

omit [Float64 F] [BinaryFloat64 F] in
theorem answers_alike_iff (fast general : Bool) :
    (∃ answer, (.ok fast : Except Failure Bool) = .ok answer ∧
      (.ok (.bool general) : Except Failure (Value F)) = .ok (.bool answer)) ↔ fast = general := by
  constructor
  · rintro ⟨answer, hfast, hgeneral⟩
    cases hfast
    cases hgeneral
    rfl
  · rintro rfl
    exact ⟨fast, rfl, rfl⟩

/-- The comparison on `f64` and the operator answer alike, unless equality has to tell apart
integers that are the same `f64`. -/
theorem fastComparison_int_iff (env : Env F) {op : BinaryOperator} (hop : isComparison op = true)
    (hm : InRange64 m) (hn : InRange64 n) :
    (∃ answer, fastComparison env (.number (.int m)) op (.number (.int n)) = .ok answer ∧
        evalBinaryOp env.likeMatch (.number (.int m) : Value F) op (.number (.int n)) =
          .ok (.bool answer)) ↔ ¬MergesEqual op m n := by
  have hmerged : (nearestF64 m = nearestF64 n ↔ m = n) ↔ ¬Merged m n := by
    unfold Merged
    by_cases heq : m = n <;> simp [heq]
  unfold MergesEqual fastComparison evalBinaryOp
  simp only [Value.asF64, Number.asF64, Value.isNull, Bool.or_self, Bool.false_eq_true, if_false]
  cases op with
  | eq =>
    dsimp only
    rw [equality_int true .eq hm hn, answers_alike_iff, Bool.eq_iff_iff, close_ofInt_iff hm hn]
    simpa using hmerged
  | neq =>
    dsimp only
    rw [equality_int false .neq hm hn, answers_alike_iff, Bool.eq_iff_iff, apart_ofInt_iff hm hn]
    simpa [not_iff_not] using hmerged
  | lt =>
    dsimp only
    rw [comparison_int _ .lt hm hn, answers_alike_iff, Bool.eq_iff_iff, lt_ofInt_iff hm hn]
    simp [compare_lt_iff_lt]
  | lte =>
    dsimp only
    rw [comparison_int _ .lte hm hn, answers_alike_iff, Bool.eq_iff_iff, le_ofInt_iff hm hn]
    simp [compare_le_iff_le]
  | gt =>
    dsimp only
    rw [comparison_int _ .gt hm hn, answers_alike_iff, Bool.eq_iff_iff, lt_ofInt_iff hn hm]
    simp [compare_gt_iff_gt]
  | gte =>
    dsimp only
    rw [comparison_int _ .gte hm hn, answers_alike_iff, Bool.eq_iff_iff, le_ofInt_iff hn hm]
    simp [compare_ge_iff_ge]
  | _ => simp [isComparison] at hop

/-- For every record and every condition that compares an integer column with an integer literal,
deciding it on the row and evaluating it give the same answer, unless it is an equality between
different integers that are the same `f64`. -/
theorem integer_condition_iff (env : Env F) (row : Row F) (s : RuleState F) {name : String}
    {op : BinaryOperator} {value lit : Int} (hop : isComparison op = true)
    (hvalue : InRange64 value) (hlit : InRange64 lit)
    (hrow : row.lookup name = some (.number (.int value))) {e : Expr F}
    (he : e = .binaryOp (.identifier name) op (.literal (.number (.int lit))) ∨
      e = .binaryOp (.literal (.number (.int lit))) op (.identifier name)) :
    (∃ answer, (evalBoolStateful env row e).go s = (.ok answer, s) ∧
        (evalExpr env row e).go s = (.ok (.bool answer), s)) ↔ ¬MergesEqual op value lit := by
  have hcolumn : column row name = .number (.int value) := by rw [column, hrow]
  rcases he with rfl | rfl
  · have hfast : (evalBoolStateful env row
        (.binaryOp (.identifier name) op (.literal (.number (.int lit))))).go s =
          (fastComparison env (.number (.int value)) op (.number (.int lit)), s) := by
      rw [evalBoolStateful, fastPath, hrow]
      exact go_liftExcept _ s
    have hgeneral : (evalExpr env row
        (.binaryOp (.identifier name) op (.literal (.number (.int lit))))).go s =
          (evalBinaryOp env.likeMatch (.number (.int value)) op (.number (.int lit)), s) := by
      simp only [evalExpr, hcolumn, pure_bind]
      exact go_liftExcept _ s
    simp only [hfast, hgeneral, Prod.mk.injEq, and_true]
    exact fastComparison_int_iff env hop hvalue hlit
  · have hfast : (evalBoolStateful env row
        (.binaryOp (.literal (.number (.int lit))) op (.identifier name))).go s =
          (fastComparison env (.number (.int lit)) op (.number (.int value)), s) := by
      rw [evalBoolStateful, fastPath, hrow]
      exact go_liftExcept _ s
    have hgeneral : (evalExpr env row
        (.binaryOp (.literal (.number (.int lit))) op (.identifier name))).go s =
          (evalBinaryOp env.likeMatch (.number (.int lit)) op (.number (.int value)), s) := by
      simp only [evalExpr, hcolumn, pure_bind]
      exact go_liftExcept _ s
    simp only [hfast, hgeneral, Prod.mk.injEq, and_true]
    rw [mergesEqual_comm]
    exact fastComparison_int_iff env hop hlit hvalue

end

def doubleEnv : Env Double where
  now := 0
  toEkuiperString _ := ""
  debugText _ := ""
  jsonText _ := ""
  parseJson _ := none
  parseF64 _ := none
  parseRfc3339 _ := none
  parseNaiveDateTime _ _ := none
  parseNaiveDate _ _ := none
  likeMatch _ _ := false
  evalCall _ _ := .ok .null
  aggregate _ _ _ _ := .ok .null
  analytic _ := pure .null

def countRow (n : Int) : Row Double := AList.insert "count" (ofI64 n) ∅

/-- `WHERE count = lit` -/
def countEquals (lit : Int) : Expr Double :=
  .binaryOp (.identifier "count") .eq (.literal (.number (.int lit)))

theorem integer_condition_exact :
    (∃ answer,
      (evalBoolStateful doubleEnv (countRow (2 ^ 53 - 1)) (countEquals (2 ^ 53))).go RuleState.new =
          (.ok answer, RuleState.new) ∧
        (evalExpr doubleEnv (countRow (2 ^ 53 - 1)) (countEquals (2 ^ 53))).go RuleState.new =
          (.ok (.bool answer), RuleState.new)) ↔ ¬MergesEqual .eq (2 ^ 53 - 1) (2 ^ 53) :=
  integer_condition_iff doubleEnv (countRow (2 ^ 53 - 1)) RuleState.new rfl
    ⟨by decide, by decide⟩ ⟨by decide, by decide⟩ rfl (.inl rfl)

/-- The condition holds of the next integer after the literal, and its value is false. -/
theorem merged_count :
    ((evalBoolStateful doubleEnv (countRow (2 ^ 53 + 1)) (countEquals (2 ^ 53))).go
        RuleState.new).1 = .ok true ∧
      ((evalExpr doubleEnv (countRow (2 ^ 53 + 1)) (countEquals (2 ^ 53))).go
        RuleState.new).1 = .ok (.bool false) := by
  have hround : nearestF64 ((2 ^ 53 + 1 : Int) : ℚ) = nearestF64 ((2 ^ 53 : Int) : ℚ) := by
    decide +kernel
  have hclose := (close_ofInt_iff (F := Double) ⟨by decide, by decide⟩ ⟨by decide, by decide⟩).mpr
    hround
  have hfast : ((evalBoolStateful doubleEnv (countRow (2 ^ 53 + 1)) (countEquals (2 ^ 53))).go
      RuleState.new).1 = .ok (Float64.lt (Float64.abs (Float64.sub
        (Float64.ofInt (2 ^ 53 + 1) : Double) (Float64.ofInt (2 ^ 53)))) Float64.epsilon) := rfl
  exact ⟨hfast.trans (congrArg Except.ok hclose), rfl⟩

end Rekuiper.Sql
