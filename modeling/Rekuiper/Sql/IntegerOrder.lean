import Rekuiper.Sql.Conditions

/-!
# The order of integers

`=` compares integers as integers, and `<`, `<=`, `>`, `>=` and `BETWEEN` compare them as
`f64`. Of different integers that are the same `f64` none of `<`, `=` and `>` is true.
-/

namespace Rekuiper.Sql

open Lib

section

variable {F : Type} [Float64 F]

def compareInts (likeMatch : String → String → Bool) (a : Int) (op : BinaryOperator) (b : Int) :
    Except Failure (Value F) :=
  evalBinaryOp likeMatch (.number (.int a)) op (.number (.int b))

/-- `v BETWEEN a AND b` -/
def betweenInts (v a b : Int) : Except Failure (Value F) :=
  evalBetween (.number (.int v)) (.number (.int a)) (.number (.int b)) false

structure Trichotomous (F : Type) [Float64 F] (likeMatch : String → String → Bool) (a b : Int) :
    Prop where
  lt : compareInts (F := F) likeMatch a .lt b = .ok (.bool (decide (a < b)))
  eq : compareInts (F := F) likeMatch a .eq b = .ok (.bool (decide (a = b)))
  gt : compareInts (F := F) likeMatch a .gt b = .ok (.bool (decide (b < a)))

/-- `a <= b` is what `a < b OR a = b` is. -/
def LteIsOr (F : Type) [Float64 F] (likeMatch : String → String → Bool) (a b : Int) : Prop :=
  compareInts (F := F) likeMatch a .lte b = do
    let less ← compareInts likeMatch a .lt b
    let equal ← compareInts likeMatch a .eq b
    evalBinaryOp likeMatch less .or equal

/-- `v BETWEEN a AND b` is what `v >= a AND v <= b` is. -/
def BetweenIsAnd (F : Type) [Float64 F] (likeMatch : String → String → Bool) (v a b : Int) : Prop :=
  betweenInts (F := F) v a b = do
    let above ← compareInts likeMatch v .gte a
    let below ← compareInts likeMatch v .lte b
    evalBinaryOp likeMatch above .and below

variable [BinaryFloat64 F] {m n : Int}

theorem compareInts_eq (likeMatch : String → String → Bool) (hm : InRange64 m) (hn : InRange64 n) :
    compareInts (F := F) likeMatch m .eq n = .ok (.bool (decide (m = n))) := by
  refine (equality_int true .eq hm hn).trans ?_
  cases decide (m = n) <;> rfl

theorem compareInts_order (likeMatch : String → String → Bool) (hm : InRange64 m)
    (hn : InRange64 n) :
    compareInts (F := F) likeMatch m .lt n =
        .ok (.bool (decide (nearestF64 m < nearestF64 n))) ∧
      compareInts (F := F) likeMatch m .lte n =
        .ok (.bool (decide (nearestF64 m ≤ nearestF64 n))) ∧
      compareInts (F := F) likeMatch m .gt n =
        .ok (.bool (decide (nearestF64 n < nearestF64 m))) ∧
      compareInts (F := F) likeMatch m .gte n =
        .ok (.bool (decide (nearestF64 n ≤ nearestF64 m))) := by
  refine ⟨(comparison_int _ .lt hm hn).trans ?_, (comparison_int _ .lte hm hn).trans ?_,
    (comparison_int _ .gt hm hn).trans ?_, (comparison_int _ .gte hm hn).trans ?_⟩
  · rw [beq_eq_decide, decide_eq_decide.mpr compare_lt_iff_lt]
  · rw [bne, beq_eq_decide, ← decide_not, decide_eq_decide.mpr compare_le_iff_le]
  · rw [beq_eq_decide, decide_eq_decide.mpr compare_gt_iff_gt]
  · rw [bne, beq_eq_decide, ← decide_not, decide_eq_decide.mpr compare_ge_iff_ge]

theorem nearestF64_lt_of_lt (hne : nearestF64 m ≠ nearestF64 n) :
    nearestF64 m < nearestF64 n ↔ m < n := by
  constructor
  · intro hlt
    by_contra hle
    have hcast : (n : ℚ) ≤ m := by exact_mod_cast not_lt.mp hle
    exact absurd (nearestF64_mono hcast) (not_le.mpr hlt)
  · intro hlt
    have hcast : (m : ℚ) ≤ n := by exact_mod_cast hlt.le
    exact lt_of_le_of_ne (nearestF64_mono hcast) hne

theorem trichotomous_iff (likeMatch : String → String → Bool) (hm : InRange64 m)
    (hn : InRange64 n) : Trichotomous F likeMatch m n ↔ ¬Merged m n := by
  obtain ⟨hlt, -, hgt, -⟩ := compareInts_order (F := F) likeMatch hm hn
  constructor
  · rintro ⟨hless, -, hgreater⟩ ⟨hne, hsame⟩
    rw [hlt, hsame, Except.ok.injEq, Value.bool.injEq, decide_eq_decide] at hless
    rw [hgt, hsame, Except.ok.injEq, Value.bool.injEq, decide_eq_decide] at hgreater
    have hnotLess : ¬m < n := fun h => lt_irrefl _ (hless.mpr h)
    have hnotGreater : ¬n < m := fun h => lt_irrefl _ (hgreater.mpr h)
    exact hne (le_antisymm (not_lt.mp hnotGreater) (not_lt.mp hnotLess))
  · intro hmerged
    refine ⟨hlt.trans ?_, compareInts_eq likeMatch hm hn, hgt.trans ?_⟩
    · by_cases heq : m = n
      · rw [heq, decide_eq_false (lt_irrefl _), decide_eq_false (lt_irrefl _)]
      · have hne : nearestF64 m ≠ nearestF64 n := fun h => hmerged ⟨heq, h⟩
        rw [decide_eq_decide.mpr (nearestF64_lt_of_lt hne)]
    · by_cases heq : m = n
      · rw [heq, decide_eq_false (lt_irrefl _), decide_eq_false (lt_irrefl _)]
      · have hne : nearestF64 n ≠ nearestF64 m := fun h => hmerged ⟨heq, h.symm⟩
        rw [decide_eq_decide.mpr (nearestF64_lt_of_lt hne)]

theorem lteIsOr_iff (likeMatch : String → String → Bool) (hm : InRange64 m) (hn : InRange64 n) :
    LteIsOr F likeMatch m n ↔ ¬Merged m n := by
  obtain ⟨hlt, hlte, -, -⟩ := compareInts_order (F := F) likeMatch hm hn
  unfold LteIsOr
  rw [hlt, hlte, compareInts_eq likeMatch hm hn]
  change Except.ok (Value.bool _) = Except.ok (Value.bool (_ || _)) ↔ _
  rw [Except.ok.injEq, Value.bool.injEq, ← Bool.decide_or, decide_eq_decide, le_iff_lt_or_eq]
  constructor
  · rintro h ⟨hne, hsame⟩
    rcases h.mp (.inr hsame) with hlt | heq
    · exact lt_irrefl _ (hsame ▸ hlt)
    · exact hne heq
  · intro hmerged
    refine or_congr_right ⟨fun hsame => ?_, fun heq => heq ▸ rfl⟩
    by_contra hne
    exact hmerged ⟨hne, hsame⟩

theorem betweenInts_eq {v a b : Int} (hv : InRange64 v) (ha : InRange64 a) (hb : InRange64 b) :
    betweenInts (F := F) v a b =
      .ok (.bool (decide (nearestF64 a ≤ nearestF64 v) && decide (nearestF64 v ≤ nearestF64 b))) := by
  have hlow : (compare (nearestF64 v) (nearestF64 a) != .lt) =
      decide (nearestF64 a ≤ nearestF64 v) := by
    rw [bne, beq_eq_decide, ← decide_not, decide_eq_decide.mpr compare_ge_iff_ge]
  have hhigh : (compare (nearestF64 v) (nearestF64 b) != .gt) =
      decide (nearestF64 v ≤ nearestF64 b) := by
    rw [bne, beq_eq_decide, ← decide_not, decide_eq_decide.mpr compare_le_iff_le]
  rw [← hlow, ← hhigh]
  unfold betweenInts evalBetween
  simp only [Value.isNull, compareValues, Number.asF64, compareFloat_ofInt hv ha,
    compareFloat_ofInt hv hb, Bool.bne_false]
  rfl

theorem betweenIsAnd (likeMatch : String → String → Bool) {v a b : Int} (hv : InRange64 v)
    (ha : InRange64 a) (hb : InRange64 b) : BetweenIsAnd F likeMatch v a b := by
  obtain ⟨-, -, -, hgte⟩ := compareInts_order (F := F) likeMatch hv ha
  obtain ⟨-, hlte, -, -⟩ := compareInts_order (F := F) likeMatch hv hb
  unfold BetweenIsAnd
  rw [hgte, hlte, betweenInts_eq hv ha hb]
  rfl

/-- The operators have the order of the integers, and `BETWEEN` is made of them. -/
structure OrdersIntegers (F : Type) [Float64 F] (likeMatch : String → String → Bool) (a b v : Int) :
    Prop where
  trichotomous : Trichotomous F likeMatch a b
  lte : LteIsOr F likeMatch a b
  between : BetweenIsAnd F likeMatch v a b

/-- For all integers of JSON, the operators have their order unless two different ones are the
same `f64`. -/
theorem orders_integers_iff (likeMatch : String → String → Bool) {a b v : Int} (ha : InRange64 a)
    (hb : InRange64 b) (hv : InRange64 v) :
    OrdersIntegers F likeMatch a b v ↔ ¬Merged a b := by
  constructor
  · exact fun h => (trichotomous_iff likeMatch ha hb).mp h.trichotomous
  · intro hmerged
    exact ⟨(trichotomous_iff likeMatch ha hb).mpr hmerged, (lteIsOr_iff likeMatch ha hb).mpr hmerged,
      betweenIsAnd likeMatch hv ha hb⟩

end

theorem neighbours_ordered :
    OrdersIntegers Double (fun _ _ => false) (2 ^ 53 - 1) (2 ^ 53) (-1) ↔
      ¬Merged (2 ^ 53 - 1) (2 ^ 53) :=
  orders_integers_iff _ ⟨by decide, by decide⟩ ⟨by decide, by decide⟩ ⟨by decide, by decide⟩

/-- `2^53 < 2^53 + 1` is false, and so are `=` and `>`. -/
theorem neighbours_unordered :
    compareInts (F := Double) (fun _ _ => false) (2 ^ 53) .lt (2 ^ 53 + 1) = .ok (.bool false) ∧
      compareInts (F := Double) (fun _ _ => false) (2 ^ 53) .eq (2 ^ 53 + 1) = .ok (.bool false) ∧
      compareInts (F := Double) (fun _ _ => false) (2 ^ 53) .gt (2 ^ 53 + 1) = .ok (.bool false) ∧
      ¬OrdersIntegers Double (fun _ _ => false) (2 ^ 53) (2 ^ 53 + 1) 0 := by
  have hround : nearestF64 ((2 ^ 53 : Int) : ℚ) = nearestF64 ((2 ^ 53 + 1 : Int) : ℚ) := by
    decide +kernel
  have hlow : InRange64 (2 ^ 53) := ⟨by decide, by decide⟩
  have hhigh : InRange64 (2 ^ 53 + 1) := ⟨by decide, by decide⟩
  obtain ⟨hlt, -, hgt, -⟩ := compareInts_order (F := Double) (fun _ _ => false) hlow hhigh
  rw [hround, decide_eq_false (lt_irrefl _)] at hlt
  rw [hround, decide_eq_false (lt_irrefl _)] at hgt
  refine ⟨hlt, rfl, hgt, fun h => ?_⟩
  exact (trichotomous_iff _ hlow hhigh).mp h.trichotomous ⟨by decide, hround⟩

end Rekuiper.Sql
