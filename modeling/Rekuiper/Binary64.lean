import Rekuiper.Json
import Rekuiper.Lib.Rounding

/-!
# Binary floats

`f64` as IEEE 754 has it: a finite number is a rational of 53 binary digits, and an operation
gives what is nearest to the exact result, unless that is too large. Zeros of both signs
have the value zero.
-/

namespace Rekuiper

open Lib

/-- The nearest `f64` of any size. -/
def nearestF64 (q : ℚ) : ℚ := roundTo 53 (-1074) q

/-- What an operation gives whose exact result is a rational. -/
structure Rounds (isFinite : Bool) (value exact : ℚ) : Prop where
  isFinite_iff : isFinite = true ↔ |nearestF64 exact| < 2 ^ 1024
  value_eq : isFinite = true → value = nearestF64 exact

theorem Rounds.congr {isFinite isFinite' : Bool} {value value' exact : ℚ}
    (h : Rounds isFinite value exact) (h' : Rounds isFinite' value' exact) :
    isFinite = isFinite' ∧ (isFinite = true → value = value') := by
  have heq : isFinite = isFinite' :=
    Bool.eq_iff_iff.mpr (h.isFinite_iff.trans h'.isFinite_iff.symm)
  exact ⟨heq, fun hf => (h.value_eq hf).trans (h'.value_eq (heq ▸ hf)).symm⟩

/-- The arithmetic of `f64` on finite numbers. -/
class BinaryFloat64 (F : Type) [Float64 F] where
  toRat : F → ℚ
  ofInt : ∀ n : Int,
    Rounds (Float64.isFinite (Float64.ofInt n : F)) (toRat (Float64.ofInt n)) n
  add : ∀ f g : F, Float64.isFinite f = true → Float64.isFinite g = true →
    Rounds (Float64.isFinite (Float64.add f g)) (toRat (Float64.add f g)) (toRat f + toRat g)
  sub : ∀ f g : F, Float64.isFinite f = true → Float64.isFinite g = true →
    Rounds (Float64.isFinite (Float64.sub f g)) (toRat (Float64.sub f g)) (toRat f - toRat g)
  mul : ∀ f g : F, Float64.isFinite f = true → Float64.isFinite g = true →
    Rounds (Float64.isFinite (Float64.mul f g)) (toRat (Float64.mul f g)) (toRat f * toRat g)
  div : ∀ f g : F, Float64.isFinite f = true → Float64.isFinite g = true → toRat g ≠ 0 →
    Rounds (Float64.isFinite (Float64.div f g)) (toRat (Float64.div f g)) (toRat f / toRat g)
  isFinite_abs : ∀ f : F, Float64.isFinite (Float64.abs f) = Float64.isFinite f
  abs : ∀ f : F, Float64.isFinite f = true → toRat (Float64.abs f) = |toRat f|
  isFinite_epsilon : Float64.isFinite (Float64.epsilon : F) = true
  epsilon : toRat (Float64.epsilon : F) = 1 / 2 ^ 52
  eq : ∀ f g : F, Float64.isFinite f = true → Float64.isFinite g = true →
    (Float64.eq f g = true ↔ toRat f = toRat g)
  isFinite_eq : ∀ f g : F, Float64.eq f g = true → Float64.isFinite f = Float64.isFinite g
  lt : ∀ f g : F, Float64.isFinite f = true → Float64.isFinite g = true →
    (Float64.lt f g = true ↔ toRat f < toRat g)
  le : ∀ f g : F, Float64.isFinite f = true → Float64.isFinite g = true →
    (Float64.le f g = true ↔ toRat f ≤ toRat g)

theorem nearestF64_mono {q r : ℚ} (h : q ≤ r) : nearestF64 q ≤ nearestF64 r :=
  roundTo_mono (by decide) h

theorem nearestF64_two_pow {q : ℚ} {k : Nat} (h : |q| = 2 ^ k) : nearestF64 q = q :=
  roundTo_two_pow (by decide) (by decide) h

theorem abs_nearestF64_le {q : ℚ} {k : Nat} (h : |q| ≤ 2 ^ k) : |nearestF64 q| ≤ 2 ^ k := by
  have hpow : |(2 : ℚ) ^ k| = 2 ^ k := abs_of_pos (by positivity)
  obtain ⟨hlow, hhigh⟩ := abs_le.mp h
  refine abs_le.mpr ⟨?_, ?_⟩
  · calc -(2 : ℚ) ^ k = nearestF64 (-2 ^ k) := (nearestF64_two_pow ((abs_neg _).trans hpow)).symm
      _ ≤ nearestF64 q := nearestF64_mono hlow
  · calc nearestF64 q ≤ nearestF64 (2 ^ k) := nearestF64_mono hhigh
      _ = 2 ^ k := nearestF64_two_pow hpow

theorem nearestF64_intCast {n : Int} (h : |n| ≤ 2 ^ 53) : nearestF64 n = n := by
  rcases h.eq_or_lt with heq | hlt
  · exact nearestF64_two_pow (k := 53) (by exact_mod_cast congrArg (Int.cast (R := ℚ)) heq)
  by_cases hzero : n = 0
  · rw [hzero, Int.cast_zero]
    exact roundTo_zero
  refine roundTo_eq (m := n) (k := 0) ?_ (by simp)
  have hpos : 0 < |(n : ℚ)| := abs_pos.mpr (Int.cast_ne_zero.mpr hzero)
  have hlog : Int.log 2 |(n : ℚ)| < 53 := by
    rw [← Int.lt_zpow_iff_log_lt one_lt_two hpos, ← Int.cast_abs]
    exact_mod_cast hlt
  unfold lastExponent
  push_cast
  omega

theorem one_le_distance {m n : Int} (h : nearestF64 m ≠ nearestF64 n) :
    1 ≤ |nearestF64 (nearestF64 m - nearestF64 n)| := by
  have hone : nearestF64 1 = 1 := nearestF64_two_pow (k := 0) (by norm_num)
  have hminus : nearestF64 (-1) = -1 := nearestF64_two_pow (k := 0) (by norm_num)
  obtain ⟨i, hi⟩ : ∃ i : Int, nearestF64 m = i := exists_roundTo_intCast m
  obtain ⟨j, hj⟩ : ∃ j : Int, nearestF64 n = j := exists_roundTo_intCast n
  rw [hi, hj] at h ⊢
  have hne : i ≠ j := fun hij => h (congrArg Int.cast hij)
  rcases hne.lt_or_gt with hlt | hgt
  · have hle : (i : ℚ) - j ≤ -1 := by
      have : i - j ≤ -1 := by omega
      exact_mod_cast this
    exact le_abs.mpr (.inr (by linarith [nearestF64_mono hle]))
  · have hle : (1 : ℚ) ≤ i - j := by
      have : 1 ≤ i - j := by omega
      exact_mod_cast this
    exact le_abs.mpr (.inl (hone.symm.trans_le (nearestF64_mono hle)))

theorem nearestF64_eq_zero_iff {n : Int} : nearestF64 n = nearestF64 0 ↔ n = 0 := by
  constructor
  · intro heq
    by_contra hne
    have hone : nearestF64 1 = 1 := nearestF64_two_pow (k := 0) (by norm_num)
    have hminus : nearestF64 (-1) = -1 := nearestF64_two_pow (k := 0) (by norm_num)
    rw [show nearestF64 0 = 0 from roundTo_zero] at heq
    rcases Int.lt_or_gt_of_ne hne with hlt | hgt
    · have : (n : ℚ) ≤ -1 := by exact_mod_cast Int.le_sub_one_of_lt hlt
      linarith [nearestF64_mono this]
    · have : (1 : ℚ) ≤ n := by exact_mod_cast hgt
      linarith [nearestF64_mono this]
  · rintro rfl
    rw [Int.cast_zero]

section
variable {F : Type} [Float64 F] [BinaryFloat64 F]

/-- The integers that JSON numbers and `f64` conversions have to do with. -/
def InRange64 (n : Int) : Prop := minI64 ≤ n ∧ n < 2 ^ 64

theorem InRange64.abs_cast_le {n : Int} (h : InRange64 n) : |(n : ℚ)| ≤ 2 ^ 64 := by
  obtain ⟨hlow, hhigh⟩ := h
  unfold minI64 at hlow
  rw [← Int.cast_abs]
  have : |n| ≤ 2 ^ 64 := abs_le.mpr ⟨by omega, by omega⟩
  exact_mod_cast this

theorem isFinite_ofInt {n : Int} (h : InRange64 n) :
    Float64.isFinite (Float64.ofInt n : F) = true := by
  rw [(BinaryFloat64.ofInt n).isFinite_iff]
  calc |nearestF64 n| ≤ 2 ^ 64 := abs_nearestF64_le h.abs_cast_le
    _ < 2 ^ 1024 := pow_lt_pow_right₀ one_lt_two (by decide)

theorem toRat_ofInt {n : Int} (h : InRange64 n) :
    BinaryFloat64.toRat (Float64.ofInt n : F) = nearestF64 n :=
  (BinaryFloat64.ofInt n).value_eq (isFinite_ofInt h)

theorem lt_ofInt_iff {m n : Int} (hm : InRange64 m) (hn : InRange64 n) :
    Float64.lt (Float64.ofInt m : F) (Float64.ofInt n) = true ↔ nearestF64 m < nearestF64 n := by
  rw [BinaryFloat64.lt _ _ (isFinite_ofInt hm) (isFinite_ofInt hn), toRat_ofInt hm, toRat_ofInt hn]

theorem le_ofInt_iff {m n : Int} (hm : InRange64 m) (hn : InRange64 n) :
    Float64.le (Float64.ofInt m : F) (Float64.ofInt n) = true ↔ nearestF64 m ≤ nearestF64 n := by
  rw [BinaryFloat64.le _ _ (isFinite_ofInt hm) (isFinite_ofInt hn), toRat_ofInt hm, toRat_ofInt hn]

theorem eq_ofInt_iff {m n : Int} (hm : InRange64 m) (hn : InRange64 n) :
    Float64.eq (Float64.ofInt m : F) (Float64.ofInt n) = true ↔ nearestF64 m = nearestF64 n := by
  rw [BinaryFloat64.eq _ _ (isFinite_ofInt hm) (isFinite_ofInt hn), toRat_ofInt hm, toRat_ofInt hn]

theorem distance_ofInt {m n : Int} (hm : InRange64 m) (hn : InRange64 n) :
    Float64.isFinite (Float64.abs (Float64.sub (Float64.ofInt m : F) (Float64.ofInt n))) = true ∧
      BinaryFloat64.toRat (Float64.abs (Float64.sub (Float64.ofInt m : F) (Float64.ofInt n))) =
        |nearestF64 (nearestF64 m - nearestF64 n)| := by
  have hsub := BinaryFloat64.sub _ _ (isFinite_ofInt (F := F) hm) (isFinite_ofInt hn)
  rw [toRat_ofInt hm, toRat_ofInt hn] at hsub
  have hfinite := hsub.isFinite_iff.mpr <| by
    have hle : |nearestF64 m - nearestF64 n| ≤ 2 ^ 65 :=
      calc |nearestF64 m - nearestF64 n| ≤ |nearestF64 m| + |nearestF64 n| := abs_sub _ _
        _ ≤ 2 ^ 64 + 2 ^ 64 :=
            add_le_add (abs_nearestF64_le hm.abs_cast_le) (abs_nearestF64_le hn.abs_cast_le)
        _ = 2 ^ 65 := by norm_num
    calc |nearestF64 (nearestF64 m - nearestF64 n)| ≤ 2 ^ 65 := abs_nearestF64_le hle
      _ < 2 ^ 1024 := pow_lt_pow_right₀ one_lt_two (by decide)
  exact ⟨(BinaryFloat64.isFinite_abs _).trans hfinite,
    (BinaryFloat64.abs _ hfinite).trans (congrArg abs (hsub.value_eq hfinite))⟩

theorem close_ofInt_iff {m n : Int} (hm : InRange64 m) (hn : InRange64 n) :
    Float64.lt (Float64.abs (Float64.sub (Float64.ofInt m : F) (Float64.ofInt n)))
      Float64.epsilon = true ↔ nearestF64 m = nearestF64 n := by
  obtain ⟨hfinite, hvalue⟩ := distance_ofInt (F := F) hm hn
  rw [BinaryFloat64.lt _ _ hfinite BinaryFloat64.isFinite_epsilon, hvalue, BinaryFloat64.epsilon]
  constructor
  · intro hlt
    by_contra hne
    have := one_le_distance hne
    norm_num at hlt
    linarith
  · intro heq
    rw [heq, sub_self, show nearestF64 0 = 0 from roundTo_zero]
    norm_num

theorem apart_ofInt_iff {m n : Int} (hm : InRange64 m) (hn : InRange64 n) :
    Float64.le Float64.epsilon
      (Float64.abs (Float64.sub (Float64.ofInt m : F) (Float64.ofInt n))) = true ↔
        nearestF64 m ≠ nearestF64 n := by
  obtain ⟨hfinite, -⟩ := distance_ofInt (F := F) hm hn
  rw [ne_eq, ← close_ofInt_iff (F := F) hm hn,
    BinaryFloat64.lt _ _ hfinite BinaryFloat64.isFinite_epsilon,
    BinaryFloat64.le _ _ BinaryFloat64.isFinite_epsilon hfinite, not_lt]

end

-- ---- Rounded rationals

/-- Rational numbers with the rounding of `f64` stand for floats in runs without infinities. -/
structure Double where
  value : ℚ
  deriving DecidableEq

instance : Float64 Double where
  ofInt n := ⟨nearestF64 n⟩
  toInt f := Float64.toInt f.value
  add f g := ⟨nearestF64 (f.value + g.value)⟩
  sub f g := ⟨nearestF64 (f.value - g.value)⟩
  mul f g := ⟨nearestF64 (f.value * g.value)⟩
  div f g := ⟨nearestF64 (f.value / g.value)⟩
  rem f g := ⟨Float64.rem f.value g.value⟩
  neg f := ⟨-f.value⟩
  abs f := ⟨|f.value|⟩
  epsilon := ⟨1 / 2 ^ 52⟩
  eq f g := f.value == g.value
  lt f g := decide (f.value < g.value)
  le f g := decide (f.value ≤ g.value)
  isFinite f := decide (|f.value| < 2 ^ 1024)
  render f := Float64.render f.value

instance : BinaryFloat64 Double where
  toRat := Double.value
  ofInt _ := ⟨decide_eq_true_iff, fun _ => rfl⟩
  add _ _ _ _ := ⟨decide_eq_true_iff, fun _ => rfl⟩
  sub _ _ _ _ := ⟨decide_eq_true_iff, fun _ => rfl⟩
  mul _ _ _ _ := ⟨decide_eq_true_iff, fun _ => rfl⟩
  div _ _ _ _ _ := ⟨decide_eq_true_iff, fun _ => rfl⟩
  isFinite_abs f := by simp [Float64.isFinite, Float64.abs]
  abs _ _ := rfl
  isFinite_epsilon := by
    have hle : |(1 : ℚ) / 2 ^ 52| ≤ 1 := by norm_num
    exact decide_eq_true (hle.trans_lt (one_lt_pow₀ one_lt_two (by decide)))
  epsilon := rfl
  eq _ _ _ _ := beq_iff_eq
  isFinite_eq _ _ h := congrArg (fun q : ℚ => decide (|q| < 2 ^ 1024)) (eq_of_beq h)
  lt _ _ _ _ := decide_eq_true_iff
  le _ _ _ _ := decide_eq_true_iff

end Rekuiper
