import Mathlib.Data.Int.Log
import Mathlib.Data.Rat.Floor
import Mathlib.Algebra.Order.Floor.Ring
import Mathlib.Algebra.Ring.Int.Parity
import Mathlib.Tactic.Linarith
import Mathlib.Tactic.NormNum

/-!
# Rounding

Rational numbers rounded to a number of binary digits, to the nearest and to the even one of
two, with a least exponent. Rounding is monotone and keeps what already has so few digits.
-/

namespace Rekuiper.Lib

def nearest (q : ℚ) : Int :=
  if Int.fract q < 1 / 2 ∨ Int.fract q = 1 / 2 ∧ Even ⌊q⌋ then ⌊q⌋ else ⌊q⌋ + 1

@[simp] theorem nearest_intCast (n : Int) : nearest n = n := by simp [nearest]

theorem floor_le_nearest (q : ℚ) : ⌊q⌋ ≤ nearest q := by
  unfold nearest
  split <;> omega

theorem nearest_le_floor (q : ℚ) : nearest q ≤ ⌊q⌋ + 1 := by
  unfold nearest
  split <;> omega

theorem nearest_mono {q r : ℚ} (h : q ≤ r) : nearest q ≤ nearest r := by
  rcases (Int.floor_mono h).eq_or_lt with heq | hlt
  · have hfract : Int.fract q ≤ Int.fract r := by
      unfold Int.fract
      rw [heq]
      linarith
    unfold nearest
    rw [← heq]
    split
    · split <;> omega
    · next hq =>
      rw [if_neg ?_]
      rintro (hr | ⟨hr, heven⟩)
      · exact hq (.inl (hfract.trans_lt hr))
      · rcases hfract.eq_or_lt with h | h
        · exact hq (.inr ⟨h.trans hr, heven⟩)
        · exact hq (.inl (h.trans_eq hr))
  · calc nearest q ≤ ⌊q⌋ + 1 := nearest_le_floor q
      _ ≤ ⌊r⌋ := hlt
      _ ≤ nearest r := floor_le_nearest r

/-- The exponent of the last digit that is kept. -/
def lastExponent (digits : Nat) (least : Int) (q : ℚ) : Int :=
  max (Int.log 2 |q| + 1 - digits) least

def roundTo (digits : Nat) (least : Int) (q : ℚ) : ℚ :=
  nearest (q / 2 ^ lastExponent digits least q) * 2 ^ lastExponent digits least q

section
variable {digits : Nat} {least : Int}

theorem two_zpow_pos (e : Int) : (0 : ℚ) < 2 ^ e := zpow_pos rfl e

theorem two_zpow_split {k e : Int} (h : e ≤ k) : (2 : ℚ) ^ k = ((2 ^ (k - e).toNat : Int) : ℚ) * 2 ^ e := by
  push_cast
  rw [← zpow_natCast, ← zpow_add₀ two_ne_zero]
  congr 1
  omega

theorem roundTo_le {q : ℚ} {m k : Int} (hk : lastExponent digits least q ≤ k)
    (h : q ≤ m * 2 ^ k) : roundTo digits least q ≤ m * 2 ^ k := by
  have hpos := two_zpow_pos (lastExponent digits least q)
  rw [two_zpow_split hk, ← mul_assoc, ← Int.cast_mul] at h ⊢
  refine mul_le_mul_of_nonneg_right ?_ hpos.le
  rw [Int.cast_le]
  calc nearest (q / 2 ^ lastExponent digits least q)
      ≤ nearest ((m * 2 ^ (k - lastExponent digits least q).toNat : Int) : ℚ) :=
        nearest_mono ((div_le_iff₀ hpos).mpr h)
    _ = _ := nearest_intCast _

theorem le_roundTo {q : ℚ} {m k : Int} (hk : lastExponent digits least q ≤ k)
    (h : m * 2 ^ k ≤ q) : m * 2 ^ k ≤ roundTo digits least q := by
  have hpos := two_zpow_pos (lastExponent digits least q)
  rw [two_zpow_split hk, ← mul_assoc, ← Int.cast_mul] at h ⊢
  refine mul_le_mul_of_nonneg_right ?_ hpos.le
  rw [Int.cast_le]
  calc m * 2 ^ (k - lastExponent digits least q).toNat
      = nearest ((m * 2 ^ (k - lastExponent digits least q).toNat : Int) : ℚ) :=
        (nearest_intCast _).symm
    _ ≤ nearest (q / 2 ^ lastExponent digits least q) :=
        nearest_mono ((le_div_iff₀ hpos).mpr h)

theorem roundTo_eq {q : ℚ} {m k : Int} (hk : lastExponent digits least q ≤ k)
    (h : q = m * 2 ^ k) : roundTo digits least q = q := by
  apply le_antisymm
  · exact (roundTo_le hk h.le).trans_eq h.symm
  · exact h.trans_le (le_roundTo hk h.ge)

theorem roundTo_zero : roundTo digits least 0 = 0 := by
  refine roundTo_eq (m := 0) le_rfl ?_
  rw [Int.cast_zero, zero_mul]

theorem lt_two_zpow (q : ℚ) : |q| < 2 ^ (lastExponent digits least q + digits) := by
  calc |q| < 2 ^ (Int.log 2 |q| + 1) := Int.lt_zpow_succ_log_self one_lt_two |q|
    _ ≤ 2 ^ (lastExponent digits least q + digits) := by
        refine zpow_le_zpow_right₀ one_le_two ?_
        unfold lastExponent
        omega

theorem abs_roundTo_le {q : ℚ} {k : Int} (hk : lastExponent digits least q ≤ k)
    (h : |q| ≤ 2 ^ k) : |roundTo digits least q| ≤ 2 ^ k := by
  obtain ⟨hlow, hhigh⟩ := abs_le.mp h
  refine abs_le.mpr ⟨?_, ?_⟩
  · simpa using le_roundTo (m := -1) hk (by simpa using hlow)
  · simpa using roundTo_le (m := 1) hk (by simpa using hhigh)

theorem binade_lt {q r : ℚ} (hdigits : 0 < digits) (hr : r ≠ 0)
    (h : lastExponent digits least q < lastExponent digits least r) :
    |q| < |r| ∧ lastExponent digits least r ≤ Int.log 2 |r| ∧
      |roundTo digits least q| ≤ 2 ^ Int.log 2 |r| := by
  have hlast : lastExponent digits least r ≤ Int.log 2 |r| := by
    unfold lastExponent at h ⊢
    omega
  have hfirst : lastExponent digits least q + digits ≤ Int.log 2 |r| := by
    unfold lastExponent at h ⊢
    omega
  have hless : |q| < 2 ^ Int.log 2 |r| :=
    (lt_two_zpow q).trans_le (zpow_le_zpow_right₀ one_le_two hfirst)
  refine ⟨?_, hlast, abs_roundTo_le (by omega) hless.le⟩
  exact hless.trans_le (Int.zpow_log_le_self one_lt_two (abs_pos.mpr hr))

theorem roundTo_mono (hdigits : 0 < digits) {q r : ℚ} (h : q ≤ r) :
    roundTo digits least q ≤ roundTo digits least r := by
  by_cases hzero : q = 0 ∨ r = 0
  · rcases hzero with rfl | rfl
    · rw [roundTo_zero]
      simpa using le_roundTo (m := 0) le_rfl (by simpa using h)
    · rw [roundTo_zero]
      simpa using roundTo_le (m := 0) le_rfl (by simpa using h)
  obtain ⟨hq, hr⟩ := not_or.mp hzero
  rcases lt_trichotomy (lastExponent digits least q) (lastExponent digits least r) with
    hlt | heq | hgt
  · -- the larger number lies beyond the smaller one, on the positive side
    obtain ⟨habs, hlast, hround⟩ := binade_lt hdigits hr hlt
    have hpos : 0 < r := by
      by_contra hneg
      exact absurd (abs_le_abs_of_nonpos (not_lt.mp hneg) h) habs.not_ge
    have hfits := (Int.zpow_log_le_self one_lt_two (abs_pos.mpr hr)).trans_eq (abs_of_pos hpos)
    calc roundTo digits least q ≤ |roundTo digits least q| := le_abs_self _
      _ ≤ 2 ^ Int.log 2 |r| := hround
      _ ≤ roundTo digits least r := by simpa using le_roundTo (m := 1) hlast (by simpa using hfits)
  · unfold roundTo
    rw [heq]
    have hpos := two_zpow_pos (lastExponent digits least r)
    refine mul_le_mul_of_nonneg_right ?_ hpos.le
    rw [Int.cast_le]
    exact nearest_mono (div_le_div_of_nonneg_right h hpos.le)
  · -- the smaller number lies beyond the larger one, on the negative side
    obtain ⟨habs, hlast, hround⟩ := binade_lt hdigits hq hgt
    have hneg : q < 0 := by
      by_contra hpos
      exact absurd (abs_le_abs_of_nonneg (not_lt.mp hpos) h) habs.not_ge
    have hfits := (Int.zpow_log_le_self one_lt_two (abs_pos.mpr hq)).trans_eq (abs_of_neg hneg)
    have hq' : roundTo digits least q ≤ -2 ^ Int.log 2 |q| := by
      simpa using roundTo_le (m := -1) hlast (by simpa using le_neg.mp hfits)
    calc roundTo digits least q ≤ -2 ^ Int.log 2 |q| := hq'
      _ ≤ -|roundTo digits least r| := neg_le_neg hround
      _ ≤ roundTo digits least r := neg_abs_le _

theorem exists_roundTo_intCast (n : Int) :
    ∃ m : Int, roundTo digits least n = m := by
  by_cases hfine : lastExponent digits least n ≤ 0
  · exact ⟨n, roundTo_eq (m := n) hfine (by simp)⟩
  · obtain ⟨e, he⟩ := Int.eq_ofNat_of_zero_le (not_le.mp hfine).le
    refine ⟨nearest (n / 2 ^ lastExponent digits least n) * 2 ^ e, ?_⟩
    unfold roundTo
    push_cast
    rw [he, zpow_natCast]

theorem roundTo_two_pow (hdigits : 0 < digits) (hleast : least ≤ 0) {q : ℚ} {k : Nat}
    (hq : |q| = 2 ^ k) : roundTo digits least q = q := by
  have hlast : lastExponent digits least q ≤ k := by
    unfold lastExponent
    rw [hq, ← zpow_natCast]
    have := Int.log_zpow (R := ℚ) one_lt_two (k : Int)
    push_cast at this
    rw [this]
    omega
  rcases abs_eq (by positivity) |>.mp hq with h | h
  · exact roundTo_eq (m := 1) hlast (by simpa using h)
  · exact roundTo_eq (m := -1) hlast (by simpa using h)

end

end Rekuiper.Lib
