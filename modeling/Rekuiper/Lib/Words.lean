import Mathlib.Algebra.Group.Int.Defs
import Mathlib.Algebra.GroupWithZero.Nat
import Mathlib.Data.Nat.Bits
import Mathlib.Logic.Function.Iterate

/-!
# Words as bytes

Big-endian numbers, the two bytes of a word, and two's complement. Bytes of one length are known by
their number. Zigzag moves the sign of an integer into its lowest bit, so that small negative
numbers have small codes. What a shift register makes of a text tells any change of no more bits
than it has.
-/

namespace Rekuiper.Lib

/-- `(w >> 8) as u8` -/
def hiByte (w : UInt16) : UInt8 := (w >>> 8).toUInt8

/-- `w as u8` -/
def loByte (w : UInt16) : UInt8 := w.toUInt8

/-- `from_be_bytes`, unsigned -/
def fromBeBytes (bytes : List UInt8) : Nat := bytes.foldl (fun n b => n * 256 + b.toNat) 0

/-- The signed number of `bits` bits with the bits of `n`. -/
def asSigned (bits n : Nat) : Int := if n < 2 ^ (bits - 1) then n else n - 2 ^ bits

theorem toNat_hiByte (w : UInt16) : (hiByte w).toNat = w.toNat / 256 := by
  have hlt := w.toNat_lt
  simp only [hiByte, UInt16.toNat_toUInt8, UInt16.toNat_shiftRight, UInt16.reduceToNat,
    Nat.reduceMod, Nat.shiftRight_eq_div_pow]
  omega

theorem toNat_loByte (w : UInt16) : (loByte w).toNat = w.toNat % 256 := UInt16.toNat_toUInt8 w

theorem word_ext {v w : UInt16} (hhi : hiByte v = hiByte w) (hlo : loByte v = loByte w) :
    v = w := by
  have hhi := congrArg UInt8.toNat hhi
  have hlo := congrArg UInt8.toNat hlo
  rw [toNat_hiByte, toNat_hiByte] at hhi
  rw [toNat_loByte, toNat_loByte] at hlo
  refine UInt16.toNat_inj.mp ?_
  omega

theorem fromBeBytes_word (w : UInt16) : fromBeBytes [hiByte w, loByte w] = w.toNat := by
  simp only [fromBeBytes, List.foldl_cons, List.foldl_nil, toNat_hiByte, toNat_loByte]
  omega

/-- The word with two given bytes. -/
def wordOf (hi lo : UInt8) : UInt16 := UInt16.ofNat (fromBeBytes [hi, lo])

theorem toNat_wordOf (hi lo : UInt8) : (wordOf hi lo).toNat = hi.toNat * 256 + lo.toNat := by
  have hhi := hi.toNat_lt
  have hlo := lo.toNat_lt
  have hnum : fromBeBytes [hi, lo] = hi.toNat * 256 + lo.toNat := by
    simp only [fromBeBytes, List.foldl_cons, List.foldl_nil]
    omega
  rw [wordOf, hnum]
  exact UInt16.toNat_ofNat_of_lt (by rw [UInt16.size]; omega)

theorem hiByte_wordOf (hi lo : UInt8) : hiByte (wordOf hi lo) = hi := by
  have hlo := lo.toNat_lt
  refine UInt8.toNat_inj.mp ?_
  rw [toNat_hiByte, toNat_wordOf]
  omega

theorem loByte_wordOf (hi lo : UInt8) : loByte (wordOf hi lo) = lo := by
  have hlo := lo.toNat_lt
  refine UInt8.toNat_inj.mp ?_
  rw [toNat_loByte, toNat_wordOf]
  omega

theorem wordOf_bytes (w : UInt16) : wordOf (hiByte w) (loByte w) = w :=
  word_ext (hiByte_wordOf _ _) (loByte_wordOf _ _)

theorem foldl_bytes_inj {xs ys : List UInt8} {m n : Nat} (hlen : xs.length = ys.length)
    (h : xs.foldl (fun n b => n * 256 + b.toNat) m = ys.foldl (fun n b => n * 256 + b.toNat) n) :
    m = n ∧ xs = ys := by
  induction xs generalizing ys m n with
  | nil =>
    obtain rfl := List.length_eq_zero_iff.mp hlen.symm
    exact ⟨h, rfl⟩
  | cons x xs ih =>
    cases ys with
    | nil => cases hlen
    | cons y ys =>
      obtain ⟨hnext, rfl⟩ := ih (Nat.succ.inj hlen) h
      dsimp only at hnext
      have hx := x.toNat_lt
      have hy := y.toNat_lt
      obtain rfl : x = y := UInt8.toNat_inj.mp (by omega)
      exact ⟨by omega, rfl⟩

theorem fromBeBytes_inj {xs ys : List UInt8} (hlen : xs.length = ys.length)
    (h : fromBeBytes xs = fromBeBytes ys) : xs = ys := (foldl_bytes_inj hlen h).2

theorem foldl_bytes_lt (xs : List UInt8) (n : Nat) :
    xs.foldl (fun n b => n * 256 + b.toNat) n < (n + 1) * 256 ^ xs.length := by
  induction xs generalizing n with
  | nil => simp
  | cons x xs ih =>
    have hx := x.toNat_lt
    have hnext : n * 256 + x.toNat + 1 ≤ (n + 1) * 256 := by omega
    refine Nat.lt_of_lt_of_le (ih _) ?_
    rw [List.length_cons, Nat.pow_succ, Nat.mul_comm (256 ^ xs.length), ← Nat.mul_assoc]
    exact Nat.mul_le_mul_right _ hnext

theorem fromBeBytes_lt (xs : List UInt8) : fromBeBytes xs < 256 ^ xs.length := by
  simpa [fromBeBytes] using foldl_bytes_lt xs 0

theorem asSigned_inj {bits m n : Nat} (hm : m < 2 ^ bits) (hn : n < 2 ^ bits)
    (h : asSigned bits m = asSigned bits n) : m = n := by
  have hcast : ((2 ^ bits : Nat) : Int) = 2 ^ bits := by norm_cast
  unfold asSigned at h
  rw [← hcast] at h
  split at h <;> split at h <;> omega

theorem asSigned_ofInt {v : Int} (hlow : -2 ^ 15 ≤ v) (hhigh : v < 2 ^ 15) :
    asSigned 16 (UInt16.ofInt v).toNat = v := by
  have hword : (UInt16.ofInt v).toNat = (v % 2 ^ 16).toNat := by
    refine UInt16.toNat_ofNat_of_lt ?_
    rw [UInt16.size]
    omega
  rw [hword, asSigned]
  split <;> omega

theorem toNat_ofInt_word {v : Int} (hlow : 0 ≤ v) (hhigh : v < 2 ^ 16) :
    ((UInt16.ofInt v).toNat : Int) = v := by
  have hword : (UInt16.ofInt v).toNat = (v % 2 ^ 16).toNat := by
    refine UInt16.toNat_ofNat_of_lt ?_
    rw [UInt16.size]
    omega
  omega

-- ---- Zigzag

theorem sshiftRight_last (x : BitVec w) :
    x.sshiftRight (w - 1) = if x.msb then BitVec.allOnes w else 0#w := by
  ext i hi
  rw [BitVec.getElem_sshiftRight]
  cases hx : x.msb with
  | false =>
    simp only [Bool.false_eq_true, if_false, BitVec.getElem_zero]
    split
    · rename_i h
      have hi' : w - 1 + i = w - 1 := by omega
      rw [BitVec.msb_eq_getLsbD_last, BitVec.getLsbD_eq_getElem (by omega)] at hx
      simpa only [hi'] using hx
    · rfl
  | true =>
    simp only [if_true, BitVec.getElem_allOnes]
    split
    · rename_i h
      have hi' : w - 1 + i = w - 1 := by omega
      rw [BitVec.msb_eq_getLsbD_last, BitVec.getLsbD_eq_getElem (by omega)] at hx
      simpa only [hi'] using hx
    · rfl

/-- A number of `w` bits comes back from its zigzag code, also through a wider type. -/
theorem unzigzag_zigzag (x : BitVec w) (hw : 0 < w) (hle : w ≤ v) :
    let z := (x <<< 1 ^^^ x.sshiftRight (w - 1)).setWidth v
    ((z >>> 1) ^^^ -(z &&& 1#v)).setWidth w = x := by
  intro z
  have hbit : ∀ i, z.getLsbD i =
      (decide (i < w) && ((decide (0 < i) && x.getLsbD (i - 1)) ^^ x.msb)) := by
    intro i
    simp only [z, sshiftRight_last, BitVec.getLsbD_setWidth, BitVec.getLsbD_xor,
      BitVec.getLsbD_shiftLeft]
    have hiv : i < w → i < v := by omega
    cases x.msb <;> by_cases hi : i < w <;> simp [hi, hiv, Nat.pos_iff_ne_zero]
  have hlow : z &&& 1#v = if x.msb then 1#v else 0#v := by
    ext i hi
    have hi0 := hbit i
    rw [BitVec.getLsbD_eq_getElem hi] at hi0
    rw [BitVec.getElem_and, hi0, BitVec.getElem_one]
    cases i with
    | zero => cases x.msb <;> simp [hw]
    | succ i => cases x.msb <;> simp
  have hmsb : x.msb = x.getLsbD (w - 1) := BitVec.msb_eq_getLsbD_last x
  rw [hlow]
  ext i hi
  have hiv : i < v := by omega
  rw [BitVec.getElem_setWidth, BitVec.getLsbD_xor, BitVec.getLsbD_ushiftRight, hbit,
    Nat.add_comm 1 i, Nat.add_sub_cancel]
  by_cases hlast : i + 1 < w
  · cases x.msb <;> simp [hlast, hiv, BitVec.getLsbD_eq_getElem hi, BitVec.neg_one_eq_allOnes]
  · obtain rfl : i = w - 1 := by omega
    rw [BitVec.getLsbD_eq_getElem hi] at hmsb
    cases hm : x.msb <;> simp [hlast, hiv, ← hmsb, hm, BitVec.neg_one_eq_allOnes]

-- ---- Shift registers

/-- The lowest bit moves out, and if it was set the polynomial is subtracted. -/
def shiftOut (poly x : BitVec w) : BitVec w :=
  if x.getLsbD 0 then (x >>> 1) ^^^ poly else x >>> 1

def bit (b : Bool) : BitVec w := (BitVec.ofBool b).setWidth w

def feedBits (poly x : BitVec w) (bits : List Bool) : BitVec w :=
  bits.foldl (fun x b => shiftOut poly (x ^^^ bit b)) x

/-- The lowest bits, the first of them first. -/
def lowBits : Nat → Nat → List Bool
  | 0, _ => []
  | n + 1, m => m.testBit 0 :: lowBits n (m / 2)

variable {poly x y : BitVec w} {bits bits' : List Bool}

theorem shiftOut_xor : shiftOut poly (x ^^^ y) = shiftOut poly x ^^^ shiftOut poly y := by
  simp only [shiftOut, BitVec.getLsbD_xor, BitVec.ushiftRight_xor_distrib]
  cases x.getLsbD 0 <;> cases y.getLsbD 0 <;> ext i <;> simp
  all_goals grind

theorem bit_xor (b c : Bool) : (bit (xor b c) : BitVec w) = bit b ^^^ bit c := by
  cases b <;> cases c <;> simp [bit]

theorem toNat_bit (hw : 0 < w) (b : Bool) : (bit b : BitVec w).toNat = b.toNat := by
  cases b <;> simp [bit, hw]

/-- The bit that moves out is all that `shiftOut` depends on. -/
theorem shiftOut_eq : shiftOut poly x = shiftOut poly (bit (x.getLsbD 0)) ^^^ (x >>> 1) := by
  cases hx : x.getLsbD 0 with
  | false => simp [shiftOut, hx, bit]
  | true =>
    have hw : 0 < w := BitVec.lt_of_getLsbD hx
    have hbit : (bit true : BitVec w) >>> 1 = 0 := by
      ext i
      simp [bit]
    simp [shiftOut, hx, hbit]
    simp [bit, hw, BitVec.xor_comm]

theorem lowBits_append {m n a b : Nat} (ha : a < 2 ^ m) :
    lowBits m a ++ lowBits n b = lowBits (m + n) (b * 2 ^ m + a) := by
  induction m generalizing a with
  | zero => simp_all [lowBits]
  | succ m ih =>
    rw [Nat.pow_succ, Nat.mul_comm (2 ^ m)] at ha ⊢
    rw [Nat.succ_add, lowBits, lowBits, List.cons_append, ih (by omega)]
    congr 1
    · simp only [Nat.testBit_zero]
      rw [Nat.mul_left_comm]
      congr 1
      grind
    · rw [Nat.mul_left_comm, Nat.mul_add_div (by decide)]

/-- All bits may be added before they move out. -/
theorem feedBits_lowBits {n : Nat} (hy : y.toNat < 2 ^ n) :
    feedBits poly x (lowBits n y.toNat) = (shiftOut poly)^[n] (x ^^^ y) := by
  induction n generalizing x y with
  | zero =>
    obtain rfl : y = 0 := by simpa [← BitVec.toNat_inj] using hy
    simp [lowBits, feedBits]
  | succ n ih =>
    have hhalf : (y >>> 1).toNat = y.toNat / 2 := by simp [Nat.shiftRight_one]
    have hstep : shiftOut poly (x ^^^ y) =
        shiftOut poly (x ^^^ bit (y.getLsbD 0)) ^^^ (y >>> 1) := by
      rw [shiftOut_xor, shiftOut_eq (x := y), shiftOut_xor, BitVec.xor_assoc]
    rw [Function.iterate_succ_apply, hstep, ← ih (by omega), hhalf]
    rfl

theorem feedBits_append (more : List Bool) :
    feedBits poly x (bits ++ more) = feedBits poly (feedBits poly x bits) more :=
  List.foldl_append ..

section
variable (hpoly : poly.msb = true)
include hpoly

/-- The top bit tells whether the polynomial was subtracted. -/
theorem toNat_of_shiftOut (h : (shiftOut poly x).toNat < 2 ^ (w - 1)) :
    x.toNat = 2 * (shiftOut poly x).toNat := by
  unfold shiftOut at h ⊢
  split
  next hodd =>
    rw [if_pos hodd] at h
    have hmsb : ((x >>> 1) ^^^ poly).msb = true := by simp [BitVec.msb_ushiftRight, hpoly]
    rw [BitVec.msb_eq_decide, decide_eq_true_eq] at hmsb
    exact absurd h (Nat.not_lt.mpr hmsb)
  next heven =>
    rw [BitVec.toNat_ushiftRight, Nat.shiftRight_one]
    simp only [BitVec.getLsbD, Nat.testBit_zero, decide_eq_true_eq] at heven
    omega

theorem shiftOut_inj (h : shiftOut poly x = shiftOut poly y) : x = y := by
  have hzero : shiftOut poly (x ^^^ y) = 0 := by simp [shiftOut_xor, h]
  have hsmall : (shiftOut poly (x ^^^ y)).toNat < 2 ^ (w - 1) := by
    rw [hzero]
    exact Nat.two_pow_pos (w - 1)
  have hnat := toNat_of_shiftOut hpoly hsmall
  rw [hzero] at hnat
  exact BitVec.xor_eq_zero_iff.mp (BitVec.eq_of_toNat_eq hnat)

theorem feedBits_inj (h : feedBits poly x bits = feedBits poly y bits) : x = y := by
  induction bits generalizing x y with
  | nil => exact h
  | cons b bits ih => exact (BitVec.xor_left_inj _).mp (shiftOut_inj hpoly (ih h))

/-- No more bits than the register has are known by what they leave in it. -/
theorem bits_eq_of_feedBits (hlen : bits.length = bits'.length) (hsize : bits.length ≤ w)
    (h : feedBits poly x bits = feedBits poly y bits') :
    (x ^^^ y).toNat < 2 ^ bits.length ∧ (x = y → bits = bits') := by
  induction bits generalizing x y bits' with
  | nil =>
    cases bits' with
    | nil => simp [show x = y from h]
    | cons => cases hlen
  | cons b bits ih =>
    cases bits' with
    | nil => cases hlen
    | cons c bits' =>
      obtain ⟨hlt, heq⟩ := ih (Nat.succ.inj hlen) (Nat.le_of_succ_le hsize) h
      have hle := Nat.pow_le_pow_right (n := 2) (by decide) (Nat.le_sub_one_of_lt hsize)
      rw [← shiftOut_xor] at hlt
      have hdouble := toNat_of_shiftOut hpoly (Nat.lt_of_lt_of_le hlt hle)
      have hbits : (x ^^^ bit b) ^^^ (y ^^^ bit c) = (x ^^^ y) ^^^ bit (xor b c) := by
        rw [bit_xor]
        ac_rfl
      rw [hbits] at hdouble hlt
      have hxor : x ^^^ y = ((x ^^^ y) ^^^ bit (xor b c)) ^^^ bit (xor b c) := by
        simp [BitVec.xor_assoc]
      refine ⟨?_, ?_⟩
      · rw [hxor, BitVec.toNat_xor]
        refine Nat.xor_lt_two_pow ?_ ?_
        · rw [hdouble, List.length_cons, Nat.pow_succ]
          omega
        · rw [toNat_bit (Nat.zero_lt_of_lt hsize), List.length_cons]
          exact Nat.lt_of_lt_of_le (Bool.toNat_lt _) (Nat.le_self_pow (Nat.succ_ne_zero _) 2)
      · rintro rfl
        rw [BitVec.xor_self, BitVec.zero_xor, toNat_bit (Nat.zero_lt_of_lt hsize)] at hdouble
        obtain rfl : b = c := by
          cases b <;> cases c <;> simp at hdouble ⊢
          all_goals omega
        rw [heq rfl]

end
end Rekuiper.Lib
