import Mathlib.Tactic.Ring
import Rekuiper.Lib.Words

/-!
# Tags, lengths and values

The definite forms of a length: one octet, or the number of octets and then these, most
significant first. DER has the shortest of them.
-/

namespace Rekuiper.Lib.Der

/-- A length of at least `0x80`, or written as if it were. -/
def longForm (octets : List UInt8) : List UInt8 := UInt8.ofNat (0x80 + octets.length) :: octets

inductive Definite : List UInt8 → Nat → Prop
  | short (b : UInt8) (h : b < 0x80) : Definite [b] b.toNat
  | long (octets : List UInt8) (hne : octets ≠ []) (hcount : octets.length ≤ 4) :
      Definite (longForm octets) (fromBeBytes octets)

inductive Shortest : List UInt8 → Nat → Prop
  | short (b : UInt8) (h : b < 0x80) : Shortest [b] b.toNat
  | long (octets : List UInt8) (hlead : octets.head? ≠ some 0) (hlarge : 0x80 ≤ fromBeBytes octets)
      (hcount : octets.length ≤ 126) : Shortest (longForm octets) (fromBeBytes octets)

/-- A value under a tag, with its length in one of the forms of `Length`. -/
def Tlv (Length : List UInt8 → Nat → Prop) (tag : UInt8) (content bytes : List UInt8) : Prop :=
  ∃ length, Length length content.length ∧ bytes = tag :: (length ++ content)

variable {tag : UInt8} {length octets content bytes : List UInt8} {n : Nat}

theorem le_foldl_bytes (octets : List UInt8) (n : Nat) :
    n * 256 ^ octets.length ≤ octets.foldl (fun n b => n * 256 + b.toNat) n := by
  induction octets generalizing n with
  | nil => simp
  | cons b octets ih =>
    calc
      n * 256 ^ (octets.length + 1) = n * 256 * 256 ^ octets.length := by ring
      _ ≤ (n * 256 + b.toNat) * 256 ^ octets.length := Nat.mul_le_mul_right _ (Nat.le_add_right _ _)
      _ ≤ _ := ih _

theorem le_fromBeBytes (hne : octets ≠ []) (hlead : octets.head? ≠ some 0) :
    256 ^ (octets.length - 1) ≤ fromBeBytes octets := by
  cases octets with
  | nil => exact absurd rfl hne
  | cons b octets =>
    have hpos : 1 ≤ b.toNat := by
      refine Nat.one_le_iff_ne_zero.mpr fun h => hlead ?_
      rw [List.head?_cons, UInt8.toNat_inj.mp (h.trans UInt8.toNat_zero.symm)]
    calc
      256 ^ octets.length ≤ b.toNat * 256 ^ octets.length := Nat.le_mul_of_pos_left _ hpos
      _ ≤ octets.foldl (fun n b => n * 256 + b.toNat) b.toNat := le_foldl_bytes octets _
      _ = fromBeBytes (b :: octets) := by simp [fromBeBytes]

theorem Definite.lt (h : Definite length n) : n < 2 ^ 32 := by
  cases h with
  | short b h => exact b.toNat_lt.trans (by decide)
  | long octets _ hcount =>
    calc
      fromBeBytes octets < 256 ^ octets.length := fromBeBytes_lt octets
      _ ≤ 256 ^ 4 := Nat.pow_le_pow_right (by decide) hcount
      _ = 2 ^ 32 := rfl

theorem Definite.length_le (h : Definite length n) : length.length ≤ 5 := by
  cases h with
  | short => exact (by decide : 1 ≤ 5)
  | long octets _ hcount => exact Nat.succ_le_succ hcount

theorem octets_ne_nil (hlarge : 0x80 ≤ fromBeBytes octets) : octets ≠ [] := by
  rintro rfl
  exact absurd hlarge (by decide)

theorem Shortest.definite (h : Shortest length n) (hn : n < 2 ^ 32) : Definite length n := by
  cases h with
  | short b h => exact .short b h
  | long octets hlead hlarge =>
    have hne := octets_ne_nil hlarge
    refine .long octets hne ?_
    have hpow : 256 ^ (octets.length - 1) < 256 ^ 4 := (le_fromBeBytes hne hlead).trans_lt hn
    have hlt := (Nat.pow_lt_pow_iff_right (by decide)).mp hpow
    omega

theorem Shortest.length_ge (h : Shortest length n) (hn : 2 ^ 32 ≤ n) : 6 ≤ length.length := by
  cases h with
  | short b h => exact absurd (b.toNat_lt.trans_le (by decide)) (not_lt.mpr hn)
  | long octets hlead hlarge =>
    have hpow : 256 ^ 4 < 256 ^ octets.length := hn.trans_lt (fromBeBytes_lt octets)
    exact Nat.succ_le_succ ((Nat.pow_lt_pow_iff_right (by decide)).mp hpow)

theorem Tlv.definite (h : Tlv Shortest tag content bytes) (hn : content.length < 2 ^ 32) :
    Tlv Definite tag content bytes := by
  obtain ⟨length, hlength, rfl⟩ := h
  exact ⟨length, hlength.definite hn, rfl⟩

theorem Tlv.content_le (h : Tlv Shortest tag content bytes) : content.length ≤ bytes.length := by
  obtain ⟨length, -, rfl⟩ := h
  simp only [List.length_cons, List.length_append]
  omega

end Rekuiper.Lib.Der
