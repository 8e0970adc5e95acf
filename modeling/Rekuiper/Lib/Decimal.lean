import Mathlib.Data.List.Induction
import Mathlib.Tactic.Linarith
import Rekuiper.Lib.Text

/-!
# Decimal texts

The text of an integer is read as that integer, and no part of it that stops short of its
end is.
-/

namespace Rekuiper.Lib

def readDigits (n : Nat) (digits : List Char) : Nat :=
  digits.foldl (fun n c => n * 10 + (c.toNat - 48)) n

theorem parseDigits_eq {digits : List Char} (hne : digits ≠ []) (h : ∀ c ∈ digits, c.isDigit) :
    parseDigits digits = some (readDigits 0 digits) := by
  have hfold : ∀ (digits : List Char) (n : Nat), (∀ c ∈ digits, c.isDigit) →
      digits.foldl (fun n c => n.bind fun n =>
        if c.isDigit then some (n * 10 + (c.toNat - 48)) else none) (some n) =
          some (readDigits n digits) := by
    intro digits
    induction digits with
    | nil => exact fun n _ => rfl
    | cons c digits ih =>
      intro n h
      obtain ⟨hc, hdigits⟩ := List.forall_mem_cons.mp h
      simp only [List.foldl_cons, Option.bind_some, hc, if_true, readDigits]
      exact ih _ hdigits
  cases digits with
  | nil => exact absurd rfl hne
  | cons c digits => exact hfold (c :: digits) 0 h

theorem isDigit_of_mem {n : Nat} {c : Char} (h : c ∈ Nat.toDigits 10 n) : c.isDigit :=
  Nat.isDigit_of_mem_toDigits (by decide) (by decide) h

theorem toNat_digitChar {n : Nat} (h : n < 10) : (Nat.digitChar n).toNat - 48 = n := by
  have : ∀ n < 10, (Nat.digitChar n).toNat - 48 = n := by decide
  exact this n h

theorem readDigits_toDigits (n : Nat) : readDigits 0 (Nat.toDigits 10 n) = n := by
  induction n using Nat.strongRecOn with
  | ind n ih =>
    rw [Nat.toDigits_eq_if (by decide)]
    split
    · rename_i h
      simp [readDigits, toNat_digitChar h]
    · rename_i h
      have hread := ih (n / 10) (by omega)
      rw [readDigits] at hread ⊢
      rw [List.foldl_append, hread]
      simp only [List.foldl_cons, List.foldl_nil, toNat_digitChar (Nat.mod_lt n (by decide : 0 < 10))]
      omega

theorem parseDigits_toDigits (n : Nat) : parseDigits (Nat.toDigits 10 n) = some n := by
  rw [parseDigits_eq Nat.toDigits_ne_nil fun c => isDigit_of_mem, readDigits_toDigits]

theorem readDigits_append {n : Nat} (digits : List Char) {more : List Char} (h : more ≠ []) :
    10 * readDigits n digits ≤ readDigits n (digits ++ more) := by
  induction more using List.reverseRecOn with
  | nil => exact absurd rfl h
  | append_singleton more c ih =>
    have hstep : readDigits n (digits ++ (more ++ [c])) =
        readDigits n (digits ++ more) * 10 + (c.toNat - 48) := by
      simp [readDigits, ← List.append_assoc]
    rw [hstep]
    by_cases hmore : more = []
    · rw [hmore, List.append_nil]
      omega
    · have := ih hmore
      omega

theorem parseDigits_leading {n : Nat} {front more : List Char}
    (h : Nat.toDigits 10 n = front ++ more) (hmore : more ≠ []) : parseDigits front ≠ some n := by
  by_cases hfront : front = []
  · rw [hfront]
    simp [parseDigits]
  have hdigits : ∀ c ∈ front ++ more, c.isDigit := by
    rintro c hc
    exact isDigit_of_mem (h ▸ hc)
  rw [parseDigits_eq hfront fun c hc => hdigits c (List.mem_append_left _ hc)]
  intro heq
  have hwhole := readDigits_toDigits n
  have hten := readDigits_append (n := 0) front hmore
  rw [h] at hwhole
  rw [hwhole, Option.some.inj heq] at hten
  -- the number is zero, and its text is one digit
  obtain rfl : n = 0 := by omega
  rw [Nat.toDigits_zero] at h
  cases front with
  | nil => exact hfront rfl
  | cons c front => simp_all

theorem toList_toString (n : Int) : (toString n).toList =
    if 0 ≤ n then Nat.toDigits 10 n.toNat else '-' :: Nat.toDigits 10 (-n).toNat := by
  rw [Int.toString_eq_repr, Int.repr_eq_if]
  split <;> simp [Nat.toList_repr]

theorem parseInt_digits {digits : List Char} (h : ∀ c ∈ digits, c.isDigit) (n : Int) :
    parseInt (String.ofList digits) = some n ↔ ∃ k : Nat, parseDigits digits = some k ∧ k = n := by
  rw [parseInt, String.toList_ofList]
  split
  · exact absurd (h '-' List.mem_cons_self) (by decide)
  · exact absurd (h '+' List.mem_cons_self) (by decide)
  · cases parseDigits digits <;> simp

theorem parseInt_minus (digits : List Char) (n : Int) :
    parseInt (String.ofList ('-' :: digits)) = some n ↔
      ∃ k : Nat, parseDigits digits = some k ∧ -(k : Int) = n := by
  rw [parseInt, String.toList_ofList]
  cases hdigits : parseDigits digits <;> simp [hdigits]

theorem parseInt_toString (n : Int) : parseInt (toString n) = some n := by
  rw [← String.ofList_toList (s := toString n), toList_toString]
  split
  · exact (parseInt_digits (fun c => isDigit_of_mem) n).mpr ⟨_, parseDigits_toDigits _, by omega⟩
  · exact (parseInt_minus _ n).mpr ⟨_, parseDigits_toDigits _, by omega⟩

theorem parseInt_leading {n : Int} {front more : List Char}
    (h : (toString n).toList = front ++ more) (hmore : more ≠ []) :
    parseInt (String.ofList front) ≠ some n := by
  intro heq
  rw [toList_toString] at h
  split at h
  · have hdigits : ∀ c ∈ front, c.isDigit := by
      rintro c hc
      exact isDigit_of_mem (h ▸ List.mem_append_left _ hc)
    obtain ⟨k, hk, hkn⟩ := (parseInt_digits hdigits n).mp heq
    refine parseDigits_leading h hmore (hk.trans (congrArg some ?_))
    omega
  · cases front with
    | nil => simp [parseInt, parseDigits] at heq
    | cons c front =>
      obtain ⟨rfl, htail⟩ := List.cons.inj h
      obtain ⟨k, hk, hkn⟩ := (parseInt_minus front n).mp heq
      refine parseDigits_leading htail hmore (hk.trans (congrArg some ?_))
      omega

theorem isWhitespace_of_isDigit {c : Char} (h : c.isDigit) : isWhitespace c = false := by
  have : 48 ≤ c.toNat ∧ c.toNat ≤ 57 := by simpa [Char.isDigit, UInt32.le_iff_toNat_le] using h
  simp [isWhitespace]
  omega

theorem mem_toString {n : Int} {c : Char} (h : c ∈ (toString n).toList) :
    c = '-' ∨ c.isDigit := by
  rw [toList_toString] at h
  split at h
  · exact .inr (isDigit_of_mem h)
  · exact (List.mem_cons.mp h).imp_right isDigit_of_mem

theorem toString_ne_empty (n : Int) : (toString n).toList ≠ [] := by
  rw [toList_toString]
  split
  · exact Nat.toDigits_ne_nil
  · exact List.cons_ne_nil _ _

end Rekuiper.Lib
