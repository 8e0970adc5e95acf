import Mathlib.Data.List.Basic
import Rekuiper.Lib.Text

/-!
# Base64

The standard alphabet with padding. Decoding takes canonical texts only: the
padding has to be there, and the bits of the last symbol that carry nothing have
to be zero.
-/

namespace Rekuiper.Lib.Base64

def symbol (n : Nat) : Char :=
  if n < 26 then Char.ofNat (n + 65)
  else if n < 52 then Char.ofNat (n + 71)
  else if n < 62 then Char.ofNat (n - 4)
  else if n = 62 then '+' else '/'

def sextet (c : Char) : Option Nat :=
  let n := c.toNat
  if 65 ≤ n ∧ n ≤ 90 then some (n - 65)
  else if 97 ≤ n ∧ n ≤ 122 then some (n - 71)
  else if 48 ≤ n ∧ n ≤ 57 then some (n + 4)
  else if c = '+' then some 62
  else if c = '/' then some 63
  else none

def encodeChars : List UInt8 → List Char
  | [] => []
  | [a] => [symbol (a.toNat / 4), symbol (a.toNat % 4 * 16), '=', '=']
  | [a, b] =>
    [symbol (a.toNat / 4), symbol (a.toNat % 4 * 16 + b.toNat / 16), symbol (b.toNat % 16 * 4), '=']
  | a :: b :: c :: rest =>
    symbol (a.toNat / 4) :: symbol (a.toNat % 4 * 16 + b.toNat / 16) ::
      symbol (b.toNat % 16 * 4 + c.toNat / 64) :: symbol (c.toNat % 64) :: encodeChars rest

def decodeChars : List Char → Option (List UInt8)
  | [] => some []
  | [a, b, '=', '='] => do
    let a ← sextet a
    let b ← sextet b
    if b % 16 = 0 then some [.ofNat (a * 4 + b / 16)] else none
  | [a, b, c, '='] => do
    let a ← sextet a
    let b ← sextet b
    let c ← sextet c
    if c % 4 = 0 then some [.ofNat (a * 4 + b / 16), .ofNat (b % 16 * 16 + c / 4)] else none
  | a :: b :: c :: d :: rest => do
    let a ← sextet a
    let b ← sextet b
    let c ← sextet c
    let d ← sextet d
    let bytes ← decodeChars rest
    some (.ofNat (a * 4 + b / 16) :: .ofNat (b % 16 * 16 + c / 4) :: .ofNat (c % 4 * 64 + d) ::
      bytes)
  | _ => none

def encode (bytes : List UInt8) : String := String.ofList (encodeChars bytes)

def decode (text : String) : Option (List UInt8) := decodeChars text.toList

theorem sextet_symbol : ∀ n < 64, sextet (symbol n) = some n := by decide

theorem symbol_ne_pad : ∀ n < 64, symbol n ≠ '=' := by decide

theorem symbol_not_blank : ∀ n < 64, isWhitespace (symbol n) = false := by decide

theorem ofNat_eq (a : UInt8) (h : n = a.toNat) : UInt8.ofNat n = a := by
  rw [h, UInt8.ofNat_toNat]

theorem decodeChars_quad (ha : a < 64) (hb : b < 64) (hc : c < 64) (hd : d < 64)
    (rest : List Char) :
    decodeChars (symbol a :: symbol b :: symbol c :: symbol d :: rest) =
      (decodeChars rest).map fun bytes =>
        .ofNat (a * 4 + b / 16) :: .ofNat (b % 16 * 16 + c / 4) :: .ofNat (c % 4 * 64 + d) ::
          bytes := by
  rw [decodeChars]
  · simp only [sextet_symbol a ha, sextet_symbol b hb, sextet_symbol c hc, sextet_symbol d hd,
      Option.bind_eq_bind, Option.bind_some]
    cases decodeChars rest <;> rfl
  · intro _ h _
    exact absurd h (symbol_ne_pad d hd)
  · intro h _
    exact absurd h (symbol_ne_pad d hd)

theorem decodeChars_encodeChars (bytes : List UInt8) :
    decodeChars (encodeChars bytes) = some bytes := by
  induction bytes using encodeChars.induct with
  | case1 => rfl
  | case2 a =>
    have ha := a.toNat_lt
    have hpad : a.toNat % 4 * 16 % 16 = 0 := by omega
    have hbyte : UInt8.ofNat (a.toNat / 4 * 4 + a.toNat % 4 * 16 / 16) = a :=
      ofNat_eq a (by omega)
    simp only [encodeChars, decodeChars, sextet_symbol (a.toNat / 4) (by omega),
      sextet_symbol (a.toNat % 4 * 16) (by omega), Option.bind_eq_bind, Option.bind_some, hpad,
      if_true, hbyte]
  | case3 a b =>
    have ha := a.toNat_lt
    have hb := b.toNat_lt
    have hpad : b.toNat % 16 * 4 % 4 = 0 := by omega
    have hfirst : UInt8.ofNat (a.toNat / 4 * 4 + (a.toNat % 4 * 16 + b.toNat / 16) / 16) = a :=
      ofNat_eq a (by omega)
    have hsecond : UInt8.ofNat ((a.toNat % 4 * 16 + b.toNat / 16) % 16 * 16 +
        b.toNat % 16 * 4 / 4) = b :=
      ofNat_eq b (by omega)
    rw [encodeChars, decodeChars]
    · simp only [sextet_symbol (a.toNat / 4) (by omega),
        sextet_symbol (a.toNat % 4 * 16 + b.toNat / 16) (by omega),
        sextet_symbol (b.toNat % 16 * 4) (by omega), Option.bind_eq_bind, Option.bind_some, hpad,
        if_true, hfirst, hsecond]
    · intro h
      exact absurd h (symbol_ne_pad _ (by omega))
  | case4 a b c rest ih =>
    have ha := a.toNat_lt
    have hb := b.toNat_lt
    have hc := c.toNat_lt
    rw [encodeChars, decodeChars_quad (by omega) (by omega) (by omega) (by omega), ih,
      Option.map_some]
    refine congrArg some (congr (congrArg _ (ofNat_eq a ?_)) (congr (congrArg _ (ofNat_eq b ?_))
      (congr (congrArg _ (ofNat_eq c ?_)) rfl))) <;> omega

theorem decode_encode (bytes : List UInt8) : decode (encode bytes) = some bytes := by
  rw [decode, encode, String.toList_ofList, decodeChars_encodeChars]

theorem encodeChars_not_blank (bytes : List UInt8) :
    ∀ c ∈ encodeChars bytes, isWhitespace c = false := by
  have hpad : isWhitespace '=' = false := by decide
  induction bytes using encodeChars.induct with
  | case1 => simp [encodeChars]
  | case2 a =>
    have ha := a.toNat_lt
    simp only [encodeChars, List.forall_mem_cons, hpad, symbol_not_blank (a.toNat / 4) (by omega),
      symbol_not_blank (a.toNat % 4 * 16) (by omega)]
    simp
  | case3 a b =>
    have ha := a.toNat_lt
    have hb := b.toNat_lt
    simp only [encodeChars, List.forall_mem_cons, hpad, symbol_not_blank (a.toNat / 4) (by omega),
      symbol_not_blank (a.toNat % 4 * 16 + b.toNat / 16) (by omega),
      symbol_not_blank (b.toNat % 16 * 4) (by omega)]
    simp
  | case4 a b c rest ih =>
    have ha := a.toNat_lt
    have hb := b.toNat_lt
    have hc := c.toNat_lt
    simp only [encodeChars, List.forall_mem_cons, symbol_not_blank (a.toNat / 4) (by omega),
      symbol_not_blank (a.toNat % 4 * 16 + b.toNat / 16) (by omega),
      symbol_not_blank (b.toNat % 16 * 4 + c.toNat / 64) (by omega),
      symbol_not_blank (c.toNat % 64) (by omega), true_and]
    exact ih

theorem trim_encode (bytes : List UInt8) : trim (encode bytes) = encode bytes := by
  have hkeep : ∀ l : List Char, (∀ c ∈ l, isWhitespace c = false) →
      l.dropWhile isWhitespace = l := by
    intro l hl
    cases l with
    | nil => rfl
    | cons c l => rw [List.dropWhile_cons_of_neg (by simp [hl c (by simp)])]
  have hchars := encodeChars_not_blank bytes
  rw [trim, encode, String.toList_ofList, hkeep _ hchars,
    hkeep _ fun c hc => hchars c (List.mem_reverse.mp hc), List.reverse_reverse]

end Rekuiper.Lib.Base64
