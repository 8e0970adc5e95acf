import Mathlib.Data.List.Infix
import Rekuiper.Lib.Der
import Rekuiper.Lib.Outcome
import Rekuiper.Lib.Scanner

/-!
# Public keys in containers

A public key comes in a container that names its algorithm, and the bare key is read out of it.
The name of the algorithm is looked for anywhere in its sequence, and lengths need not be in
their shortest form.
-/

namespace Rekuiper.Server.Spki

open Lib Der

-- ---- Checked reads

/-- `input[i]` -/
def byteAt (input : List UInt8) (i : Nat) : Except Stop UInt8 :=
  match input[i]? with
  | some b => .ok b
  | none => .error .panic

/-- `&input[start..stop]` -/
def slice (input : List UInt8) (start stop : Nat) : Except Stop (List UInt8) :=
  if start ≤ stop ∧ stop ≤ input.length then .ok ((input.take stop).drop start)
  else .error .panic

def addUsize (m n : Nat) : Except Stop Nat :=
  if m + n < 2 ^ 64 then .ok (m + n) else .error .panic

def checkedUsize (n : Nat) : Option Nat := if n < 2 ^ 64 then some n else none

-- ---- The code

structure Triple where
  tag : UInt8
  content : List UInt8
  rest : List UInt8

/-- `checked_mul(256)?.checked_add(b)?` for all octets -/
def readLength (octets : List UInt8) : Option Nat :=
  octets.foldlM (fun len b => (checkedUsize (len * 256)).bind fun n => checkedUsize (n + b.toNat)) 0

/-- The end of `der_read_tlv`, once the lengths of content and header are known. -/
def readContent (input : List UInt8) (tag : UInt8) (len headerLen : Nat) :
    Except Stop (Option Triple) := do
  let stop ← addUsize headerLen len
  if input.length < stop then return none
  else
    let content ← slice input headerLen stop
    let rest ← slice input stop input.length
    return some ⟨tag, content, rest⟩

/-- The length of the content in `count` octets -/
def readLong (input : List UInt8) (tag : UInt8) (count : Nat) : Except Stop (Option Triple) := do
  if count = 0 ∨ 4 < count ∨ input.length < 2 + count then return none
  else
    let octets ← slice input 2 (2 + count)
    match readLength octets with
    | none => return none
    | some len => readContent input tag len (2 + count)

def derReadTlv (input : List UInt8) : Except Stop (Option Triple) := do
  if input.length < 2 then return none
  else
    let tag ← byteAt input 0
    let first ← byteAt input 1
    if first < 0x80 then readContent input tag first.toNat 2
    else readLong input tag (first &&& 0x7f).toNat

def rsaEncryptionOid : List UInt8 :=
  [0x06, 0x09, 0x2a, 0x86, 0x48, 0x86, 0xf7, 0x0d, 0x01, 0x01, 0x01]

def spkiToPkcs1 (spki : List UInt8) : Except Stop (Option (List UInt8)) := do
  let some outer ← derReadTlv spki | return none
  if outer.tag ≠ 0x30 ∨ outer.rest ≠ [] then return none
  else
    let some alg ← derReadTlv outer.content | return none
    if alg.tag ≠ 0x30 ∨ ¬rsaEncryptionOid <:+: alg.content then return none
    else
      let some bits ← derReadTlv alg.rest | return none
      if bits.tag ≠ 0x03 ∨ bits.rest ≠ [] then return none
      else
        match bits.content with
        | 0 :: pkcs1 => return some pkcs1
        | _ => return none

-- ---- Reading a value

variable {tag : UInt8} {content bytes rest octets : List UInt8}

theorem foldlM_readLength (octets : List UInt8) {n : Nat} (h : (n + 1) * 256 ^ octets.length ≤ 2 ^ 64) :
    octets.foldlM (fun len b => (checkedUsize (len * 256)).bind fun n => checkedUsize (n + b.toNat)) n =
      some (octets.foldl (fun n b => n * 256 + b.toNat) n) := by
  induction octets generalizing n with
  | nil => rfl
  | cons b octets ih =>
    have hb := b.toNat_lt
    have hnext : (n * 256 + b.toNat + 1) * 256 ^ octets.length ≤ 2 ^ 64 :=
      calc
        (n * 256 + b.toNat + 1) * 256 ^ octets.length ≤ (n + 1) * 256 * 256 ^ octets.length :=
          Nat.mul_le_mul_right _ (by omega)
        _ = (n + 1) * 256 ^ (octets.length + 1) := by ring
        _ ≤ 2 ^ 64 := h
    have hfits : n * 256 + b.toNat + 1 ≤ 2 ^ 64 :=
      le_trans (Nat.le_mul_of_pos_right _ (Nat.pow_pos (by decide))) hnext
    have hmul : checkedUsize (n * 256) = some (n * 256) := if_pos (by omega)
    have hadd : checkedUsize (n * 256 + b.toNat) = some (n * 256 + b.toNat) := if_pos hfits
    rw [List.foldlM_cons, hmul, Option.bind_some, hadd]
    exact ih hnext

theorem readLength_eq (hcount : octets.length ≤ 4) :
    readLength octets = some (fromBeBytes octets) := by
  refine foldlM_readLength octets ?_
  calc
    (0 + 1) * 256 ^ octets.length ≤ (0 + 1) * 256 ^ 4 :=
      Nat.mul_le_mul_left _ (Nat.pow_le_pow_right (by decide) hcount)
    _ ≤ 2 ^ 64 := by decide

theorem readContent_cases {header : List UInt8} (hheader : header.length ≤ 6) (tail : List UInt8)
    {len : Nat} (hlen : len < 2 ^ 32) :
    readContent (header ++ tail) tag len header.length =
      .ok (if tail.length < len then none else some ⟨tag, tail.take len, tail.drop len⟩) := by
  have hadd : addUsize header.length len = .ok (header.length + len) := if_pos (by omega)
  unfold readContent
  rw [hadd]
  split
  · next hshort => exact if_pos (by simpa using hshort)
  · next hlong =>
    have hcontent : slice (header ++ tail) header.length (header.length + len) =
        .ok (tail.take len) := by
      refine (if_pos ⟨Nat.le_add_right _ _, by simpa using hlong⟩).trans ?_
      simp [List.take_append]
    have hrest : slice (header ++ tail) (header.length + len) (header ++ tail).length =
        .ok (tail.drop len) := by
      refine (if_pos ⟨by simpa using hlong, le_refl _⟩).trans ?_
      rw [List.take_length]
      simp [List.drop_append]
    refine (if_neg (by simpa using hlong)).trans ?_
    rw [hcontent, hrest]
    rfl

theorem toNat_count (b : UInt8) : (b &&& 0x7f).toNat = b.toNat % 128 := by
  rw [UInt8.toNat_and]
  exact Nat.and_two_pow_sub_one_eq_mod _ 7

theorem derReadTlv_short {first : UInt8} (h : first < 0x80) (tail : List UInt8) :
    derReadTlv (tag :: first :: tail) = readContent (tag :: first :: tail) tag first.toNat 2 :=
  if_pos h

theorem readLong_octets {header : List UInt8} (hheader : header.length = 2) (hne : octets ≠ [])
    (hcount : octets.length ≤ 4) (tail : List UInt8) :
    readLong (header ++ (octets ++ tail)) tag octets.length =
      readContent (header ++ (octets ++ tail)) tag (fromBeBytes octets) (2 + octets.length) := by
  have hpos := List.length_pos_iff.mpr hne
  have hslice : slice (header ++ (octets ++ tail)) 2 (2 + octets.length) = .ok octets := by
    refine (if_pos ⟨Nat.le_add_right _ _, by simp [hheader]⟩).trans ?_
    rw [← hheader]
    simp [List.take_append]
  have hguard : ¬(octets.length = 0 ∨ 4 < octets.length ∨
      (header ++ (octets ++ tail)).length < 2 + octets.length) := by
    simp only [List.length_append, hheader]
    omega
  refine (if_neg hguard).trans ?_
  rw [hslice]
  change (match readLength octets with | none => _ | some len => _) = _
  rw [readLength_eq hcount]

theorem derReadTlv_long (hne : octets ≠ []) (hcount : octets.length ≤ 4) (tail : List UInt8) :
    derReadTlv (tag :: (longForm octets ++ tail)) =
      readContent (tag :: (longForm octets ++ tail)) tag (fromBeBytes octets) (2 + octets.length) := by
  have hpos := List.length_pos_iff.mpr hne
  have hfirst : (UInt8.ofNat (0x80 + octets.length)).toNat = 0x80 + octets.length :=
    UInt8.toNat_ofNat_of_lt' (by change _ < 256; omega)
  have hlarge : ¬UInt8.ofNat (0x80 + octets.length) < 0x80 := by
    rw [UInt8.lt_iff_toNat_lt, hfirst]
    exact not_lt.mpr (Nat.le_add_right _ _)
  have hnumber : (UInt8.ofNat (0x80 + octets.length) &&& 0x7f).toNat = octets.length := by
    rw [toNat_count, hfirst]
    omega
  refine (if_neg hlarge).trans ?_
  rw [hnumber]
  have hheader : [tag, UInt8.ofNat (0x80 + octets.length)].length = 2 := rfl
  exact readLong_octets hheader hne hcount tail

theorem derReadTlv_header {length : List UInt8} {n : Nat} (h : Definite length n) (tail : List UInt8) :
    derReadTlv (tag :: (length ++ tail)) =
      .ok (if tail.length < n then none else some ⟨tag, tail.take n, tail.drop n⟩) := by
  have hlt := h.lt
  cases h with
  | short b hb =>
    have hheader : [tag, b].length ≤ 6 := by simp
    exact (derReadTlv_short hb tail).trans (readContent_cases hheader tail hlt)
  | long octets hne hcount =>
    have hheader : (tag :: longForm octets).length = 2 + octets.length := by
      simp only [List.length_cons, longForm]
      omega
    have hread := @readContent_cases tag (tag :: longForm octets)
      (hheader.trans_le (Nat.add_le_add_left hcount 2)) tail _ hlt
    rw [hheader] at hread
    exact (derReadTlv_long hne hcount tail).trans hread

theorem derReadTlv_append (h : Tlv Definite tag content bytes) (rest : List UInt8) :
    derReadTlv (bytes ++ rest) = .ok (some ⟨tag, content, rest⟩) := by
  obtain ⟨length, hlength, rfl⟩ := h
  rw [List.cons_append, List.append_assoc, derReadTlv_header hlength, if_neg (by simp)]
  simp

theorem exists_header (input : List UInt8) : derReadTlv input = .ok none ∨
    ∃ tag length n tail, Definite length n ∧ input = tag :: (length ++ tail) := by
  match input with
  | [] | [_] => exact .inl rfl
  | tag :: first :: tail =>
    by_cases hshort : first < 0x80
    · exact .inr ⟨tag, [first], first.toNat, tail, .short first hshort, rfl⟩
    · have hlong : derReadTlv (tag :: first :: tail) =
          readLong (tag :: first :: tail) tag (first &&& 0x7f).toNat := if_neg hshort
      by_cases hcount : (first &&& 0x7f).toNat = 0 ∨ 4 < (first &&& 0x7f).toNat ∨
          (tag :: first :: tail).length < 2 + (first &&& 0x7f).toNat
      · exact .inl (hlong.trans (if_pos hcount))
      · rw [toNat_count] at hcount
        have hlt := first.toNat_lt
        have hge : 128 ≤ first.toNat := by
          rw [UInt8.lt_iff_toNat_lt] at hshort
          exact not_lt.mp hshort
        simp only [List.length_cons] at hcount
        obtain ⟨hpos, hle, hfits⟩ : 0 < first.toNat - 128 ∧ first.toNat - 128 ≤ 4 ∧
            first.toNat - 128 ≤ tail.length := by omega
        have hlength : (tail.take (first.toNat - 128)).length = first.toNat - 128 := by
          simpa using hfits
        have hfirst : UInt8.ofNat (0x80 + (tail.take (first.toNat - 128)).length) = first := by
          have hsum : 0x80 + (first.toNat - 128) = first.toNat := by omega
          rw [hlength, hsum, UInt8.ofNat_toNat]
        refine .inr ⟨tag, longForm (tail.take (first.toNat - 128)), _,
          tail.drop (first.toNat - 128), .long _ ?_ (hlength.le.trans hle), ?_⟩
        · exact List.ne_nil_of_length_pos (hpos.trans_eq hlength.symm)
        · rw [longForm, hfirst]
          simp

theorem derReadTlv_cases (input : List UInt8) : derReadTlv input = .ok none ∨
    ∃ tag content bytes rest, Tlv Definite tag content bytes ∧ input = bytes ++ rest ∧
      derReadTlv input = .ok (some ⟨tag, content, rest⟩) := by
  rcases exists_header input with hnone | ⟨tag, length, n, tail, hlength, rfl⟩
  · exact .inl hnone
  · have hread := @derReadTlv_header tag length n hlength tail
    split at hread
    · exact .inl hread
    · next hlong =>
      have hn : (tail.take n).length = n := by simpa using hlong
      refine .inr ⟨tag, tail.take n, tag :: (length ++ tail.take n), tail.drop n,
        ⟨length, hn.symm ▸ hlength, rfl⟩, by simp, hread⟩

-- ---- Containers

def Container (Length : List UInt8 → Nat → Prop) (alg k spki : List UInt8) : Prop :=
  ∃ algBytes bitsBytes, Tlv Length 0x30 alg algBytes ∧ Tlv Length 0x03 (0 :: k) bitsBytes ∧
    Tlv Length 0x30 (algBytes ++ bitsBytes) spki

variable {alg k spki : List UInt8}

theorem spkiToPkcs1_of_container (h : Container Definite alg k spki)
    (hoid : rsaEncryptionOid <:+: alg) : spkiToPkcs1 spki = .ok (some k) := by
  obtain ⟨algBytes, bitsBytes, halg, hbits, hspki⟩ := h
  have hspki := derReadTlv_append hspki []
  have halg := derReadTlv_append halg bitsBytes
  have hbits := derReadTlv_append hbits []
  rw [List.append_nil] at hspki hbits
  simp [spkiToPkcs1, hspki, halg, hbits, hoid, bind, Except.bind, pure, Except.pure]

theorem container_of_spkiToPkcs1 (h : spkiToPkcs1 spki = .ok (some k)) :
    ∃ alg, rsaEncryptionOid <:+: alg ∧ Container Definite alg k spki := by
  unfold spkiToPkcs1 at h
  simp only [bind, Except.bind, pure, Except.pure] at h
  rcases derReadTlv_cases spki with hread | ⟨tag, content, bytes, rest, houter, rfl, hread⟩
  · rw [hread] at h
    cases h
  rw [hread] at h
  dsimp only at h
  split at h
  · cases h
  next hguard =>
  obtain ⟨rfl, rfl⟩ : tag = 0x30 ∧ rest = [] := by simpa using hguard
  rcases derReadTlv_cases content with hread | ⟨tag, alg, algBytes, rest, halg, rfl, hread⟩
  · rw [hread] at h
    cases h
  rw [hread] at h
  dsimp only at h
  split at h
  · cases h
  next hguard =>
  obtain ⟨rfl, hoid⟩ : tag = 0x30 ∧ rsaEncryptionOid <:+: alg := by simpa using hguard
  rcases derReadTlv_cases rest with hread | ⟨tag, bits, bitsBytes, rest, hbits, rfl, hread⟩
  · rw [hread] at h
    cases h
  rw [hread] at h
  dsimp only at h
  split at h
  · cases h
  next hguard =>
  obtain ⟨rfl, rfl⟩ : tag = 0x03 ∧ rest = [] := by simpa using hguard
  split at h
  · next k' =>
    obtain rfl := Option.some.inj (Except.ok.inj h)
    refine ⟨alg, hoid, algBytes, bitsBytes, halg, hbits, ?_⟩
    simpa using houter
  · cases h

theorem container_unique {alg' k' : List UInt8} (h : Container Definite alg k spki)
    (h' : Container Definite alg' k' spki) : alg = alg' := by
  obtain ⟨algBytes, bitsBytes, halg, -, hspki⟩ := h
  obtain ⟨algBytes', bitsBytes', halg', -, hspki'⟩ := h'
  have houter := (derReadTlv_append hspki []).symm.trans (derReadTlv_append hspki' [])
  simp only [Except.ok.injEq, Option.some.injEq, Triple.mk.injEq, true_and, and_true] at houter
  have hinner := (derReadTlv_append halg bitsBytes).symm.trans
    (houter ▸ derReadTlv_append halg' bitsBytes')
  simp only [Except.ok.injEq, Option.some.injEq, Triple.mk.injEq, true_and] at hinner
  exact hinner.1

theorem length_of_container (h : Container Definite alg k spki) : spki.length < 2 ^ 32 + 6 := by
  obtain ⟨algBytes, bitsBytes, -, -, length, hlength, rfl⟩ := h
  have hlt := hlength.lt
  have hle := hlength.length_le
  simp only [List.length_cons, List.length_append] at hlt ⊢
  omega

theorem Container.definite (h : Container Shortest alg k spki) (hlen : spki.length < 2 ^ 32 + 6) :
    Container Definite alg k spki := by
  obtain ⟨algBytes, bitsBytes, halg, hbits, length, hlength, rfl⟩ := h
  have hlt : (algBytes ++ bitsBytes).length < 2 ^ 32 := by
    by_contra hlarge
    have hge := hlength.length_ge (not_lt.mp hlarge)
    simp only [List.length_cons, List.length_append] at hlen hlarge
    omega
  have halgLe := halg.content_le
  have hbitsLe := hbits.content_le
  rw [List.length_append] at hlt
  exact ⟨algBytes, bitsBytes, halg.definite (by omega), hbits.definite (by omega),
    Tlv.definite ⟨length, hlength, rfl⟩ (by rwa [List.length_append])⟩

def RsaKey (k spki : List UInt8) : Prop :=
  ∃ alg, rsaEncryptionOid <+: alg ∧ Container Shortest alg k spki

structure Unwraps (spki : List UInt8) : Prop where
  complete : ∀ k, k.length < 2 ^ 31 → RsaKey k spki → spkiToPkcs1 spki = .ok (some k)
  sound : ∀ k, spkiToPkcs1 spki = .ok (some k) → RsaKey k spki
  reads : ∀ input, ∃ result, derReadTlv input = .ok result

/-- A container that names RSA encryption at all names it first, with lengths in their shortest
form, and it is not longer than such lengths can say. -/
structure Plain (spki : List UInt8) : Prop where
  size : ∀ k, k.length < 2 ^ 31 → RsaKey k spki → spki.length < 2 ^ 32 + 6
  oid : ∀ alg k, Container Definite alg k spki → rsaEncryptionOid <:+: alg →
    rsaEncryptionOid <+: alg ∧ Container Shortest alg k spki

theorem derReadTlv_total (input : List UInt8) : ∃ result, derReadTlv input = .ok result := by
  rcases derReadTlv_cases input with hnone | ⟨tag, content, bytes, rest, -, -, hread⟩
  · exact ⟨_, hnone⟩
  · exact ⟨_, hread⟩

/-- Keys are read out of their containers alone where the container is plain. -/
theorem unwraps_iff (spki : List UInt8) : Unwraps spki ↔ Plain spki := by
  constructor
  · intro h
    refine ⟨fun k hk hkey => ?_, fun alg k hcontainer hoid => ?_⟩
    · obtain ⟨alg, -, hcontainer⟩ := container_of_spkiToPkcs1 (h.complete k hk hkey)
      exact length_of_container hcontainer
    · obtain ⟨alg', hoid', hkey⟩ := h.sound k (spkiToPkcs1_of_container hcontainer hoid)
      obtain rfl := container_unique hcontainer (hkey.definite (length_of_container hcontainer))
      exact ⟨hoid', hkey⟩
  · intro h
    refine ⟨fun k hk hkey => ?_, fun k hread => ?_, derReadTlv_total⟩
    · obtain ⟨alg, hoid, hcontainer⟩ := id hkey
      exact spkiToPkcs1_of_container (hcontainer.definite (h.size k hk hkey)) hoid.isInfix
    · obtain ⟨alg, hoid, hcontainer⟩ := container_of_spkiToPkcs1 hread
      exact ⟨alg, h.oid alg k hcontainer hoid⟩

def otherAlgorithm : List UInt8 := [0x06, 0x01, 0x2a] ++ rsaEncryptionOid

/-- The key of another algorithm is taken for one of RSA. -/
theorem other_algorithm_unwrapped :
    spkiToPkcs1 ([0x30, 20, 0x30, 14] ++ otherAlgorithm ++ [0x03, 2, 0, 7]) = .ok (some [7]) ∧
      ¬Unwraps ([0x30, 20, 0x30, 14] ++ otherAlgorithm ++ [0x03, 2, 0, 7]) := by
  have hshort : ∀ b : UInt8, b < 0x80 → Definite [b] b.toNat := fun b hb => .short b hb
  have hcontainer : Container Definite otherAlgorithm [7]
      ([0x30, 20, 0x30, 14] ++ otherAlgorithm ++ [0x03, 2, 0, 7]) :=
    ⟨[0x30, 14] ++ otherAlgorithm, [0x03, 2, 0, 7], ⟨[14], hshort 14 (by decide), rfl⟩,
      ⟨[2], hshort 2 (by decide), rfl⟩, [20],
      by simpa [otherAlgorithm, rsaEncryptionOid] using hshort 20 (by decide), rfl⟩
  have hread := spkiToPkcs1_of_container hcontainer ⟨[0x06, 0x01, 0x2a], [], rfl⟩
  refine ⟨hread, fun h => ?_⟩
  obtain ⟨alg, hoid, hkey⟩ := h.sound [7] hread
  obtain rfl := container_unique hcontainer (hkey.definite (by decide))
  exact absurd hoid (by decide)

end Rekuiper.Server.Spki
