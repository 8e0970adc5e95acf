import Rekuiper.Lib.Text
import Rekuiper.Lib.Wildcards

/-!
# LIKE

`like_match` has two loops: one on the bytes of ASCII texts, one on characters. Each goes round for
round with the matcher of items, but for an escape at the pattern's end: it stands for itself in
the loop on characters and for nothing in the loop on bytes.
-/

namespace Rekuiper.Sql

open Lib
open Lib.Wildcards

def likeBytes : Signs UInt8 := ⟨92, 95, 37, by decide⟩

def likeChars : Signs Char := ⟨'\\', '_', '%', by decide⟩

/-- `str::is_ascii` -/
def isAscii (s : String) : Bool := s.toList.all fun c => decide (c.toNat < 128)

/-- The indices of the loop on bytes -/
structure ByteCursor where
  si : Nat
  pi : Nat
  starPi : Option Nat
  starSi : Nat
deriving DecidableEq

def ByteCursor.back (cur : ByteCursor) : ByteCursor ⊕ Bool :=
  match cur.starPi with
  | some sp => .inl { cur with pi := sp + 1, starSi := cur.starSi + 1, si := cur.starSi + 1 }
  | none => .inr false

def byteRound (s p : List UInt8) (cur : ByteCursor) : ByteCursor ⊕ Bool :=
  match s[cur.si]? with
  | none => .inr ((p.drop cur.pi).dropWhile (· == 37)).isEmpty
  | some c =>
    match p[cur.pi]? with
    | none => cur.back
    | some b =>
      if b = 92 then
        if p[cur.pi + 1]? = some c then .inl { cur with si := cur.si + 1, pi := cur.pi + 2 }
        else cur.back
      else if b = 95 then .inl { cur with si := cur.si + 1, pi := cur.pi + 1 }
      else if b = 37 then .inl { cur with starPi := some cur.pi, starSi := cur.si, pi := cur.pi + 1 }
      else if b = c then .inl { cur with si := cur.si + 1, pi := cur.pi + 1 }
      else cur.back

structure CharCursor where
  sIt : List Char
  pIt : List Char
  starP : Option (List Char)
  starS : Option (List Char)
deriving DecidableEq

def CharCursor.back (cur : CharCursor) : CharCursor ⊕ Bool :=
  match cur.starP, cur.starS with
  | some sp, some (_ :: ss) => .inl { cur with sIt := ss, pIt := sp, starS := some ss }
  | _, _ => .inr false

def charRound (cur : CharCursor) : CharCursor ⊕ Bool :=
  match cur.sIt with
  | [] => .inr (cur.pIt.dropWhile (· == '%')).isEmpty
  | sc :: sPeek =>
    match cur.pIt with
    | [] => cur.back
    | pc :: pPeek =>
      if pc = '\\' then
        match pPeek with
        | escaped :: pPeek =>
          if escaped = sc then .inl { cur with sIt := sPeek, pIt := pPeek } else cur.back
        | [] => if '\\' = sc then .inl { cur with sIt := sPeek, pIt := [] } else cur.back
      else if pc = '_' then .inl { cur with sIt := sPeek, pIt := pPeek }
      else if pc = '%' then
        .inl { cur with pIt := pPeek, starP := some pPeek, starS := some cur.sIt }
      else if pc = sc then .inl { cur with sIt := sPeek, pIt := pPeek }
      else cur.back

def likeAscii (s pattern : String) : Nat → Option Bool :=
  loopFor (byteRound (utf8Bytes s) (utf8Bytes pattern)) ⟨0, 0, none, 0⟩

def likeUtf8 (s pattern : String) : Nat → Option Bool :=
  loopFor charRound ⟨s.toList, pattern.toList, none, none⟩

/-- `like_match`, for so many rounds of its loop -/
def likeMatch (s pattern : String) : Nat → Option Bool :=
  if isAscii s && isAscii pattern then likeAscii s pattern else likeUtf8 s pattern

-- ---- Both loops are the matcher of items

section Items

variable {α : Type} {l rest : List α} {c : α}

theorem getElem?_of_drop_nil (h : l.drop i = []) : l[i]? = none := by
  rw [← List.head?_drop, h]
  rfl

theorem of_drop_cons (h : l.drop i = c :: rest) : l[i]? = some c ∧ l.drop (i + 1) = rest := by
  constructor
  · rw [← List.head?_drop, h]
    rfl
  · rw [← List.tail_drop, h]
    rfl

variable [DecidableEq α] {signs : Signs α} {dangling : α → Bool}

theorem parse_all_isMany (pattern : List α) :
    (signs.parse dangling pattern).all Item.isMany =
      (pattern.dropWhile (· == signs.many)).isEmpty := by
  induction pattern with
  | nil => rfl
  | cons c pattern ih =>
    by_cases hmany : c = signs.many
    · subst hmany
      simp [parse_many, Item.isMany, ih]
    · have hdrop : ((c :: pattern).dropWhile (· == signs.many)).isEmpty = false := by
        simp [hmany]
      rw [hdrop]
      cases pattern with
      | nil =>
        simp only [Signs.parse, hmany, if_false]
        split_ifs <;> rfl
      | cons d pattern =>
        simp only [Signs.parse, hmany, if_false]
        split_ifs <;> rfl

end Items

/-- The byte loop's indices stand for the rest of the text and the items of the rest of the
pattern. -/
structure ByteCursor.Shows (s p : List UInt8) (cur : ByteCursor) (cursor : Cursor UInt8) :
    Prop where
  text : cursor.text = s.drop cur.si
  items : cursor.items = likeBytes.parse (fun _ => false) (p.drop cur.pi)
  star : cursor.star = cur.starPi.map fun sp =>
    (likeBytes.parse (fun _ => false) (p.drop (sp + 1)), s.drop cur.starSi)
  behind : cur.starSi ≤ cur.si

def CharCursor.Shows (cur : CharCursor) (cursor : Cursor Char) : Prop :=
  cursor.text = cur.sIt ∧ cursor.items = likeChars.parse ('\\' = ·) cur.pIt ∧
    match cur.starP, cur.starS with
    | some sp, some ss => cursor.star = some (likeChars.parse ('\\' = ·) sp, ss)
    | none, none => cursor.star = none
    | _, _ => False

theorem ByteCursor.Shows.back {s p : List UInt8} {cur : ByteCursor} {cursor : Cursor UInt8}
    (h : cur.Shows s p cursor) (hlive : s.drop cur.si ≠ []) :
    Sum.LiftRel (ByteCursor.Shows s p) Eq cur.back (retry cursor.star) := by
  rw [h.star]
  cases hstar : cur.starPi with
  | none =>
    simp only [ByteCursor.back, hstar, Option.map_none, retry]
    exact .inr rfl
  | some sp =>
    cases hdrop : s.drop cur.starSi with
    | nil =>
      rw [List.drop_eq_nil_iff] at hdrop
      exact absurd (List.drop_eq_nil_iff.mpr (hdrop.trans h.behind)) hlive
    | cons c rest =>
      obtain ⟨-, hrest⟩ := of_drop_cons hdrop
      simp only [ByteCursor.back, hstar, Option.map_some, retry]
      exact .inl ⟨hrest.symm, rfl, by simp [hrest], Nat.le_refl _⟩

theorem byteRound_shows {s p : List UInt8} {cur : ByteCursor} {cursor : Cursor UInt8}
    (h : cur.Shows s p cursor) :
    Sum.LiftRel (ByteCursor.Shows s p) Eq (byteRound s p cur) (scan cursor) := by
  obtain ⟨text, items, star⟩ := cursor
  have hback := ByteCursor.Shows.back h
  obtain ⟨htext, hitems, hstar, hbehind⟩ := h
  simp only at htext hitems hstar hback
  cases hs : s.drop cur.si with
  | nil =>
    rw [hs] at htext
    subst htext
    simp only [byteRound, getElem?_of_drop_nil hs, scan]
    rw [hitems, parse_all_isMany]
    exact .inr rfl
  | cons c rest =>
    obtain ⟨hc, hrest⟩ := of_drop_cons hs
    replace hback := hback (by simp [hs])
    rw [hs] at htext
    subst htext
    simp only [byteRound, hc]
    have hahead : cur.starSi ≤ cur.si + 1 := Nat.le_succ_of_le hbehind
    generalize hp : p.drop cur.pi = pattern at hitems
    induction pattern using pattern_cases likeBytes with
    | hnil =>
      subst hitems
      simpa only [getElem?_of_drop_nil hp, scan, parse_nil] using hback
    | hdangling =>
      obtain ⟨hb, hnext⟩ := of_drop_cons hp
      rw [parse_escape_nil] at hitems
      subst hitems
      simpa [likeBytes, hb, getElem?_of_drop_nil hnext, scan] using hback
    | hescape d pattern =>
      obtain ⟨hb, hnext⟩ := of_drop_cons hp
      obtain ⟨hd, hpattern⟩ := of_drop_cons hnext
      replace hb : p[cur.pi]? = some 92 := hb
      rw [parse_escape] at hitems
      subst hitems
      simp only [hb, hd, if_true, Option.some.injEq, scan, decide_eq_true_eq]
      split
      · exact .inl ⟨hrest.symm, by simp [hpattern], hstar, hahead⟩
      · exact hback
    | hone pattern =>
      obtain ⟨hb, hpattern⟩ := of_drop_cons hp
      rw [parse_one] at hitems
      subst hitems
      simp only [hb, scan, if_true]
      exact .inl ⟨hrest.symm, by simp [hpattern], hstar, hahead⟩
    | hmany pattern =>
      obtain ⟨hb, hpattern⟩ := of_drop_cons hp
      rw [parse_many] at hitems
      subst hitems
      simp only [hb, scan]
      exact .inl ⟨hs.symm, by simp [hpattern], by simp [hpattern, hs], Nat.le_refl _⟩
    | hitself b pattern hescape hone hmany =>
      obtain ⟨hb, hpattern⟩ := of_drop_cons hp
      rw [parse_itself hescape hone hmany] at hitems
      subst hitems
      have hsigns : b ≠ 92 ∧ b ≠ 95 ∧ b ≠ 37 := ⟨hescape, hone, hmany⟩
      simp only [hb, hsigns, if_false, scan, decide_eq_true_eq]
      split
      · exact .inl ⟨hrest.symm, by simp [hpattern], hstar, hahead⟩
      · exact hback

theorem CharCursor.Shows.back {cur : CharCursor} {cursor : Cursor Char} (h : cur.Shows cursor) :
    Sum.LiftRel CharCursor.Shows Eq cur.back (retry cursor.star) := by
  obtain ⟨text, items, star⟩ := cursor
  obtain ⟨sIt, pIt, starP, starS⟩ := cur
  obtain ⟨-, -, hstar⟩ := h
  cases starP with
  | none =>
    cases starS with
    | none =>
      simp only at hstar
      simp only [CharCursor.back, hstar, retry]
      exact .inr rfl
    | some ss => exact hstar.elim
  | some sp =>
    cases starS with
    | none => exact hstar.elim
    | some ss =>
      simp only at hstar
      cases ss with
      | nil =>
        simp only [CharCursor.back, hstar, retry]
        exact .inr rfl
      | cons c ss =>
        simp only [CharCursor.back, hstar, retry]
        exact .inl ⟨rfl, rfl, rfl⟩

theorem charRound_shows {cur : CharCursor} {cursor : Cursor Char} (h : cur.Shows cursor) :
    Sum.LiftRel CharCursor.Shows Eq (charRound cur) (scan cursor) := by
  have hback := h.back
  obtain ⟨text, items, star⟩ := cursor
  obtain ⟨sIt, pIt, starP, starS⟩ := cur
  obtain ⟨htext, hitems, hstar⟩ := h
  simp only at htext hitems hback
  subst htext
  cases text with
  | nil =>
    simp only [charRound, scan]
    rw [hitems, parse_all_isMany]
    exact .inr rfl
  | cons c rest =>
    induction pIt using pattern_cases likeChars with
    | hnil =>
      rw [parse_nil] at hitems
      subst hitems
      simpa only [charRound, scan] using hback
    | hdangling =>
      rw [parse_escape_nil] at hitems
      subst hitems
      simp only [charRound, likeChars, if_true, scan, decide_eq_true_eq]
      split
      · exact .inl ⟨rfl, rfl, hstar⟩
      · exact hback
    | hescape d pattern =>
      rw [parse_escape] at hitems
      subst hitems
      have hsign : likeChars.escape = '\\' := rfl
      simp only [charRound, hsign, if_true, scan, decide_eq_true_eq]
      split
      · exact .inl ⟨rfl, rfl, hstar⟩
      · exact hback
    | hone pattern =>
      rw [parse_one] at hitems
      subst hitems
      simp only [charRound, scan]
      exact .inl ⟨rfl, rfl, hstar⟩
    | hmany pattern =>
      rw [parse_many] at hitems
      subst hitems
      simp only [charRound, scan]
      exact .inl ⟨rfl, rfl, rfl⟩
    | hitself b pattern hescape hone hmany =>
      rw [parse_itself hescape hone hmany] at hitems
      subst hitems
      have hsigns : b ≠ '\\' ∧ b ≠ '_' ∧ b ≠ '%' := ⟨hescape, hone, hmany⟩
      simp only [charRound, hsigns, if_false, scan, decide_eq_true_eq]
      split
      · exact .inl ⟨rfl, rfl, hstar⟩
      · exact hback

theorem likeAscii_gives (s pattern : String) :
    ∃ b, Gives (likeAscii s pattern) b ∧
      (b = true ↔
        Matches (likeBytes.parse (fun _ => false) (utf8Bytes pattern)) (utf8Bytes s)) := by
  obtain ⟨b, hgives, hb⟩ :=
    scan_exact (utf8Bytes s) (likeBytes.parse (fun _ => false) (utf8Bytes pattern))
  refine ⟨b, ?_, hb⟩
  have hstart : ByteCursor.Shows (utf8Bytes s) (utf8Bytes pattern) ⟨0, 0, none, 0⟩
      ⟨utf8Bytes s, likeBytes.parse (fun _ => false) (utf8Bytes pattern), none⟩ :=
    ⟨rfl, rfl, rfl, Nat.le_refl _⟩
  obtain ⟨n, hn⟩ := hgives
  refine ⟨n, fun m hm => ?_⟩
  rw [likeAscii, loopFor_eq_of_related _ (fun _ _ => byteRound_shows) hstart]
  exact hn m hm

theorem likeUtf8_gives (s pattern : String) :
    ∃ b, Gives (likeUtf8 s pattern) b ∧
      (b = true ↔ Matches (likeChars.parse ('\\' = ·) pattern.toList) s.toList) := by
  obtain ⟨b, hgives, hb⟩ :=
    scan_exact s.toList (likeChars.parse ('\\' = ·) pattern.toList)
  refine ⟨b, ?_, hb⟩
  have hstart : CharCursor.Shows ⟨s.toList, pattern.toList, none, none⟩
      ⟨s.toList, likeChars.parse ('\\' = ·) pattern.toList, none⟩ := ⟨rfl, rfl, rfl⟩
  obtain ⟨n, hn⟩ := hgives
  refine ⟨n, fun m hm => ?_⟩
  rw [likeUtf8, loopFor_eq_of_related _ (fun _ _ => charRound_shows) hstart]
  exact hn m hm

-- ---- Bytes and characters of ASCII texts

def asciiByte (c : Char) : UInt8 := c.val.toUInt8

theorem asciiByte_injective {c d : Char} (hc : c.toNat < 128) (hd : d.toNat < 128)
    (h : asciiByte c = asciiByte d) : c = d := by
  have hbytes := congrArg UInt8.toNat h
  simp only [asciiByte, UInt32.toNat_toUInt8] at hbytes
  apply Char.ext
  apply UInt32.toNat.inj
  simp only [Char.toNat] at hc hd
  omega

theorem utf8Bytes_of_isAscii {s : String} (h : isAscii s = true) :
    utf8Bytes s = s.toList.map asciiByte := by
  rw [utf8Bytes, ← List.flatMap_pure_eq_map]
  refine List.flatMap_congr fun c hc => ?_
  have hlt : c.toNat < 128 := by
    have := List.all_eq_true.mp h c hc
    simpa using this
  apply String.utf8EncodeChar_eq_singleton
  rw [Char.utf8Size_eq_one_iff]
  exact UInt32.le_iff_toNat_le.mpr (Nat.le_of_lt_succ hlt)

theorem inLanguage_bytes {s pattern : String} (hs : isAscii s = true)
    (hpattern : isAscii pattern = true) :
    InLanguage likeBytes (utf8Bytes pattern) (utf8Bytes s) ↔
      InLanguage likeChars pattern.toList s.toList := by
  rw [utf8Bytes_of_isAscii hs, utf8Bytes_of_isAscii hpattern]
  simp only [isAscii, List.all_eq_true, decide_eq_true_eq] at hs hpattern
  exact inLanguage_map asciiByte (fun c => c.toNat < 128)
    (fun _ _ => asciiByte_injective) (by decide) (by decide) (by decide) (by decide) hpattern hs

theorem dangling_bytes {pattern : String} (h : isAscii pattern = true) :
    likeBytes.Dangling (utf8Bytes pattern) = likeChars.Dangling pattern.toList := by
  rw [utf8Bytes_of_isAscii h]
  simp only [isAscii, List.all_eq_true, decide_eq_true_eq] at h
  exact dangling_map asciiByte (fun c => c.toNat < 128) (fun _ _ => asciiByte_injective)
    (by decide) (by decide) h

-- ---- What both loops say

theorem likeAscii_exact {s pattern : String} (hs : isAscii s = true)
    (hpattern : isAscii pattern = true) :
    ∃ b, Gives (likeAscii s pattern) b ∧ (b = true ↔ likeChars.Dangling pattern.toList = false ∧
      InLanguage likeChars pattern.toList s.toList) := by
  obtain ⟨b, hgives, hb⟩ := likeAscii_gives s pattern
  refine ⟨b, hgives, hb.trans ?_⟩
  have hbytes := dangling_bytes hpattern
  cases hdangling : likeChars.Dangling pattern.toList with
  | false =>
    rw [hdangling] at hbytes
    simp [matches_parse hbytes, inLanguage_bytes hs hpattern]
  | true =>
    rw [hdangling] at hbytes
    rw [matches_dangling (by simp) hbytes]
    simp

theorem likeUtf8_exact (s pattern : String) :
    ∃ b, Gives (likeUtf8 s pattern) b ∧ (b = true ↔
      if likeChars.Dangling pattern.toList = true then
        InLanguage likeChars (pattern.toList ++ ['\\']) s.toList
      else InLanguage likeChars pattern.toList s.toList) := by
  obtain ⟨b, hgives, hb⟩ := likeUtf8_gives s pattern
  refine ⟨b, hgives, hb.trans ?_⟩
  split_ifs with hdangling
  · exact (matches_dangling (fun c h => (of_decide_eq_true h).symm) hdangling s.toList).trans
      (and_iff_right (decide_eq_true rfl))
  · exact matches_parse (Bool.eq_false_iff.mpr hdangling) s.toList

theorem likeMatch_exact (s pattern : String)
    (hescape : likeChars.Dangling pattern.toList = false) :
    ∃ b, Gives (likeMatch s pattern) b ∧ (b = true ↔
      if isAscii s && isAscii pattern then InLanguage likeBytes (utf8Bytes pattern) (utf8Bytes s)
      else InLanguage likeChars pattern.toList s.toList) := by
  rw [likeMatch]
  split_ifs with hascii
  · obtain ⟨hs, hpattern⟩ := Bool.and_eq_true _ _ ▸ hascii
    obtain ⟨b, hgives, hb⟩ := likeAscii_exact hs hpattern
    exact ⟨b, hgives, by simpa [hescape, inLanguage_bytes hs hpattern] using hb⟩
  · obtain ⟨b, hgives, hb⟩ := likeUtf8_exact s pattern
    exact ⟨b, hgives, by simpa [hescape] using hb⟩

theorem likeMatch_exact_percent :
    ∃ b, Gives (likeMatch "a%b" "_\\%%") b ∧ (b = true ↔
      if isAscii "a%b" && isAscii "_\\%%" then
        InLanguage likeBytes (utf8Bytes "_\\%%") (utf8Bytes "a%b")
      else InLanguage likeChars "_\\%%".toList "a%b".toList) :=
  likeMatch_exact "a%b" "_\\%%" (by decide)

/-- On ASCII texts the loops agree, but for a text that a pattern ending in an escape matches if
that escape is read as itself. -/
theorem like_paths_agree_iff (s pattern : String) (hs : isAscii s = true)
    (hpattern : isAscii pattern = true) :
    (∃ b, Gives (likeAscii s pattern) b ∧ Gives (likeUtf8 s pattern) b) ↔
      ¬(likeChars.Dangling pattern.toList = true ∧
        InLanguage likeChars (pattern.toList ++ ['\\']) s.toList) := by
  obtain ⟨a, hascii, ha⟩ := likeAscii_exact hs hpattern
  obtain ⟨u, hutf8, hu⟩ := likeUtf8_exact s pattern
  have hboth : (∃ b, Gives (likeAscii s pattern) b ∧ Gives (likeUtf8 s pattern) b) ↔ a = u := by
    constructor
    · rintro ⟨b, hb, hb'⟩
      rw [hascii.unique hb, hutf8.unique hb']
    · rintro rfl
      exact ⟨a, hascii, hutf8⟩
  rw [hboth, Bool.eq_iff_iff, ha, hu]
  cases hdangling : likeChars.Dangling pattern.toList <;> simp

theorem like_paths_agree_iff_percent :
    (∃ b, Gives (likeAscii "a%b" "_\\%%") b ∧ Gives (likeUtf8 "a%b" "_\\%%") b) ↔
      ¬(likeChars.Dangling "_\\%%".toList = true ∧
        InLanguage likeChars ("_\\%%".toList ++ ['\\']) "a%b".toList) :=
  like_paths_agree_iff "a%b" "_\\%%" (by decide) (by decide)

theorem like_paths_differ :
    isAscii "\\" = true ∧ Gives (likeAscii "\\" "\\") false ∧ Gives (likeUtf8 "\\" "\\") true ∧
      ¬∃ b, Gives (likeAscii "\\" "\\") b ∧ Gives (likeUtf8 "\\" "\\") b := by
  have hascii : Gives (likeAscii "\\" "\\") false := gives_done (by decide)
  have hutf8 : Gives (likeUtf8 "\\" "\\") true := gives_step rfl (gives_done (by decide))
  refine ⟨by decide, hascii, hutf8, ?_⟩
  rintro ⟨b, hb, hb'⟩
  cases hascii.unique hb
  cases hutf8.unique hb'

end Rekuiper.Sql
