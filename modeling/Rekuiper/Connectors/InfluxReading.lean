import Rekuiper.Connectors.Influx

/-!
# Reading line protocol

A reader of lines, and when it finds in a line what was written. Keys and tag values are written
with a backslash before each separator and no other, so that a piece that ends in a backslash takes
the next separator with it.
-/

namespace Rekuiper.Connectors.Influx

open Lib DataTemplate

-- ---- The reader

def isSpecial (c : Char) : Bool := c == ',' || c == '=' || c == ' '

def readPiece : List Char → List Char × List Char
  | [] => ([], [])
  | '\\' :: c :: rest =>
    if isSpecial c then (c :: (readPiece rest).1, (readPiece rest).2)
    else ('\\' :: (readPiece (c :: rest)).1, (readPiece (c :: rest)).2)
  | c :: rest =>
    if isSpecial c then ([], c :: rest) else (c :: (readPiece rest).1, (readPiece rest).2)

def readQuoted : List Char → Option (List Char × List Char)
  | [] => none
  | '"' :: rest => some ([], rest)
  | '\\' :: c :: rest =>
    if c = '"' ∨ c = '\\' then (readQuoted rest).map fun r => (c :: r.1, r.2)
    else (readQuoted (c :: rest)).map fun r => ('\\' :: r.1, r.2)
  | c :: rest => (readQuoted rest).map fun r => (c :: r.1, r.2)

def expect (c : Char) : List Char → Option (List Char)
  | d :: rest => if d = c then some rest else none
  | [] => none

def readFieldText : List Char → Option (FieldText × List Char)
  | '"' :: rest => (readQuoted rest).map fun r => (.quoted (String.ofList r.1), r.2)
  | text =>
    let r := text.span fun c => c != ',' && c != ' '
    some (.plain (String.ofList r.1), r.2)

def readTag (text : List Char) : Option ((String × String) × List Char) := do
  let key := readPiece text
  let rest ← expect '=' key.2
  let value := readPiece rest
  return ((String.ofList key.1, String.ofList value.1), value.2)

def readField (text : List Char) : Option ((String × FieldText) × List Char) := do
  let key := readPiece text
  let rest ← expect '=' key.2
  let value ← readFieldText rest
  return ((String.ofList key.1, value.1), value.2)

/-- What follows commas, at most `n` times -/
def readMany {α : Type} (read : List Char → Option (α × List Char)) :
    Nat → List Char → Option (List α × List Char)
  | 0, ',' :: _ => none
  | n + 1, ',' :: rest => do
    let x ← read rest
    let xs ← readMany read n x.2
    return (x.1 :: xs.1, xs.2)
  | _, text => some ([], text)

def readFields (text : List Char) : Option (List (String × FieldText) × List Char) := do
  let field ← readField text
  let fields ← readMany readField field.2.length field.2
  return (field.1 :: fields.1, fields.2)

structure Reading where
  measurement : String
  tags : List (String × String)
  fields : List (String × FieldText)
  timestamp : String

def readLine (text : List Char) : Option Reading := do
  let measurement := readPiece text
  let tags ← readMany readTag measurement.2.length measurement.2
  let rest ← expect ' ' tags.2
  let fields ← readFields rest
  let timestamp ← expect ' ' fields.2
  return ⟨String.ofList measurement.1, tags.1, fields.1, String.ofList timestamp⟩

-- ---- Pieces

/-- A character that is not written as two letters. -/
def Printable (c : Char) : Prop := c ≠ '\n' ∧ c ≠ '\r' ∧ c ≠ '\t'

def Closed (s : String) : Prop := s.toList.getLast? ≠ some '\\'

variable {c sep : Char} {rest : List Char}

theorem isSpecial_iff : isSpecial c = true ↔ c = ',' ∨ c = '=' ∨ c = ' ' := by
  simp [isSpecial, or_assoc]

theorem ne_backslash (h : isSpecial c = true) : c ≠ '\\' := by
  rcases isSpecial_iff.mp h with rfl | rfl | rfl <;> decide

theorem escapeKeyChar_special (h : isSpecial c = true) : escapeKeyChar c = ['\\', c] := by
  rcases isSpecial_iff.mp h with rfl | rfl | rfl <;> rfl

theorem escapeKeyChar_other (h : isSpecial c = false) (hprint : Printable c) :
    escapeKeyChar c = [c] := by
  obtain ⟨hn, hr, ht⟩ := hprint
  have hnot : ¬(c = ' ' ∨ c = ',' ∨ c = '=') := by
    rintro (rfl | rfl | rfl) <;> cases h
  unfold escapeKeyChar
  split
  · exact absurd rfl hn
  · exact absurd rfl hr
  · exact absurd rfl ht
  · exact if_neg hnot

theorem readPiece_sep (h : isSpecial sep = true) (rest : List Char) :
    readPiece (sep :: rest) = ([], sep :: rest) := by
  rcases isSpecial_iff.mp h with rfl | rfl | rfl <;> rfl

theorem readPiece_escaped (h : isSpecial c = true) (rest : List Char) :
    readPiece ('\\' :: c :: rest) = (c :: (readPiece rest).1, (readPiece rest).2) := by
  rw [readPiece, if_pos h]

theorem readPiece_backslash (h : isSpecial c = false) (rest : List Char) :
    readPiece ('\\' :: c :: rest) =
      ('\\' :: (readPiece (c :: rest)).1, (readPiece (c :: rest)).2) := by
  rw [readPiece, if_neg (by simp [h])]

theorem readPiece_other (h : isSpecial c = false) (hne : c ≠ '\\') (rest : List Char) :
    readPiece (c :: rest) = (c :: (readPiece rest).1, (readPiece rest).2) := by
  rw [readPiece.eq_def]
  split
  · next heq => cases heq
  · next heq => exact absurd (List.cons.inj heq).1 hne
  · next heq =>
    obtain ⟨rfl, rfl⟩ := List.cons.inj heq
    exact if_neg (by simp [h])

theorem escapeKeyChar_head (hprint : Printable c) :
    ∃ first more, escapeKeyChar c = first :: more ∧ isSpecial first = false := by
  cases h : isSpecial c with
  | true => exact ⟨'\\', [c], escapeKeyChar_special h, rfl⟩
  | false => exact ⟨c, [], escapeKeyChar_other h hprint, h⟩

def pieceRead (s : List Char) (sep : Char) (rest : List Char) : List Char × List Char :=
  if s.getLast? = some '\\' then (s.dropLast ++ sep :: (readPiece rest).1, (readPiece rest).2)
  else (s, sep :: rest)

theorem pieceRead_cons (d : Char) (s : List Char) : pieceRead (c :: d :: s) sep rest =
    (c :: (pieceRead (d :: s) sep rest).1, (pieceRead (d :: s) sep rest).2) := by
  simp only [pieceRead, List.getLast?_cons_cons, List.dropLast_cons_cons]
  split <;> rfl

theorem pieceRead_single (hne : c ≠ '\\') (hsep : isSpecial sep = true) :
    pieceRead [c] sep rest =
      (c :: (readPiece (sep :: rest)).1, (readPiece (sep :: rest)).2) := by
  simp [pieceRead, hne, readPiece_sep hsep]

theorem readPiece_escape {s : List Char} (hprint : ∀ c ∈ s, Printable c)
    (hsep : isSpecial sep = true) (rest : List Char) :
    readPiece (s.flatMap escapeKeyChar ++ sep :: rest) = pieceRead s sep rest := by
  induction s with
  | nil => exact readPiece_sep hsep rest
  | cons c s ih =>
    obtain ⟨hc, hs⟩ := List.forall_mem_cons.mp hprint
    have ih := ih hs
    simp only [List.flatMap_cons, List.append_assoc]
    cases hspecial : isSpecial c with
    | true =>
      simp only [escapeKeyChar_special hspecial, List.cons_append, List.nil_append,
        readPiece_escaped hspecial]
      cases s with
      | nil => exact (pieceRead_single (ne_backslash hspecial) hsep).symm
      | cons d s => rw [ih, pieceRead_cons]
    | false =>
      simp only [escapeKeyChar_other hspecial hc, List.cons_append, List.nil_append]
      by_cases hback : c = '\\'
      · subst hback
        cases s with
        | nil => exact readPiece_escaped hsep rest
        | cons d s =>
          obtain ⟨first, more, hfirst, hnot⟩ := escapeKeyChar_head (hs d List.mem_cons_self)
          simp only [List.flatMap_cons, hfirst, List.cons_append] at ih ⊢
          rw [readPiece_backslash hnot, ih, pieceRead_cons]
      · rw [readPiece_other hspecial hback]
        cases s with
        | nil => exact (pieceRead_single hback hsep).symm
        | cons d s => rw [ih, pieceRead_cons]

theorem readPiece_closed {s : String} (hprint : ∀ c ∈ s.toList, Printable c)
    (hsep : isSpecial sep = true) (h : Closed s) (rest : List Char) :
    readPiece (escapeKey s ++ sep :: rest) = (s.toList, sep :: rest) :=
  (readPiece_escape hprint hsep rest).trans (if_neg h)

theorem readPiece_iff {s : String} (hprint : ∀ c ∈ s.toList, Printable c)
    (hsep : isSpecial sep = true) :
    (readPiece (escapeKey s ++ sep :: rest)).1 = s.toList ↔ Closed s := by
  refine ⟨fun h hlast => ?_, fun h => by rw [readPiece_closed hprint hsep h]⟩
  have hread := readPiece_escape hprint hsep rest
  rw [pieceRead, if_pos hlast] at hread
  rw [escapeKey, hread] at h
  have hsplit : s.toList = s.toList.dropLast ++ ['\\'] :=
    (List.dropLast_append_getLast? '\\' hlast).symm
  rw [hsplit, List.dropLast_concat] at h
  exact ne_backslash hsep (List.cons.inj (List.append_cancel_left h)).1

-- ---- Texts of fields

theorem readQuoted_other (hquote : c ≠ '"') (hback : c ≠ '\\') (rest : List Char) :
    readQuoted (c :: rest) = (readQuoted rest).map fun r => (c :: r.1, r.2) := by
  rw [readQuoted.eq_def]
  split
  · next heq => cases heq
  · next heq => exact absurd (List.cons.inj heq).1 hquote
  · next heq => exact absurd (List.cons.inj heq).1 hback
  · next heq =>
    obtain ⟨rfl, rfl⟩ := List.cons.inj heq
    rfl

theorem escapeStringChar_other (h : ¬(c = '"' ∨ c = '\\')) (hprint : Printable c) :
    escapeStringChar c = [c] := by
  obtain ⟨hn, hr, ht⟩ := hprint
  unfold escapeStringChar
  split
  · exact absurd rfl hn
  · exact absurd rfl hr
  · exact absurd rfl ht
  · exact if_neg h

theorem readQuoted_escape {s : List Char} (hprint : ∀ c ∈ s, Printable c) (rest : List Char) :
    readQuoted (s.flatMap escapeStringChar ++ '"' :: rest) = some (s, rest) := by
  induction s with
  | nil => rfl
  | cons c s ih =>
    obtain ⟨hc, hs⟩ := List.forall_mem_cons.mp hprint
    have ih := ih hs
    simp only [List.flatMap_cons, List.append_assoc]
    by_cases hspecial : c = '"' ∨ c = '\\'
    · have hescaped : escapeStringChar c = ['\\', c] := by
        rcases hspecial with rfl | rfl <;> rfl
      simp [hescaped, readQuoted, hspecial, ih]
    · simp only [escapeStringChar_other hspecial hc, List.cons_append, List.nil_append]
      rw [readQuoted_other (not_or.mp hspecial).1 (not_or.mp hspecial).2, ih]
      rfl

def Plain : FieldText → Prop
  | .quoted s => ∀ c ∈ s.toList, Printable c
  | .plain s => ∀ c ∈ s.toList, c.isAlphanum ∨ c = '-' ∨ c = '.'

theorem readFieldText_plain {text : List Char} (h : ∀ c ∈ text.head?, c ≠ '"') :
    readFieldText text = some (.plain (String.ofList (text.takeWhile fun c => c != ',' && c != ' ')),
      text.dropWhile fun c => c != ',' && c != ' ') := by
  unfold readFieldText
  split
  · exact absurd rfl (h '"' rfl)
  · rw [List.span_eq_takeWhile_dropWhile]

theorem readFieldText_chars {text : FieldText} (h : Plain text) (hsep : sep = ',' ∨ sep = ' ')
    (rest : List Char) : readFieldText (text.chars ++ sep :: rest) = some (text, sep :: rest) := by
  cases text with
  | quoted s =>
    simp [FieldText.chars, escapeStringField, readFieldText, readQuoted_escape h]
  | plain s =>
    have hinside : ∀ c ∈ s.toList, (c != ',' && c != ' ') = true := by
      intro c hc
      rcases h c hc with halpha | rfl | rfl
      · have hcomma : c ≠ ',' := by rintro rfl; cases halpha
        have hblank : c ≠ ' ' := by rintro rfl; cases halpha
        simp [hcomma, hblank]
      · rfl
      · rfl
    have houtside : (sep != ',' && sep != ' ') = false := by
      rcases hsep with rfl | rfl <;> rfl
    rw [FieldText.chars, readFieldText_plain]
    · simp [List.takeWhile_append_of_pos hinside, List.dropWhile_append_of_pos hinside, houtside]
    · intro c hc
      cases hs : s.toList with
      | nil =>
        obtain rfl : sep = c := by simpa [hs] using hc
        rcases hsep with rfl | rfl <;> decide
      | cons d s' =>
        obtain rfl : d = c := by simpa [hs] using hc
        rintro rfl
        rcases h '"' (by simp [hs]) with hcase | hcase | hcase <;> cases hcase

-- ---- Tags and fields

/-- What is written as `chars` is read as `x` exactly if `good` holds. -/
def Reads {α : Type} (read : List Char → Option (α × List Char)) (chars : List Char) (x : α)
    (good : Prop) : Prop :=
  ∀ sep rest rest', sep = ',' ∨ sep = ' ' →
    (read (chars ++ sep :: rest) = some (x, rest') ↔ good ∧ rest' = sep :: rest)

theorem special_of_sep (h : sep = ',' ∨ sep = ' ') : isSpecial sep = true := by
  rcases h with rfl | rfl <;> rfl

theorem expect_self (c : Char) (rest : List Char) : expect c (c :: rest) = some rest :=
  if_pos rfl

theorem special_equals : isSpecial '=' = true := rfl

theorem ofList_eq {chars : List Char} {s : String} (h : String.ofList chars = s) :
    chars = s.toList := by
  subst h
  exact String.toList_ofList.symm

theorem reads_tag {key value : String} (hkey : ∀ c ∈ key.toList, Printable c)
    (hvalue : ∀ c ∈ value.toList, Printable c) :
    Reads readTag (tagChars (key, value)) (key, value) (Closed key ∧ Closed value) := by
  rintro sep rest rest' hsep
  have hspecial := special_of_sep hsep
  have hassoc : tagChars (key, value) ++ sep :: rest =
      escapeKey key ++ '=' :: (escapeKey value ++ sep :: rest) := by simp [tagChars]
  rw [hassoc]
  constructor
  · intro h
    obtain ⟨rest₁, hrest₁, h⟩ := Option.bind_eq_some_iff.mp h
    obtain ⟨hpair, hrest'⟩ := Prod.mk.inj (Option.some.inj h)
    obtain ⟨hkeyRead, hvalueRead⟩ := Prod.mk.inj hpair
    have hclosed₁ := (readPiece_iff hkey rfl).mp (ofList_eq hkeyRead)
    rw [readPiece_closed hkey rfl hclosed₁] at hrest₁
    obtain rfl : escapeKey value ++ sep :: rest = rest₁ := by simpa [expect] using hrest₁
    have hclosed₂ := (readPiece_iff hvalue hspecial).mp (ofList_eq hvalueRead)
    rw [readPiece_closed hvalue hspecial hclosed₂] at hrest'
    exact ⟨⟨hclosed₁, hclosed₂⟩, hrest'.symm⟩
  · rintro ⟨⟨hclosed₁, hclosed₂⟩, rfl⟩
    simp [readTag, readPiece_closed hkey special_equals hclosed₁, readPiece_closed hvalue hspecial hclosed₂,
      expect]

theorem reads_field {key : String} {text : FieldText} (hkey : ∀ c ∈ key.toList, Printable c)
    (htext : Plain text) : Reads readField (fieldChars (key, text)) (key, text) (Closed key) := by
  rintro sep rest rest' hsep
  have hassoc : fieldChars (key, text) ++ sep :: rest =
      escapeKey key ++ '=' :: (text.chars ++ sep :: rest) := by simp [fieldChars]
  rw [hassoc]
  constructor
  · intro h
    obtain ⟨rest₁, hrest₁, h⟩ := Option.bind_eq_some_iff.mp h
    obtain ⟨value, hvalue, h⟩ := Option.bind_eq_some_iff.mp h
    obtain ⟨hpair, hrest'⟩ := Prod.mk.inj (Option.some.inj h)
    have hclosed := (readPiece_iff hkey rfl).mp (ofList_eq (Prod.mk.inj hpair).1)
    rw [readPiece_closed hkey rfl hclosed] at hrest₁
    obtain rfl : text.chars ++ sep :: rest = rest₁ := by simpa [expect] using hrest₁
    rw [readFieldText_chars htext hsep, Option.some.injEq] at hvalue
    subst hvalue
    exact ⟨hclosed, hrest'.symm⟩
  · rintro ⟨hclosed, rfl⟩
    simp [readField, readPiece_closed hkey special_equals hclosed, readFieldText_chars htext hsep, expect]

variable {α : Type} {read : List Char → Option (α × List Char)} {chars : α → List Char}
  {good : α → Prop} {xs : List α}

theorem flatMap_sep (xs : List α) (rest : List Char) :
    ∃ sep more, (xs.flatMap fun x => ',' :: chars x) ++ ' ' :: rest = sep :: more ∧
      (sep = ',' ∨ sep = ' ') := by
  cases xs with
  | nil => exact ⟨' ', rest, rfl, .inr rfl⟩
  | cons x xs => exact ⟨',', _, rfl, .inl rfl⟩

theorem readMany_iff (hreads : ∀ x ∈ xs, Reads read (chars x) x (good x)) {n : Nat}
    (hn : xs.length ≤ n) (rest rest' : List Char) :
    readMany read n ((xs.flatMap fun x => ',' :: chars x) ++ ' ' :: rest) = some (xs, rest') ↔
      (∀ x ∈ xs, good x) ∧ rest' = ' ' :: rest := by
  induction xs generalizing n with
  | nil => cases n <;> simp [readMany, eq_comm]
  | cons x xs ih =>
    obtain ⟨hx, hxs⟩ := List.forall_mem_cons.mp hreads
    obtain ⟨sep, more, hmore, hsep⟩ := @flatMap_sep α chars xs rest
    cases n with
    | zero => cases hn
    | succ n =>
      have ih := ih hxs (Nat.le_of_succ_le_succ hn)
      simp only [List.flatMap_cons, List.cons_append, List.append_assoc, readMany]
      constructor
      · intro h
        obtain ⟨y, hy, h⟩ := Option.bind_eq_some_iff.mp h
        obtain ⟨ys, hys, h⟩ := Option.bind_eq_some_iff.mp h
        obtain ⟨hcons, rfl⟩ := Prod.mk.inj (Option.some.inj h)
        obtain ⟨hhead, htail⟩ := List.cons.inj hcons
        obtain ⟨y, afterY⟩ := y
        obtain ⟨ys, afterYs⟩ := ys
        subst hhead htail
        rw [hmore] at hy
        obtain ⟨hgood, rfl⟩ := (hx sep more afterY hsep).mp hy
        rw [← hmore] at hys
        obtain ⟨hgoods, hrest⟩ := ih.mp hys
        exact ⟨List.forall_mem_cons.mpr ⟨hgood, hgoods⟩, hrest⟩
      · rintro ⟨hgoods, rfl⟩
        obtain ⟨hgood, hgoods⟩ := List.forall_mem_cons.mp hgoods
        have hread := (hx sep more (sep :: more) hsep).mpr ⟨hgood, rfl⟩
        rw [← hmore] at hread
        simp [hread, ih.mpr ⟨hgoods, rfl⟩]

-- ---- Lines

def PrintableText (s : String) : Prop := ∀ c ∈ s.toList, Printable c

structure Line.Separated (line : Line) : Prop where
  measurement : Closed line.measurement
  tags : ∀ tag ∈ line.tags, Closed tag.1 ∧ Closed tag.2
  fields : ∀ field ∈ line.fields, Closed field.1

structure Line.Writable (line : Line) : Prop where
  measurement : PrintableText line.measurement
  tags : ∀ tag ∈ line.tags, PrintableText tag.1 ∧ PrintableText tag.2
  fields : ∀ field ∈ line.fields, PrintableText field.1 ∧ Plain field.2
  nonempty : line.fields ≠ []

theorem length_flatMap_comma (xs : List α) :
    xs.length ≤ (xs.flatMap fun x => ',' :: chars x).length := by
  induction xs with
  | nil => exact Nat.le_refl 0
  | cons x xs ih =>
    simp only [List.length_cons, List.flatMap_cons, List.length_append]
    omega

theorem readFields_iff {fields : List (String × FieldText)} (hne : fields ≠ [])
    (hfields : ∀ field ∈ fields, PrintableText field.1 ∧ Plain field.2)
    (rest rest' : List Char) :
    readFields (fieldsChars fields ++ ' ' :: rest) = some (fields, rest') ↔
      (∀ field ∈ fields, Closed field.1) ∧ rest' = ' ' :: rest := by
  cases fields with
  | nil => exact absurd rfl hne
  | cons field fields =>
    obtain ⟨⟨hkey, htext⟩, hmore⟩ := List.forall_mem_cons.mp hfields
    obtain ⟨sep, more, heq, hsep⟩ := @flatMap_sep _ fieldChars fields rest
    have hfirst := reads_field hkey htext sep more
    have hrest : ∀ n, fields.length ≤ n → _ := fun n hn => readMany_iff
      (fun x hx => reads_field (hmore x hx).1 (hmore x hx).2) hn rest rest'
    have hlength : fields.length ≤ (sep :: more).length := by
      rw [← heq, List.length_append]
      exact Nat.le_add_right_of_le (length_flatMap_comma _)
    rw [fieldsChars, List.append_assoc, heq]
    constructor
    · intro h
      obtain ⟨y, hy, h⟩ := Option.bind_eq_some_iff.mp h
      obtain ⟨ys, hys, h⟩ := Option.bind_eq_some_iff.mp h
      obtain ⟨hcons, rfl⟩ := Prod.mk.inj (Option.some.inj h)
      obtain ⟨hhead, htail⟩ := List.cons.inj hcons
      obtain ⟨y, afterY⟩ := y
      obtain ⟨ys, afterYs⟩ := ys
      subst hhead htail
      obtain ⟨hclosed, rfl⟩ := (hfirst afterY hsep).mp hy
      rw [← heq] at hys
      obtain ⟨hcloseds, hrest'⟩ := (hrest _ (heq ▸ hlength)).mp hys
      exact ⟨List.forall_mem_cons.mpr ⟨hclosed, hcloseds⟩, hrest'⟩
    · rintro ⟨hclosed, rfl⟩
      obtain ⟨hclosed, hcloseds⟩ := List.forall_mem_cons.mp hclosed
      have hread := (hfirst _ hsep).mpr ⟨hclosed, rfl⟩
      have hreads := (hrest _ hlength).mpr ⟨hcloseds, rfl⟩
      rw [heq] at hreads
      exact (congrArg (Option.bind · _) hread).trans (congrArg (Option.bind · _) hreads)

theorem readLine_iff {line : Line} (h : line.Writable) {timestamp : String} :
    readLine line.chars = some ⟨line.measurement, line.tags, line.fields, timestamp⟩ ↔
      line.Separated ∧ timestamp = toString line.timestamp := by
  have hfields := readFields_iff h.nonempty h.fields (toString line.timestamp).toList
  have htags : ∀ n, line.tags.length ≤ n → ∀ rest rest', _ := fun n hn => readMany_iff
    (fun tag htag => reads_tag (h.tags tag htag).1 (h.tags tag htag).2) hn
  obtain ⟨sep, more, heq, hsep⟩ := @flatMap_sep _ tagChars line.tags
    (fieldsChars line.fields ++ ' ' :: (toString line.timestamp).toList)
  have hspecial := special_of_sep hsep
  have hlength : line.tags.length ≤ (sep :: more).length := by
    rw [← heq, List.length_append]
    exact Nat.le_add_right_of_le (length_flatMap_comma _)
  rw [Line.chars, heq]
  constructor
  · intro hread
    obtain ⟨tags, htagsRead, hread⟩ := Option.bind_eq_some_iff.mp hread
    obtain ⟨rest, hrest, hread⟩ := Option.bind_eq_some_iff.mp hread
    obtain ⟨fields, hfieldsRead, hread⟩ := Option.bind_eq_some_iff.mp hread
    obtain ⟨text, htext, hread⟩ := Option.bind_eq_some_iff.mp hread
    obtain ⟨hm, ht, hf, hts⟩ := Reading.mk.inj (Option.some.inj hread)
    have hclosed := (readPiece_iff h.measurement hspecial).mp (ofList_eq hm)
    rw [readPiece_closed h.measurement hspecial hclosed, ← heq] at htagsRead
    obtain ⟨tags, afterTags⟩ := tags
    obtain ⟨fields, afterFields⟩ := fields
    subst ht hf
    obtain ⟨hcloseds, rfl⟩ := (htags _ (heq ▸ hlength) _ _).mp htagsRead
    obtain rfl : _ = rest := by simpa [expect] using hrest
    obtain ⟨hkeys, rfl⟩ := (hfields _).mp hfieldsRead
    obtain rfl : _ = text := by simpa [expect] using htext
    exact ⟨⟨hclosed, hcloseds, hkeys⟩, by simpa using hts.symm⟩
  · rintro ⟨⟨hclosed, hcloseds, hkeys⟩, rfl⟩
    have htagsRead := (htags _ hlength
      (fieldsChars line.fields ++ ' ' :: (toString line.timestamp).toList) _).mpr ⟨hcloseds, rfl⟩
    have hfieldsRead := (hfields _).mpr ⟨hkeys, rfl⟩
    rw [heq] at htagsRead
    simp only [readLine, readPiece_closed h.measurement hspecial hclosed]
    rw [htagsRead]
    simp only [Option.bind_eq_bind, Option.bind_some, expect_self, hfieldsRead,
      String.ofList_toList]
    rfl

theorem newline_notMem_escapeKey (s : String) : '\n' ∉ escapeKey s := by
  intro h
  obtain ⟨c, -, hc⟩ := List.mem_flatMap.mp h
  unfold escapeKeyChar at hc
  split at hc
  · simp at hc
  · simp at hc
  · simp at hc
  · next hne _ _ =>
    split at hc
    · rcases List.mem_pair.mp hc with heq | heq
      · exact absurd heq (by decide)
      · exact hne heq.symm
    · exact hne (List.mem_singleton.mp hc).symm

theorem newline_notMem_escapeString (s : String) : '\n' ∉ escapeStringField s := by
  intro h
  have h : '\n' ∈ s.toList.flatMap escapeStringChar := by simpa [escapeStringField] using h
  obtain ⟨c, -, hc⟩ := List.mem_flatMap.mp h
  unfold escapeStringChar at hc
  split at hc
  · simp at hc
  · simp at hc
  · simp at hc
  · next hne _ _ =>
    split at hc
    · rcases List.mem_pair.mp hc with heq | heq
      · exact absurd heq (by decide)
      · exact hne heq.symm
    · exact hne (List.mem_singleton.mp hc).symm

theorem newline_notMem_text {text : FieldText} (h : Plain text) : '\n' ∉ text.chars := by
  intro hmem
  cases text with
  | quoted s => exact newline_notMem_escapeString s hmem
  | plain s => rcases h '\n' hmem with hcase | hcase | hcase <;> cases hcase

theorem newline_notMem_chars {line : Line} (h : line.Writable) : '\n' ∉ line.chars := by
  have hfield : ∀ field ∈ line.fields, '\n' ∉ fieldChars field := by
    rintro field hfield
    simp [fieldChars, newline_notMem_escapeKey, newline_notMem_text (h.fields field hfield).2]
  have hfields : '\n' ∉ fieldsChars line.fields := by
    cases hcase : line.fields with
    | nil => exact absurd hcase h.nonempty
    | cons field fields =>
      rw [hcase] at hfield
      obtain ⟨hfirst, hmore⟩ := List.forall_mem_cons.mp hfield
      simpa [fieldsChars, hfirst] using hmore
  have htimestamp : '\n' ∉ (toString line.timestamp).toList := by
    intro hmem
    rcases mem_toString hmem with hcase | hcase <;> cases hcase
  simp only [Line.chars, List.mem_append, List.mem_cons, List.mem_flatMap, not_or]
  refine ⟨newline_notMem_escapeKey _, ?_, by decide, hfields, by decide, htimestamp⟩
  rintro ⟨tag, -, hmem⟩
  simp [tagChars, newline_notMem_escapeKey] at hmem

-- ---- Records

variable {F : Type} [Float64 F] {env : InfluxEnv F} {call : Call F} {nowMillis : Int}

/-- The milliseconds fit in `i64` in a precision. -/
def ScaleFits (precision : String) (millis : Int) : Prop :=
  match precision with
  | "us" => InI64 (millis * 1000)
  | "ns" => InI64 (millis * 1000000)
  | _ => True

theorem scaleTs_ok_iff {precision : String} {millis : Int} :
    (∃ ts, scaleTs precision millis = .ok ts) ↔ ScaleFits precision millis := by
  have hmul : ∀ n, (∃ ts, mulI64 millis n = .ok ts) ↔ InI64 (millis * n) := by
    intro n
    unfold mulI64
    split <;> simp [*]
  unfold scaleTs ScaleFits
  split <;> simp [hmul]

/-- What a call gives has no control characters, and the numbers have none either. -/
structure Call.Writable (env : InfluxEnv F) (call : Call F) : Prop where
  measurement : PrintableText (call.measurement env)
  tags : ∀ tag ∈ call.evaluatedTags env, PrintableText tag.1 ∧ PrintableText tag.2
  keys : ∀ k ∈ call.record.keys, PrintableText k
  strings : ∀ k s, call.record.lookup k = some (.string s) → PrintableText s
  numbers : ∀ f : F, Float64.isFinite f → ∀ c ∈ (env.display f).toList, c.isDigit ∨ c = '-' ∨ c = '.'

structure Call.Separated (env : InfluxEnv F) (call : Call F) (nowMillis : Int) : Prop where
  timestamp : ScaleFits call.precision (call.rawTs nowMillis)
  measurement : Closed (call.measurement env)
  tags : ∀ tag ∈ call.evaluatedTags env, Closed tag.1 ∧ Closed tag.2
  fields : ∀ field ∈ call.lineFields env, Closed field.1

/-- One line, and its parts are read in it. -/
def Call.Splits (env : InfluxEnv F) (call : Call F) (nowMillis : Int) : Prop :=
  ∃ text timestamp, recordToLineProtocol env nowMillis call = .ok (some text) ∧
    '\n' ∉ text.toList ∧ readLine text.toList =
      some ⟨call.measurement env, call.evaluatedTags env, call.lineFields env, timestamp⟩

theorem plain_of_fieldText (h : call.Writable env) {k : String} {text : FieldText}
    (htext : (call.record.lookup k).bind (fieldText env) = some text) : Plain text := by
  obtain ⟨value, hvalue, htext⟩ := Option.bind_eq_some_iff.mp htext
  cases value with
  | null => cases htext
  | array => cases htext
  | object => cases htext
  | bool b =>
    obtain rfl := Option.some.inj htext
    cases b <;> simp [Plain]
  | string s =>
    obtain rfl := Option.some.inj htext
    exact h.strings k s hvalue
  | number n =>
    by_cases hfinite : Float64.isFinite n.asF64
    · obtain rfl := Option.some.inj ((if_pos hfinite).symm.trans htext)
      rintro c hc
      refine (h.numbers _ hfinite c hc).imp_left fun hdigit => ?_
      simp [Char.isAlphanum, hdigit]
    · cases (if_neg hfinite).symm.trans htext

theorem line_writable (h : call.Writable env) (hwrites : call.Writes env) (timestamp : Int) :
    Line.Writable ⟨call.measurement env, call.evaluatedTags env, call.lineFields env, timestamp⟩ := by
  refine ⟨h.measurement, h.tags, ?_, hwrites.2⟩
  rintro ⟨k, text⟩ hmem
  obtain ⟨-, htext⟩ := mem_lineFields.mp hmem
  obtain ⟨value, hvalue, -⟩ := Option.bind_eq_some_iff.mp htext
  have hkey : k ∈ call.record.keys := AList.mem_keys.mp (AList.lookup_isSome.mp (by simp [hvalue]))
  exact ⟨h.keys k hkey, plain_of_fieldText h htext⟩

theorem splits_of_writes (h : call.Writable env) (hwrites : call.Writes env) :
    call.Splits env nowMillis ↔ call.Separated env nowMillis := by
  have hline := @line_of_writes F _ env call nowMillis hwrites
  constructor
  · rintro ⟨text, timestamp, htext, -, hread⟩
    obtain ⟨line, hsome, heq⟩ := bind_eq_ok htext
    rw [hline] at hsome
    cases hts : call.finalTs nowMillis with
    | error stop => cases (congrArg _ hts).symm.trans hsome
    | ok ts =>
      rw [hts] at hsome
      obtain rfl := Except.ok.inj hsome
      obtain rfl := Option.some.inj (Except.ok.inj heq)
      rw [String.toList_ofList] at hread
      obtain ⟨hm, ht, hf⟩ := ((readLine_iff (line_writable h hwrites ts)).mp hread).1
      exact ⟨scaleTs_ok_iff.mp ⟨ts, hts⟩, hm, ht, hf⟩
  · rintro ⟨hfits, hm, ht, hf⟩
    obtain ⟨ts, hts⟩ := scaleTs_ok_iff.mpr hfits
    have hwritable := line_writable h hwrites ts
    let line : Line :=
      ⟨call.measurement env, call.evaluatedTags env, call.lineFields env, ts⟩
    refine ⟨String.ofList line.chars, toString ts, ?_, ?_, ?_⟩
    · rw [recordToLineProtocol, hline, Call.finalTs, hts]
      rfl
    · rw [String.toList_ofList]
      exact newline_notMem_chars hwritable
    · rw [String.toList_ofList]
      exact (readLine_iff hwritable).mpr ⟨⟨hm, ht, hf⟩, rfl⟩

/-- What is written is read again unless a piece of the line ends in a backslash. -/
theorem splits_iff (h : call.Writable env) (nowMillis : Int) :
    (call.Writes env → call.Splits env nowMillis) ↔
      (call.Writes env → call.Separated env nowMillis) :=
  forall_congr' fun hwrites => splits_of_writes h hwrites

def pressureIn (measurement : String) : Call Double :=
  { pressureAt "ms" 0 21 with measurementTemplate := measurement }

theorem pressureIn_measurement {measurement : String}
    (h : ¬['{', '{'] <:+: measurement.toList) :
    (pressureIn measurement).measurement wholeEnv = measurement := if_neg h

theorem pressureIn_lookup {measurement : String} {k : String} {v : Value Double}
    (h : (pressureIn measurement).record.lookup k = some v) :
    k = "ts" ∧ v = .number (.int 0) ∨ k = "v" ∧ v = .number (.int 21) := by
  by_cases hts : k = "ts"
  · subst hts
    exact .inl ⟨rfl, (Option.some.inj ((AList.lookup_insert _).symm.trans h)).symm⟩
  · by_cases hv : k = "v"
    · subst hv
      exact .inr ⟨rfl, (Option.some.inj ((pressure_lookup "ms" 0 21).symm.trans h)).symm⟩
    · rw [pressureIn, pressureAt, AList.lookup_insert_ne hts, AList.lookup_insert_ne hv] at h
      cases h

theorem pressureIn_writable {measurement : String} (hplain : ¬['{', '{'] <:+: measurement.toList)
    (hprint : PrintableText measurement) : (pressureIn measurement).Writable wholeEnv := by
  refine ⟨?_, ?_, ?_, ?_, ?_⟩
  · rw [pressureIn_measurement hplain]
    exact hprint
  · rintro tag htag
    simp [Call.evaluatedTags, pressureIn, pressureAt] at htag
  · rintro k hk
    obtain ⟨v, hv⟩ := Option.isSome_iff_exists.mp (AList.lookup_isSome.mpr (AList.mem_keys.mpr hk))
    rcases pressureIn_lookup hv with ⟨rfl, -⟩ | ⟨rfl, -⟩ <;> simp [PrintableText, Printable]
  · rintro k s hs
    rcases pressureIn_lookup hs with ⟨-, hcase⟩ | ⟨-, hcase⟩ <;> cases hcase
  · rintro f - c hc
    rcases mem_toString hc with hminus | hdigit
    · exact .inr (.inl hminus)
    · exact .inl hdigit

theorem pressure_splits :
    ((pressureIn "a\\b").Writes wholeEnv → (pressureIn "a\\b").Splits wholeEnv 0) ↔
      ((pressureIn "a\\b").Writes wholeEnv → (pressureIn "a\\b").Separated wholeEnv 0) :=
  splits_iff (pressureIn_writable (by decide) (by simp [PrintableText, Printable])) 0

/-- A measurement that ends in a backslash takes the blank after it with it. -/
theorem backslash_joins : (pressureIn "m\\").Writes wholeEnv ∧
    ¬(pressureIn "m\\").Splits wholeEnv 0 := by
  have hplain : ¬['{', '{'] <:+: "m\\".toList := by decide
  have hmeasurement := pressureIn_measurement hplain
  have hwrites : (pressureIn "m\\").Writes wholeEnv := by
    have hfield := (@mem_lineFields_int Double _ wholeEnv (pressureIn "m\\") _ "v" 21
      (pressure_key "ms" 0 21) (pressure_lookup "ms" 0 21) ⟨by decide, by decide⟩ _).mpr rfl
    refine ⟨?_, List.ne_nil_of_mem hfield⟩
    rw [hmeasurement]
    decide
  refine ⟨hwrites, fun h => ?_⟩
  have hwritable := pressureIn_writable hplain (by simp [PrintableText, Printable])
  have hseparated := (splits_of_writes hwritable hwrites).mp h
  have hclosed := hseparated.measurement
  rw [hmeasurement] at hclosed
  exact hclosed (by decide)

end Rekuiper.Connectors.Influx
