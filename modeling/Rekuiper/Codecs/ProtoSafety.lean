import Rekuiper.Codecs.ProtoText

/-!
# The `.proto` parser and character boundaries

The parser moves forward in every pass of its loops and stays on character boundaries, also where
it skips statements byte by byte. It panics in one place: an error about a field shows the first
twenty bytes of what is left, and they may end inside a character.
-/

namespace Rekuiper.Codecs

open Lib Scan

/-- The first twenty bytes of the text are characters, or it has no more. -/
def Showable (text : List Char) : Prop :=
  ∃ shown after, text = shown ++ after ∧ byteLen shown = min (byteLen text) 20

variable {input : List Char} {α : Type}

/-- `Scans`, for a step of the parser -/
abbrev Steps (input : List Char) (P : Nat → Prop) (m : Proto α) (Q : α → Nat → Prop) : Prop :=
  Scans Showable input P m Q

-- ---- The bytes of characters

theorem bytes_length (text : List Char) :
    (text.flatMap String.utf8EncodeChar).length = byteLen text := by
  induction text with
  | nil => rfl
  | cons c text ih => simp [ih]

theorem le_or (x y : UInt8) : y.toNat ≤ (x ||| y).toNat := by
  rw [UInt8.toNat_or]
  exact Nat.right_le_or

theorem bytes_of_longer {c : Char} (hc : c.utf8Size ≠ 1) :
    ∀ b ∈ String.utf8EncodeChar c, 128 ≤ b.toNat := by
  have h80 : ∀ x : UInt8, 128 ≤ (x ||| 0x80).toNat := fun x => le_or x 0x80
  have hc0 : ∀ x : UInt8, 128 ≤ (x ||| 0xc0).toNat := fun x => Nat.le_trans (by decide) (le_or x 0xc0)
  have he0 : ∀ x : UInt8, 128 ≤ (x ||| 0xe0).toNat := fun x => Nat.le_trans (by decide) (le_or x 0xe0)
  have hf0 : ∀ x : UInt8, 128 ≤ (x ||| 0xf0).toNat := fun x => Nat.le_trans (by decide) (le_or x 0xf0)
  have hsize : c.utf8Size = 2 ∨ c.utf8Size = 3 ∨ c.utf8Size = 4 := by
    have := c.utf8Size_pos
    have := c.utf8Size_le_four
    omega
  rcases hsize with h | h | h
  · rw [String.utf8EncodeChar_eq_cons_cons h]
    simp only [List.forall_mem_cons, List.not_mem_nil, false_imp_iff, implies_true, and_true]
    exact ⟨hc0 _, h80 _⟩
  · rw [String.utf8EncodeChar_eq_cons_cons_cons h]
    simp only [List.forall_mem_cons, List.not_mem_nil, false_imp_iff, implies_true, and_true]
    exact ⟨he0 _, h80 _, h80 _⟩
  · rw [String.utf8EncodeChar_eq_cons_cons_cons_cons h]
    simp only [List.forall_mem_cons, List.not_mem_nil, false_imp_iff, implies_true, and_true]
    exact ⟨hf0 _, h80 _, h80 _, h80 _⟩

theorem statementEnd_longer {quoting : Quoting} (hquoting : quoting ≠ .escaped) (pos : Nat)
    {bytes : List UInt8} (h : ∀ b ∈ bytes, 128 ≤ b.toNat) (after : List UInt8) :
    statementEnd quoting pos (bytes ++ after) = statementEnd quoting (pos + bytes.length) after := by
  induction bytes generalizing pos with
  | nil => rfl
  | cons b bytes ih =>
    obtain ⟨hb, hbytes⟩ := List.forall_mem_cons.mp h
    have hne : ∀ n : UInt8, n.toNat < 128 → b ≠ n := by
      rintro n hn rfl
      omega
    rw [List.cons_append]
    cases quoting with
    | code =>
      rw [statementEnd, if_neg (hne 34 (by decide)), if_neg (hne 59 (by decide)),
        if_neg (hne 123 (by decide)), ih (pos + 1) hbytes, List.length_cons]
      congr 1
      omega
    | string =>
      rw [statementEnd, if_neg (hne 92 (by decide)), if_neg (hne 34 (by decide)),
        ih (pos + 1) hbytes, List.length_cons]
      congr 1
      omega
    | escaped => exact absurd rfl hquoting

theorem eq_of_byte {c d : Char} (hc : c.utf8Size = 1) (hd : d.utf8Size = 1)
    (h : c.val.toUInt8 = d.val.toUInt8) : c = d := by
  have hc' := UInt32.le_iff_toNat_le.mp (Char.utf8Size_eq_one_iff.mp hc)
  have hd' := UInt32.le_iff_toNat_le.mp (Char.utf8Size_eq_one_iff.mp hd)
  have hbyte := congrArg UInt8.toNat h
  rw [UInt32.toNat_toUInt8, UInt32.toNat_toUInt8] at hbyte
  have hmax : (127 : UInt32).toNat = 127 := rfl
  exact Char.ext (UInt32.toNat_inj.mp (by omega))

def EndsAt (pos : Nat) (text : List Char) : StatementEnd → Prop
  | .semicolon stop => ∃ before after, text = before ++ ';' :: after ∧ stop = pos + byteLen before
  | .block stop => ∃ before after, text = before ++ '\x7b' :: after ∧ stop = pos + byteLen before
  | .missing => True

theorem EndsAt.cons {pos : Nat} {c : Char} {text : List Char} {found : StatementEnd}
    (h : EndsAt (pos + c.utf8Size) text found) : EndsAt pos (c :: text) found := by
  cases found with
  | semicolon stop | block stop =>
    obtain ⟨before, after, rfl, rfl⟩ := h
    exact ⟨c :: before, after, rfl, by rw [byteLen_cons, Nat.add_assoc]⟩
  | missing => trivial

theorem statementEnd_endsAt (quoting : Quoting) (pos : Nat) (text : List Char) :
    EndsAt pos text (statementEnd quoting pos (text.flatMap String.utf8EncodeChar)) := by
  induction text generalizing quoting pos with
  | nil => cases quoting <;> trivial
  | cons c text ih =>
    rw [List.flatMap_cons]
    by_cases hc : c.utf8Size = 1
    · rw [String.utf8EncodeChar_eq_singleton hc, List.singleton_append]
      have hnext : ∀ quoting, EndsAt pos (c :: text)
          (statementEnd quoting (pos + 1) (text.flatMap String.utf8EncodeChar)) :=
        fun quoting => EndsAt.cons (hc ▸ ih quoting (pos + 1))
      cases quoting with
      | code =>
        rw [statementEnd]
        split
        · exact hnext _
        split
        · rename_i hsemicolon
          obtain rfl : c = ';' := eq_of_byte hc (by decide) hsemicolon
          exact ⟨[], text, rfl, rfl⟩
        split
        · rename_i hbrace
          obtain rfl : c = '\x7b' := eq_of_byte hc (by decide) hbrace
          exact ⟨[], text, rfl, rfl⟩
        · exact hnext _
      | string | escaped => exact hnext _
    · have hbytes := bytes_of_longer hc
      have hlen : (String.utf8EncodeChar c).length = c.utf8Size := String.length_utf8EncodeChar c
      cases quoting with
      | code | string =>
        rw [statementEnd_longer (by simp) pos hbytes, hlen]
        exact EndsAt.cons (ih _ _)
      | escaped =>
        obtain ⟨b, bytes, hb⟩ : ∃ b bytes, String.utf8EncodeChar c = b :: bytes :=
          List.exists_cons_of_ne_nil String.utf8EncodeChar_ne_nil
        rw [hb] at hbytes hlen
        have hstring : statementEnd .string (pos + 1) (bytes ++ text.flatMap String.utf8EncodeChar) =
            statementEnd .string (pos + 1 + bytes.length) (text.flatMap String.utf8EncodeChar) :=
          statementEnd_longer (by simp) (pos + 1) (List.forall_mem_cons.mp hbytes).2 _
        rw [hb, List.cons_append, statementEnd, hstring]
        have hstop : pos + 1 + bytes.length = pos + c.utf8Size := by
          rw [← hlen, List.length_cons]
          omega
        rw [hstop]
        exact EndsAt.cons (ih _ _)

-- ---- The cursor

theorem skipWsStep_steps (p : Nat) (u : Unit) :
    Steps input (p ≤ ·) (skipWsStep u) fun r pos => p + goingOn r ≤ pos := by
  refine Scans.bind Scans.rest fun text => ?_
  match text with
  | [] => exact Scans.pure fun pos h => h.1
  | c :: text =>
    refine Scans.ite (fun _ => ?_) fun _ => Scans.pure fun pos h => h.1
    refine Scans.bind (Q := fun _ pos => p + 1 ≤ pos) ?_ fun _ => Scans.pure fun pos h => h
    refine Scans.advance_text fun pos h => ⟨?_, [c], text, by simp, h.2⟩
    exact Nat.add_le_add h.1 c.utf8Size_pos

theorem skipWs_steps (p : Nat) : Steps input (p ≤ ·) skipWs fun _ pos => p ≤ pos := by
  have hgains : Gains Showable input Anywhere p skipWs fun _ => 0 :=
    Gains.loop (fun u q _ => (skipWsStep_steps q u).pre fun pos h => h.1) ()
  exact (hgains p (Nat.le_refl p)).pre fun pos h => ⟨h, trivial⟩

theorem endReached_steps (p : Nat) : Steps input (p ≤ ·) endReached fun ended pos =>
    p ≤ pos ∧ (ended = false → pos < byteLen input) :=
  Scans.bind (skipWs_steps p) fun _ => Scans.atEnd.post fun _ _ h => ⟨h.1, h.2.2⟩

theorem upTo_steps {P : Nat → Prop} {text head : List Char} (h : head <+: text) :
    Steps input (fun pos => P pos ∧ RestAt input pos text) (upTo text (byteLen head))
      fun shown pos => P pos ∧ ∃ after, RestAt input pos (shown ++ after) ∧
        byteLen shown = byteLen head := by
  obtain ⟨after, rfl⟩ := h
  refine (Scans.upTo fun _ _ => ⟨head, after, rfl, rfl⟩).post fun shown pos h => ?_
  obtain ⟨⟨hP, hrest⟩, hlen, after', hsplit⟩ := h
  exact ⟨hP, after', hsplit ▸ hrest, hlen⟩

theorem protoExpectChar_steps (p : Nat) (c : Char) : Steps input (p ≤ ·) (protoExpectChar c)
    fun found pos => p ≤ pos ∧ (found = true → p < pos) := by
  refine Scans.bind (skipWs_steps p) fun _ => Scans.bind Scans.rest fun text => ?_
  refine Scans.ite (fun hhead => ?_) fun _ => Scans.pure fun pos h => ⟨h.1, nofun⟩
  refine Scans.bind (Q := fun _ pos => p < pos) (Scans.advance_text fun pos h => ?_) fun _ =>
    Scans.pure fun pos h => ⟨Nat.le_of_lt h, fun _ => h⟩
  cases text with
  | nil => cases hhead
  | cons c' text =>
    obtain rfl : c' = c := Option.some.inj (eq_of_beq hhead)
    refine ⟨?_, [c'], text, by simp, h.2⟩
    have := c'.utf8Size_pos
    have := h.1
    omega

theorem blockEnd_spec {depth : Nat} {quoting : Quoting} {text : List Char} {i : Nat}
    (h : blockEnd depth quoting text = some i) :
    ∃ inner after, text = inner ++ '\x7d' :: after ∧ byteLen inner = i := by
  induction text generalizing depth quoting i with
  | nil => cases quoting <;> simp [blockEnd] at h
  | cons c text ih =>
    have hcons : ∀ {depth quoting}, (blockEnd depth quoting text).map (c.utf8Size + ·) = some i →
        ∃ inner after, c :: text = inner ++ '\x7d' :: after ∧ byteLen inner = i := by
      intro depth quoting hmap
      obtain ⟨j, hj, rfl⟩ := Option.map_eq_some_iff.mp hmap
      obtain ⟨inner, after, rfl, rfl⟩ := ih hj
      exact ⟨c :: inner, after, rfl, rfl⟩
    cases quoting with
    | escaped | string => exact hcons h
    | code =>
      rw [blockEnd] at h
      split at h
      · rename_i hc
        subst hc
        split at h
        · cases h
          exact ⟨[], text, rfl, rfl⟩
        · exact hcons h
      · exact hcons h

theorem consumeBlock_steps (p : Nat) : Steps input (p ≤ ·) consumeBlock fun block pos =>
    p ≤ pos ∧ ∀ inner ∈ block, p < pos ∧ byteLen inner < byteLen input := by
  refine Scans.bind (protoExpectChar_steps p _) fun found => ?_
  refine Scans.ite (fun _ => Scans.pure fun pos h => ⟨h.1, nofun⟩) fun hfound => ?_
  have hfound : found = true := by simpa using hfound
  refine Scans.bind Scans.rest fun text => ?_
  cases hend : blockEnd 1 .code text with
  | none => exact Scans.pure fun pos h => ⟨h.1.1, nofun⟩
  | some i =>
    obtain ⟨inner, after, rfl, rfl⟩ := blockEnd_spec hend
    refine Scans.bind (Scans.upTo fun _ _ => ⟨inner, _, rfl, rfl⟩) fun shown => ?_
    refine Scans.bind (Q := fun _ pos => p < pos ∧ byteLen shown < byteLen input)
      (Scans.advance_text fun pos h => ?_) fun _ => Scans.pure fun pos h =>
        ⟨Nat.le_of_lt h.1, fun _ hinner => by cases hinner; exact h⟩
    obtain ⟨⟨⟨hp, hmoved⟩, hrest⟩, hlen, -⟩ := h
    have hpos := hmoved hfound
    have htotal := hrest.length
    have hbrace : ('\x7d' : Char).utf8Size = 1 := by decide
    rw [byteLen_append, byteLen_cons, hbrace] at htotal
    refine ⟨⟨by omega, by omega⟩, inner ++ ['\x7d'], after, ?_, ?_⟩
    · rw [byteLen_append, byteLen_cons, hbrace, byteLen_nil]
    · simpa using hrest

theorem skipStatement_steps (p : Nat) : Steps input (p ≤ ·) skipStatement fun _ pos =>
    p ≤ pos ∧ (p < byteLen input → p < pos) := by
  have hend : ∃ rest, RestAt input (byteLen input) rest := ⟨[], input, by simp, rfl⟩
  refine Scans.bind (skipWs_steps p) fun _ => ?_
  refine Scans.bind (Q := fun s pos => p ≤ pos ∧ s.input = input ∧ s.pos = pos ∧
    ∃ rest, RestAt input s.pos rest) (fun s sound pre => .ok sound ⟨pre, sound.same, rfl, sound.pos⟩)
      fun s => ?_
  refine Scans.given (φ := p ≤ s.pos ∧ s.input = input ∧ ∃ rest, RestAt input s.pos rest)
    (fun pos h => ⟨h.2.2.1 ▸ h.1, h.2.1, h.2.2.2⟩) fun hs => ?_
  obtain ⟨hp, hinput, text, htext⟩ := hs
  have hlen := htext.length
  have hbytes : (s.input.flatMap String.utf8EncodeChar).drop s.pos =
      text.flatMap String.utf8EncodeChar := by
    obtain ⟨before, hsplit, hbefore⟩ := htext
    rw [hinput, hsplit, List.flatMap_append, ← hbefore, ← bytes_length, List.drop_left]
  rw [hbytes, hinput]
  have hfound := statementEnd_endsAt .code s.pos text
  generalize statementEnd .code s.pos (text.flatMap String.utf8EncodeChar) = found at hfound
  cases found with
  | missing => exact Scans.seek hend ⟨by omega, id⟩
  | semicolon stop =>
    obtain ⟨before, after, rfl, rfl⟩ := hfound
    exact Scans.seek ⟨after, htext.skip.skip_char⟩ ⟨by omega, fun _ => by omega⟩
  | block stop =>
    obtain ⟨before, after, rfl, rfl⟩ := hfound
    refine Scans.bind (Q := fun _ pos => p ≤ pos) (Scans.seek ⟨_, htext.skip⟩ (by omega)) fun _ => ?_
    refine Scans.bind (consumeBlock_steps p) fun block => ?_
    cases block with
    | none => exact Scans.seek hend ⟨by omega, id⟩
    | some inner =>
      exact Scans.pure fun pos h => ⟨h.1, fun _ => (h.2 inner rfl).1⟩

-- ---- Identifiers and fields

variable [ProtoChars]

theorem leadingIdent_begins (text : List Char) : leadingIdent text <+: text := by
  cases text with
  | nil => exact List.prefix_refl []
  | cons c text =>
    rw [leadingIdent]
    split
    · exact List.cons_prefix_cons.mpr ⟨rfl, List.takeWhile_prefix _⟩
    · exact List.nil_prefix

theorem consumeIdent_steps (p : Nat) : Steps input (p ≤ ·) consumeIdent fun ident pos =>
    p ≤ pos ∧ (ident.isSome → p < pos) := by
  refine Scans.bind (skipWs_steps p) fun _ => Scans.bind Scans.rest fun text => ?_
  refine Scans.ite (fun _ => Scans.pure fun pos h => ⟨h.1, nofun⟩) fun hstop => ?_
  refine Scans.bind (upTo_steps (leadingIdent_begins text)) fun ident => ?_
  refine Scans.bind (Q := fun _ pos => p < pos) (Scans.advance_text fun pos h => ?_) fun _ =>
    Scans.pure fun pos h => ⟨Nat.le_of_lt h, fun _ => h⟩
  obtain ⟨hp, after, hrest, hlen⟩ := h
  exact ⟨by omega, ident, after, hlen, hrest⟩

omit [ProtoChars] in
theorem orFail_steps {P : Nat → Prop} (value : Option α) (message : String) :
    Steps input P (orFail value message) fun a pos => P pos ∧ value = some a := by
  cases value with
  | none => exact Scans.fail
  | some a => exact Scans.pure fun pos h => ⟨h, rfl⟩

/-- The error panics exactly if the bytes that it shows end inside a character. -/
theorem failFieldDeclaration_steps {P : Nat → Prop} {Q : String → Nat → Prop} (name : String) :
    Steps input P (failFieldDeclaration name) Q := by
  refine Scans.bind Scans.rest fun text => ?_
  by_cases hshow : Showable text
  · obtain ⟨shown, after, hsplit, hlen⟩ := hshow
    refine Scans.note ⟨shown, after, hsplit, hlen⟩ ?_
    exact Scans.bind (Scans.upTo fun _ _ => ⟨shown, after, hsplit, hlen⟩) fun _ => Scans.fail
  · refine Scans.note_panic hshow fun s _ _ => ⟨s, ?_, List.Subset.refl _⟩
    have hslice : sliceTo text (min (byteLen text) 20) = none := by
      refine Option.eq_none_iff_forall_ne_some.mpr fun shown hshown => hshow ?_
      obtain ⟨after, hsplit, hlen⟩ := sliceTo_eq_some hshown
      exact ⟨shown, after, hsplit, hlen⟩
    rw [Scan.upTo, hslice]
    rfl

omit [ProtoChars] in
theorem parseFieldNumber_steps (p : Nat) (name fieldName : String) :
    Steps input (p ≤ ·) (parseFieldNumber name fieldName) fun _ pos => p ≤ pos := by
  refine Scans.bind ((protoExpectChar_steps p _).post fun _ _ h => h.1) fun found => ?_
  refine Scans.ite (fun _ => Scans.fail) fun _ => ?_
  refine Scans.bind (skipWs_steps p) fun _ => Scans.bind Scans.rest fun text => ?_
  refine Scans.ite (fun _ => Scans.fail) fun _ => ?_
  refine Scans.bind (upTo_steps (List.takeWhile_prefix _)) fun digits => ?_
  refine Scans.bind (orFail_steps _ _) fun number => ?_
  refine Scans.bind (Q := fun _ pos => p ≤ pos) (Scans.advance_text fun pos h => ?_) fun _ => ?_
  · obtain ⟨⟨hp, after, hrest, hlen⟩, -⟩ := h
    exact ⟨Nat.le_add_right_of_le hp, digits, after, hlen, hrest⟩
  · exact Scans.bind (skipStatement_steps p) fun _ => Scans.pure fun _ h => h.1

theorem fieldType_steps (p : Nat) (name first : String) :
    Steps input (p ≤ ·) (fieldType name first) fun _ pos => p ≤ pos := by
  refine Scans.ite (fun _ => ?_) fun _ => Scans.pure fun pos h => h
  exact Scans.bind ((consumeIdent_steps p).post fun _ _ h => h.1) fun found =>
    (orFail_steps found _).post fun _ _ h => h.1

theorem parseField_steps (p : Nat) (name : String) (msg : ProtoMessage) :
    Steps input (p ≤ ·) (parseField name msg) fun _ pos => p < pos := by
  refine Scans.bind (consumeIdent_steps p) fun ident => ?_
  refine Scans.bind (Q := fun _ pos => p + 1 ≤ pos) ?_ fun first => ?_
  · cases ident with
    | none => exact failFieldDeclaration_steps name
    | some first => exact Scans.pure fun pos h => h.2 rfl
  refine Scans.bind (fieldType_steps (p + 1) name first) fun typeName => ?_
  refine Scans.ite (fun _ => ?_) fun _ => ?_
  · exact Scans.bind (skipStatement_steps (p + 1)) fun _ => Scans.pure fun _ h => h.1
  · refine Scans.bind ((consumeIdent_steps (p + 1)).post fun _ _ h => h.1) fun found => ?_
    refine Scans.bind ((orFail_steps found _).post fun _ _ h => h.1) fun fieldName => ?_
    exact Scans.bind (parseFieldNumber_steps (p + 1) name fieldName) fun _ => Scans.pure fun _ h => h

-- ---- Messages

omit [ProtoChars] in
theorem looksAtKeyword_steps {P : Nat → Prop} (keyword : String) :
    Steps input P (looksAtKeyword keyword) fun _ => P :=
  Scans.bind Scans.rest fun _ => Scans.pure fun _ h => h.1

theorem skipDefinition_steps (p : Nat) (hp : p < byteLen input) :
    Steps input (p ≤ ·) skipDefinition fun _ pos => p < pos := by
  refine Scans.bind ((consumeIdent_steps p).post fun _ _ h => h.1) fun _ => ?_
  refine Scans.bind ((consumeIdent_steps p).post fun _ _ h => h.1) fun _ => ?_
  refine Scans.bind (consumeBlock_steps p) fun block => ?_
  cases block with
  | none => exact ((skipStatement_steps p).pre fun _ h => h.1).post fun _ _ h => h.2 hp
  | some inner => exact Scans.pure fun _ h => (h.2 inner rfl).1

def SafeBelow (input : List Char) (nested : String → Proto ProtoMessage) : Prop :=
  ∀ inner, byteLen inner < byteLen input → ∀ name,
    Steps inner (· = 0) (nested name) fun _ _ => True

theorem parseMessage_steps {body : String → Proto ProtoMessage} (hbody : SafeBelow input body)
    (p : Nat) (missing : String) (unclosed : String → String) :
    Steps input (p ≤ ·) (parseMessage body missing unclosed) fun _ pos => p < pos := by
  refine Scans.bind ((consumeIdent_steps p).post fun _ _ h => h.1) fun found => ?_
  refine Scans.bind ((orFail_steps found _).post fun _ _ h => h.1) fun name => ?_
  refine Scans.bind (consumeBlock_steps p) fun block => ?_
  refine Scans.bind (orFail_steps block _) fun inner => ?_
  refine Scans.given (φ := byteLen inner < byteLen input)
    (fun pos h => (h.1.2 inner h.2).2) fun hinner => ?_
  refine Scans.bind (Scans.within (hbody inner hinner name)) fun parsed => ?_
  exact Scans.pure fun pos h => (h.1.1.2 inner h.1.2).1

theorem bodyStep_steps {nested : String → Proto ProtoMessage} (hnested : SafeBelow input nested)
    (p : Nat) (name : String) (msg : ProtoMessage) :
    Steps input (p ≤ ·) (bodyStep nested name msg) fun r pos => p + goingOn r ≤ pos := by
  refine Scans.bind (endReached_steps p) fun ended => ?_
  refine Scans.ite (fun _ => Scans.pure fun _ h => h.1) fun hended => ?_
  refine Scans.given (φ := p < byteLen input)
    (fun pos h => Nat.lt_of_le_of_lt h.1 (h.2 (Bool.eq_false_iff.mpr hended))) fun hp => ?_
  refine Scans.pre ?_ fun pos h => h.1
  refine Scans.bind (looksAtKeyword_steps _) fun message => ?_
  refine Scans.ite (fun _ => ?_) fun _ => ?_
  · refine Scans.bind ((consumeIdent_steps p).post fun _ _ h => h.1) fun _ => ?_
    exact Scans.bind (parseMessage_steps hnested p _ _) fun _ => Scans.pure fun _ h => h
  refine Scans.bind (looksAtKeyword_steps _) fun enum => ?_
  refine Scans.ite (fun _ => ?_) fun _ => ?_
  · exact Scans.bind (skipDefinition_steps p hp) fun _ => Scans.pure fun _ h => h
  refine Scans.bind (looksAtKeyword_steps _) fun oneof => ?_
  refine Scans.ite (fun _ => ?_) fun _ => ?_
  · exact Scans.bind (skipDefinition_steps p hp) fun _ => Scans.pure fun _ h => h
  · exact Scans.bind (parseField_steps p name msg) fun _ => Scans.pure fun _ h => h

theorem parseMessageBody_steps (depth : Nat) (hdepth : byteLen input < depth) (name : String) :
    Steps input (· = 0) (parseMessageBody depth name) fun _ _ => True := by
  induction depth generalizing input name with
  | zero => exact absurd hdepth (Nat.not_lt_zero _)
  | succ depth ih =>
    have hnested : SafeBelow input (parseMessageBody depth) := fun inner hinner =>
      ih (by omega)
    have hloop : Gains Showable input Anywhere 0
        (loop (bodyStep (parseMessageBody depth) name) ⟨[], []⟩) fun _ => 0 :=
      Gains.loop (fun msg p _ => (bodyStep_steps hnested p name msg).pre fun _ h => h.1) ⟨[], []⟩
    exact (hloop 0 (Nat.le_refl 0)).mono (fun pos h => ⟨Nat.zero_le pos, trivial⟩) fun _ _ _ => trivial

theorem protoStep_steps {depth : Nat} (hdepth : byteLen input ≤ depth) (p : Nat)
    (messages : List (String × ProtoMessage)) :
    Steps input (p ≤ ·) (protoStep depth messages) fun r pos => p + goingOn r ≤ pos := by
  have hnested : SafeBelow input (parseMessageBody depth) := fun inner hinner name =>
    parseMessageBody_steps depth (Nat.lt_of_lt_of_le hinner hdepth) name
  refine Scans.bind (endReached_steps p) fun ended => ?_
  refine Scans.ite (fun _ => Scans.pure fun _ h => h.1) fun hended => ?_
  refine Scans.given (φ := p < byteLen input)
    (fun pos h => Nat.lt_of_le_of_lt h.1 (h.2 (Bool.eq_false_iff.mpr hended))) fun hp => ?_
  refine Scans.pre ?_ fun pos h => h.1
  refine Scans.bind (consumeIdent_steps p) fun ident => ?_
  split
  · exact Scans.bind ((parseMessage_steps hnested p _ _).pre fun _ h => h.1) fun _ =>
      Scans.pure fun _ h => h
  · exact Scans.bind ((skipStatement_steps p).pre fun _ h => h.1) fun _ =>
      Scans.pure fun _ h => h.2 hp
  · exact Scans.pure fun _ h => h.1

-- ---- Runs

/-- From every state of a cursor that is sound, a pass of a loop moves on if the loop goes on. -/
def Progresses {β γ : Type} (step : β → Proto (β ⊕ γ)) (s : Scanner (List Char)) : Prop :=
  Sound Showable s.input s → ∀ b b' s', (step b).go s = (.ok (.inl b'), s') → s.pos < s'.pos

omit [ProtoChars] in
theorem progresses_of_steps {β γ : Type} {step : β → Proto (β ⊕ γ)} {s : Scanner (List Char)}
    (h : ∀ b, Steps s.input (s.pos ≤ ·) (step b) fun r pos => s.pos + goingOn r ≤ pos) :
    Progresses step s := by
  intro sound b b' s' hgo
  have hends := h b s sound (Nat.le_refl _)
  rw [hgo] at hends
  cases hends with
  | ok _ post => exact post

/-- The parser returns `Ok` or `Err`, its cursor is on a character boundary within the text all the
time, and every pass of its loops moves the cursor on or returns. -/
structure ParsesSafely (text : List Char) : Prop where
  returns : ∀ stop, (parseProto text).1 = .error stop → ∃ message, stop = .fail message
  boundaries : ∀ pos ∈ (parseProto text).2.trail,
    ∃ rest, RestAt (stripProtoComments text) pos rest
  outer : ∀ (depth : Nat) (s : Scanner (List Char)), byteLen s.input ≤ depth →
    Progresses (protoStep depth) s
  inner : ∀ (depth : Nat) (name : String) (s : Scanner (List Char)), byteLen s.input ≤ depth →
    Progresses (bodyStep (parseMessageBody depth) name) s

/-- Every text is safe to show at which the run finds no field where one has to begin. -/
def ShowsWhole (text : List Char) : Prop := ∀ left ∈ (parseProto text).2.notes, Showable left

/-- The parser is safe on a text exactly if no error about a field has to show bytes that end
inside a character. -/
theorem parseProto_safe_iff (text : List Char) : ParsesSafely text ↔ ShowsWhole text := by
  have houter : ∀ (depth : Nat) (s : Scanner (List Char)), byteLen s.input ≤ depth →
      Progresses (protoStep depth) s :=
    fun depth s hdepth => progresses_of_steps fun messages => protoStep_steps hdepth s.pos messages
  have hinner : ∀ (depth : Nat) (name : String) (s : Scanner (List Char)), byteLen s.input ≤ depth →
      Progresses (bodyStep (parseMessageBody depth) name) s := by
    refine fun depth name s hdepth => progresses_of_steps fun msg => bodyStep_steps ?_ s.pos name msg
    exact fun inner hinner => parseMessageBody_steps depth (Nat.lt_of_lt_of_le hinner hdepth)
  have hloop : Gains Showable (stripProtoComments text) Anywhere 0
      (loop (protoStep (byteLen (stripProtoComments text))) []) fun _ => 0 :=
    Gains.loop (fun messages p _ => (protoStep_steps (Nat.le_refl _) p messages).pre fun _ h => h.1) []
  have hends := hloop.from_pos (Nat.le_refl 0) (Scanner.new _) Sound.start (Nat.zero_le _)
  change Ends Showable (stripProtoComments text) _ (parseProto text) at hends
  unfold ShowsWhole
  constructor
  · rintro ⟨hreturns, -, -, -⟩
    generalize parseProto text = result at hends hreturns
    cases hends with
    | ok sound _ => exact sound.notes
    | fail sound => exact sound.notes
    | panic _ =>
      obtain ⟨message, hmessage⟩ := hreturns .panic rfl
      cases hmessage
  · intro hnotes
    have hsound : (∀ stop, (parseProto text).1 = .error stop → ∃ message, stop = .fail message) ∧
        ∀ pos ∈ (parseProto text).2.trail, ∃ rest, RestAt (stripProtoComments text) pos rest := by
      generalize parseProto text = result at hends hnotes
      cases hends with
      | ok sound _ => exact ⟨nofun, sound.trail⟩
      | fail sound => exact ⟨fun _ hstop => ⟨_, (Except.error.inj hstop).symm⟩, sound.trail⟩
      | panic noted =>
        obtain ⟨left, hleft, hshow⟩ := noted
        exact absurd (hnotes left hleft) hshow
    exact ⟨hsound.1, hsound.2, houter, hinner⟩

/-- What is known of characters where only ASCII occurs in words. -/
@[reducible] def asciiProto : ProtoChars where
  isAlphabetic := Char.isAlpha
  isAlphanumeric := Char.isAlphanum
  debug s := s

omit [ProtoChars] in
/-- The error shows the first of two bytes of a character. -/
theorem field_error_panics :
    ¬@ParsesSafely asciiProto "message A \x7b 1234567890123456789é \x7d".toList := by
  rintro ⟨hreturns, -, -, -⟩
  have hpanic : (match (@parseProto asciiProto "message A \x7b 1234567890123456789é \x7d".toList).1 with
      | .error stop => stop == .panic
      | .ok _ => false) = true := by decide +kernel
  split at hpanic
  · rename_i stop hstop
    obtain ⟨message, rfl⟩ := hreturns stop hstop
    cases hpanic
  · cases hpanic

end Rekuiper.Codecs
