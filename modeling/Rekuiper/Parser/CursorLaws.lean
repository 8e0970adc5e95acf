import Mathlib.Data.List.DropRight
import Rekuiper.Parser.Plain

/-!
# Laws of the cursor

What each helper of the cursor does to the position, for texts that are plain where the parser reads
them byte by byte.
-/

namespace Rekuiper.Parser

open Lib Scan

/-- Nothing in the text can make the scan panic that begins there. -/
def Read.Plain : Read → Prop
  | .quoted text => PlainQuoted text
  | .columnType text => plainType text = true

variable {α : Type} {input : List Char} {K : Nat → Prop} {p₀ : Nat}

/-- `Gains`, for a step of the parser. -/
abbrev Parses (input : List Char) (K : Nat → Prop) (p₀ : Nat) (m : P α) (gain : α → Nat) : Prop :=
  Gains Read.Plain input K p₀ m gain

-- ---- Blanks and characters

theorem whitespaceLen_eq (text : List Char) :
    whitespaceLen text = byteLen (text.takeWhile isWhitespace) := by
  induction text with
  | nil => rfl
  | cons c text ih =>
    rw [whitespaceLen, List.takeWhile_cons]
    split
    · rw [ih, byteLen_cons]
    · rfl

theorem skipWhitespace_scans (text : List Char) (p : Nat) :
    Scans Read.Plain input (fun pos => p ≤ pos ∧ RestAt input pos text) skipWhitespace
      fun _ pos => p ≤ pos ∧ RestAt input pos (text.dropWhile isWhitespace) := by
  refine Scans.bind Scans.atEnd fun ended => ?_
  cases ended with
  | true =>
    refine Scans.pure fun pos h => ?_
    obtain rfl := h.1.2.unique (h.2.1 rfl)
    exact h.1
  | false =>
    refine Scans.bind Scans.rest fun text' => Scans.advance_text fun pos h => ?_
    obtain rfl := h.1.1.2.unique h.2
    have hsplit := List.takeWhile_append_dropWhile (p := isWhitespace) (l := text)
    rw [whitespaceLen_eq]
    rw [← hsplit] at h
    refine ⟨⟨Nat.le_add_right_of_le h.1.1.1, h.2.skip⟩, _, _, rfl, h.2⟩

theorem skipWhitespace_parses : Parses input K p₀ skipWhitespace fun _ => 0 := by
  refine fun p _ => Scans.at_pos fun pos h s sound hpos => ?_
  obtain ⟨text, htext⟩ := sound.pos
  exact (skipWhitespace_scans text p s sound ⟨hpos ▸ h.1, htext⟩).mono fun _ _ h => h.1

theorem looksAt_reads (c : Char) : Reads Read.Plain input (looksAt c) fun found pos =>
    found = true → ∃ text, RestAt input pos (c :: text) := fun _ => Scans.looksAt c

theorem atEnd_reads : Reads Read.Plain input atEnd fun _ _ => True :=
  fun _ => Scans.atEnd.post fun _ _ h => ⟨h.1, trivial⟩

theorem expectChar_parses {c : Char} : Parses input K p₀ (expectChar c) fun _ => 1 := by
  refine Gains.stay skipWhitespace_parses fun _ =>
    Gains.test (looksAt_reads c) ?_ Gains.fail
  refine Gains.advance_text c.utf8Size_pos fun pos h => ?_
  obtain ⟨text, htext⟩ := h.2 rfl
  exact ⟨[c], text, rfl, htext⟩

def AtToken (input : List Char) (pos : Nat) : Prop :=
  ∃ text, RestAt input pos text ∧ text.dropWhile isWhitespace = text

theorem skipWhitespace_parses_then {f : Unit → P α} {gain : α → Nat}
    (hf : Parses input (AtToken input) p₀ (f ()) gain) :
    Parses input K p₀ (skipWhitespace >>= f) gain := by
  refine fun p hp s sound pre => ?_
  obtain ⟨text, htext⟩ := sound.pos
  refine Scans.bind (skipWhitespace_scans text p) (fun _ => (hf p hp).pre fun pos h => ?_) s sound
    ⟨pre.1, htext⟩
  exact ⟨h.1, _, h.2, List.dropWhile_idempotent _ _⟩

-- ---- Names

theorem plainQuoted_nil : PlainQuoted [] := fun _ h => nomatch h

theorem plainQuoted_cons {c : Char} {text : List Char} :
    PlainQuoted (c :: text) ↔ c = '\x60' ∨ c.utf8Size = 1 ∧ PlainQuoted text := by
  unfold PlainQuoted
  rw [List.takeWhile_cons]
  by_cases hc : c = '\x60'
  · simp [hc]
  · simp [hc]

theorem scanBacktickStep_goes {s : Scanner Read} {c : Char} {text : List Char}
    (htext : RestAt s.input s.pos (c :: text)) (hc : c ≠ '\x60') :
    (scanBacktickStep ()).go s =
      (.ok (.inl ()), { s with pos := s.pos + 1, trail := s.trail ++ [s.pos + 1] }) := by
  have hlen := htext.length
  have hpos := c.utf8Size_pos
  rw [byteLen_cons] at hlen
  rw [scanBacktickStep, go_bind, go_atEnd, decide_eq_false (by omega)]
  change (rest >>= _).go s = _
  rw [go_bind, go_rest htext]
  change (if (some c == some '\x60') = true then _ else _ : P (Unit ⊕ Unit)).go s = _
  rw [Option.some_beq_some, beq_eq_false_iff_ne.mpr hc]
  rfl

theorem scanBacktickStep_panics {s : Scanner Read} (hend : s.pos < byteLen s.input)
    (hslice : sliceFrom s.input s.pos = none) :
    (scanBacktickStep ()).go s = (.error .panic, s) := by
  rw [scanBacktickStep, go_bind, go_atEnd, decide_eq_false (Nat.not_le.mpr hend)]
  change (rest >>= _).go s = _
  rw [go_bind, go_rest_panic hslice]

theorem scanBacktick_panics {text : List Char} (hplain : ¬PlainQuoted text) {fuel : Nat}
    {s : Scanner Read} (htext : RestAt s.input s.pos text) (hfuel : byteLen text < fuel) :
    ∃ s', (repeatFor scanBacktickStep fuel ()).go s = (.error .panic, s') ∧ s.notes ⊆ s'.notes := by
  induction text generalizing fuel s with
  | nil => exact absurd plainQuoted_nil hplain
  | cons c text ih =>
    rw [plainQuoted_cons, not_or] at hplain
    obtain ⟨hc, hplain⟩ := hplain
    have hpos := c.utf8Size_pos
    have hlen := htext.length
    rw [byteLen_cons] at hlen hfuel
    obtain ⟨fuel, rfl⟩ := Nat.exists_eq_succ_of_ne_zero (by omega : fuel ≠ 0)
    rw [repeatFor, go_bind, scanBacktickStep_goes htext hc]
    by_cases hsize : c.utf8Size = 1
    · have hnext := htext.skip_char
      rw [hsize] at hnext
      exact ih (fun h => hplain ⟨hsize, h⟩) hnext (by omega)
    · obtain ⟨fuel, rfl⟩ := Nat.exists_eq_succ_of_ne_zero (by omega : fuel ≠ 0)
      obtain ⟨before, happ, hbefore⟩ := htext
      have hinside : sliceFrom s.input (s.pos + 1) = none := by
        rw [happ, ← hbefore]
        exact sliceFrom_inside before text Nat.one_pos (by omega)
      have hend : s.pos + 1 < byteLen s.input := by omega
      refine ⟨{ s with pos := s.pos + 1, trail := s.trail ++ [s.pos + 1] }, ?_, List.Subset.refl _⟩
      simp only
      rw [repeatFor, go_bind, scanBacktickStep_panics hend hinside]

/-- The bytes from a position on are those of some text before a rest of `text`. -/
def Within (text rest : List Char) (start pos : Nat) : Prop :=
  ∃ name, text = name ++ rest ∧ pos = start + byteLen name

theorem scanBacktick_scans {start : Nat} {text : List Char} (htext : RestAt input start text)
    (hplain : PlainQuoted text) (p : Nat) :
    Scans Read.Plain input (fun pos => p ≤ pos ∧ pos = start) scanBacktick fun _ pos =>
      p ≤ pos ∧ ∃ rest, Within text rest start pos ∧ (rest ≠ [] → ∃ rest', rest = '\x60' :: rest') := by
  let I : Nat → Prop := fun pos => ∃ rest, Within text rest start pos ∧ PlainQuoted rest
  refine (Scans.loop (I := I) (R := fun _ pos => p ≤ pos ∧ ∃ rest, Within text rest start pos ∧
    (rest ≠ [] → ∃ rest', rest = '\x60' :: rest')) (fun _ p' hp' => ?_) ()).pre fun pos h =>
    ⟨h.1, text, ⟨[], rfl, h.2⟩, hplain⟩
  have hrest : ∀ pos rest rest', Within text rest start pos → RestAt input pos rest' → rest = rest' := by
    rintro pos rest rest' ⟨name, rfl, rfl⟩ h
    exact htext.skip.unique h
  refine Scans.bind Scans.atEnd fun ended => ?_
  cases ended with
  | true =>
    refine Scans.pure fun pos h => ⟨Nat.le_trans hp' h.1.1, ?_⟩
    obtain ⟨rest, hwithin, -⟩ := h.1.2
    obtain rfl := hrest pos rest [] hwithin (h.2.1 rfl)
    exact ⟨[], hwithin, fun h => absurd rfl h⟩
  | false =>
    refine Scans.bind Scans.rest fun rest => Scans.ite (fun hc => ?_) fun hc => ?_
    · refine Scans.pure fun pos h => ⟨Nat.le_trans hp' h.1.1.1, ?_⟩
      obtain ⟨rest', hwithin, -⟩ := h.1.1.2
      obtain rfl := hrest pos rest' rest hwithin h.2
      refine ⟨rest', hwithin, fun _ => ?_⟩
      obtain ⟨rest, rfl⟩ := List.head?_eq_some_iff.mp (eq_of_beq hc)
      exact ⟨rest, rfl⟩
    · refine Scans.bind (Scans.advance_text fun pos h => ?_) fun _ => Scans.pure fun _ h => h
      obtain ⟨rest', hwithin, hplain'⟩ := h.1.1.2
      obtain rfl := hrest pos rest' rest hwithin h.2
      have hend := h.1.2.2 rfl
      cases rest' with
      | nil => exact absurd h.2.length (Nat.ne_of_gt hend)
      | cons c rest' =>
        have hne : c ≠ '\x60' := by
          rintro rfl
          exact hc rfl
        obtain ⟨hsize, hplain'⟩ := (plainQuoted_cons.mp hplain').resolve_left hne
        obtain ⟨name, rfl, rfl⟩ := hwithin
        refine ⟨⟨Nat.lt_succ_of_le h.1.1.1, rest', ⟨name ++ [c], ?_, ?_⟩, hplain'⟩,
          [c], rest', by rw [byteLen_cons, hsize, byteLen_nil], h.2⟩
        · rw [List.append_assoc]
          rfl
        · rw [byteLen_append, byteLen_cons, hsize, byteLen_nil, Nat.add_assoc]

theorem parseBacktickIdentifier_parses :
    Parses input K p₀ parseBacktickIdentifier fun _ => 1 := by
  refine Gains.stay skipWhitespace_parses fun _ => Gains.read (looksAt_reads _) fun found => ?_
  cases found with
  | false => exact Gains.fail
  | true =>
    refine Gains.advance_char rfl (fun _ h => h.2 rfl) (fun p hp => ?_)
    refine Scans.bind Scans.position fun start => Scans.bind Scans.rest fun text => ?_
    refine Scans.at_pos fun pos h => ?_
    obtain ⟨⟨hpre, rfl, hstart⟩, htext⟩ := h
    by_cases hplain : PlainQuoted text
    · refine Scans.note (r := Read.quoted text) hplain ?_
      refine Scans.bind ((scanBacktick_scans htext hplain p).pre fun pos h => ⟨h ▸ hpre.1, h⟩)
        fun _ => Scans.bind Scans.atEnd fun ended => ?_
      cases ended with
      | true => exact Scans.fail
      | false =>
        refine Scans.bind (Scans.textSince fun pos h => ?_) fun name =>
          Scans.bind (Scans.advance_text fun pos h => ?_) fun _ => Scans.pure fun _ h => h
        · obtain ⟨rest, ⟨name, rfl, hpos⟩, -⟩ := h.1.2
          exact ⟨name, rest, htext, hpos⟩
        · obtain ⟨⟨hle, rest, ⟨name, rfl, rfl⟩, hclose⟩, -, hend⟩ := h
          have hrest := htext.skip
          have hne : rest ≠ [] := by
            rintro rfl
            exact absurd hrest.length (Nat.ne_of_gt (hend rfl))
          obtain ⟨rest, rfl⟩ := hclose hne
          exact ⟨Nat.le_succ_of_le hle, ['\x60'], rest, rfl, hrest⟩
    · refine Scans.note_panic (r := Read.quoted text) hplain fun s hs hpos => ?_
      subst hs hpos
      have hlen := htext.length
      obtain ⟨s', hgo, hnotes⟩ := scanBacktick_panics hplain htext
        (show byteLen text < byteLen s.input + 1 - s.pos by omega)
      refine ⟨s', ?_, hnotes⟩
      rw [go_bind, scanBacktick, go_loop, hgo]

theorem parseQuoted_parses {unterminated : String} :
    Parses input K p₀ (parseQuoted unterminated) fun _ => 1 := by
  refine Gains.read (fun _ => Scans.rest) fun text => ?_
  cases text with
  | nil => exact Gains.fail
  | cons quote text =>
    simp only
    split
    · rename_i hmem
      obtain ⟨name, rest, rfl, hname⟩ := List.eq_append_cons_of_mem hmem
      have hquote := quote.utf8Size_pos
      have htake : (name ++ quote :: rest).takeWhile (· != quote) = name := by
        rw [List.takeWhile_append_of_pos fun c hc => bne_iff_ne.mpr (ne_of_mem_of_not_mem hc hname)]
        simp
      rw [htake]
      refine Gains.move (Gains.advance_text (by omega) fun pos h => ?_) fun _ => Gains.pure rfl
      refine ⟨quote :: name ++ [quote], rest, ?_, ?_⟩
      · rw [byteLen_append, byteLen_cons, byteLen_cons, byteLen_nil]
        rfl
      · rw [List.append_assoc]
        exact h.2
    · exact Gains.fail

-- ---- Words

variable [Unicode]

theorem leadingWord_eq_some {text : List Char} {word : String} (h : leadingWord text = some word) :
    (∃ rest, text = word.toList ++ rest) ∧ 0 < wordLen word := by
  simp only [leadingWord] at h
  split at h
  · cases h
  · rename_i hne
    obtain rfl := Option.some.inj h
    rw [wordLen, String.toList_ofList]
    refine ⟨⟨_, List.takeWhile_append_dropWhile.symm⟩, byteLen_pos fun hnil => hne ?_⟩
    rw [hnil]
    rfl

def SeesWord (input : List Char) (word : String) (pos : Nat) : Prop :=
  ∃ text, RestAt input pos text ∧ leadingWord (text.dropWhile isWhitespace) = some word

def AtWord (input : List Char) (word : String) (pos : Nat) : Prop :=
  ∃ text, RestAt input pos text ∧ leadingWord text = some word

theorem AtWord.of_seesWord {word : String} {pos : Nat} (h : SeesWord input word pos)
    (htoken : AtToken input pos) : AtWord input word pos := by
  obtain ⟨text, htext, hword⟩ := h
  obtain ⟨text', htext', hblank⟩ := htoken
  obtain rfl := htext.unique htext'
  exact ⟨text, htext, hblank ▸ hword⟩

theorem peekWord_reads : Reads Read.Plain input peekWord fun found pos =>
    ∀ word ∈ found, SeesWord input word pos :=
  fun _ => Scans.bind Scans.rest fun text => Scans.pure fun _ h =>
    ⟨h.1, fun _ hword => ⟨text, h.2, hword⟩⟩

def SeesKeyword (input : List Char) (kw : String) (pos : Nat) : Prop :=
  ∃ word, SeesWord input word pos ∧ eqIgnoreAsciiCase word kw = true

theorem peekWordIs_reads (kw : String) : Reads Read.Plain input (peekWordIs kw) fun found pos =>
    found = true → SeesKeyword input kw pos := by
  refine fun P => Scans.bind (peekWord_reads P) fun found => Scans.pure fun pos h =>
    ⟨h.1, fun hfound => ?_⟩
  obtain ⟨word, hword, hkw⟩ := (Option.any_eq_true _ _).mp hfound
  exact ⟨word, h.2 word hword, hkw⟩

theorem advance_word_parses {word : String} (hK : ∀ pos, K pos → AtWord input word pos) :
    Parses input K p₀ (advance (wordLen word)) fun _ => 1 := by
  intro p hp
  refine Scans.given (φ := 0 < wordLen word) (fun pos h => ?_) fun hlen =>
    Gains.advance_text hlen (fun pos h => ?_) p hp
  · obtain ⟨text, htext, hword⟩ := hK pos h.2
    exact (leadingWord_eq_some hword).2
  · obtain ⟨text, htext, hword⟩ := hK pos h
    obtain ⟨⟨rest, rfl⟩, -⟩ := leadingWord_eq_some hword
    exact ⟨word.toList, rest, rfl, htext⟩

theorem consumeWord_parses {word : String} (hK : ∀ pos, K pos → SeesWord input word pos) :
    Parses input K p₀ (consumeWord word) fun _ => 1 := by
  refine fun p hp => Scans.at_pos fun pos h s sound hpos => ?_
  obtain ⟨text, htext, hword⟩ := hK pos h.2
  refine Scans.bind (skipWhitespace_scans text p) (fun _ => ?_) s sound ⟨hpos ▸ h.1, hpos ▸ htext⟩
  exact (advance_word_parses (K := fun pos => RestAt input pos (text.dropWhile isWhitespace))
    (fun pos h => ⟨_, h, hword⟩) p hp)

theorem matchKeyword_parses (kw : String) :
    Parses input K p₀ (matchKeyword kw) fun found => found.toNat := by
  refine skipWhitespace_parses_then (Gains.read peekWord_reads fun found => ?_)
  cases found with
  | none => exact Gains.pure rfl
  | some word =>
    simp only
    split
    · refine Gains.move (advance_word_parses fun pos h => ?_) fun _ => Gains.pure rfl
      exact .of_seesWord (h.2 word rfl) h.1
    · exact Gains.pure rfl

theorem peekWord_scans (text : List Char) (p : Nat) :
    Scans Read.Plain input (fun pos => p ≤ pos ∧ RestAt input pos text) peekWord fun found pos =>
      found = leadingWord (text.dropWhile isWhitespace) ∧ p ≤ pos ∧ RestAt input pos text := by
  refine Scans.bind Scans.rest fun text' => Scans.pure fun pos h => ⟨?_, h.1⟩
  obtain rfl := h.1.2.unique h.2
  rfl

theorem matchKeyword_parses_then {kw : String} (hK : ∀ pos, K pos → SeesKeyword input kw pos) :
    Parses input K p₀ (matchKeyword kw) fun _ => 1 := by
  refine fun p hp => Scans.at_pos fun pos h s sound hpos => ?_
  obtain ⟨word, ⟨text, htext, hword⟩, hkw⟩ := hK pos h.2
  refine Scans.bind (skipWhitespace_scans text p) (fun _ => ?_) s sound ⟨hpos ▸ h.1, hpos ▸ htext⟩
  refine Scans.bind (peekWord_scans _ p) fun found => Scans.given (fun _ h => h.1) fun hfound => ?_
  rw [List.dropWhile_idempotent, hword] at hfound
  subst hfound
  simp only
  rw [if_pos hkw]
  refine Scans.bind ?_ fun _ => Scans.pure fun _ h => h
  exact (advance_word_parses (K := fun pos => RestAt input pos (text.dropWhile isWhitespace))
    (fun pos h => ⟨_, h, hword⟩) p hp).pre fun _ h => h.2

theorem ifKeyword_parses {kw : String} {yes no : P α} {gain : α → Nat}
    (hyes : Parses input Anywhere (p₀ + 1) yes fun a => gain a - 1)
    (hno : Parses input Anywhere p₀ no gain) :
    Parses input K p₀ (matchKeyword kw >>= fun found => if found = true then yes else no) gain := by
  refine Gains.bind (matchKeyword_parses kw) fun found => ?_
  cases found with
  | true => exact hyes
  | false => exact hno

theorem passKeyword_parses {kw : String} : Parses input K p₀ (matchKeyword kw) fun _ => 0 :=
  (matchKeyword_parses kw).least

theorem optionalKeyword_parses {kw : String} :
    Parses input K p₀ (optionalKeyword kw) fun _ => 0 :=
  Gains.test (peekWordIs_reads _) (Gains.stay passKeyword_parses fun _ => Gains.pure rfl)
    (Gains.pure rfl)

theorem expectKeyword_parses (kw : String) :
    Parses input K p₀ (expectKeyword kw) fun _ => 1 := by
  refine Gains.stay skipWhitespace_parses fun _ => Gains.read peekWord_reads fun found => ?_
  cases found with
  | none => exact Gains.fail
  | some word =>
    simp only
    split
    · exact consumeWord_parses fun pos h => h.2 word rfl
    · exact Gains.fail

theorem parseWordAt_parses {expected : String} {f : String → P α} {gain : α → Nat}
    (hK : ∀ pos, K pos → AtToken input pos)
    (hf : ∀ word, Parses input Anywhere (p₀ + 1) (f word) fun a => gain a - 1) :
    Parses input K p₀ (do
      match ← peekWord with
      | none => fail expected
      | some word =>
        advance (wordLen word)
        f word) gain := by
  refine Gains.read peekWord_reads fun found => ?_
  cases found with
  | none => exact Gains.fail
  | some word =>
    exact Gains.move (advance_word_parses fun pos h => .of_seesWord (h.2 word rfl) (hK pos h.1))
      fun _ => hf word

theorem parseColumnIdentifier_parses : Parses input K p₀ parseColumnIdentifier fun _ => 1 := by
  refine skipWhitespace_parses_then (Gains.test (looksAt_reads _) parseBacktickIdentifier_parses ?_)
  exact parseWordAt_parses (fun _ h => h.1) fun _ => Gains.pure rfl

end Rekuiper.Parser
