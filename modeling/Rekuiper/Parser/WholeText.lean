import Rekuiper.Parser.StatementLaws

/-!
# The parsers and character boundaries

Names in backticks and the types of columns are read byte by byte, and the slices behind the bytes
of a longer character panic. Everything else stays on boundaries: a run of the parser is safe exactly
if the texts are plain that it reads so.
-/

namespace Rekuiper.Parser

open Lib Scan Sql

variable {F α β : Type}

-- ---- Safety

def parse (m : P α) (input : List Char) : Except Stop α × Scanner Read := m.go (Scanner.new input)

/-- The parser returns `Ok` or `Err`, and it is on a character boundary within the text all the
time. -/
def Safe (m : P α) (input : List Char) : Prop :=
  (∀ stop, (parse m input).1 = .error stop → ∃ text, stop = .fail text) ∧
    ∀ pos ∈ (parse m input).2.trail, ∃ rest, RestAt input pos rest

/-- Every text that the run begins to read byte by byte is plain. -/
def ReadsPlain (m : P α) (input : List Char) : Prop := ∀ r ∈ (parse m input).2.notes, r.Plain

theorem safe_iff {m : P α} {input : List Char} {gain : α → Nat}
    (h : Parses input Anywhere 0 m gain) : Safe m input ↔ ReadsPlain m input := by
  have hends := h.from_pos (Nat.le_refl 0) (Scanner.new input) Sound.start (Nat.zero_le _)
  unfold Safe ReadsPlain
  change Ends Read.Plain input _ (parse m input) at hends
  generalize parse m input = result at hends
  cases hends with
  | ok sound post => exact ⟨fun _ => sound.notes, fun _ => ⟨fun _ h => (nomatch h), sound.trail⟩⟩
  | fail sound =>
    refine ⟨fun _ => sound.notes, fun _ => ⟨fun stop hstop => ?_, sound.trail⟩⟩
    cases hstop
    exact ⟨_, rfl⟩
  | panic noted =>
    obtain ⟨r, hr, hplain⟩ := noted
    constructor
    · rintro ⟨hstop, -⟩
      obtain ⟨text, htext⟩ := hstop .panic rfl
      cases htext
    · intro hnotes
      exact absurd (hnotes r hr) hplain

/-- The SQL parsers are safe exactly on the texts whose quoted names and column types, where the
parsers read them byte by byte, have no longer characters. -/
theorem parsers_safe_iff [Unicode] [Float64 F] [ParseFloat F] (input : List Char) :
    (Safe (parseSelect : P (SelectStmt F)) input ↔
        ReadsPlain (parseSelect : P (SelectStmt F)) input) ∧
      (Safe parseCreateStream input ↔ ReadsPlain parseCreateStream input) ∧
        (Safe parseCreateTable input ↔ ReadsPlain parseCreateTable input) :=
  ⟨safe_iff parseSelect_parses, safe_iff (parseCreate_parses _ _), safe_iff (parseCreate_parses _ _)⟩

/-- What is known of characters where only ASCII occurs as a word. -/
@[reducible] def asciiWords : Unicode where
  isAlphanumeric := Char.isAlphanum
  toUppercase := toAsciiUppercase

@[reducible] def wholeNumbers : ParseFloat ℚ where
  parseF64 s := (parseDigits s.toList).map fun n => (n : ℚ)
  wholeU64 q := if q.den = 1 ∧ 0 ≤ q.num then some q.num.toNat else none

/-- A name of one longer character makes the parser panic. -/
theorem select_panics_on_quoted_name :
    ¬Safe (@parseSelect ℚ asciiWords _ wholeNumbers) "SELECT \x60é\x60 FROM s".toList := by
  rintro ⟨hstop, -⟩
  have hpanic : (match (parse (@parseSelect ℚ asciiWords _ wholeNumbers)
      "SELECT \x60é\x60 FROM s".toList).1 with
      | .error stop => stop == .panic
      | .ok _ => false) = true := by decide +kernel
  split at hpanic
  · rename_i stop hstop'
    obtain ⟨text, htext⟩ := hstop stop hstop'
    subst htext
    cases hpanic
  · cases hpanic

-- ---- Exact steps

/-- The step ends with the result, and with the text before the cursor. -/
def Reaches (m : P α) (s : Scanner Read) (a : α) (text : List Char) : Prop :=
  ∃ s', m.go s = (.ok a, s') ∧ s'.input = s.input ∧ RestAt s.input s'.pos text

theorem Reaches.bind {m : P α} {f : α → P β} {s : Scanner Read} {a : α} {b : β}
    {text text' : List Char} (hm : Reaches m s a text)
    (hf : ∀ t : Scanner Read, RestAt t.input t.pos text → Reaches (f a) t b text') :
    Reaches (m >>= f) s b text' := by
  obtain ⟨t, hgo, hinput, hrest⟩ := hm
  obtain ⟨s', hgo', hinput', hrest'⟩ := hf t (hinput ▸ hrest)
  refine ⟨s', ?_, hinput'.trans hinput, hinput ▸ hrest'⟩
  rw [go_bind, hgo]
  exact hgo'

theorem Reaches.pure {s : Scanner Read} {a : α} {text : List Char} (h : RestAt s.input s.pos text) :
    Reaches (Pure.pure a) s a text := ⟨s, rfl, rfl, h⟩

theorem rest_reaches {s : Scanner Read} {text : List Char} (h : RestAt s.input s.pos text) :
    Reaches rest s text text := ⟨s, go_rest h, rfl, h⟩

theorem atEnd_reaches {s : Scanner Read} {text : List Char} (h : RestAt s.input s.pos text) :
    Reaches atEnd s text.isEmpty text := by
  refine ⟨s, ?_, rfl, h⟩
  rw [go_atEnd]
  have hlen := h.length
  cases text with
  | nil => rw [decide_eq_true (by rw [hlen, byteLen_nil]; omega)]; rfl
  | cons c text =>
    have hpos := c.utf8Size_pos
    rw [decide_eq_false (by rw [hlen, byteLen_cons]; omega)]
    rfl

theorem advance_reaches {s : Scanner Read} {skipped text : List Char}
    (h : RestAt s.input s.pos (skipped ++ text)) : Reaches (advance (byteLen skipped)) s () text :=
  ⟨{ s with pos := s.pos + byteLen skipped, trail := s.trail ++ [s.pos + byteLen skipped] }, rfl, rfl,
    h.skip⟩

theorem looksAt_reaches {s : Scanner Read} {text : List Char} (c : Char)
    (h : RestAt s.input s.pos text) : Reaches (looksAt c) s (text.head? == some c) text := by
  refine (atEnd_reaches h).bind fun t ht => ?_
  cases text with
  | nil => exact Reaches.pure ht
  | cons c' text => exact (rest_reaches ht).bind fun _ ht => Reaches.pure ht

theorem skipWhitespace_reaches {s : Scanner Read} {text : List Char}
    (h : RestAt s.input s.pos text) : Reaches skipWhitespace s () (text.dropWhile isWhitespace) := by
  refine (atEnd_reaches h).bind fun t ht => ?_
  cases text with
  | nil => exact Reaches.pure ht
  | cons c text =>
    refine (rest_reaches ht).bind fun u hu => ?_
    rw [whitespaceLen_eq]
    refine advance_reaches ?_
    rw [List.takeWhile_append_dropWhile]
    exact hu

section
variable [Unicode]

theorem matchKeyword_false {kw : String} {s s' : Scanner Read} {text : List Char}
    (h : RestAt s.input s.pos text) (hgo : (matchKeyword kw).go s = (.ok false, s')) :
    s'.input = s.input ∧ RestAt s.input s'.pos (text.dropWhile isWhitespace) := by
  obtain ⟨t, hskip, hinput, hrest⟩ := skipWhitespace_reaches h
  obtain ⟨u, hpeek, hinput', hrest'⟩ : Reaches peekWord t _ _ :=
    (rest_reaches (hinput ▸ hrest)).bind fun _ hv => Reaches.pure hv
  rw [matchKeyword, go_bind, hskip] at hgo
  simp only at hgo
  rw [go_bind, hpeek] at hgo
  have hstill : ∀ {s' : Scanner Read}, (Except.ok false, u) = ((.ok false, s') : Except Stop Bool × _) →
      s'.input = s.input ∧ RestAt s.input s'.pos (text.dropWhile isWhitespace) := by
    rintro s' hu
    cases hu
    exact ⟨hinput'.trans hinput, hinput ▸ hrest'⟩
  simp only at hgo
  split at hgo
  · split at hgo
    · cases hgo
    · exact hstill hgo
  · exact hstill hgo

end

theorem parse_leaves {α : Type} {m : P α} {input rest : List Char}
    (h : (parse m input).1.isOk = true ∧ sliceFrom input (parse m input).2.pos = some rest) :
    ∃ a s, parse m input = (.ok a, s) ∧ RestAt input s.pos rest := by
  rcases hrun : parse m input with ⟨_ | a, s⟩ <;> rw [hrun] at h
  · cases h.1
  · exact ⟨a, s, rfl, sliceFrom_eq_some_iff.mp h.2⟩

end Rekuiper.Parser
