import Rekuiper.Parser.WholeText

/-!
# Exact runs

What the steps of the parser do on a text of tokens with single spaces between them. Most of them
skip the blanks before a token, so a text counts up to the blanks at its start.
-/

namespace Rekuiper.Parser

open Lib Scan Sql

variable {F α β γ : Type}

-- ---- Runs up to blanks

def Behind (text t : List Char) : Prop := t.dropWhile isWhitespace = text.dropWhile isWhitespace

/-- The step ends with the result, before a text with `Q`. -/
def Arrives (m : P α) (s : Scanner Read) (a : α) (Q : List Char → Prop) : Prop :=
  ∃ rest, Q rest ∧ Reaches m s a rest

def From (m : P α) (text : List Char) (a : α) (Q : List Char → Prop) : Prop :=
  ∀ s : Scanner Read, RestAt s.input s.pos text → Arrives m s a Q

def Gets (m : P α) (text : List Char) (a : α) (Q : List Char → Prop) : Prop :=
  ∀ t, Behind text t → From m t a Q

variable {m : P α} {f : α → P β} {s : Scanner Read} {a : α} {b : β} {text mid t : List Char}
  {Q R : List Char → Prop}

theorem Behind.refl (text : List Char) : Behind text text := rfl

theorem behind_drop (text : List Char) : Behind text (text.dropWhile isWhitespace) :=
  List.dropWhile_idempotent _ _

theorem Arrives.bind_same (h : Arrives m s a Q)
    (hf : ∀ mid (t : Scanner Read), Q mid → t.input = s.input → RestAt t.input t.pos mid →
      Arrives (f a) t b R) : Arrives (m >>= f) s b R := by
  obtain ⟨mid, hmid, t, hgo, hinput, hrest⟩ := h
  obtain ⟨rest, hR, u, hgo', hinput', hrest'⟩ := hf mid t hmid hinput (hinput ▸ hrest)
  refine ⟨rest, hR, u, ?_, hinput'.trans hinput, hinput ▸ hrest'⟩
  rw [go_bind, hgo]
  exact hgo'

theorem Arrives.bind (h : Arrives m s a Q) (hf : ∀ text, Q text → From (f a) text b R) :
    Arrives (m >>= f) s b R := h.bind_same fun mid t hmid _ => hf mid hmid t

theorem From.bind (h : From m text a Q) (hf : ∀ text, Q text → From (f a) text b R) :
    From (m >>= f) text b R := fun s hs => (h s hs).bind hf

theorem Gets.bind (h : Gets m text a Q) (hf : ∀ text, Q text → From (f a) text b R) :
    Gets (m >>= f) text b R := fun t ht => (h t ht).bind hf

theorem From.step (h : From m text a (· = mid)) (hf : From (f a) mid b R) :
    From (m >>= f) text b R := h.bind fun _ h => h ▸ hf

theorem From.pure (h : Q text) : From (Pure.pure a) text a Q :=
  fun _ hs => ⟨text, h, Reaches.pure hs⟩

theorem Gets.from (h : Gets m text a Q) : From m text a Q := h text rfl

theorem Reaches.from (h : ∀ s : Scanner Read, RestAt s.input s.pos text → Reaches m s a mid) :
    From m text a (· = mid) := fun s hs => ⟨mid, rfl, h s hs⟩

theorem Gets.skip {f : Unit → P β} (hf : From (f ()) (text.dropWhile isWhitespace) b R) :
    Gets (skipWhitespace >>= f) text b R := by
  intro t ht
  refine From.step (Reaches.from fun _ hs => skipWhitespace_reaches hs) ?_
  rw [ht]
  exact hf

theorem From.looksAt {f : Bool → P β} (c : Char) (hf : From (f (text.head? == some c)) text b R) :
    From (looksAt c >>= f) text b R :=
  From.step (Reaches.from fun _ hs => looksAt_reaches c hs) hf

theorem From.atEnd {f : Bool → P β} (hf : From (f text.isEmpty) text b R) :
    From (atEnd >>= f) text b R := From.step (Reaches.from fun _ hs => atEnd_reaches hs) hf

theorem From.rest {f : List Char → P β} (hf : From (f text) text b R) : From (rest >>= f) text b R :=
  From.step (Reaches.from fun _ hs => rest_reaches hs) hf

theorem From.advance {f : Unit → P β} {skipped : List Char} {n : Nat} (hn : byteLen skipped = n)
    (hf : From (f ()) text b R) : From (advance n >>= f) (skipped ++ text) b R :=
  From.step (Reaches.from fun _ hs => hn ▸ advance_reaches hs) hf

theorem From.advance_char {f : Unit → P β} {c : Char} {n : Nat} (hn : c.utf8Size = n)
    (hf : From (f ()) text b R) : From (Scan.advance n >>= f) (c :: text) b R :=
  have hstep : From (Scan.advance n >>= f) ([c] ++ text) b R := From.advance (by simp [hn]) hf
  hstep

theorem From.looksAtText {f : Bool → P β} (token : List Char) (htoken : token ≠ [])
    (hf : From (f (token.isPrefixOf text)) text b R) :
    From (Scan.looksAtText token >>= f) text b R := by
  have hlook : From (Scan.looksAtText token) text (token.isPrefixOf text) (· = text) := by
    refine From.atEnd ?_
    cases text with
    | nil =>
      cases token with
      | nil => exact absurd rfl htoken
      | cons c token => exact From.pure rfl
    | cons c text => exact From.rest (From.pure rfl)
  exact hlook.step hf

theorem Gets.skip_gets (h : Gets m text a Q) : Gets (skipWhitespace >>= fun _ => m) text a Q :=
  Gets.skip (h _ (behind_drop text))

theorem From.position {f : Nat → P β}
    (hf : ∀ s : Scanner Read, RestAt s.input s.pos text → Arrives (f s.pos) s b R) :
    From (position >>= f) text b R := fun s hs => hf s hs

theorem seek_arrives {s t : Scanner Read} (hinput : t.input = s.input)
    (hs : RestAt s.input s.pos text) (hQ : Q text) :
    Arrives (seek s.pos >>= fun _ => Pure.pure a) t a Q :=
  ⟨text, hQ, { t with pos := s.pos, trail := t.trail ++ [s.pos] }, rfl, rfl, hinput ▸ hs⟩

def LoopGets (step : β → P (β ⊕ γ)) (b : β) (text : List Char) (c : γ) (Q : List Char → Prop) :
    Prop :=
  ∀ fuel, byteLen (text.dropWhile isWhitespace) < fuel → Gets (repeatFor step fuel b) text c Q

variable {step : β → P (β ⊕ γ)} {d : β} {c : γ}

theorem LoopGets.stop (h : Gets (step b) text (.inr c) Q) : LoopGets step b text c Q := by
  intro fuel hfuel
  obtain ⟨fuel, rfl⟩ := Nat.exists_eq_succ_of_ne_zero (Nat.ne_of_gt (Nat.zero_lt_of_lt hfuel))
  exact h.bind fun _ hQ => From.pure hQ

theorem LoopGets.go (h : Gets (step b) text (.inl d) (Behind mid))
    (hless : byteLen (mid.dropWhile isWhitespace) < byteLen (text.dropWhile isWhitespace))
    (hloop : LoopGets step d mid c Q) : LoopGets step b text c Q := by
  intro fuel hfuel
  obtain ⟨fuel, rfl⟩ := Nat.exists_eq_succ_of_ne_zero (Nat.ne_of_gt (Nat.zero_lt_of_lt hfuel))
  exact h.bind (hloop fuel (Nat.lt_of_lt_of_le hless (Nat.le_of_lt_succ hfuel)))

theorem byteLen_dropWhile_le (p : Char → Bool) (text : List Char) :
    byteLen (text.dropWhile p) ≤ byteLen text := by
  conv_rhs => rw [← List.takeWhile_append_dropWhile (p := p) (l := text), byteLen_append]
  exact Nat.le_add_left _ _

theorem LoopGets.gets (h : LoopGets step b text c Q) : Gets (loop step b) text c Q := by
  intro t ht s hs
  have hlen := hs.length
  have hdrop := byteLen_dropWhile_le isWhitespace t
  have hfuel : byteLen (text.dropWhile isWhitespace) < byteLen s.input + 1 - s.pos := by
    rw [← ht]
    omega
  obtain ⟨rest, hQ, s', hgo, hend⟩ := h _ hfuel t ht s hs
  exact ⟨rest, hQ, s', (go_loop step b s).trans hgo, hend⟩

-- ---- Tokens

abbrev Token := List Char

def spaced (toks : List Token) : List Char := toks.flatMap (' ' :: ·)

@[simp] theorem spaced_nil : spaced [] = [] := rfl

@[simp] theorem spaced_cons (tok : Token) (toks : List Token) :
    spaced (tok :: toks) = ' ' :: (tok ++ spaced toks) := by simp [spaced]

@[simp] theorem spaced_append (toks toks' : List Token) :
    spaced (toks ++ toks') = spaced toks ++ spaced toks' := by simp [spaced]

theorem intercalate_eq (tok : Token) (toks : List Token) :
    [' '].intercalate (tok :: toks) = tok ++ spaced toks := by
  induction toks generalizing tok with
  | nil => simp
  | cons tok' toks ih => simp [List.intercalate_cons_cons, ih]

theorem spaced_drop {c : Char} {cs : Token} {r : List Token} (hc : isWhitespace c = false) :
    (spaced ((c :: cs) :: r)).dropWhile isWhitespace = c :: (cs ++ spaced r) := by
  simp [hc, show isWhitespace ' ' = true from rfl]

theorem expectChar_gets {c : Char} {r : List Token} (hc : isWhitespace c = false) :
    Gets (expectChar c) (spaced ([c] :: r)) () (· = spaced r) := by
  refine Gets.skip ?_
  rw [spaced_drop hc]
  refine From.looksAt c ?_
  simp only [List.head?_cons, beq_self_eq_true, if_true]
  exact From.advance_char (f := Pure.pure) rfl (From.pure rfl)

-- ---- Operators

theorem symbolOperator_none {choose : List Char → Option BinaryOperator}
    (h : choose (text.dropWhile isWhitespace) = none) :
    Gets (symbolOperator choose) text none (Behind text) := by
  refine Gets.skip (From.atEnd ?_)
  split
  · exact From.pure (behind_drop text)
  · refine From.rest ?_
    rw [h]
    exact From.pure (behind_drop text)

theorem symbolOperator_some {choose : List Char → Option BinaryOperator} {c : Char}
    {op : BinaryOperator} (hc : c.utf8Size = 1) (hdrop : text.dropWhile isWhitespace = c :: mid)
    (h : choose (c :: mid) = some op) :
    Gets (symbolOperator choose) text (some op) (Behind mid) := by
  refine Gets.skip (From.atEnd ?_)
  rw [hdrop]
  refine From.rest ?_
  rw [h]
  have hstep : From (advance 1 >>= fun _ => Pure.pure (some op)) ([c] ++ mid) (some op) (Behind mid) :=
    From.advance (by simp [hc]) (From.pure rfl)
  exact hstep

section
variable {operand : P (Expr F)} {operator : P (Option BinaryOperator)} {op : BinaryOperator}
  {e e' : Expr F} {rest : List Char}

theorem leftAssociative_stop (hoperand : Arrives operand s e (Behind text))
    (hoperator : Gets operator text none Q) : Arrives (leftAssociative operand operator) s e Q := by
  refine hoperand.bind (LoopGets.stop ?_).gets
  exact hoperator.bind fun _ hQ => From.pure hQ

theorem leftAssociative_one (hoperand : Arrives operand s e (Behind text))
    (hoperator : Gets operator text (some op) (Behind mid))
    (hoperand' : Gets operand mid e' (Behind rest)) (hstop : Gets operator rest none Q)
    (hless : byteLen (rest.dropWhile isWhitespace) < byteLen (text.dropWhile isWhitespace)) :
    Arrives (leftAssociative operand operator) s (.binaryOp e op e') Q := by
  refine hoperand.bind (LoopGets.go (d := .binaryOp e op e') ?_ hless (LoopGets.stop ?_)).gets
  · exact hoperator.bind (hoperand'.bind fun _ h => From.pure h)
  · exact hstop.bind fun _ hQ => From.pure hQ
end

section
variable [Unicode]

/-- What the documentation of `is_alphanumeric` says of ASCII characters and of blanks. -/
class LawfulUnicode : Prop where
  ascii : ∀ c : Char, c.toNat < 128 → Unicode.isAlphanumeric c = c.isAlphanum
  blank : ∀ c : Char, isWhitespace c = true → Unicode.isAlphanumeric c = false

-- ---- Words

variable {w kw : String}

def IsWord (w : String) : Prop := w.toList ≠ [] ∧ ∀ c ∈ w.toList, isWordChar c = true

variable [LawfulUnicode]

theorem isWordChar_ascii {c : Char} (hc : c.toNat < 128) :
    isWordChar c = (c.isAlphanum || c == '_') := by
  rw [isWordChar, LawfulUnicode.ascii c hc]

theorem isWordChar_blank {c : Char} (hc : isWhitespace c = true) : isWordChar c = false := by
  have hne : c ≠ '_' := by
    rintro rfl
    cases hc
  simp [isWordChar, LawfulUnicode.blank c hc, hne]

theorem isWordChar_digit {c : Char} (hc : c.isDigit = true) : isWordChar c = true := by
  have hascii : c.toNat < 128 := by
    simp only [Char.isDigit, Bool.and_eq_true, decide_eq_true_eq, UInt32.le_iff_toNat_le] at hc
    exact Nat.lt_of_le_of_lt hc.2 (by decide)
  simp [isWordChar_ascii hascii, Char.isAlphanum, hc]

theorem IsWord.drop (h : IsWord w) :
    (spaced (w.toList :: r)).dropWhile isWhitespace = w.toList ++ spaced r := by
  obtain ⟨hne, hword⟩ := h
  obtain ⟨c, cs, hw⟩ := List.exists_cons_of_ne_nil hne
  have hc : isWhitespace c = false := by
    by_contra hblank
    have := isWordChar_blank (Bool.not_eq_false _ ▸ hblank)
    simp [hword c (by simp [hw])] at this
  simp [hw, hc, show isWhitespace ' ' = true from rfl]

theorem IsWord.leadingWord (h : IsWord w) (r : List Token) :
    leadingWord (w.toList ++ spaced r) = some w := by
  obtain ⟨hne, hword⟩ := h
  have hspace : isWordChar ' ' = false := isWordChar_blank rfl
  have htake : (w.toList ++ spaced r).takeWhile isWordChar = w.toList := by
    rw [List.takeWhile_append_of_pos hword]
    cases r with
    | nil => simp
    | cons tok r => simp [hspace]
  simp [Parser.leadingWord, htake, hne]

def nextWord (text : List Char) : Option String := leadingWord (text.dropWhile isWhitespace)

omit [LawfulUnicode] in
theorem From.peekWord {f : Option String → P β} (hf : From (f (nextWord text)) text b R) :
    From (peekWord >>= f) text b R :=
  From.step (Reaches.from fun _ hs => (rest_reaches hs).bind fun _ ht => Reaches.pure ht) hf

omit [LawfulUnicode] in
theorem From.peekWordIs {f : Bool → P β}
    (hf : From (f ((nextWord text).any fun word => eqIgnoreAsciiCase word kw)) text b R) :
    From (peekWordIs kw >>= f) text b R :=
  From.step (From.peekWord (From.pure rfl)) hf

theorem IsWord.next (h : IsWord w) : nextWord (spaced (w.toList :: r)) = some w := by
  rw [nextWord, h.drop, h.leadingWord]

omit [LawfulUnicode] in
theorem matchKeyword_word (hdrop : text.dropWhile isWhitespace = w.toList ++ mid)
    (hword : leadingWord (w.toList ++ mid) = some w) (hkw : eqIgnoreAsciiCase w kw = true) :
    Gets (matchKeyword kw) text true (· = mid) := by
  refine Gets.skip (From.peekWord ?_)
  rw [nextWord, List.dropWhile_idempotent, hdrop, hword]
  simp only [hkw, if_true]
  exact From.advance rfl (From.pure rfl)

theorem matchKeyword_gets (h : IsWord w) (hkw : eqIgnoreAsciiCase w kw = true) :
    Gets (matchKeyword kw) (spaced (w.toList :: r)) true (· = spaced r) :=
  matchKeyword_word h.drop (h.leadingWord r) hkw

omit [LawfulUnicode] in
theorem matchKeyword_not (h : ∀ word ∈ nextWord text, eqIgnoreAsciiCase word kw = false) :
    Gets (matchKeyword kw) text false (· = text.dropWhile isWhitespace) := by
  refine Gets.skip (From.peekWord ?_)
  rw [nextWord, List.dropWhile_idempotent, ← nextWord]
  cases hword : nextWord text with
  | none => exact From.pure rfl
  | some word =>
    simp only [h word hword]
    exact From.pure rfl

theorem expectKeyword_gets (h : IsWord w) (hkw : eqIgnoreAsciiCase w kw = true) :
    Gets (expectKeyword kw) (spaced (w.toList :: r)) () (· = spaced r) := by
  refine Gets.skip (From.peekWord ?_)
  rw [nextWord, List.dropWhile_idempotent, h.drop, h.leadingWord]
  simp only [hkw, if_true]
  refine Gets.from (Gets.skip ?_)
  rw [← h.drop, List.dropWhile_idempotent, h.drop]
  have hend : From (advance (wordLen w)) (w.toList ++ spaced r) () (· = spaced r) :=
    Reaches.from fun _ hs => advance_reaches hs
  exact hend

theorem nextWord_none {c : Char} {cs : Token} (hc : c.toNat < 128 ∧ c.isAlphanum = false ∧ c ≠ '_')
    (hblank : isWhitespace c = false) : nextWord (spaced ((c :: cs) :: r)) = none := by
  have hword : isWordChar c = false := by simp [isWordChar_ascii, hc]
  simp [nextWord, leadingWord, hblank, hword, show isWhitespace ' ' = true from rfl]

omit [LawfulUnicode] in
theorem any_keyword_false (h : ∀ word ∈ nextWord text, eqIgnoreAsciiCase word kw = false) :
    (nextWord text).any (fun word => eqIgnoreAsciiCase word kw) = false := by
  cases hword : nextWord text with
  | none => rfl
  | some word => exact h word hword

omit [LawfulUnicode] in
theorem nextWord_behind (h : Behind text t) : nextWord t = nextWord text := by
  rw [nextWord, h, nextWord]

end

end Rekuiper.Parser
