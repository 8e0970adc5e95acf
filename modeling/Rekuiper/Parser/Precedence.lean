import Rekuiper.Parser.ExactRuns

/-!
# Levels of precedence

What may come behind an operand in a printed expression. A token belongs to one level of precedence,
and every level below hands the operand on when it sees the token.
-/

namespace Rekuiper.Parser

open Lib Scan Sql

variable {F α : Type}

/-- What the printer may choose: the quotes, the signs of equations, and further parentheses. -/
structure Style (F : Type) where
  doubleQuotes : String → Bool
  doubleEquals : Bool
  angleBrackets : Bool
  wraps : Expr F → Bool

namespace Style

variable (style : Style F)

def operator : BinaryOperator → Token
  | .eq => if style.doubleEquals then ['=', '='] else ['=']
  | .neq => if style.angleBrackets then ['<', '>'] else ['!', '=']
  | .lt => ['<']
  | .lte => ['<', '=']
  | .gt => ['>']
  | .gte => ['>', '=']
  | .and => "AND".toList
  | .or => "OR".toList
  | .add => ['+']
  | .sub => ['-']
  | .mul => ['*']
  | .div => ['/']
  | .mod => ['%']
  | .like => "LIKE".toList
  | .bitAnd => ['&']
  | .bitOr => ['|']
  | .bitXor => ['^']

def negation (negated : Bool) : List Token := if negated then ["NOT".toList] else []

end Style

variable (style : Style F)

def precedence : BinaryOperator → Nat
  | .mul | .div | .mod => 1
  | .add | .sub => 2
  | .bitAnd => 3
  | .bitXor => 4
  | .bitOr => 5
  | .eq | .neq | .lt | .lte | .gt | .gte | .like => 6
  | .and => 8
  | .or => 9

/-- What may come behind an operand, with the level on which the parser reads it on. -/
inductive Next : List Token → Nat → Prop
  | done : Next [] 10
  | close (r : List Token) : Next ([')'] :: r) 10
  | comma (r : List Token) : Next ([','] :: r) 10
  | operator (op : BinaryOperator) (r : List Token) : Next (style.operator op :: r) (precedence op)
  | between (negated : Bool) (r : List Token) :
      Next (Style.negation negated ++ "BETWEEN".toList :: r) 7
  | inList (negated : Bool) (r : List Token) : Next (Style.negation negated ++ "IN".toList :: r) 7
  | is (r : List Token) : Next ("IS".toList :: r) 7

def charLevel : Char → Nat
  | '*' | '/' | '%' => 1
  | '+' | '-' => 2
  | '&' => 3
  | '^' => 4
  | '|' => 5
  | '=' | '!' | '<' | '>' => 6
  | _ => 10

def wordLevel : List (String × Nat) :=
  [("LIKE", 6), ("BETWEEN", 7), ("IN", 7), ("IS", 7), ("NOT", 7), ("AND", 8), ("OR", 9)]

/-- A text whose first character is no operator below a level, and no postfix. -/
structure Closes (n : Nat) (text : List Char) : Prop where
  level : ∀ c ∈ text.head?, n ≤ charLevel c
  plain : ∀ c ∈ text.head?, c ≠ '.' ∧ c ≠ '[' ∧ c ≠ '('
  arrow : ['-', '>'].isPrefixOf text = false

def closing (n : Nat) : Token → Bool
  | [] => false
  | c :: cs =>
    !isWhitespace c && decide (n ≤ charLevel c) && !(['.', '[', '('].contains c) &&
      (c != '-' || cs.isEmpty)

variable {style} {k n : Nat} {tok : Token} {r : List Token} {text : List Char} {Q : List Char → Prop}
  {s : Scanner Read}

theorem operator_closing (op : BinaryOperator) :
    closing (precedence op) (style.operator op) = true := by
  cases op with
  | eq =>
    change closing 6 (if style.doubleEquals then ['=', '='] else ['=']) = true
    split <;> rfl
  | neq =>
    change closing 6 (if style.angleBrackets then ['<', '>'] else ['!', '=']) = true
    split <;> rfl
  | _ => rfl

theorem Closes.of_closing (h : closing n tok = true) :
    Closes n ((spaced (tok :: r)).dropWhile isWhitespace) := by
  cases tok with
  | nil => cases h
  | cons c cs =>
    simp only [closing, Bool.and_eq_true, Bool.not_eq_true', decide_eq_true_eq, Bool.or_eq_true,
      bne_iff_ne] at h
    obtain ⟨⟨⟨hblank, hlevel⟩, hplain⟩, harrow⟩ := h
    have hdrop : (spaced ((c :: cs) :: r)).dropWhile isWhitespace = c :: cs ++ spaced r := by
      simp [hblank, show isWhitespace ' ' = true from rfl]
    rw [hdrop]
    refine ⟨by simpa using hlevel, by simpa using hplain, ?_⟩
    rcases harrow with hc | hcs
    · simp [List.isPrefixOf_cons_cons, hc.symm]
    · cases r <;> simp [List.isPrefixOf_cons_cons, List.isEmpty_iff.mp hcs]

theorem byteLen_closing {r : List Token} (h : closing n tok = true) :
    byteLen (spaced r) < byteLen ((spaced (tok :: r)).dropWhile isWhitespace) := by
  cases tok with
  | nil => cases h
  | cons c cs =>
    simp only [closing, Bool.and_eq_true, Bool.not_eq_true'] at h
    rw [spaced_drop h.1.1.1, byteLen_cons, byteLen_append]
    have := c.utf8Size_pos
    omega

theorem Next.closes (h : Next style r n) : Closes n ((spaced r).dropWhile isWhitespace) := by
  cases h with
  | done => exact ⟨by simp, by simp, by simp⟩
  | operator op r => exact Closes.of_closing (operator_closing op)
  | between negated r => cases negated <;> exact Closes.of_closing (by decide)
  | inList negated r => cases negated <;> exact Closes.of_closing (by decide)
  | _ => exact Closes.of_closing (by decide)

def AtLevel (choose : List Char → Option α) (k : Nat) : Prop :=
  ∀ text x, choose text = some x → ∃ c ∈ text.head?, charLevel c = k

theorem AtLevel.none {choose : List Char → Option α} (h : AtLevel choose k) (hclose : Closes n text)
    (hk : k < n) : choose text = none := by
  rw [Option.eq_none_iff_forall_ne_some]
  rintro x hx
  obtain ⟨c, hc, rfl⟩ := h text x hx
  exact absurd hk (Nat.not_lt.mpr (hclose.level c hc))

theorem multiplicative_atLevel : AtLevel multiplicativeOperator 1 := by
  rintro text op h
  unfold multiplicativeOperator at h
  split at h
  · exact ⟨_, rfl, rfl⟩
  · exact ⟨_, rfl, rfl⟩
  · exact ⟨_, rfl, rfl⟩
  · cases h

theorem additive_atLevel : AtLevel additiveOperator 2 := by
  rintro text op h
  unfold additiveOperator at h
  split at h
  · exact ⟨_, rfl, rfl⟩
  · exact ⟨_, rfl, rfl⟩
  · cases h

theorem bitand_atLevel : AtLevel bitandOperator 3 := by
  rintro text op h
  unfold bitandOperator at h
  split at h
  · cases h
  · exact ⟨_, rfl, rfl⟩
  · cases h

theorem bitxor_atLevel : AtLevel bitxorOperator 4 := by
  rintro text op h
  unfold bitxorOperator at h
  split at h
  · exact ⟨_, rfl, rfl⟩
  · cases h

theorem bitor_atLevel : AtLevel bitorOperator 5 := by
  rintro text op h
  unfold bitorOperator at h
  split at h
  · cases h
  · exact ⟨_, rfl, rfl⟩
  · cases h

theorem comparison_atLevel : AtLevel comparisonOperator 6 := by
  rintro text x h
  unfold comparisonOperator at h
  split at h
  all_goals first
    | exact ⟨_, rfl, rfl⟩
    | cases h

theorem Next.pos (h : Next style r n) : 0 < n := by
  cases h with
  | operator op r => cases op <;> decide
  | _ => decide

theorem symbol_hands_on {choose : List Char → Option BinaryOperator}
    {operand : P (Expr F)} {e : Expr F} (hchoose : AtLevel choose k)
    (hnext : Next style r n) (hk : k < n) (h : Arrives operand s e (Behind (spaced r))) :
    Arrives (leftAssociative operand (symbolOperator choose)) s e (Behind (spaced r)) :=
  leftAssociative_stop h (symbolOperator_none (hchoose.none hnext.closes hk))

section
variable [Unicode] [LawfulUnicode] {w kw : String}

theorem keyword_isWord {n : Nat} (h : (w, n) ∈ wordLevel) : IsWord w := by
  simp only [wordLevel, List.mem_cons, Prod.mk.injEq, List.not_mem_nil, or_false] at h
  rcases h with ⟨rfl, -⟩ | ⟨rfl, -⟩ | ⟨rfl, -⟩ | ⟨rfl, -⟩ | ⟨rfl, -⟩ | ⟨rfl, -⟩ | ⟨rfl, -⟩ <;>
    simp [IsWord, isWordChar_ascii]

theorem Next.word (h : Next style r n) : ∀ word ∈ nextWord (spaced r), (word, n) ∈ wordLevel := by
  have hkeyword : ∀ {w n r}, (w, n) ∈ wordLevel →
      ∀ word ∈ nextWord (spaced (w.toList :: r)), (word, n) ∈ wordLevel := by
    rintro w n r hmem word hword
    rw [(keyword_isWord hmem).next] at hword
    exact Option.some.inj hword ▸ hmem
  have hnone : ∀ {c cs n r}, c.toNat < 128 ∧ c.isAlphanum = false ∧ c ≠ '_' →
      isWhitespace c = false →
      ∀ word ∈ nextWord (spaced ((c :: cs) :: r)), (word, n) ∈ wordLevel := by
    rintro c cs n r hc hblank word hword
    rw [nextWord_none hc hblank] at hword
    cases hword
  cases h with
  | done => simp [nextWord, leadingWord]
  | close r => exact hnone (by decide) rfl
  | comma r => exact hnone (by decide) rfl
  | between negated r => cases negated <;> exact hkeyword (by decide)
  | inList negated r => cases negated <;> exact hkeyword (by decide)
  | is r => exact hkeyword (by decide)
  | operator op r =>
    cases op with
    | and => exact hkeyword (by decide)
    | or => exact hkeyword (by decide)
    | like => exact hkeyword (by decide)
    | eq =>
      rw [Style.operator]
      split <;> exact hnone (by decide) rfl
    | neq =>
      rw [Style.operator]
      split <;> exact hnone (by decide) rfl
    | _ => exact hnone (by decide) rfl

theorem Next.not_keyword (h : Next style r n)
    (hkw : ∀ p ∈ wordLevel, eqIgnoreAsciiCase p.1 kw = true → p.2 ≤ k) (hk : k < n) :
    ∀ word ∈ nextWord (spaced r), eqIgnoreAsciiCase word kw = false := by
  rintro word hword
  by_contra heq
  have hle := hkw _ (h.word word hword) (by simpa using heq)
  exact absurd hk (Nat.not_lt.mpr hle)

theorem Next.negated (h : Next style r n)
    (hnot : (nextWord (spaced r)).any (fun word => eqIgnoreAsciiCase word "NOT") = true) :
    ∃ r', r = "NOT".toList :: r' ∧
      ∀ word ∈ nextWord (spaced r'), eqIgnoreAsciiCase word "LIKE" = false := by
  have hbetween : IsWord "BETWEEN" := keyword_isWord (n := 7) (by decide)
  have hin : IsWord "IN" := keyword_isWord (n := 7) (by decide)
  have his : IsWord "IS" := keyword_isWord (n := 7) (by decide)
  have hlevel : n = 7 := by
    obtain ⟨word, hword, heq⟩ := (Option.any_eq_true _ _).mp hnot
    have hmem : ∀ p ∈ wordLevel, eqIgnoreAsciiCase p.1 "NOT" = true → p.2 = 7 := by decide
    exact hmem _ (h.word word hword) heq
  cases h with
  | between negated r =>
    cases negated with
    | true =>
      refine ⟨"BETWEEN".toList :: r, rfl, ?_⟩
      rw [hbetween.next]
      decide
    | false =>
      change (nextWord (spaced ("BETWEEN".toList :: r))).any _ = true at hnot
      rw [hbetween.next] at hnot
      exact absurd hnot (by decide)
  | inList negated r =>
    cases negated with
    | true =>
      refine ⟨"IN".toList :: r, rfl, ?_⟩
      rw [hin.next]
      decide
    | false =>
      change (nextWord (spaced ("IN".toList :: r))).any _ = true at hnot
      rw [hin.next] at hnot
      exact absurd hnot (by decide)
  | is r =>
    rw [his.next] at hnot
    exact absurd hnot (by decide)
  | operator op r => cases op <;> cases hlevel
  | _ => cases hlevel

theorem comparison_sign {op : BinaryOperator} (hlevel : precedence op = 6) (hlike : op ≠ .like)
    (toks : List Token) :
    nextWord (spaced (style.operator op :: toks)) = none ∧
      (spaced (style.operator op :: toks)).dropWhile isWhitespace =
        style.operator op ++ spaced toks ∧
      comparisonOperator (style.operator op ++ spaced toks) =
        some (op, byteLen (style.operator op)) := by
  have hnone : ∀ {c cs}, c.toNat < 128 ∧ c.isAlphanum = false ∧ c ≠ '_' →
      isWhitespace c = false → nextWord (spaced ((c :: cs) :: toks)) = none := fun hc hblank =>
    nextWord_none hc hblank
  cases op with
  | like => exact absurd rfl hlike
  | eq =>
    rw [Style.operator]
    split
    · exact ⟨hnone (by decide) rfl, spaced_drop rfl, rfl⟩
    · exact ⟨hnone (by decide) rfl, spaced_drop rfl, by cases toks <;> rfl⟩
  | neq =>
    rw [Style.operator]
    split <;> exact ⟨hnone (by decide) rfl, spaced_drop rfl, rfl⟩
  | lt => exact ⟨hnone (by decide) rfl, spaced_drop rfl, by cases toks <;> rfl⟩
  | lte => exact ⟨hnone (by decide) rfl, spaced_drop rfl, rfl⟩
  | gt => exact ⟨hnone (by decide) rfl, spaced_drop rfl, by cases toks <;> rfl⟩
  | gte => exact ⟨hnone (by decide) rfl, spaced_drop rfl, rfl⟩
  | _ => cases hlevel

-- ---- Levels that hand on

section
variable {expr : P (Expr F)} {e : Expr F}

omit [LawfulUnicode] in
theorem postfix_hands_on (hnext : Next style r n) :
    Gets (parsePostfix expr e) (spaced r) e (Behind (spaced r)) := by
  refine (LoopGets.stop (Gets.skip ?_)).gets
  have hclose := hnext.closes
  generalize htext : (spaced r).dropWhile isWhitespace = text at hclose
  have hplain : ∀ c, c = '.' ∨ c = '[' ∨ c = '(' → (text.head? == some c) = false := by
    rintro c hc
    rw [beq_eq_false_iff_ne]
    rintro hhead
    have hne := hclose.plain c hhead
    grind
  refine From.looksAt _ ?_
  rw [hplain '.' (by simp)]
  refine From.looksAtText _ (by simp) ?_
  rw [hclose.arrow]
  refine From.looksAt _ ?_
  rw [hplain '[' (by simp)]
  exact From.pure (htext ▸ behind_drop _)

variable [Float64 F] [ParseFloat F]

theorem comparison_hands_on (hnext : Next style r n) (hn : 6 < n)
    (h : Arrives (parseBitor expr) s e (Behind (spaced r))) :
    Arrives (parseComparison expr) s e (Behind (spaced r)) := by
  refine h.bind (Gets.skip (From.peekWordIs ?_))
  rw [nextWord_behind (behind_drop _)]
  split
  · next hnot =>
    obtain ⟨r', rfl, hlike⟩ := hnext.negated hnot
    refine From.position fun s hs => ?_
    have hmatch : Gets (matchKeyword "NOT") (spaced ("NOT".toList :: r')) true (· = spaced r') :=
      matchKeyword_gets (keyword_isWord (n := 7) (by decide)) (by decide)
    refine (hmatch _ (behind_drop _) s hs).bind_same fun mid t hmid hinput ht => ?_
    have hpeek : From (peekWordIs "LIKE") mid false (· = mid) := by
      refine From.peekWord ?_
      rw [hmid, any_keyword_false hlike]
      exact From.pure rfl
    refine (hpeek t ht).bind_same fun _ u _ hinput' _ => ?_
    exact seek_arrives (hinput'.trans hinput) hs (behind_drop _)
  · refine From.peekWordIs ?_
    rw [nextWord_behind (behind_drop _),
      any_keyword_false (hnext.not_keyword (k := 6) (by decide) hn)]
    refine Gets.from (Gets.skip (From.atEnd ?_))
    rw [List.dropWhile_idempotent]
    split
    · exact From.pure (behind_drop _)
    · refine From.rest ?_
      rw [comparison_atLevel.none hnext.closes hn]
      exact From.pure (behind_drop _)

theorem range_hands_on (hnext : Next style r n) (hn : 7 < n)
    (h : Arrives (parseComparison expr) s e (Behind (spaced r))) :
    Arrives (parseRange expr) s e (Behind (spaced r)) := by
  have hnot : ∀ kw ∈ ["BETWEEN", "NOT", "IN", "IS", "LIKE"], ∀ word ∈ nextWord (spaced r),
      eqIgnoreAsciiCase word kw = false := fun kw hkw =>
    hnext.not_keyword (k := 7) (by revert kw; decide) hn
  refine h.bind (Gets.skip (From.peekWord ?_))
  rw [nextWord_behind (behind_drop _)]
  cases hword : nextWord (spaced r) with
  | none => exact From.pure (behind_drop _)
  | some word =>
    have hfalse : ∀ kw ∈ ["BETWEEN", "NOT", "IN", "IS", "LIKE"],
        eqIgnoreAsciiCase word kw = false := fun kw hkw => hnot kw hkw word hword
    simp only [List.mem_cons, List.not_mem_nil, or_false, forall_eq_or_imp, forall_eq] at hfalse
    obtain ⟨hbetween, hnot, hin, his, hlike⟩ := hfalse
    simp only [hbetween, hnot, hin, his, hlike, Bool.false_eq_true, if_false]
    exact From.pure (behind_drop _)

theorem and_hands_on (hnext : Next style r n) (hn : 8 < n)
    (h : Arrives (parseRange expr) s e (Behind (spaced r))) :
    Arrives (parseAnd expr) s e (Behind (spaced r)) := by
  refine leftAssociative_stop h fun t ht => From.peekWordIs ?_
  rw [nextWord_behind ht, any_keyword_false (hnext.not_keyword (k := 8) (by decide) hn)]
  exact From.pure ht

theorem or_hands_on (hnext : Next style r n) (hn : 9 < n)
    (h : Arrives (parseAnd expr) s e (Behind (spaced r))) :
    Arrives (parseOr expr) s e (· = (spaced r).dropWhile isWhitespace) := by
  refine leftAssociative_stop h ?_
  refine (matchKeyword_not (hnext.not_keyword (k := 9) (by decide) hn)).bind fun mid hmid => ?_
  exact From.pure hmid

/-- The parsers of the levels of precedence, below `OR`. -/
def level (expr : P (Expr F)) : Nat → P (Expr F)
  | 0 => parseUnary expr
  | 1 => parseMultiplicative expr
  | 2 => parseAdditive expr
  | 3 => parseBitand expr
  | 4 => parseBitxor expr
  | 5 => parseBitor expr
  | 6 => parseComparison expr
  | 7 => parseRange expr
  | _ => parseAnd expr

theorem level_hands_on {j : Nat} (hnext : Next style r n) (hkj : k ≤ j) (hj : j < n) (h8 : j ≤ 8)
    (h : Arrives (level expr k) s e (Behind (spaced r))) :
    Arrives (level expr j) s e (Behind (spaced r)) := by
  induction j, hkj using Nat.le_induction with
  | base => exact h
  | succ j hkj ih =>
    have hstep := ih (by omega) (by omega)
    have hcases : j = 0 ∨ j = 1 ∨ j = 2 ∨ j = 3 ∨ j = 4 ∨ j = 5 ∨ j = 6 ∨ j = 7 := by omega
    rcases hcases with rfl | rfl | rfl | rfl | rfl | rfl | rfl | rfl
    · exact symbol_hands_on multiplicative_atLevel hnext hj hstep
    · exact symbol_hands_on additive_atLevel hnext hj hstep
    · exact symbol_hands_on bitand_atLevel hnext hj hstep
    · exact symbol_hands_on bitxor_atLevel hnext hj hstep
    · exact symbol_hands_on bitor_atLevel hnext hj hstep
    · exact comparison_hands_on hnext hj hstep
    · exact range_hands_on hnext hj hstep
    · exact and_hands_on hnext hj hstep

end

end

end Rekuiper.Parser
