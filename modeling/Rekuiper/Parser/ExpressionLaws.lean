import Rekuiper.Parser.CursorLaws
import Rekuiper.Parser.Expressions

/-!
# Laws of the expression parser

Every production moves the cursor on, over whole characters, if the parser of whole expressions
does.
-/

namespace Rekuiper.Parser

open Lib Scan Sql

variable {F : Type} {input : List Char} {K : Nat → Prop} {p₀ : Nat}

-- ---- Tokens

theorem rest_reads : Reads Read.Plain input rest fun text pos => RestAt input pos text :=
  fun _ => Scans.rest

theorem append_isPrefix {a b text : List Char} (ha : a <+: text) (hb : b <+: text.drop a.length) :
    a ++ b <+: text := by
  obtain ⟨rest, rfl⟩ := ha
  rw [List.drop_left] at hb
  exact List.prefix_append_right_inj a |>.mpr hb

theorem scanFraction_isPrefix (hasIntPart : Bool) (text : List Char) :
    scanFraction hasIntPart text <+: text := by
  unfold scanFraction
  split
  · simp only
    split
    · exact List.cons_prefix_cons.mpr ⟨rfl, List.takeWhile_prefix _⟩
    · exact List.nil_prefix
  · exact List.nil_prefix

theorem scanExponent_isPrefix (text : List Char) : scanExponent text <+: text := by
  unfold scanExponent
  split
  · rename_i e text
    split
    · simp only
      generalize hsign : List.take _ text = sign
      have hprefix : sign <+: text := hsign ▸ List.take_prefix _ _
      split
      · exact List.nil_prefix
      · exact List.cons_prefix_cons.mpr
          ⟨rfl, append_isPrefix hprefix (List.takeWhile_prefix _)⟩
    · exact List.nil_prefix
  · exact List.nil_prefix

theorem scanNumber_isPrefix (text : List Char) : scanNumber text <+: text := by
  refine append_isPrefix (append_isPrefix (List.takeWhile_prefix _) (scanFraction_isPrefix _ _)) ?_
  rw [List.length_append]
  exact scanExponent_isPrefix _

theorem parseNumber_parses [Float64 F] [ParseFloat F] :
    Parses input K p₀ (parseNumber : P (Expr F)) fun _ => 1 := by
  refine Gains.stay skipWhitespace_parses fun _ => Gains.read rest_reads fun text => ?_
  simp only
  split
  · exact Gains.fail
  · rename_i hne
    have hpos : 0 < byteLen (scanNumber text) := byteLen_pos fun h => hne (by rw [h]; rfl)
    refine Gains.move (Gains.advance_text hpos fun pos h => ?_) fun _ => ?_
    · obtain ⟨rest, hrest⟩ := scanNumber_isPrefix text
      exact ⟨scanNumber text, rest, rfl, hrest.symm ▸ h.2⟩
    · split
      · exact Gains.pure rfl
      · exact Gains.fail

theorem leftAssociative_parses {operand : P (Expr F)} {operator : P (Option BinaryOperator)}
    (hoperand : Parses input Anywhere p₀ operand fun _ => 1)
    (hoperator : ∀ p, Parses input Anywhere p operator fun _ => 0) :
    Parses input K p₀ (leftAssociative operand operator) fun _ => 1 := by
  refine Gains.move hoperand.anywhere fun first => Gains.loop (fun left => ?_) first
  refine Gains.stay (hoperator _) fun op => ?_
  cases op with
  | none => exact Gains.pure rfl
  | some op => exact Gains.move (hoperand.later (by omega)) fun _ => Gains.pure rfl

/-- An operator that is one character of one byte. -/
def IsSymbol (choose : List Char → Option BinaryOperator) : Prop :=
  ∀ text op, choose text = some op → ∃ c rest, text = c :: rest ∧ c.utf8Size = 1

theorem symbolOperator_parses {choose : List Char → Option BinaryOperator}
    (hchoose : IsSymbol choose) : Parses input K p₀ (symbolOperator choose) fun _ => 0 := by
  refine Gains.stay skipWhitespace_parses fun _ => Gains.test atEnd_reads (Gains.pure rfl) ?_
  refine Gains.read rest_reads fun text => ?_
  cases hop : choose text with
  | none => exact Gains.pure rfl
  | some op =>
    obtain ⟨c, rest, rfl, hc⟩ := hchoose text op hop
    exact Gains.advance_char hc (fun _ h => ⟨rest, h.2⟩) (Gains.pure rfl)

theorem multiplicativeOperator_isSymbol : IsSymbol multiplicativeOperator := by
  intro text op h
  unfold multiplicativeOperator at h
  split at h
  · exact ⟨_, _, rfl, rfl⟩
  · exact ⟨_, _, rfl, rfl⟩
  · exact ⟨_, _, rfl, rfl⟩
  · cases h

theorem additiveOperator_isSymbol : IsSymbol additiveOperator := by
  intro text op h
  unfold additiveOperator at h
  split at h
  · exact ⟨_, _, rfl, rfl⟩
  · exact ⟨_, _, rfl, rfl⟩
  · cases h

theorem bitandOperator_isSymbol : IsSymbol bitandOperator := by
  intro text op h
  unfold bitandOperator at h
  split at h
  · cases h
  · exact ⟨_, _, rfl, rfl⟩
  · cases h

theorem bitxorOperator_isSymbol : IsSymbol bitxorOperator := by
  intro text op h
  unfold bitxorOperator at h
  split at h
  · exact ⟨_, _, rfl, rfl⟩
  · cases h

theorem bitorOperator_isSymbol : IsSymbol bitorOperator := by
  intro text op h
  unfold bitorOperator at h
  split at h
  · cases h
  · exact ⟨_, _, rfl, rfl⟩
  · cases h

theorem comparisonOperator_spec {text : List Char} {op : BinaryOperator} {len : Nat}
    (h : comparisonOperator text = some (op, len)) :
    0 < len ∧ ∃ skipped rest, byteLen skipped = len ∧ text = skipped ++ rest := by
  unfold comparisonOperator at h
  split at h
  all_goals cases h
  · exact ⟨by decide, ['>', '='], _, rfl, rfl⟩
  · exact ⟨by decide, ['<', '='], _, rfl, rfl⟩
  · exact ⟨by decide, ['!', '='], _, rfl, rfl⟩
  · exact ⟨by decide, ['<', '>'], _, rfl, rfl⟩
  · exact ⟨by decide, ['=', '='], _, rfl, rfl⟩
  · exact ⟨by decide, ['>'], _, rfl, rfl⟩
  · exact ⟨by decide, ['<'], _, rfl, rfl⟩
  · exact ⟨by decide, ['='], _, rfl, rfl⟩

-- ---- Lists

theorem isClosed_parses {close : Option Char} : Parses input K p₀ (isClosed close) fun _ => 0 := by
  cases close with
  | some c => exact (looksAt_reads c).gains
  | none => exact Gains.pure rfl

variable {expr : P (Expr F)}

theorem parseUnless_parses {other : P Bool} {R : Bool → Nat → Prop}
    (hother : Reads Read.Plain input other R) (hexpr : Parses input Anywhere p₀ expr fun _ => 1) :
    Parses input K p₀ (parseUnless other expr) fun _ => 0 :=
  Gains.test hother (Gains.pure rfl) (Gains.map hexpr.least.anywhere)

theorem single_parses (hexpr : Parses input Anywhere p₀ expr fun _ => 1) :
    Parses input K p₀ (do return [← expr]) fun _ => 1 :=
  Gains.move hexpr.anywhere fun _ => Gains.pure rfl

theorem parseItems_parses {close : Option Char} {item : P (List (Expr F))}
    (hitem : Parses input Anywhere p₀ item fun _ => 1) :
    Parses input K p₀ (parseItems close item) fun _ => 0 := by
  refine Gains.loop (fun items => Gains.stay skipWhitespace_parses fun _ => ?_) []
  refine Gains.stay isClosed_parses fun closed => ?_
  split
  · exact Gains.pure rfl
  · exact Gains.move hitem fun _ => Gains.stay skipWhitespace_parses fun _ =>
      Gains.take rfl (Gains.pure rfl) (Gains.pure rfl)

theorem parseArg_parses (hexpr : Parses input Anywhere p₀ expr fun _ => 1) :
    Parses input K p₀ (parseArg expr) fun _ => 1 := by
  refine Gains.test (looksAt_reads _) ?_ (single_parses hexpr)
  refine Gains.restAfter (fun pos h => ?_) fun after => ?_
  · obtain ⟨text, htext⟩ := h.2 rfl
    exact ⟨text, htext.skip_char⟩
  · simp only
    split
    · exact Gains.advance_char (c := '*') rfl (fun _ h => h.2 trivial) (Gains.pure rfl)
    · exact single_parses hexpr

theorem parseSliceEnd_parses (hexpr : Parses input Anywhere p₀ expr fun _ => 1)
    (hK : ∀ pos, K pos → ∃ text, RestAt input pos (':' :: text)) :
    Parses input K p₀ (parseSliceEnd expr) fun _ => 1 := by
  refine Gains.advance_char rfl hK (Gains.stay skipWhitespace_parses fun _ => ?_)
  refine Gains.stay (parseUnless_parses (looksAt_reads _) (hexpr.later (by omega))) fun _ => ?_
  exact Gains.stay skipWhitespace_parses fun _ => Gains.stay expectChar_parses.least fun _ => Gains.pure rfl

theorem parseItemsUntil_parses {close : Char} {trailing : Bool} {item : P (List (Expr F))}
    (hitem : Parses input Anywhere p₀ item fun _ => 1) :
    Parses input K p₀ (parseItemsUntil close trailing item) fun _ => 1 := by
  have hclose : ∀ items : List (Expr F), Parses input Anywhere p₀ (do
      skipWhitespace
      expectChar close
      return items) fun _ => 1 := fun _ =>
    Gains.stay skipWhitespace_parses fun _ => Gains.move expectChar_parses fun _ => Gains.pure rfl
  refine Gains.stay skipWhitespace_parses fun _ => Gains.test (looksAt_reads _) ?_ ?_
  · exact (hclose []).anywhere
  · exact Gains.stay (parseItems_parses hitem) hclose

theorem parseInList_parses (hexpr : Parses input Anywhere p₀ expr fun _ => 1) :
    Parses input K p₀ (parseInList expr) fun _ => 1 := by
  refine Gains.stay skipWhitespace_parses fun _ => Gains.move expectChar_parses fun _ => ?_
  refine Gains.stay skipWhitespace_parses fun _ => Gains.take rfl (Gains.pure rfl) ?_
  refine Gains.stay (parseItems_parses (single_parses (hexpr.later (by omega)))) fun _ => ?_
  exact Gains.stay skipWhitespace_parses fun _ => Gains.stay expectChar_parses.least fun _ => Gains.pure rfl

variable [Unicode]

theorem parseBehind_parses {kw : String}
    (hexpr : Parses input Anywhere p₀ expr fun _ => 1) :
    Parses input K p₀ (parseBehind kw expr) fun _ => 0 :=
  ifKeyword_parses (Gains.map (hexpr.later_least (by omega))) (Gains.pure rfl)

theorem parseObjectKey_parses : Parses input K p₀ parseObjectKey fun _ => 1 := by
  refine Gains.stay skipWhitespace_parses fun _ => Gains.test atEnd_reads Gains.fail ?_
  refine Gains.read (looksAt_reads _) fun _ => Gains.read (looksAt_reads _) fun _ => ?_
  split
  · exact parseQuoted_parses
  · refine Gains.read peekWord_reads fun found => ?_
    cases found with
    | none => exact Gains.fail
    | some word =>
      exact Gains.move (consumeWord_parses fun _ h => h.2 word rfl) fun _ => Gains.pure rfl

theorem parseEntry_parses (hexpr : Parses input Anywhere p₀ expr fun _ => 1) :
    Parses input K p₀ (parseEntry expr) fun _ => 1 := by
  refine Gains.move parseObjectKey_parses fun _ => Gains.stay skipWhitespace_parses fun _ => ?_
  refine Gains.stay expectChar_parses.least fun _ => ?_
  exact Gains.stay (hexpr.later_least (by omega)) fun _ => Gains.pure rfl

-- ---- Postfixes

theorem parseFieldWord_parses {expected : String} (hK : ∀ pos, K pos → AtToken input pos) :
    Parses input K p₀ (parseFieldWord expected) fun _ => 1 :=
  Gains.test (looksAt_reads _) parseBacktickIdentifier_parses
    (parseWordAt_parses (fun pos h => hK pos h.1) fun _ => Gains.pure rfl)

theorem parsePostfixOne_parses (hexpr : Parses input Anywhere p₀ expr fun _ => 1) (e : Expr F) :
    Parses input K p₀ (parsePostfixOne expr e) goingOn := by
  refine skipWhitespace_parses_then (Gains.take rfl ?_ (Gains.test (fun _ => Scans.looksAtText _) ?_ 
    (Gains.take rfl ?_ (Gains.pure rfl))))
  · refine skipWhitespace_parses_then (Gains.take rfl (Gains.pure rfl) ?_)
    exact Gains.stay (parseFieldWord_parses fun _ h => h).least fun _ => Gains.pure rfl
  · refine Gains.move (Gains.advance_text Nat.two_pos fun pos h => ?_) fun _ => ?_
    · obtain ⟨rest, hrest⟩ := h.2 rfl
      exact ⟨_, rest, rfl, hrest⟩
    · refine skipWhitespace_parses_then ?_
      refine Gains.read (looksAt_reads _) fun _ => Gains.read (looksAt_reads _) fun _ => ?_
      split
      · exact Gains.stay parseQuoted_parses.least fun _ => Gains.pure rfl
      · exact Gains.stay (parseFieldWord_parses fun _ h => h.1.1).least fun _ => Gains.pure rfl
  · refine Gains.stay skipWhitespace_parses fun _ => Gains.test (looksAt_reads _) ?_ ?_
    · exact Gains.stay (parseSliceEnd_parses (hexpr.later (by omega)) fun _ h => h.2 rfl).least
        fun _ => Gains.pure rfl
    · refine Gains.stay (hexpr.later_least (by omega)) fun _ => Gains.stay skipWhitespace_parses fun _ => ?_
      refine Gains.test (looksAt_reads _) ?_ (Gains.stay expectChar_parses.least fun _ => Gains.pure rfl)
      exact Gains.stay (parseSliceEnd_parses (hexpr.later (by omega)) fun _ h => h.2 rfl).least
        fun _ => Gains.pure rfl

theorem parsePostfix_parses (hexpr : Parses input Anywhere p₀ expr fun _ => 1) (e : Expr F) :
    Parses input K p₀ (parsePostfix expr e) fun _ => 0 :=
  Gains.loop (parsePostfixOne_parses hexpr) e

-- ---- Primaries

theorem parseWhen_parses (hexpr : Parses input Anywhere p₀ expr fun _ => 1)
    (clauses : List (Expr F × Expr F)) : Parses input K p₀ (parseWhen expr clauses) goingOn := by
  refine ifKeyword_parses ?_ (Gains.pure rfl)
  refine Gains.stay (hexpr.later_least (by omega)) fun _ => ?_
  refine Gains.stay (expectKeyword_parses _).least fun _ => ?_
  exact Gains.stay (hexpr.later_least (by omega)) fun _ => Gains.pure rfl

theorem parseCase_parses (hexpr : Parses input Anywhere p₀ expr fun _ => 1) :
    Parses input K p₀ (parseCase expr) fun _ => 0 := by
  refine Gains.stay (parseUnless_parses (peekWordIs_reads _) hexpr) fun _ => ?_
  refine Gains.stay (Gains.loop (parseWhen_parses hexpr) _) fun clauses => ?_
  split
  · exact Gains.fail
  · refine Gains.stay (parseBehind_parses hexpr) fun _ => ?_
    exact Gains.stay (expectKeyword_parses _).least fun _ => Gains.pure rfl

theorem parseOverPart_parses (hexpr : Parses input Anywhere p₀ expr fun _ => 1)
    (parts : Option (Expr F) × Option (Expr F)) :
    Parses input K p₀ (parseOverPart expr parts) goingOn := by
  refine Gains.stay skipWhitespace_parses fun _ => Gains.test (peekWordIs_reads _) ?_
    (Gains.test (peekWordIs_reads _) ?_ (Gains.pure rfl))
  · refine Gains.stay passKeyword_parses fun _ => Gains.move (expectKeyword_parses _) fun _ => ?_
    exact Gains.stay (hexpr.later_least (by omega)) fun _ => Gains.pure rfl
  · refine Gains.stay passKeyword_parses fun _ => Gains.move hexpr fun _ => Gains.pure rfl

theorem parseCall_parses (hexpr : Parses input Anywhere p₀ expr fun _ => 1) (name : String)
    (hK : ∀ pos, K pos → ∃ text, RestAt input pos ('(' :: text)) :
    Parses input K p₀ (parseCall expr name) fun _ => 1 := by
  have hexpr' : Parses input Anywhere (p₀ + 1) expr fun _ => 1 := hexpr.later (by omega)
  refine Gains.advance_char rfl hK ?_
  refine Gains.stay (parseItemsUntil_parses (parseArg_parses hexpr')).least fun args => ?_
  refine Gains.stay skipWhitespace_parses fun _ => ifKeyword_parses ?_ (parsePostfix_parses hexpr' _)
  refine Gains.stay skipWhitespace_parses fun _ => Gains.stay expectChar_parses.least fun _ => ?_
  refine Gains.stay (Gains.loop (parseOverPart_parses (hexpr.later (by omega))) _) fun _ => ?_
  refine Gains.stay skipWhitespace_parses fun _ => Gains.stay expectChar_parses.least fun _ => ?_
  exact parsePostfix_parses (hexpr.later (by omega)) _

theorem parseWordPrimary_parses (hexpr : Parses input Anywhere (p₀ + 1) expr fun _ => 1) :
    Parses input K p₀ (parseWordPrimary expr) fun _ => 1 := by
  refine Gains.read peekWord_reads fun found => ?_
  cases found with
  | none => exact Gains.fail
  | some word =>
    refine Gains.move (consumeWord_parses fun _ h => h.2 word rfl) fun _ => ?_
    split
    · exact parsePostfix_parses hexpr _
    split
    · exact parsePostfix_parses hexpr _
    split
    · exact parsePostfix_parses hexpr _
    split
    · exact Gains.stay (parseCase_parses hexpr) fun _ => parsePostfix_parses hexpr _
    refine Gains.stay skipWhitespace_parses fun _ => Gains.test (looksAt_reads _) ?_
      (parsePostfix_parses hexpr _)
    exact (parseCall_parses hexpr word fun _ h => h.2 rfl).least

theorem parseIn_parses (hexpr : Parses input Anywhere p₀ expr fun _ => 1) (left : Expr F)
    (negated : Bool) : Parses input K p₀ (parseIn expr left negated) fun _ => 0 :=
  Gains.stay passKeyword_parses fun _ =>
    Gains.stay (parseInList_parses hexpr).least fun _ => Gains.pure rfl

variable [Float64 F] [ParseFloat F]

theorem parsePrimary_parses (hexpr : Parses input Anywhere (p₀ + 1) expr fun _ => 1) :
    Parses input K p₀ (parsePrimary expr) fun _ => 1 := by
  refine Gains.stay skipWhitespace_parses fun _ => Gains.test atEnd_reads Gains.fail ?_
  refine Gains.read rest_reads fun rem => ?_
  have hhead : ∀ {c : Char} {pos : Nat}, rem.head? = some c → RestAt input pos rem →
      ∃ text, RestAt input pos (c :: text) := by
    intro c pos hc hpos
    obtain ⟨text, rfl⟩ := List.head?_eq_some_iff.mp hc
    exact ⟨text, hpos⟩
  split
  · exact Gains.move parseBacktickIdentifier_parses fun _ => parsePostfix_parses hexpr _
  · rename_i hc
    refine Gains.advance_char rfl (fun _ h => hhead hc h.2) (Gains.stay hexpr.least fun _ => ?_)
    refine Gains.stay skipWhitespace_parses fun _ => Gains.stay expectChar_parses.least fun _ => ?_
    exact parsePostfix_parses hexpr _
  · exact Gains.move parseQuoted_parses fun _ => parsePostfix_parses hexpr _
  · exact Gains.move parseQuoted_parses fun _ => parsePostfix_parses hexpr _
  · rename_i hc
    refine Gains.advance_char rfl (fun _ h => hhead hc h.2) ?_
    exact Gains.stay (parseItemsUntil_parses (single_parses hexpr)).least fun _ =>
      parsePostfix_parses hexpr _
  · rename_i hc
    refine Gains.advance_char rfl (fun _ h => hhead hc h.2) ?_
    exact Gains.stay (parseItemsUntil_parses (parseEntry_parses hexpr)).least fun _ =>
      parsePostfix_parses hexpr _
  · split
    · exact Gains.move parseNumber_parses fun _ => parsePostfix_parses hexpr _
    · exact parseWordPrimary_parses hexpr

-- ---- Operators

theorem parseUnary_parses (hexpr : Parses input Anywhere (p₀ + 1) expr fun _ => 1) :
    Parses input K p₀ (parseUnary expr) fun _ => 1 := by
  refine Gains.bounded fun steps => ?_
  induction steps with
  | zero => exact fun p _ hsteps => Gains.beyond hsteps
  | succ steps ih =>
    intro p hp hsteps
    have hnext : Parses input Anywhere (p + 1) (parseUnarySteps expr steps) fun _ => 1 :=
      ih (p + 1) (by omega) (by omega)
    refine Gains.stay skipWhitespace_parses fun _ => Gains.test (peekWordIs_reads _) ?_ ?_
    · refine Gains.move (matchKeyword_parses_then fun _ h => h.2 rfl) fun _ => ?_
      exact Gains.stay hnext.least fun _ => Gains.pure rfl
    · refine Gains.stay skipWhitespace_parses fun _ => Gains.take rfl ?_ (Gains.take rfl ?_ ?_)
      · exact Gains.stay hnext.least fun _ => Gains.pure rfl
      · exact hnext.least
      · exact parsePrimary_parses (hexpr.later (by omega))

theorem parseMultiplicative_parses (hexpr : Parses input Anywhere (p₀ + 1) expr fun _ => 1) :
    Parses input K p₀ (parseMultiplicative expr) fun _ => 1 :=
  leftAssociative_parses (parseUnary_parses hexpr) fun _ =>
    symbolOperator_parses multiplicativeOperator_isSymbol

theorem parseAdditive_parses (hexpr : Parses input Anywhere (p₀ + 1) expr fun _ => 1) :
    Parses input K p₀ (parseAdditive expr) fun _ => 1 :=
  leftAssociative_parses (parseMultiplicative_parses hexpr) fun _ =>
    symbolOperator_parses additiveOperator_isSymbol

theorem parseBitand_parses (hexpr : Parses input Anywhere (p₀ + 1) expr fun _ => 1) :
    Parses input K p₀ (parseBitand expr) fun _ => 1 :=
  leftAssociative_parses (parseAdditive_parses hexpr) fun _ =>
    symbolOperator_parses bitandOperator_isSymbol

theorem parseBitxor_parses (hexpr : Parses input Anywhere (p₀ + 1) expr fun _ => 1) :
    Parses input K p₀ (parseBitxor expr) fun _ => 1 :=
  leftAssociative_parses (parseBitand_parses hexpr) fun _ =>
    symbolOperator_parses bitxorOperator_isSymbol

theorem parseBitor_parses (hexpr : Parses input Anywhere (p₀ + 1) expr fun _ => 1) :
    Parses input K p₀ (parseBitor expr) fun _ => 1 :=
  leftAssociative_parses (parseBitxor_parses hexpr) fun _ =>
    symbolOperator_parses bitorOperator_isSymbol

theorem parseComparison_parses (hexpr : Parses input Anywhere (p₀ + 1) expr fun _ => 1) :
    Parses input K p₀ (parseComparison expr) fun _ => 1 := by
  have hbitor : ∀ {p : Nat}, p₀ ≤ p → ∀ {K : Nat → Prop},
      Parses input K p (parseBitor expr) fun _ => 1 :=
    fun hp _ => parseBitor_parses (hexpr.later (Nat.add_le_add_right hp 1))
  refine Gains.move (hbitor (Nat.le_refl _)) fun left => Gains.stay skipWhitespace_parses fun _ =>
    Gains.test (peekWordIs_reads _) ?_ (Gains.test (peekWordIs_reads _) ?_ ?_)
  · refine Gains.saving fun saved hp hsaved => ?_
    refine Scans.bind (passKeyword_parses.from_pos (Nat.le_refl saved)) fun _ =>
      Scans.bind (peekWordIs_reads _ _) fun like => Scans.ite (fun _ => ?_) fun _ => ?_
    · have hlike : Parses input Anywhere saved (do
          let _ ← matchKeyword "LIKE"
          let right ← parseBitor expr
          return Expr.unaryOp .not (.binaryOp left .like right)) fun _ => 0 :=
        Gains.stay passKeyword_parses fun _ =>
          Gains.stay (hbitor (by omega)).least fun _ => Gains.pure rfl
      exact (hlike.from_pos (Nat.le_refl saved)).pre fun _ h => h.1
    · exact Scans.bind (Scans.seek hsaved (Q := fun _ pos => saved ≤ pos) (Nat.le_refl _)) fun _ =>
        Scans.pure fun _ h => h
  · exact Gains.stay passKeyword_parses fun _ =>
      Gains.stay (hbitor (by omega)).least fun _ => Gains.pure rfl
  · refine Gains.stay skipWhitespace_parses fun _ => Gains.test atEnd_reads (Gains.pure rfl) ?_
    refine Gains.read rest_reads fun text => ?_
    split
    · exact Gains.pure rfl
    · rename_i op len hop
      obtain ⟨hlen, skipped, rest, hskipped, htext⟩ := comparisonOperator_spec hop
      refine Gains.stay (Gains.advance_text hlen fun pos h => ?_).least fun _ => ?_
      · exact ⟨skipped, rest, hskipped, htext ▸ h.2⟩
      · exact Gains.stay (hbitor (by omega)).least fun _ => Gains.pure rfl

theorem parseBetween_parses (hexpr : Parses input Anywhere (p₀ + 1) expr fun _ => 1) (left : Expr F)
    (negated : Bool) : Parses input K p₀ (parseBetween expr left negated) fun _ => 0 := by
  refine Gains.stay passKeyword_parses fun _ => Gains.stay (parseComparison_parses hexpr).least fun _ => ?_
  refine Gains.stay (expectKeyword_parses _).least fun _ => ?_
  exact Gains.stay (parseComparison_parses hexpr).least fun _ => Gains.pure rfl

theorem parseNotRange_parses (hexpr : Parses input Anywhere p₀ expr fun _ => 1) (left : Expr F) :
    Parses input K p₀ (parseNotRange expr left) fun _ => 0 := by
  refine Gains.saving fun saved hp hsaved => ?_
  have hexpr' : Parses input Anywhere saved expr fun _ => 1 := hexpr.later hp
  have hnext : Parses input Anywhere (saved + 1) expr fun _ => 1 := hexpr.later (by omega)
  have hback : ∀ P : Nat → Prop, Scans Read.Plain input P (do
      seek saved
      return left) fun _ pos => saved + 0 ≤ pos := fun _ =>
    Scans.bind (Scans.seek hsaved (Q := fun _ pos => saved ≤ pos) (Nat.le_refl _)) fun _ =>
      Scans.pure fun _ h => h
  refine Scans.bind (passKeyword_parses.from_pos (Nat.le_refl saved)) fun _ =>
    Scans.bind (peekWord_reads _) fun found => ?_
  cases found with
  | none => exact hback _
  | some word =>
    have hthen : ∀ {m : P (Expr F)}, Parses input Anywhere saved m (fun _ => 0) →
        Scans Read.Plain input (fun pos => saved + 0 ≤ pos ∧
          ∀ w ∈ some word, SeesWord input w pos) m fun _ pos => saved + 0 ≤ pos :=
      fun h => (h.from_pos (Nat.le_refl saved)).pre fun _ h => h.1
    refine Scans.ite (fun _ => hthen (parseBetween_parses hnext left true)) fun _ =>
      Scans.ite (fun _ => hthen (parseIn_parses hexpr' left true)) fun _ =>
        Scans.ite (fun _ => hthen ?_) fun _ => hback _
    exact Gains.stay passKeyword_parses fun _ =>
      Gains.stay (parseComparison_parses hnext).least fun _ => Gains.pure rfl

theorem parseRange_parses (hexpr : Parses input Anywhere (p₀ + 1) expr fun _ => 1) :
    Parses input K p₀ (parseRange expr) fun _ => 1 := by
  have hnext : Parses input Anywhere (p₀ + 1 + 1) expr fun _ => 1 := hexpr.later (by omega)
  refine Gains.move (parseComparison_parses hexpr) fun left => Gains.stay skipWhitespace_parses fun _ =>
    Gains.read peekWord_reads fun found => ?_
  cases found with
  | none => exact Gains.pure rfl
  | some word =>
    simp only
    split
    · exact parseBetween_parses hnext left false
    split
    · exact parseNotRange_parses hexpr left
    split
    · exact parseIn_parses hexpr left false
    split
    · refine Gains.stay passKeyword_parses fun _ => Gains.stay optionalKeyword_parses fun _ => ?_
      exact Gains.stay (expectKeyword_parses _).least fun _ => Gains.pure rfl
    split
    · exact Gains.stay passKeyword_parses fun _ =>
        Gains.stay (parseComparison_parses hnext).least fun _ => Gains.pure rfl
    · exact Gains.pure rfl

theorem parseAnd_parses (hexpr : Parses input Anywhere (p₀ + 1) expr fun _ => 1) :
    Parses input K p₀ (parseAnd expr) fun _ => 1 :=
  leftAssociative_parses (parseRange_parses hexpr) fun _ =>
    Gains.test (peekWordIs_reads _) (Gains.stay passKeyword_parses fun _ => Gains.pure rfl)
      (Gains.pure rfl)

theorem parseOr_parses (hexpr : Parses input Anywhere (p₀ + 1) expr fun _ => 1) :
    Parses input K p₀ (parseOr expr) fun _ => 1 :=
  leftAssociative_parses (parseAnd_parses hexpr) fun _ =>
    ifKeyword_parses (Gains.pure rfl) (Gains.pure rfl)

theorem parseExprSteps_parses {steps : Nat} (hsteps : byteLen input < p₀ + steps) :
    Parses input Anywhere p₀ (parseExprSteps steps : P (Expr F)) fun _ => 1 := by
  induction steps generalizing p₀ with
  | zero => exact Gains.beyond hsteps
  | succ steps ih =>
    have hnext : Parses input Anywhere (p₀ + 1) (parseExprSteps steps : P (Expr F)) fun _ => 1 :=
      ih (by omega)
    exact parseOr_parses hnext

theorem parseExpr_parses : Parses input K p₀ (parseExpr : P (Expr F)) fun _ => 1 :=
  Gains.bounded fun _ _ _ hsteps => parseExprSteps_parses hsteps

end Rekuiper.Parser
