import Rekuiper.Parser.Create
import Rekuiper.Parser.ExpressionLaws
import Rekuiper.Parser.Select

/-!
# Laws of the statement parsers

`SELECT`, `CREATE STREAM` and `CREATE TABLE` keep the cursor on boundaries, and they end.
-/

namespace Rekuiper.Parser

open Lib Scan Sql

variable {F α : Type} {input : List Char} {K : Nat → Prop} {p₀ : Nat}

-- ---- Columns

theorem columnName_parses (part : List Char) : Parses input K p₀ (columnName part) fun _ => 0 := by
  unfold columnName
  split
  · split
    · split
      · exact Gains.pure rfl
      · exact Gains.fail
    · exact Gains.pure rfl
  · exact Gains.pure rfl

theorem parseColumn_parses (part : List Char) : Parses input K p₀ (parseColumn part) fun _ => 0 := by
  unfold parseColumn
  split
  · exact Gains.pure rfl
  refine Gains.stay (columnName_parses part) ?_
  rintro ⟨name, remainder⟩
  simp only
  split
  · exact Gains.pure rfl
  intro p hp
  cases hsplit : splitAtDefault remainder with
  | none =>
    have hplain : ¬Read.Plain (.columnType remainder) := by
      change ¬plainType remainder = true
      rw [← splitAtDefault_isSome, hsplit]
      exact Bool.false_ne_true
    exact Scans.note_panic hplain fun s _ _ => ⟨s, rfl, List.Subset.refl _⟩
  | some found =>
    have hplain : Read.Plain (.columnType remainder) := by
      change plainType remainder = true
      rw [← splitAtDefault_isSome, hsplit]
      rfl
    refine Scans.note hplain (Scans.ite (fun _ => ?_) fun _ => Scans.fail)
    exact Scans.pure fun _ h => h.1

theorem parseColumns_parses (parts : List (List Char)) :
    Parses input K p₀ (parseColumns parts) fun _ => 0 := by
  induction parts generalizing K with
  | nil => exact Gains.pure rfl
  | cons part parts ih =>
    exact Gains.stay (parseColumn_parses _) fun _ => Gains.stay ih fun _ => Gains.pure rfl

theorem textInParens_eq_some {depth : Nat} {quote : Option Char} {text inner : List Char}
    (h : textInParens depth quote text = some inner) : ∃ rest, text = inner ++ ')' :: rest := by
  induction text generalizing depth quote inner with
  | nil =>
    cases quote <;> cases h
  | cons c text ih =>
    have hmap : ∀ {depth : Nat} {quote : Option Char},
        (textInParens depth quote text).map (c :: ·) = some inner →
          ∃ rest, c :: text = inner ++ ')' :: rest := by
      intro depth quote h
      obtain ⟨inner', hinner, rfl⟩ := Option.map_eq_some_iff.mp h
      obtain ⟨rest, rfl⟩ := ih hinner
      exact ⟨rest, rfl⟩
    cases quote with
    | some quote => exact hmap h
    | none =>
      rw [textInParens] at h
      split at h
      · exact hmap h
      split at h
      · rename_i hclose
        split at h
        · cases h
          exact ⟨text, by rw [eq_of_beq hclose]; rfl⟩
        · exact hmap h
      · exact hmap h

theorem advance_textInParens_parses {depth : Nat} {quote : Option Char} {text inner : List Char}
    (h : textInParens depth quote text = some inner) (hK : ∀ pos, K pos → RestAt input pos text) :
    Parses input K p₀ (advance (byteLen inner + 1)) fun _ => 1 := by
  refine Gains.advance_text (Nat.succ_pos _) fun pos hpos => ?_
  obtain ⟨rest, rfl⟩ := textInParens_eq_some h
  refine ⟨inner ++ [')'], rest, byteLen_append _ _, ?_⟩
  rw [List.append_assoc]
  exact hK pos hpos

theorem parseColumnDefs_parses : Parses input K p₀ parseColumnDefs fun _ => 0 := by
  refine Gains.test (looksAt_reads _) (Gains.read rest_reads fun text => ?_) (Gains.pure rfl)
  cases htext : textInParens 0 none text with
  | none => exact Gains.fail
  | some inner =>
    exact Gains.stay (advance_textInParens_parses htext fun _ h => h.2).least fun _ =>
      parseColumns_parses _

theorem parseSemicolon_parses : Parses input K p₀ parseSemicolon fun _ => 0 :=
  Gains.stay skipWhitespace_parses fun _ => Gains.take rfl skipWhitespace_parses (Gains.pure rfl)

theorem orFail_parses (result : Except String α) :
    Parses input K p₀ (orFail result) fun _ => 0 := by
  cases result with
  | ok a => exact Gains.pure rfl
  | error text => exact Gains.fail

theorem parseCommas_parses {item : List α → P (List α)}
    (hitem : ∀ items, Parses input Anywhere p₀ (item items) fun _ => 0) :
    Parses input K p₀ (parseCommas item) fun _ => 0 := by
  refine Gains.loop (fun items => ?_) _
  refine Gains.stay (hitem items) fun _ => Gains.stay skipWhitespace_parses fun _ => ?_
  exact Gains.take rfl (Gains.pure rfl) (Gains.pure rfl)

theorem parseTerminator_parses : Parses input K p₀ parseTerminator fun _ => 0 := by
  refine Gains.stay skipWhitespace_parses fun _ => Gains.test (looksAt_reads _) ?_ (Gains.pure rfl)
  refine (Gains.advance_text Nat.one_pos fun pos h => ?_).least
  obtain ⟨text, htext⟩ := h.2 rfl
  exact ⟨[';'], text, rfl, htext⟩

variable [Unicode]

theorem parseWithOptions_parses : Parses input K p₀ parseWithOptions fun _ => 0 := by
  refine ifKeyword_parses (Gains.stay skipWhitespace_parses fun _ => ?_) (Gains.pure rfl)
  refine Gains.take rfl (Gains.read rest_reads fun text => ?_) (Gains.pure rfl)
  cases htext : textInParens 1 none text with
  | none => exact Gains.fail
  | some inner =>
    exact Gains.stay (advance_textInParens_parses htext fun _ h => h.2).least fun _ => Gains.pure rfl

-- ---- `CREATE`

theorem foundToken_parses (quotes : Bool) : Parses input K p₀ (foundToken quotes) fun _ => 0 := by
  refine Gains.read peekWord_reads fun found => ?_
  cases found with
  | some w => exact Gains.pure rfl
  | none =>
    refine Gains.read rest_reads fun text => ?_
    split
    · exact Gains.pure rfl
    · split
      · exact Gains.pure rfl
      · exact Gains.pure rfl

theorem parseSchema_parses (noun : String) : Parses input K p₀ (parseSchema noun) fun _ => 0 :=
  Gains.stay skipWhitespace_parses fun _ =>
    Gains.test (looksAt_reads _) parseColumnDefs_parses <|
    Gains.test (peekWordIs_reads _) (Gains.pure rfl) <|
    Gains.test atEnd_reads (Gains.pure rfl) <|
    Gains.test (looksAt_reads _) (Gains.pure rfl) <|
    Gains.stay (foundToken_parses true) fun _ => Gains.fail

theorem parseEnd_parses (noun : String) : Parses input K p₀ (parseEnd noun) fun _ => 0 := by
  refine Gains.stay parseSemicolon_parses fun _ => Gains.read atEnd_reads fun ended => ?_
  split
  · exact Gains.stay (foundToken_parses false) fun _ => Gains.fail
  · exact Gains.pure rfl

theorem parseCreate_parses (kw noun : String) :
    Parses input K p₀ (parseCreate kw noun) fun _ => 0 := by
  refine Gains.stay (expectKeyword_parses _).least fun _ =>
    Gains.stay (expectKeyword_parses _).least fun _ => Gains.stay skipWhitespace_parses fun _ =>
      Gains.read peekWord_reads fun found => ?_
  cases found with
  | none => exact Gains.fail
  | some name =>
    refine Gains.stay (consumeWord_parses fun _ h => h.2 name rfl).least fun _ => ?_
    refine Gains.stay (parseSchema_parses noun) fun _ => Gains.stay parseWithOptions_parses fun _ => ?_
    exact Gains.stay (parseEnd_parses noun) fun _ => Gains.pure rfl

-- ---- Parts of `SELECT`

theorem parseOptionalAlias_parses : Parses input K p₀ parseOptionalAlias fun _ => 0 := by
  refine Gains.stay skipWhitespace_parses fun _ => ifKeyword_parses ?_ ?_
  · refine Gains.stay skipWhitespace_parses fun _ => Gains.test (looksAt_reads _)
      (Gains.map parseBacktickIdentifier_parses.least) (Gains.read peekWord_reads fun found => ?_)
    cases found with
    | none => exact Gains.fail
    | some name =>
      exact Gains.stay (consumeWord_parses fun _ h => h.2 name rfl).least fun _ => Gains.pure rfl
  · refine Gains.test (looksAt_reads _) (Gains.map parseBacktickIdentifier_parses.least)
      (Gains.read peekWord_reads fun found => ?_)
    cases found with
    | none => exact Gains.pure rfl
    | some word =>
      simp only
      split
      · exact Gains.pure rfl
      · exact Gains.stay (consumeWord_parses fun _ h => h.2 word rfl).least fun _ => Gains.pure rfl

theorem parseFieldAlias_parses : Parses input K p₀ parseFieldAlias fun _ => 0 := by
  refine Gains.stay skipWhitespace_parses fun _ => Gains.test (peekWordIs_reads _) ?_
    (Gains.test (looksAt_reads _) (Gains.map parseBacktickIdentifier_parses.least) (Gains.pure rfl))
  refine Gains.stay passKeyword_parses fun _ => Gains.stay skipWhitespace_parses fun _ =>
    Gains.test (looksAt_reads _) (Gains.map parseBacktickIdentifier_parses.least)
      (Gains.read peekWord_reads fun found => ?_)
  cases found with
  | none => exact Gains.pure rfl
  | some name =>
    simp only
    split
    · exact Gains.pure rfl
    · exact Gains.stay (consumeWord_parses fun _ h => h.2 name rfl).least fun _ => Gains.pure rfl

theorem parseModifier_parses {kw : String} {item : List α → P (List α)}
    (hitem : ∀ {p : Nat} items, Parses input Anywhere p (item items) fun _ => 0) :
    Parses input K p₀ (parseModifier kw item) fun _ => 1 := by
  refine Gains.stay passKeyword_parses fun _ => Gains.stay skipWhitespace_parses fun _ =>
    Gains.move expectChar_parses fun _ => Gains.stay (parseCommas_parses hitem) fun _ => ?_
  exact Gains.stay skipWhitespace_parses fun _ =>
    Gains.stay expectChar_parses.least fun _ => Gains.pure rfl

theorem parseExceptColumn_parses (cols : List String) :
    Parses input K p₀ (parseExceptColumn cols) fun _ => 0 :=
  Gains.stay skipWhitespace_parses fun _ =>
    Gains.stay parseColumnIdentifier_parses.least fun _ => Gains.pure rfl

theorem parseJoinLead_parses : Parses input K p₀ parseJoinLead fun _ => 0 := by
  refine Gains.read peekWord_reads fun found => ?_
  cases found with
  | none => exact Gains.pure rfl
  | some word =>
    simp only
    split
    · exact Gains.stay (consumeWord_parses fun _ h => h.2 word rfl).least fun _ => Gains.pure rfl
    · exact Gains.pure rfl

theorem parseLeftAsof_parses (lead : Option String) :
    Parses input K p₀ (parseLeftAsof lead) fun _ => 0 := by
  unfold parseLeftAsof
  split
  · exact optionalKeyword_parses
  · exact Gains.pure rfl

theorem parseJoinHeader_parses :
    Parses input K p₀ parseJoinHeader fun found => found.isSome.toNat :=
  Gains.stay parseJoinLead_parses fun _ => Gains.stay (parseLeftAsof_parses _) fun _ =>
    Gains.stay optionalKeyword_parses fun _ => ifKeyword_parses (Gains.pure rfl) (Gains.pure rfl)

theorem parseJoinTarget_parses : Parses input K p₀ parseJoinTarget fun _ => 0 := by
  refine Gains.read peekWord_reads fun found => ?_
  cases found with
  | none => exact Gains.fail
  | some t =>
    simp only
    split
    · exact Gains.fail
    · exact Gains.stay (consumeWord_parses fun _ h => h.2 t rfl).least fun _ => Gains.pure rfl

theorem parseLimit_parses : Parses input K p₀ parseLimit fun _ => 0 := by
  refine ifKeyword_parses ?_ (Gains.pure rfl)
  refine Gains.stay skipWhitespace_parses fun _ => Gains.read peekWord_reads fun found => ?_
  cases found with
  | none => exact Gains.fail
  | some token =>
    simp only
    split
    · exact Gains.fail
    · exact Gains.stay (consumeWord_parses fun _ h => h.2 token rfl).least fun _ => Gains.pure rfl

variable [Float64 F] [ParseFloat F]

theorem parseReplacement_parses (replace : List (Expr F × String)) :
    Parses input K p₀ (parseReplacement replace) fun _ => 0 :=
  Gains.stay skipWhitespace_parses fun _ => Gains.stay parseExpr_parses.least fun _ =>
    Gains.stay skipWhitespace_parses fun _ => Gains.stay (expectKeyword_parses _).least fun _ =>
      Gains.stay skipWhitespace_parses fun _ =>
        Gains.stay parseColumnIdentifier_parses.least fun _ => Gains.pure rfl

theorem parseWildcardModifier_parses (m : Modifiers F) :
    Parses input K p₀ (parseWildcardModifier m) goingOn :=
  Gains.stay skipWhitespace_parses fun _ => Gains.test (peekWordIs_reads _)
    (Gains.move (parseModifier_parses parseExceptColumn_parses) fun _ => Gains.pure rfl)
    (Gains.test (peekWordIs_reads _)
      (Gains.move (parseModifier_parses parseReplacement_parses) fun _ => Gains.pure rfl)
      (Gains.pure rfl))

theorem parseField_parses (fields : List (Expr F × Option String)) :
    Parses input K p₀ (parseField fields) fun _ => 0 := by
  refine Gains.stay skipWhitespace_parses fun _ => Gains.take rfl ?_
    (Gains.test (peekWordIs_reads _) Gains.fail ?_)
  · exact Gains.stay skipWhitespace_parses fun _ =>
      Gains.stay (Gains.loop parseWildcardModifier_parses _) fun _ => Gains.pure rfl
  · exact Gains.stay parseExpr_parses.least fun _ =>
      Gains.stay parseFieldAlias_parses fun _ => Gains.pure rfl

theorem parseJoin_parses (joins : List (JoinClause F)) :
    Parses input K p₀ (parseJoin joins) goingOn := by
  refine Gains.read peekWord_reads fun word => ?_
  simp only
  split
  · exact Gains.pure rfl
  refine Gains.saving fun saved hp hsaved => ?_
  refine Scans.bind (parseJoinHeader_parses.from_pos (Nat.le_refl saved)) fun found => ?_
  cases found with
  | none =>
    exact Scans.bind (Scans.seek hsaved (Q := fun _ pos => saved ≤ pos) (Nat.le_refl _)) fun _ =>
      Scans.pure fun _ h => h
  | some joinType =>
    have hjoin : Parses input Anywhere (saved + 1) (do
        let target ← parseJoinTarget
        let targetAlias ← parseOptionalAlias
        let onCondition ← parseBehind "ON" parseExpr
        let join : JoinClause F := { joinType, target, targetAlias, onCondition }
        return .inl (joins ++ [join]) : P (List (JoinClause F) ⊕ List (JoinClause F))) fun _ => 0 :=
      Gains.stay parseJoinTarget_parses fun _ => Gains.stay parseOptionalAlias_parses fun _ =>
        Gains.stay (parseBehind_parses parseExpr_parses) fun _ => Gains.pure rfl
    refine (hjoin.from_pos (Nat.le_refl (saved + 1))).post fun r pos h => ?_
    exact Nat.le_trans (Nat.add_le_add_left (goingOn_le_one r) saved) h

theorem parseWindowOverPart_parses (g : Grouping F) :
    Parses input K p₀ (parseWindowOverPart g) goingOn := by
  refine Gains.stay skipWhitespace_parses fun _ => Gains.test (peekWordIs_reads _) ?_
    (Gains.test (peekWordIs_reads _) ?_ (Gains.pure rfl))
  · exact Gains.stay passKeyword_parses fun _ => Gains.move parseExpr_parses fun _ => Gains.pure rfl
  · exact Gains.stay passKeyword_parses fun _ => Gains.move (expectKeyword_parses _) fun _ =>
      Gains.stay parseExpr_parses.least fun _ => Gains.pure rfl

theorem parseWindowClause_parses (g : Grouping F) :
    Parses input K p₀ (parseWindowClause g) goingOn := by
  refine Gains.stay skipWhitespace_parses fun _ => Gains.test (peekWordIs_reads _) ?_
    (Gains.test (peekWordIs_reads _) ?_ (Gains.pure rfl))
  · refine Gains.stay passKeyword_parses fun _ => Gains.move expectChar_parses fun _ => ?_
    refine Gains.stay (expectKeyword_parses _).least fun _ => ?_
    exact Gains.stay parseExpr_parses.least fun _ =>
      Gains.stay expectChar_parses.least fun _ => Gains.pure rfl
  · refine Gains.stay passKeyword_parses fun _ => Gains.move expectChar_parses fun _ => ?_
    exact Gains.stay (Gains.loop parseWindowOverPart_parses _) fun _ =>
      Gains.stay expectChar_parses.least fun _ => Gains.pure rfl

theorem parseGroupWindow_parses (g : Grouping F) (item : Expr F) :
    Parses input K p₀ (parseGroupWindow g item) fun _ => 0 := by
  refine Gains.stay (orFail_parses _) fun window => ?_
  cases window with
  | some window => exact Gains.loop parseWindowClause_parses _
  | none => exact Gains.pure rfl

theorem parseGroupItem_parses (g : Grouping F) : Parses input K p₀ (parseGroupItem g) goingOn := by
  refine Gains.stay skipWhitespace_parses fun _ => Gains.stay parseExpr_parses.least fun item => ?_
  refine Gains.stay (parseGroupWindow_parses _ item) fun _ => Gains.stay skipWhitespace_parses fun _ => ?_
  exact Gains.take rfl (Gains.pure rfl) (Gains.pure rfl)

theorem parseGroupBy_parses : Parses input K p₀ (parseGroupBy : P (Grouping F)) fun _ => 0 := by
  refine Gains.test (peekWordIs_reads _) ?_ (Gains.pure rfl)
  exact Gains.stay (expectKeyword_parses _).least fun _ =>
    Gains.stay (expectKeyword_parses _).least fun _ => Gains.loop parseGroupItem_parses _

theorem parseOrderItem_parses (items : List (OrderByItem F)) :
    Parses input K p₀ (parseOrderItem items) fun _ => 0 := by
  refine Gains.stay skipWhitespace_parses fun _ => Gains.stay parseExpr_parses.least fun _ => ?_
  refine Gains.test (peekWordIs_reads _) ?_ ?_
  · exact Gains.stay passKeyword_parses fun _ => Gains.pure rfl
  · exact Gains.stay optionalKeyword_parses fun _ => Gains.pure rfl

theorem parseOrderBy_parses : Parses input K p₀ (parseOrderBy : P (List (OrderByItem F))) fun _ => 0 :=
  ifKeyword_parses (Gains.stay (expectKeyword_parses _).least fun _ =>
    parseCommas_parses parseOrderItem_parses) (Gains.pure rfl)

-- ---- `SELECT`

theorem parseClauses_parses : Parses input K p₀ (parseClauses : P (SelectStmt F)) fun _ => 0 := by
  refine Gains.stay (expectKeyword_parses _).least fun _ => Gains.stay skipWhitespace_parses fun _ => ?_
  refine Gains.stay (parseCommas_parses parseField_parses) fun fields => ?_
  refine Gains.stay (expectKeyword_parses _).least fun _ => Gains.stay skipWhitespace_parses fun _ => ?_
  refine Gains.read peekWord_reads fun found => ?_
  cases found with
  | none => exact Gains.fail
  | some source =>
    refine Gains.stay (consumeWord_parses fun _ h => h.2 source rfl).least fun _ => ?_
    refine Gains.stay parseOptionalAlias_parses fun _ => ?_
    refine Gains.stay (Gains.loop parseJoin_parses _) fun _ => ?_
    refine Gains.stay (parseBehind_parses parseExpr_parses) fun _ => ?_
    refine Gains.stay parseGroupBy_parses fun _ => ?_
    refine Gains.stay (parseBehind_parses parseExpr_parses) fun _ => ?_
    refine Gains.stay parseOrderBy_parses fun _ => ?_
    exact Gains.stay parseLimit_parses fun _ => Gains.pure rfl

theorem parseSelect_parses : Parses input K p₀ (parseSelect : P (SelectStmt F)) fun _ => 0 := by
  refine Gains.bounded fun steps => ?_
  induction steps with
  | zero => exact fun p _ hsteps => Gains.beyond hsteps
  | succ steps ih =>
    intro p hp hsteps
    refine Gains.stay parseClauses_parses fun stmt => Gains.stay parseTerminator_parses fun _ => ?_
    refine ifKeyword_parses ?_ (Gains.pure rfl)
    refine Gains.stay passKeyword_parses fun _ => ?_
    exact Gains.stay (ih (p + 1) (by omega) (by omega)) fun _ => Gains.pure rfl

end Rekuiper.Parser
