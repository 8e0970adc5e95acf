import Rekuiper.Parser.Printing
import Rekuiper.Pipeline.Record
import Rekuiper.Sql.Laws

/-!
# What `NOT` stands before

`parse_unary` reads a `NOT` with the operand behind it, as it reads a sign. The rest of the text
is read as without the `NOT`: the parser does the same behind the word, one level of nesting and one
sign deeper. So a `NOT` negates a whole predicate exactly if the predicate is one operand.
-/

namespace Rekuiper.Parser

open Lib Scan Sql

variable {F α β : Type} {before : List Char}

-- ---- The cursor behind another text

theorem skipWhitespace_agrees : Agrees before skipWhitespace skipWhitespace :=
  Agrees.atEnd.bind fun _ => Agrees.ite Agrees.pure (Agrees.rest.bind fun _ => Agrees.advance _)

theorem expectChar_agrees (c : Char) : Agrees before (expectChar c) (expectChar c) :=
  skipWhitespace_agrees.bind fun _ => (Agrees.looksAt c).bind fun _ =>
    Agrees.ite (Agrees.advance _) Agrees.fail

theorem scanBacktick_agrees : Agrees before scanBacktick scanBacktick := by
  refine Agrees.loop (fun _ => Agrees.atEnd.bind fun _ => Agrees.ite Agrees.pure ?_) ()
  exact Agrees.rest.bind fun _ => Agrees.ite Agrees.pure ((Agrees.advance 1).bind fun _ => Agrees.pure)

theorem parseBacktickIdentifier_agrees :
    Agrees before parseBacktickIdentifier parseBacktickIdentifier := by
  refine skipWhitespace_agrees.bind fun _ => (Agrees.looksAt _).bind fun _ => Agrees.ite Agrees.fail ?_
  refine (Agrees.advance 1).bind fun _ => Agrees.position fun start => Agrees.rest.bind fun _ => ?_
  refine (Agrees.note _).bind fun _ => scanBacktick_agrees.bind fun _ => Agrees.atEnd.bind fun _ => ?_
  refine Agrees.ite Agrees.fail ((Agrees.textSince start).bind fun _ => ?_)
  exact (Agrees.advance 1).bind fun _ => Agrees.pure

theorem consumeWord_agrees (word : String) : Agrees before (consumeWord word) (consumeWord word) :=
  skipWhitespace_agrees.bind fun _ => Agrees.advance _

theorem parseQuoted_agrees (unterminated : String) :
    Agrees before (parseQuoted unterminated) (parseQuoted unterminated) := by
  refine Agrees.rest.bind fun text => ?_
  cases text with
  | nil => exact Agrees.fail
  | cons quote text => exact Agrees.ite ((Agrees.advance _).bind fun _ => Agrees.pure) Agrees.fail

section
variable [Unicode]

theorem peekWord_agrees : Agrees before peekWord peekWord := Agrees.rest.bind fun _ => Agrees.pure

theorem peekWordIs_agrees (kw : String) : Agrees before (peekWordIs kw) (peekWordIs kw) :=
  peekWord_agrees.bind fun _ => Agrees.pure

theorem expectKeyword_agrees (kw : String) : Agrees before (expectKeyword kw) (expectKeyword kw) := by
  refine skipWhitespace_agrees.bind fun _ => peekWord_agrees.bind fun found => ?_
  cases found with
  | none => exact Agrees.fail
  | some word => exact Agrees.ite (consumeWord_agrees word) Agrees.fail

theorem matchKeyword_agrees (kw : String) : Agrees before (matchKeyword kw) (matchKeyword kw) := by
  refine skipWhitespace_agrees.bind fun _ => peekWord_agrees.bind fun found => ?_
  cases found with
  | none => exact Agrees.pure
  | some word => exact Agrees.ite ((Agrees.advance _).bind fun _ => Agrees.pure) Agrees.pure

theorem optionalKeyword_agrees (kw : String) :
    Agrees before (optionalKeyword kw) (optionalKeyword kw) :=
  (peekWordIs_agrees kw).bind fun _ => Agrees.ite
    ((matchKeyword_agrees kw).bind fun _ => Agrees.pure) Agrees.pure

end

-- ---- Expressions behind another text

theorem parseNumber_agrees [Float64 F] [ParseFloat F] :
    Agrees before (parseNumber : P (Expr F)) parseNumber := by
  refine skipWhitespace_agrees.bind fun _ => Agrees.rest.bind fun text => ?_
  refine Agrees.ite Agrees.fail ((Agrees.advance _).bind fun _ => ?_)
  cases numberValue (F := F) (scanNumber text) with
  | some value => exact Agrees.pure
  | none => exact Agrees.fail

theorem parseItems_agrees (close : Option Char) {item item' : P (List (Expr F))}
    (hitem : Agrees before item item') :
    Agrees before (parseItems close item) (parseItems close item') := by
  have hclosed : Agrees before (isClosed close) (isClosed close) := by
    cases close with
    | none => exact Agrees.pure
    | some c => exact Agrees.looksAt c
  refine Agrees.loop (fun items => skipWhitespace_agrees.bind fun _ => hclosed.bind fun _ => ?_) []
  refine Agrees.ite Agrees.pure (hitem.bind fun _ => skipWhitespace_agrees.bind fun _ => ?_)
  exact (Agrees.looksAt _).bind fun _ =>
    Agrees.ite ((Agrees.advance 1).bind fun _ => Agrees.pure) Agrees.pure

theorem parseItemsUntil_agrees (close : Char) (trailing : Bool) {item item' : P (List (Expr F))}
    (hitem : Agrees before item item') :
    Agrees before (parseItemsUntil close trailing item) (parseItemsUntil close trailing item') := by
  have hend : ∀ items : List (Expr F), Agrees before (do
      skipWhitespace
      expectChar close
      return items) (do
      skipWhitespace
      expectChar close
      return items) := fun _ =>
    skipWhitespace_agrees.bind fun _ => (expectChar_agrees _).bind fun _ => Agrees.pure
  refine skipWhitespace_agrees.bind fun _ => (Agrees.looksAt _).bind fun _ => Agrees.ite (hend []) ?_
  exact (parseItems_agrees _ hitem).bind hend

section
variable {expr expr' : P (Expr F)}

theorem single_agrees (hexpr : Agrees before expr expr') :
    Agrees before (do return [← expr]) (do return [← expr']) := hexpr.bind fun _ => Agrees.pure

theorem parseUnless_agrees {other : P Bool} (hother : Agrees before other other)
    (hexpr : Agrees before expr expr') :
    Agrees before (parseUnless other expr) (parseUnless other expr') :=
  hother.bind fun _ => Agrees.ite Agrees.pure (hexpr.bind fun _ => Agrees.pure)

theorem parseInList_agrees (hexpr : Agrees before expr expr') :
    Agrees before (parseInList expr) (parseInList expr') := by
  refine skipWhitespace_agrees.bind fun _ => (expectChar_agrees _).bind fun _ => ?_
  refine skipWhitespace_agrees.bind fun _ => (Agrees.looksAt _).bind fun _ => ?_
  refine Agrees.ite ((Agrees.advance 1).bind fun _ => Agrees.pure) ?_
  refine (parseItems_agrees _ (single_agrees hexpr)).bind fun _ => skipWhitespace_agrees.bind fun _ => ?_
  exact (expectChar_agrees _).bind fun _ => Agrees.pure

theorem parseArg_agrees (hexpr : Agrees before expr expr') :
    Agrees before (parseArg expr) (parseArg expr') := by
  refine (Agrees.looksAt _).bind fun _ => Agrees.ite ?_ (single_agrees hexpr)
  refine (Agrees.restAfter 1).bind fun _ => Agrees.ite ?_ (single_agrees hexpr)
  exact (Agrees.advance 1).bind fun _ => Agrees.pure

theorem parseSliceEnd_agrees (hexpr : Agrees before expr expr') :
    Agrees before (parseSliceEnd expr) (parseSliceEnd expr') := by
  refine (Agrees.advance 1).bind fun _ => skipWhitespace_agrees.bind fun _ => ?_
  refine (parseUnless_agrees (Agrees.looksAt _) hexpr).bind fun _ => skipWhitespace_agrees.bind fun _ => ?_
  exact (expectChar_agrees _).bind fun _ => Agrees.pure

variable [Unicode]

theorem parseBehind_agrees (kw : String) (hexpr : Agrees before expr expr') :
    Agrees before (parseBehind kw expr) (parseBehind kw expr') :=
  (matchKeyword_agrees kw).bind fun _ => Agrees.ite (hexpr.bind fun _ => Agrees.pure) Agrees.pure

theorem parseObjectKey_agrees : Agrees before parseObjectKey parseObjectKey := by
  refine skipWhitespace_agrees.bind fun _ => Agrees.atEnd.bind fun _ => Agrees.ite Agrees.fail ?_
  refine (Agrees.looksAt _).bind fun _ => (Agrees.looksAt _).bind fun _ => ?_
  refine Agrees.ite (parseQuoted_agrees _) (peekWord_agrees.bind fun found => ?_)
  cases found with
  | none => exact Agrees.fail
  | some word => exact (consumeWord_agrees word).bind fun _ => Agrees.pure

theorem parseEntry_agrees (hexpr : Agrees before expr expr') :
    Agrees before (parseEntry expr) (parseEntry expr') := by
  refine parseObjectKey_agrees.bind fun _ => skipWhitespace_agrees.bind fun _ => ?_
  exact (expectChar_agrees _).bind fun _ => hexpr.bind fun _ => Agrees.pure

theorem parseFieldWord_agrees (expected : String) :
    Agrees before (parseFieldWord expected) (parseFieldWord expected) := by
  refine (Agrees.looksAt _).bind fun _ => Agrees.ite parseBacktickIdentifier_agrees ?_
  refine peekWord_agrees.bind fun found => ?_
  cases found with
  | none => exact Agrees.fail
  | some word => exact (Agrees.advance _).bind fun _ => Agrees.pure

theorem parsePostfix_agrees (hexpr : Agrees before expr expr') (e : Expr F) :
    Agrees before (parsePostfix expr e) (parsePostfix expr' e) := by
  refine Agrees.loop (fun e => skipWhitespace_agrees.bind fun _ => (Agrees.looksAt _).bind fun _ => ?_) e
  refine Agrees.ite ?_ ((Agrees.looksAtText _).bind fun _ => Agrees.ite ?_ ?_)
  · refine (Agrees.advance 1).bind fun _ => skipWhitespace_agrees.bind fun _ => ?_
    refine (Agrees.looksAt _).bind fun _ => Agrees.ite ?_ ?_
    · exact (Agrees.advance 1).bind fun _ => Agrees.pure
    · exact (parseFieldWord_agrees _).bind fun _ => Agrees.pure
  · refine (Agrees.advance 2).bind fun _ => skipWhitespace_agrees.bind fun _ => ?_
    refine (Agrees.looksAt _).bind fun _ => (Agrees.looksAt _).bind fun _ => Agrees.ite ?_ ?_
    · exact (parseQuoted_agrees _).bind fun _ => Agrees.pure
    · exact (parseFieldWord_agrees _).bind fun _ => Agrees.pure
  · refine (Agrees.looksAt _).bind fun _ => Agrees.ite ?_ Agrees.pure
    refine (Agrees.advance 1).bind fun _ => skipWhitespace_agrees.bind fun _ => ?_
    refine (Agrees.looksAt _).bind fun _ => Agrees.ite ?_ ?_
    · exact (parseSliceEnd_agrees hexpr).bind fun _ => Agrees.pure
    · refine hexpr.bind fun _ => skipWhitespace_agrees.bind fun _ => (Agrees.looksAt _).bind fun _ => ?_
      refine Agrees.ite ((parseSliceEnd_agrees hexpr).bind fun _ => Agrees.pure) ?_
      exact (expectChar_agrees _).bind fun _ => Agrees.pure

theorem parseCase_agrees (hexpr : Agrees before expr expr') :
    Agrees before (parseCase expr) (parseCase expr') := by
  refine (parseUnless_agrees (peekWordIs_agrees _) hexpr).bind fun _ => ?_
  have hwhen : ∀ clauses, Agrees before (parseWhen expr clauses) (parseWhen expr' clauses) := by
    refine fun clauses => (matchKeyword_agrees _).bind fun _ => Agrees.ite ?_ Agrees.pure
    refine hexpr.bind fun _ => (expectKeyword_agrees _).bind fun _ => ?_
    exact hexpr.bind fun _ => Agrees.pure
  refine (Agrees.loop hwhen []).bind fun _ => Agrees.ite Agrees.fail ?_
  refine (parseBehind_agrees _ hexpr).bind fun _ => ?_
  exact (expectKeyword_agrees _).bind fun _ => Agrees.pure

theorem parseCall_agrees (hexpr : Agrees before expr expr') (name : String) :
    Agrees before (parseCall expr name) (parseCall expr' name) := by
  have hpart : ∀ parts, Agrees before (parseOverPart expr parts) (parseOverPart expr' parts) := by
    refine fun parts => skipWhitespace_agrees.bind fun _ => (peekWordIs_agrees _).bind fun _ => ?_
    refine Agrees.ite ?_ ((peekWordIs_agrees _).bind fun _ => Agrees.ite ?_ Agrees.pure)
    · refine (matchKeyword_agrees _).bind fun _ => (expectKeyword_agrees _).bind fun _ => ?_
      exact hexpr.bind fun _ => Agrees.pure
    · exact (matchKeyword_agrees _).bind fun _ => hexpr.bind fun _ => Agrees.pure
  refine (Agrees.advance 1).bind fun _ => ?_
  refine (parseItemsUntil_agrees _ _ (parseArg_agrees hexpr)).bind fun _ => ?_
  refine skipWhitespace_agrees.bind fun _ => (matchKeyword_agrees _).bind fun _ => ?_
  refine Agrees.ite ?_ (parsePostfix_agrees hexpr _)
  refine skipWhitespace_agrees.bind fun _ => (expectChar_agrees _).bind fun _ => ?_
  refine (Agrees.loop hpart _).bind fun _ => skipWhitespace_agrees.bind fun _ => ?_
  exact (expectChar_agrees _).bind fun _ => parsePostfix_agrees hexpr _

theorem parseWordPrimary_agrees (hexpr : Agrees before expr expr') :
    Agrees before (parseWordPrimary expr) (parseWordPrimary expr') := by
  refine peekWord_agrees.bind fun found => ?_
  cases found with
  | none => exact Agrees.fail
  | some word =>
    have hpost : ∀ e, Agrees before (parsePostfix expr e) (parsePostfix expr' e) :=
      parsePostfix_agrees hexpr
    refine (consumeWord_agrees word).bind fun _ => Agrees.ite (hpost _) (Agrees.ite (hpost _) ?_)
    refine Agrees.ite (hpost _) (Agrees.ite ?_ ?_)
    · exact (parseCase_agrees hexpr).bind hpost
    · refine skipWhitespace_agrees.bind fun _ => (Agrees.looksAt _).bind fun _ => ?_
      exact Agrees.ite (parseCall_agrees hexpr word) (hpost _)

variable [Float64 F] [ParseFloat F]

theorem parsePrimary_agrees (hexpr : Agrees before expr expr') :
    Agrees before (parsePrimary expr) (parsePrimary expr') := by
  have hpost : ∀ e, Agrees before (parsePostfix expr e) (parsePostfix expr' e) :=
    parsePostfix_agrees hexpr
  refine skipWhitespace_agrees.bind fun _ => Agrees.atEnd.bind fun _ => Agrees.ite Agrees.fail ?_
  refine Agrees.rest.bind fun rem => ?_
  split
  · exact parseBacktickIdentifier_agrees.bind fun _ => hpost _
  · refine (Agrees.advance 1).bind fun _ => hexpr.bind fun _ => skipWhitespace_agrees.bind fun _ => ?_
    exact (expectChar_agrees _).bind fun _ => hpost _
  · exact (parseQuoted_agrees _).bind fun _ => hpost _
  · exact (parseQuoted_agrees _).bind fun _ => hpost _
  · refine (Agrees.advance 1).bind fun _ => ?_
    exact (parseItemsUntil_agrees _ _ (single_agrees hexpr)).bind fun _ => hpost _
  · refine (Agrees.advance 1).bind fun _ => ?_
    exact (parseItemsUntil_agrees _ _ (parseEntry_agrees hexpr)).bind fun _ => hpost _
  · exact Agrees.ite (parseNumber_agrees.bind fun _ => hpost _) (parseWordPrimary_agrees hexpr)

theorem parseUnarySteps_leads {s s' : Scanner Read} {k k' : Nat} (hexpr : Agrees before expr expr')
    (hsteps : Agrees before (parseUnarySteps expr k) (parseUnarySteps expr' k'))
    (hskip : Leads before s s' skipWhitespace skipWhitespace fun _ _ _ => True) :
    Leads before s s' (parseUnarySteps expr (k + 1)) (parseUnarySteps expr' (k' + 1))
      fun e e' _ => e = e' := by
  refine hskip.bind fun _ _ t t' _ ht => Agrees.bind (peekWordIs_agrees _) (fun _ => ?_) t t' ht
  refine Agrees.ite ?_ ?_
  · exact (matchKeyword_agrees _).bind fun _ => hsteps.bind fun _ => Agrees.pure
  · refine skipWhitespace_agrees.bind fun _ => (Agrees.looksAt _).bind fun _ => Agrees.ite ?_ ?_
    · exact (Agrees.advance 1).bind fun _ => hsteps.bind fun _ => Agrees.pure
    · refine (Agrees.looksAt _).bind fun _ => Agrees.ite ?_ (parsePrimary_agrees hexpr)
      exact (Agrees.advance 1).bind fun _ => hsteps

theorem parseUnarySteps_agrees (hexpr : Agrees before expr expr') {k k' : Nat} (hk : k ≤ k') :
    Agrees before (parseUnarySteps expr k) (parseUnarySteps expr' k') := by
  induction k generalizing k' with
  | zero => exact Agrees.throw
  | succ k ih =>
    obtain ⟨k', rfl⟩ := Nat.exists_eq_add_of_lt hk
    refine fun s s' hs => parseUnarySteps_leads hexpr (ih (Nat.le_add_right k k')) ?_
    exact (skipWhitespace_agrees s s' hs).mono fun _ _ _ _ => trivial

theorem parseUnary_agrees (hexpr : Agrees before expr expr') :
    Agrees before (parseUnary expr) (parseUnary expr') := by
  rintro s s' hs
  have hsteps := parseUnarySteps_agrees hexpr (Nat.le_of_eq hs.length.symm) s s' hs
  exact hsteps

end

-- ---- Levels with another operand

def Moved (s t : Scanner Read) : Prop :=
  ∀ text, RestAt s.input s.pos text →
    t.input = s.input ∧ ∃ text', Behind text text' ∧ RestAt s.input t.pos text'

instance : IsPreorder (Scanner Read) Moved where
  refl _ text h := ⟨rfl, text, rfl, h⟩
  trans s t u hst htu text h := by
    obtain ⟨hinput, text', hbehind, h'⟩ := hst text h
    obtain ⟨hinput', text'', hbehind', h''⟩ := htu text' (hinput ▸ h')
    exact ⟨hinput'.trans hinput, text'', hbehind'.trans hbehind, hinput ▸ h''⟩

theorem skipWhitespace_keeps {Q : Unit → Prop} : Keeps Moved skipWhitespace Q := by
  rintro s _ t hgo - text h
  obtain ⟨t', hgo', hinput, hrest⟩ := skipWhitespace_reaches h
  obtain rfl : t = t' := (Prod.mk.inj (hgo.symm.trans hgo')).2
  exact ⟨hinput, _, behind_drop text, hrest⟩

theorem peekWord_keeps [Unicode] {r : Scanner Read → Scanner Read → Prop}
    [IsPreorder (Scanner Read) r] {Q : Option String → Prop} : Keeps r peekWord Q :=
  Keeps.rest.bind fun _ => Keeps.pure

theorem peekWordIs_keeps [Unicode] {r : Scanner Read → Scanner Read → Prop}
    [IsPreorder (Scanner Read) r] {kw : String} {Q : Bool → Prop} : Keeps r (peekWordIs kw) Q :=
  peekWord_keeps.bind fun _ => Keeps.pure

theorem matchKeyword_keeps [Unicode] (kw : String) :
    Keeps SameText (matchKeyword kw) fun _ => True := by
  have hskip : Keeps SameText skipWhitespace fun _ => True :=
    Keeps.atEnd.bind fun _ => Keeps.ite Keeps.pure (Keeps.rest.bind fun _ => Keeps.advance _)
  refine hskip.bind fun _ => peekWord_keeps.bind fun found => ?_
  cases found with
  | none => exact Keeps.pure
  | some word => exact Keeps.ite ((Keeps.advance _).bind fun _ => Keeps.pure) Keeps.pure

inductive Builds (left left' : Expr F) : Expr F → Expr F → Prop
  | operator (op : BinaryOperator) (right : Expr F) :
      Builds left left' (.binaryOp left op right) (.binaryOp left' op right)
  | notLike (right : Expr F) :
      Builds left left' (.unaryOp .not (.binaryOp left .like right))
        (.unaryOp .not (.binaryOp left' .like right))
  | between (low high : Expr F) (negated : Bool) :
      Builds left left' (.between left low high negated) (.between left' low high negated)
  | inList (list : List (Expr F)) (negated : Bool) :
      Builds left left' (.inList left list negated) (.inList left' list negated)
  | isNull (negated : Bool) : Builds left left' (.isNull left negated) (.isNull left' negated)

/-- A relation that no level breaks, whether it finds an operator or not. -/
structure Spreads (R : Expr F → Expr F → Scanner Read → Prop) : Prop where
  pass : ∀ {e e' s t}, R e e' s → Moved s t → R e e' t
  build : ∀ {e e' d d' s t}, R e e' s → Builds e e' d d' → R d d' t

theorem spreads_eq : Spreads fun (e e' : Expr F) _ => e = e' where
  pass h _ := h
  build := by
    rintro e _ d d' _ _ rfl hbuild
    cases hbuild <;> rfl

section
variable {R : Expr F → Expr F → Scanner Read → Prop} {left left' : Expr F} {s s' : Scanner Read}

theorem Spreads.step {m m' : P α} {f f' : α → P (Expr F)} (hR : Spreads R) (h : R left left' s)
    (hs : Shifted before s s') (hm : Agrees before m m') (hkeep : Keeps Moved m fun _ => True)
    (hf : ∀ a t t', R left left' t → Shifted before t t' → Leads before t t' (f a) (f' a) R) :
    Leads before s s' (m >>= f) (m' >>= f') R :=
  Leads.after hm hs fun a t t' hgo ht => hf a t t' (hR.pass h (hkeep s a t hgo trivial)) ht

theorem Spreads.built {m m' : P α} {g g' : α → Expr F} (hR : Spreads R) (h : R left left' s)
    {t t' : Scanner Read} (ht : Shifted before t t') (hm : Agrees before m m')
    (hbuild : ∀ a, Builds left left' (g a) (g' a)) :
    Leads before t t' (m >>= fun a => Pure.pure (g a)) (m' >>= fun a => Pure.pure (g' a)) R :=
  Leads.after hm ht fun a _ _ _ hu => Leads.pure hu (hR.build h (hbuild a))

theorem Spreads.back (hR : Spreads R) (h : R left left' s) (hs : Shifted before s s')
    {t t' : Scanner Read} (ht : Shifted before t t') (hsame : SameText s t) :
    Leads before t t' (seek s.pos >>= fun _ => Pure.pure left)
      (seek s'.pos >>= fun _ => Pure.pure left') R := by
  have hseek : Agrees before (seek s.pos : P Unit) (seek s'.pos) := hs.pos ▸ Agrees.seek s.pos
  refine Leads.after hseek ht fun _ u u' hgo hu => Leads.pure hu (hR.pass h fun text htext => ?_)
  cases hgo
  exact ⟨hsame, text, rfl, htext⟩

theorem symbolOperator_keeps {choose : List Char → Option BinaryOperator} :
    Keeps Moved (symbolOperator choose) (· = none) := by
  refine skipWhitespace_keeps.bind fun _ => Keeps.atEnd.bind fun _ => Keeps.ite Keeps.pure ?_
  refine Keeps.rest.bind fun text => ?_
  cases choose text with
  | none => exact Keeps.pure
  | some op => exact Keeps.never fun _ => Option.some_ne_none op

theorem symbolOperator_agrees (choose : List Char → Option BinaryOperator) :
    Agrees before (symbolOperator choose) (symbolOperator choose) := by
  refine skipWhitespace_agrees.bind fun _ => Agrees.atEnd.bind fun _ => Agrees.ite Agrees.pure ?_
  refine Agrees.rest.bind fun text => ?_
  cases choose text with
  | none => exact Agrees.pure
  | some op => exact (Agrees.advance 1).bind fun _ => Agrees.pure

theorem leftAssociative_leads {operand operand' : P (Expr F)} {operator : P (Option BinaryOperator)}
    (hR : Spreads R) (hoperator : Agrees before operator operator)
    (hnone : Keeps Moved operator (· = none)) (hoperand : Agrees before operand operand')
    (h : Leads before s s' operand operand' R) :
    Leads before s s' (leftAssociative operand operator) (leftAssociative operand' operator) R := by
  refine h.bind fun left left' t t' hleft ht => ?_
  intro e u hgo
  rw [go_loop] at hgo
  rw [go_loop, ht.length]
  revert e u hgo
  generalize byteLen t.input + 1 - t.pos = fuel
  change Leads before t t' (repeatFor _ fuel left) (repeatFor _ fuel left') R
  -- with the same operators between them, only the first operand may differ
  induction fuel generalizing left left' t t' with
  | zero => rintro _ _ ⟨⟩
  | succ fuel ih =>
    simp only [repeatFor, bind_assoc]
    refine Leads.after hoperator ht fun found u u' hgo hu => ?_
    cases found with
    | none => exact Leads.pure hu (hR.pass hleft (hnone _ _ _ hgo rfl))
    | some op =>
      simp only [bind_assoc, pure_bind]
      refine Leads.after hoperand hu fun right v v' _ hv => ?_
      exact ih _ _ v v' (hR.build hleft (.operator op right)) hv

variable [Unicode]

theorem andOperator_agrees : Agrees before andOperator andOperator :=
  (peekWordIs_agrees _).bind fun _ => Agrees.ite
    ((matchKeyword_agrees _).bind fun _ => Agrees.pure) Agrees.pure

theorem andOperator_keeps : Keeps Moved andOperator (· = none) :=
  peekWordIs_keeps.bind fun _ => Keeps.ite (Keeps.never fun _ => Option.some_ne_none _) Keeps.pure

theorem orOperator_agrees : Agrees before orOperator orOperator :=
  (matchKeyword_agrees _).bind fun _ => Agrees.ite Agrees.pure Agrees.pure

variable {expr expr' : P (Expr F)} [Float64 F] [ParseFloat F]

theorem parseComparison_leads (hR : Spreads R)
    (hoperand : Agrees before (parseBitor expr) (parseBitor expr'))
    (h : Leads before s s' (parseBitor expr) (parseBitor expr') R) :
    Leads before s s' (parseComparison expr) (parseComparison expr') R := by
  refine h.bind fun left left' s s' h hs => ?_
  refine hR.step h hs skipWhitespace_agrees skipWhitespace_keeps fun _ s s' h hs => ?_
  refine hR.step h hs (peekWordIs_agrees _) peekWordIs_keeps fun _ s s' h hs => ?_
  refine Leads.ite (fun _ => Leads.position ?_) fun _ => ?_
  · refine Leads.after (matchKeyword_agrees _) hs fun _ t t' hgo ht => ?_
    have hsame : SameText s t := matchKeyword_keeps _ s _ t hgo trivial
    refine Leads.after (peekWordIs_agrees _) ht fun _ u u' hgo hu => Leads.ite (fun _ => ?_) fun _ => ?_
    · refine Leads.after (matchKeyword_agrees _) hu fun _ v v' _ hv => ?_
      exact hR.built h hv hoperand fun right => .notLike right
    · refine hR.back h hs hu (trans_of SameText hsame ?_)
      exact peekWordIs_keeps t _ u hgo (Q := fun _ => True) trivial
  · refine hR.step h hs (peekWordIs_agrees _) peekWordIs_keeps fun _ s s' h hs => ?_
    refine Leads.ite (fun _ => ?_) fun _ => ?_
    · refine Leads.after (matchKeyword_agrees _) hs fun _ t t' _ ht => ?_
      exact hR.built h ht hoperand fun right => .operator _ right
    · refine hR.step h hs skipWhitespace_agrees skipWhitespace_keeps fun _ s s' h hs => ?_
      refine hR.step h hs Agrees.atEnd Keeps.atEnd fun _ s s' h hs => ?_
      refine Leads.ite (fun _ => Leads.pure hs h) fun _ => ?_
      refine hR.step h hs Agrees.rest Keeps.rest fun text s s' h hs => ?_
      cases comparisonOperator text with
      | none => exact Leads.pure hs h
      | some found =>
        refine Leads.after (Agrees.advance found.2) hs fun _ t t' _ ht => ?_
        exact hR.built h ht hoperand fun right => .operator _ right

theorem parseBetween_leads (negated : Bool) (hR : Spreads R) (h : R left left' s)
    (hoperand : Agrees before (parseComparison expr) (parseComparison expr'))
    {t t' : Scanner Read} (ht : Shifted before t t') :
    Leads before t t' (parseBetween expr left negated) (parseBetween expr' left' negated) R := by
  refine Leads.after (matchKeyword_agrees _) ht fun _ u u' _ hu => ?_
  refine Leads.after hoperand hu fun low u u' _ hu => ?_
  refine Leads.after (expectKeyword_agrees _) hu fun _ u u' _ hu => ?_
  exact hR.built h hu hoperand fun high => .between low high negated

omit [Float64 F] [ParseFloat F] in
theorem parseIn_leads (negated : Bool) (hR : Spreads R) (h : R left left' s)
    (hexpr : Agrees before expr expr') {t t' : Scanner Read} (ht : Shifted before t t') :
    Leads before t t' (parseIn expr left negated) (parseIn expr' left' negated) R := by
  refine Leads.after (matchKeyword_agrees _) ht fun _ u u' _ hu => ?_
  exact hR.built h hu (parseInList_agrees hexpr) fun list => .inList list negated

theorem parseNotRange_leads (hR : Spreads R) (h : R left left' s) (hs : Shifted before s s')
    (hexpr : Agrees before expr expr')
    (hoperand : Agrees before (parseComparison expr) (parseComparison expr')) :
    Leads before s s' (parseNotRange expr left) (parseNotRange expr' left') R := by
  refine Leads.position (Leads.after (matchKeyword_agrees _) hs fun _ t t' hgo ht => ?_)
  have hsame : SameText s t := matchKeyword_keeps _ s _ t hgo trivial
  refine Leads.after peekWord_agrees ht fun found u u' hgo hu => ?_
  have hback := hR.back h hs hu (trans_of SameText hsame
    (peekWord_keeps t _ u hgo (Q := fun _ => True) trivial))
  cases found with
  | none => exact hback
  | some word =>
    refine Leads.ite (fun _ => parseBetween_leads true hR h hoperand hu) fun _ => ?_
    refine Leads.ite (fun _ => parseIn_leads true hR h hexpr hu) fun _ => ?_
    refine Leads.ite (fun _ => ?_) fun _ => hback
    refine Leads.after (matchKeyword_agrees _) hu fun _ v v' _ hv => ?_
    exact hR.built h hv hoperand fun right => .notLike right

theorem parseRange_leads (hR : Spreads R) (hexpr : Agrees before expr expr')
    (hoperand : Agrees before (parseComparison expr) (parseComparison expr'))
    (h : Leads before s s' (parseComparison expr) (parseComparison expr') R) :
    Leads before s s' (parseRange expr) (parseRange expr') R := by
  refine h.bind fun left left' s s' h hs => ?_
  refine hR.step h hs skipWhitespace_agrees skipWhitespace_keeps fun _ s s' h hs => ?_
  refine hR.step h hs peekWord_agrees peekWord_keeps fun found s s' h hs => ?_
  cases found with
  | none => exact Leads.pure hs h
  | some word =>
    refine Leads.ite (fun _ => parseBetween_leads false hR h hoperand hs) fun _ => ?_
    refine Leads.ite (fun _ => parseNotRange_leads hR h hs hexpr hoperand) fun _ => ?_
    refine Leads.ite (fun _ => parseIn_leads false hR h hexpr hs) fun _ => ?_
    refine Leads.ite (fun _ => ?_) fun _ => Leads.ite (fun _ => ?_) fun _ => Leads.pure hs h
    · refine Leads.after (matchKeyword_agrees _) hs fun _ t t' _ ht => ?_
      refine Leads.after (optionalKeyword_agrees _) ht fun negated t t' _ ht => ?_
      exact hR.built h ht (expectKeyword_agrees _) fun _ => .isNull negated
    · refine Leads.after (matchKeyword_agrees _) hs fun _ t t' _ ht => ?_
      exact hR.built h ht hoperand fun right => .operator _ right

theorem level_succ_leads (k : Nat) (hR : Spreads R) (hexpr : Agrees before expr expr')
    (hoperand : Agrees before (level expr k) (level expr' k))
    (h : Leads before s s' (level expr k) (level expr' k) R) :
    Leads before s s' (level expr (k + 1)) (level expr' (k + 1)) R := by
  have hsymbol : ∀ {operand operand' : P (Expr F)} (choose : List Char → Option BinaryOperator),
      Agrees before operand operand' → Leads before s s' operand operand' R →
      Leads before s s' (leftAssociative operand (symbolOperator choose))
        (leftAssociative operand' (symbolOperator choose)) R := fun choose =>
    leftAssociative_leads hR (symbolOperator_agrees choose) symbolOperator_keeps
  match k with
  | 0 => exact hsymbol multiplicativeOperator hoperand h
  | 1 => exact hsymbol additiveOperator hoperand h
  | 2 => exact hsymbol bitandOperator hoperand h
  | 3 => exact hsymbol bitxorOperator hoperand h
  | 4 => exact hsymbol bitorOperator hoperand h
  | 5 => exact parseComparison_leads hR hoperand h
  | 6 => exact parseRange_leads hR hexpr hoperand h
  | 7 => exact leftAssociative_leads hR andOperator_agrees andOperator_keeps hoperand h
  | _ + 8 => exact h

theorem level_agrees (hexpr : Agrees before expr expr') (k : Nat) :
    Agrees before (level expr k) (level expr' k) := by
  induction k with
  | zero => exact parseUnary_agrees hexpr
  | succ k ih => exact fun s s' hs => level_succ_leads k spreads_eq hexpr ih (ih s s' hs)

theorem level_leads (hR : Spreads R) (hexpr : Agrees before expr expr')
    (h : Leads before s s' (parseUnary expr) (parseUnary expr') R) (k : Nat) :
    Leads before s s' (level expr k) (level expr' k) R := by
  induction k with
  | zero => exact h
  | succ k ih => exact level_succ_leads k hR hexpr (level_agrees hexpr k) ih

theorem orOperator_keeps : Keeps Moved orOperator (· = none) := by
  rintro s _ u hgo rfl
  rw [orOperator, Scan.go_bind] at hgo
  rcases hmatch : (matchKeyword "OR").go s with ⟨_ | found, t⟩
  · rw [hmatch] at hgo
    cases hgo
  · rw [hmatch] at hgo
    cases found with
    | true => cases hgo
    | false =>
      cases hgo
      intro text h
      obtain ⟨hinput, hrest⟩ := matchKeyword_false h hmatch
      exact ⟨hinput, _, behind_drop text, hrest⟩

theorem parseOr_leads (hR : Spreads R) (hexpr : Agrees before expr expr')
    (h : Leads before s s' (parseUnary expr) (parseUnary expr') R) :
    Leads before s s' (parseOr expr) (parseOr expr') R :=
  leftAssociative_leads hR orOperator_agrees orOperator_keeps (level_agrees hexpr 8)
    (level_leads hR hexpr h 8)

theorem parseExprSteps_agrees {n n' : Nat} (hn : n ≤ n') :
    Agrees before (parseExprSteps n : P (Expr F)) (parseExprSteps n') := by
  induction n generalizing n' with
  | zero => exact Agrees.throw
  | succ n ih =>
    obtain ⟨n', rfl⟩ := Nat.exists_eq_add_of_lt hn
    have hexpr : Agrees before (parseExprSteps n : P (Expr F)) (parseExprSteps (n + n')) :=
      ih (Nat.le_add_right n n')
    exact fun s s' hs => parseOr_leads spreads_eq hexpr (parseUnary_agrees hexpr s s' hs)

/-- An expression is read alike behind any text. -/
theorem parseExpr_agrees : Agrees before (parseExpr : P (Expr F)) parseExpr := by
  rintro s s' hs e t hgo
  exact parseExprSteps_agrees (Nat.le_of_eq hs.length.symm) s s' hs e t hgo

end

-- ---- A `NOT` before the text

theorem Arrives.leads {m : P α} {m' : P β} {f' : β → P (Expr F)} {b : β} {s s' : Scanner Read}
    {Q : List Char → Prop} {R : α → Expr F → Scanner Read → Prop} (h : Arrives m' s' b Q)
    (hf : ∀ text t', Q text → t'.input = s'.input → RestAt t'.input t'.pos text →
      Leads before s t' m (f' b) R) : Leads before s s' m (m' >>= f') R := by
  obtain ⟨text, hQ, t', hgo, hinput, hrest⟩ := h
  exact Leads.behind hgo (hf text t' hQ hinput (hinput ▸ hrest))

theorem skipWhitespace_leads {s s' : Scanner Read} {text text' : List Char}
    (hinput : s'.input = before ++ s.input) (hbehind : Behind text text')
    (h : RestAt s.input s.pos text) (h' : RestAt s'.input s'.pos text') :
    Leads before s s' skipWhitespace skipWhitespace fun _ _ _ => True := by
  rintro _ t hgo
  obtain ⟨u, hu, hsame, hrest⟩ := skipWhitespace_reaches h
  obtain ⟨t', hgo', hsame', hrest'⟩ := skipWhitespace_reaches h'
  obtain rfl : t = u := (Prod.mk.inj (hgo.symm.trans hu)).2
  refine ⟨(), t', hgo', ⟨?_, ?_⟩, trivial⟩
  · rw [hsame', hsame, hinput]
  · have hlen := hrest.length
    have hlen' := hrest'.length
    rw [hbehind, hinput, byteLen_append] at hlen'
    omega

section
variable [Unicode] [LawfulUnicode]

theorem leadingWord_not (text : List Char) :
    leadingWord ("NOT".toList ++ ' ' :: text) = some "NOT" := by
  simp [leadingWord, isWordChar_ascii]

variable {expr expr' : P (Expr F)} [Float64 F] [ParseFloat F]

theorem parseUnary_not_leads (hexpr : Agrees "NOT ".toList expr expr') (p : List Char) :
    Leads "NOT ".toList (Scanner.new p) (Scanner.new ("NOT ".toList ++ p)) (parseUnary expr)
      (parseUnary expr') fun e e' _ => e' = .unaryOp .not e := by
  have hlen : byteLen ("NOT ".toList ++ p) = byteLen p + 4 :=
    (byteLen_append _ _).trans (Nat.add_comm 4 _)
  have hpeek : From (peekWordIs "NOT") ("NOT".toList ++ ' ' :: p) true (· = "NOT".toList ++ ' ' :: p) := by
    refine From.peekWord ?_
    change From (Pure.pure ((leadingWord ("NOT".toList ++ ' ' :: p)).any _)) _ _ _
    rw [leadingWord_not]
    exact From.pure rfl
  have hmatch : From (matchKeyword "NOT") ("NOT".toList ++ ' ' :: p) true (· = ' ' :: p) :=
    (matchKeyword_word rfl (leadingWord_not p) rfl).from
  change Leads _ _ _ (parseUnarySteps expr (byteLen p + 1))
    (parseUnarySteps expr' (byteLen ("NOT ".toList ++ p) + 1)) _
  rw [hlen]
  refine Arrives.leads ⟨_, rfl, skipWhitespace_reaches (RestAt.start _)⟩ ?_
  rintro _ t rfl ht hrest
  refine Arrives.leads (hpeek t hrest) ?_
  rintro _ u rfl hu hrest
  rw [if_pos rfl]
  refine Arrives.leads (hmatch u hrest) ?_
  rintro _ v rfl hv hrest
  have hinput : v.input = "NOT ".toList ++ p := hv.trans (hu.trans ht)
  refine Leads.map (R := fun e e' _ => e = e') ?_ fun e e' _ h => h ▸ rfl
  refine parseUnarySteps_leads hexpr (parseUnarySteps_agrees hexpr (Nat.le_add_right _ 3)) ?_
  have hbehind : Behind p (' ' :: p) := rfl
  exact skipWhitespace_leads hinput hbehind (RestAt.start p) hrest

/-- The parser takes the whole text for the tree. -/
def Takes (text : List Char) (e : Expr F) : Prop :=
  ∃ s, parse parseExpr text = (.ok e, s) ∧ s.pos = byteLen text

/-- The condition holds for the rows on which the predicate is false, and for no others. -/
def Negates (condition e : Expr F) : Prop :=
  ∀ (env : Env F) (row : Row F) (state : RuleState F),
    ((evalBoolStateful env row condition).go state).1 = .ok true ↔
      ((evalExpr env row e).go state).1 = .ok (.bool false)

/-- `NOT` before the text negates the whole of what the text says. -/
def NegatesWhole (p : List Char) (e : Expr F) : Prop :=
  Takes ("NOT ".toList ++ p) (.unaryOp .not e) ∧
    ∀ condition, Takes ("NOT ".toList ++ p) condition → Negates condition e

/-- The text is one operand of `parse_unary`, and nothing but blanks is behind it. -/
def OneOperand (F : Type) [Float64 F] [ParseFloat F] (p : List Char) : Prop :=
  ∃ (u : Expr F) (s : Scanner Read) (text : List Char),
    parse (parseUnary (parseExprSteps (byteLen p))) p = (.ok u, s) ∧ RestAt p s.pos text ∧
      text.dropWhile isWhitespace = []

omit [Unicode] [LawfulUnicode] [ParseFloat F] in
theorem not_negates (e : Expr F) : Negates (.unaryOp .not e) e := by
  intro env row state
  change conditionAnswer ((evalExpr env row (.unaryOp .not e)).go state).1 = _ ↔ _
  rw [evalExpr, Sql.go_bind]
  rcases (evalExpr env row e).go state with ⟨failure | v, after⟩
  · cases failure <;> simp [conditionAnswer]
  · change conditionAnswer (.ok (evalUnaryOp .not v)) = _ ↔ _
    cases v <;> simp [evalUnaryOp, conditionAnswer]

/-- The `NOT` is above the tree only where the tree is the operand. -/
def OnlyOperand (run : Except Stop (Expr F) × Scanner Read) (e e' : Expr F) (s : Scanner Read) :
    Prop :=
  e' = .unaryOp .not e → ∃ t, run = (.ok e, t) ∧ Moved t s

omit [Unicode] [LawfulUnicode] [Float64 F] [ParseFloat F] in
theorem onlyOperand_spreads (run : Except Stop (Expr F) × Scanner Read) :
    Spreads (OnlyOperand run) where
  pass h hmoved hnot := by
    obtain ⟨t, hrun, ht⟩ := h hnot
    exact ⟨t, hrun, trans_of Moved ht hmoved⟩
  build _ hbuild hnot := by
    cases hbuild <;> cases hnot

omit [LawfulUnicode] in
theorem parseUnary_sound {p : List Char} {u : Expr F} {t : Scanner Read}
    (hgo : parse (parseUnary (parseExprSteps (byteLen p))) p = (.ok u, t)) :
    t.input = p ∧ ∃ text, RestAt p t.pos text := by
  have hparses : Parses p Anywhere 0 (parseUnary (parseExprSteps (byteLen p) : P (Expr F))) fun _ => 1 :=
    parseUnary_parses (parseExprSteps_parses (by omega))
  have hsound := hparses.sound Sound.start (Nat.le_refl 0) hgo
  exact ⟨hsound.same, hsound.pos⟩

omit [LawfulUnicode] in
theorem parseExprSteps_not_agrees (p : List Char) :
    Agrees "NOT ".toList (parseExprSteps (byteLen p) : P (Expr F))
      (parseExprSteps (byteLen ("NOT ".toList ++ p))) := by
  refine parseExprSteps_agrees ?_
  rw [byteLen_append]
  exact Nat.le_add_left _ _

theorem operand_takes {p text : List Char} {u : Expr F} {t : Scanner Read}
    (hgo : parse (parseUnary (parseExprSteps (byteLen p))) p = (.ok u, t)) (hinput : t.input = p)
    (hrest : RestAt p t.pos text) (hblank : text.dropWhile isWhitespace = []) : Takes p u := by
  have hnext : Next (plainStyle : Style F) [] 10 := .done
  have hunary : Arrives (level (parseExprSteps (byteLen p)) 0) (Scanner.new p) u (Behind (spaced [])) :=
    ⟨text, hblank, t, hgo, hinput, hrest⟩
  have hand : Arrives (level (parseExprSteps (byteLen p)) 8) (Scanner.new p) u (Behind (spaced [])) :=
    level_hands_on hnext (Nat.zero_le 8) (by decide) (Nat.le_refl 8) hunary
  obtain ⟨rest, rfl, s, hs, -, hend⟩ := or_hands_on hnext (Nat.lt_succ_self 9) hand
  exact ⟨s, hs, hend.length.symm⟩

omit [LawfulUnicode] in
theorem Takes.unique {p : List Char} {e e' : Expr F} (h : Takes p e) (h' : Takes p e') : e = e' := by
  obtain ⟨s, hgo, -⟩ := h
  obtain ⟨s', hgo', -⟩ := h'
  exact Except.ok.inj (Prod.mk.inj (hgo.symm.trans hgo')).1

theorem not_takes {p : List Char} {e : Expr F} {s : Scanner Read}
    (hgo : parse parseExpr p = (.ok e, s))
    (hnot : Takes ("NOT ".toList ++ p) (.unaryOp .not e)) :
    ∃ t, parse (parseUnary (parseExprSteps (byteLen p))) p = (.ok e, t) ∧ Moved t s := by
  have hexpr := parseExprSteps_not_agrees (F := F) p
  have hleads : Leads "NOT ".toList (Scanner.new p) (Scanner.new ("NOT ".toList ++ p))
      (parseOr (parseExprSteps (byteLen p) : P (Expr F)))
      (parseOr (parseExprSteps (byteLen ("NOT ".toList ++ p))))
      (OnlyOperand (parse (parseUnary (parseExprSteps (byteLen p))) p)) := by
    refine parseOr_leads (onlyOperand_spreads _) hexpr ?_
    rintro u t hu
    obtain ⟨u', t', hu', hshift, -⟩ := parseUnary_not_leads hexpr p u t hu
    exact ⟨u', t', hu', hshift, fun _ => ⟨t, hu, refl_of Moved t⟩⟩
  obtain ⟨e', t', hgo', -, honly⟩ := hleads e s hgo
  obtain ⟨s', hs', -⟩ := hnot
  exact honly (Except.ok.inj (Prod.mk.inj (hgo'.symm.trans hs')).1)

/-- `NOT` negates the whole of a text exactly if the text is one operand. -/
theorem negatesWhole_iff (p : List Char) (e : Expr F) (h : Takes p e) :
    NegatesWhole p e ↔ OneOperand F p := by
  constructor
  · rintro ⟨hnot, -⟩
    obtain ⟨s, hgo, hpos⟩ := h
    obtain ⟨t, hrun, hmoved⟩ := not_takes hgo hnot
    obtain ⟨hinput, text, hrest⟩ := parseUnary_sound hrun
    obtain ⟨-, text', hbehind, hrest'⟩ := hmoved text (hinput.symm ▸ hrest)
    have htext' : text' = [] := by
      by_contra hne
      have hlen := hrest'.length
      have := byteLen_pos hne
      rw [hinput] at hlen
      omega
    rw [htext'] at hbehind
    exact ⟨e, t, text, hrun, hrest, hbehind.symm⟩
  · rintro ⟨u, t, text, hrun, hrest, hblank⟩
    obtain ⟨hinput, -⟩ := parseUnary_sound hrun
    obtain rfl : e = u := h.unique (operand_takes hrun hinput hrest hblank)
    obtain ⟨_, t', hrun', hshift, rfl⟩ :=
      parseUnary_not_leads (parseExprSteps_not_agrees p) p e t hrun
    have hrest' : RestAt ("NOT ".toList ++ p) t'.pos text := by
      obtain ⟨before, hp, hlen⟩ := hrest
      exact ⟨"NOT ".toList ++ before, by rw [hp, List.append_assoc],
        by rw [byteLen_append, hlen, hshift.pos]⟩
    have hnot : Takes ("NOT ".toList ++ p) (.unaryOp .not e) :=
      operand_takes hrun' (by rw [hshift.input, hinput]) hrest' hblank
    exact ⟨hnot, fun condition hcondition => hcondition.unique hnot ▸ not_negates e⟩

end

-- ---- Predicates that are one operand

def isPredicate : Expr F → Bool
  | .binaryOp .. | .between .. | .inList .. | .isNull .. => true
  | _ => false

section
variable {expr : P (Expr F)} {text mid : List Char}

def YieldsAt (m : P α) (text : List Char) (Q : α → Prop) : Prop :=
  ∀ s : Scanner Read, RestAt s.input s.pos text → ∀ a t, m.go s = (.ok a, t) → Q a

theorem YieldsAt.of {m : P α} {Q : α → Prop} (h : Yields m Q) : YieldsAt m text Q :=
  fun s _ a t hgo => h s a t hgo

theorem YieldsAt.step {m : P α} {f : α → P β} {a : α} {Q : β → Prop} (h : From m text a (· = mid))
    (hf : YieldsAt (f a) mid Q) : YieldsAt (m >>= f) text Q := by
  rintro s hs b u hgo
  obtain ⟨_, rfl, t, hm, hinput, hrest⟩ := h s hs
  rw [Scan.go_bind, hm] at hgo
  exact hf t (hinput ▸ hrest) b u hgo

variable [Unicode]

theorem parsePostfix_yields {e : Expr F} (he : isPredicate e = false) :
    Yields (parsePostfix expr e) fun e => isPredicate e = false := by
  refine Yields.loop (R := fun e => isPredicate e = false) (fun e he => ?_) he
  refine Yields.behind fun _ => Yields.behind fun _ => Yields.ite ?_ ?_
  · refine Yields.behind fun _ => Yields.behind fun _ => Yields.behind fun _ => Yields.ite ?_ ?_
    · exact Yields.behind fun _ => Yields.pure rfl
    · exact Yields.behind fun _ => Yields.pure rfl
  · refine Yields.behind fun _ => Yields.ite ?_ (Yields.behind fun _ => Yields.ite ?_ (Yields.pure he))
    · refine Yields.behind fun _ => Yields.behind fun _ => Yields.behind fun _ => ?_
      refine Yields.behind fun _ => Yields.ite ?_ ?_
      · exact Yields.behind fun _ => Yields.pure rfl
      · exact Yields.behind fun _ => Yields.pure rfl
    · refine Yields.behind fun _ => Yields.behind fun _ => Yields.behind fun _ => Yields.ite ?_ ?_
      · exact Yields.behind fun _ => Yields.pure rfl
      · refine Yields.behind fun _ => Yields.behind fun _ => Yields.behind fun _ => Yields.ite ?_ ?_
        · exact Yields.behind fun _ => Yields.pure rfl
        · exact Yields.behind fun _ => Yields.pure rfl

theorem parseWordPrimary_yields : Yields (parseWordPrimary expr) fun e => isPredicate e = false := by
  refine Yields.behind fun found => ?_
  cases found with
  | none => exact Yields.fail
  | some word =>
    refine Yields.behind fun _ => Yields.ite (parsePostfix_yields rfl) ?_
    refine Yields.ite (parsePostfix_yields rfl) (Yields.ite (parsePostfix_yields rfl) ?_)
    refine Yields.ite ?_ (Yields.behind fun _ => Yields.behind fun _ => Yields.ite ?_ ?_)
    · have hcase : Yields (parseCase expr) fun e => isPredicate e = false := by
        refine Yields.behind fun _ => Yields.behind fun _ => Yields.ite Yields.fail ?_
        exact Yields.behind fun _ => Yields.behind fun _ => Yields.pure rfl
      exact hcase.bind fun _ he => parsePostfix_yields he
    · refine Yields.behind fun _ => Yields.behind fun _ => Yields.behind fun _ => ?_
      refine Yields.behind fun _ => Yields.ite ?_ (parsePostfix_yields rfl)
      refine Yields.behind fun _ => Yields.behind fun _ => Yields.behind fun _ => ?_
      exact Yields.behind fun _ => Yields.behind fun _ => parsePostfix_yields rfl
    · exact parsePostfix_yields rfl

variable [Float64 F] [ParseFloat F]

omit [Unicode] in
theorem parseNumber_yields : Yields (parseNumber : P (Expr F)) fun e => isPredicate e = false := by
  refine Yields.behind fun _ => Yields.behind fun text => Yields.ite Yields.fail ?_
  refine Yields.behind fun _ => ?_
  cases numberValue (F := F) (scanNumber text) with
  | some value => exact Yields.pure rfl
  | none => exact Yields.fail

theorem parsePrimary_yieldsAt : YieldsAt (parsePrimary expr) text fun e =>
    isPredicate e = true → (text.dropWhile isWhitespace).head? = some '(' := by
  have hplain : ∀ {m : P (Expr F)}, Yields m (fun e => isPredicate e = false) → ∀ {text Q},
      YieldsAt m text fun e => isPredicate e = true → Q := fun hm _ _ =>
    .of fun s e t hgo he => absurd (hm s e t hgo) (by simp [he])
  refine YieldsAt.step (Reaches.from fun _ hs => skipWhitespace_reaches hs) ?_
  refine YieldsAt.step (Reaches.from fun _ hs => atEnd_reaches hs) ?_
  split
  · exact .of Yields.fail
  · refine YieldsAt.step (Reaches.from fun _ hs => rest_reaches hs) ?_
    split
    · exact hplain (Yields.behind fun _ => parsePostfix_yields rfl)
    · next hhead => exact .of fun _ _ _ _ _ => hhead
    · exact hplain (Yields.behind fun _ => parsePostfix_yields rfl)
    · exact hplain (Yields.behind fun _ => parsePostfix_yields rfl)
    · exact hplain (Yields.behind fun _ => Yields.behind fun _ => parsePostfix_yields rfl)
    · exact hplain (Yields.behind fun _ => Yields.behind fun _ => parsePostfix_yields rfl)
    · refine hplain (Yields.ite ?_ parseWordPrimary_yields)
      exact parseNumber_yields.bind fun _ he => parsePostfix_yields he

/-- Characters that `parse_unary` leaves out of the tree. -/
def isSilent (c : Char) : Bool := isWhitespace c || c == '+'

omit [Unicode] [Float64 F] [ParseFloat F] in
theorem dropWhile_isSilent (text : List Char) :
    (text.dropWhile isWhitespace).dropWhile isSilent = text.dropWhile isSilent := by
  induction text with
  | nil => rfl
  | cons c text ih =>
    by_cases hc : isWhitespace c = true
    · simp [hc, isSilent, ih]
    · simp [hc]

theorem parseUnarySteps_yieldsAt (k : Nat) : YieldsAt (parseUnarySteps expr k) text fun e =>
    isPredicate e = true → (text.dropWhile isSilent).head? = some '(' := by
  induction k generalizing text with
  | zero => exact fun _ _ _ _ hgo => nomatch hgo
  | succ k ih =>
    rw [← dropWhile_isSilent]
    refine YieldsAt.step (Reaches.from fun _ hs => skipWhitespace_reaches hs) ?_
    refine YieldsAt.step (From.peekWord (From.pure rfl)) ?_
    split
    · exact .of (Yields.behind fun _ => Yields.behind fun _ => Yields.pure nofun)
    · refine YieldsAt.step (Reaches.from fun _ hs => skipWhitespace_reaches hs) ?_
      rw [List.dropWhile_idempotent]
      refine YieldsAt.step (Reaches.from fun _ hs => looksAt_reaches _ hs) ?_
      split
      · exact .of (Yields.behind fun _ => Yields.behind fun _ => Yields.pure nofun)
      · refine YieldsAt.step (Reaches.from fun _ hs => looksAt_reaches _ hs) ?_
        split
        · next hplus =>
          obtain ⟨rest, hrest⟩ := List.head?_eq_some_iff.mp (eq_of_beq hplus)
          rw [hrest]
          have hplus : From (advance 1) ('+' :: rest) () (· = rest) :=
            From.advance_char (f := Pure.pure) rfl (From.pure rfl)
          exact YieldsAt.step hplus ih
        · rintro s hs e t hgo he
          have hhead := parsePrimary_yieldsAt s hs e t hgo he
          rw [List.dropWhile_idempotent] at hhead
          obtain ⟨rest, hrest⟩ := List.head?_eq_some_iff.mp hhead
          rw [hrest]
          rfl

variable [LawfulUnicode]

/-- `NOT` never negates the whole of a predicate without parentheses. -/
theorem predicate_in_parentheses {p : List Char} {e : Expr F} (h : Takes p e)
    (hpredicate : isPredicate e = true) (hone : OneOperand F p) :
    (p.dropWhile isSilent).head? = some '(' := by
  obtain ⟨u, t, text, hrun, hrest, hblank⟩ := hone
  obtain rfl : e = u := h.unique (operand_takes hrun (parseUnary_sound hrun).1 hrest hblank)
  exact parseUnarySteps_yieldsAt _ (Scanner.new p) (RestAt.start p) e t hrun hpredicate

end

def equalsOne (left : Expr ℚ) : Expr ℚ := .binaryOp left .eq (.literal (.number (.int 1)))

/-- A run reads `a = 1`, or with a `NOT` before the `a`, and stops behind `size` bytes. -/
def readsOne (negated : Bool) (size : Nat) : Except Stop (Expr ℚ) × Scanner Read → Bool
  | (.ok (.binaryOp (.identifier "a") .eq (.literal (.number (.int 1)))), s) =>
    !negated && s.pos == size
  | (.ok (.binaryOp (.unaryOp .not (.identifier "a")) .eq (.literal (.number (.int 1)))), s) =>
    negated && s.pos == size
  | _ => false

theorem takes_of_readsOne {text : List Char} (negated : Bool) (h : readsOne negated (byteLen text)
    (parse (@parseExpr ℚ asciiWords _ wholeNumbers) text) = true) :
    @Takes ℚ asciiWords _ wholeNumbers text
      (equalsOne (bif negated then .unaryOp .not (.identifier "a") else .identifier "a")) := by
  unfold readsOne at h
  split at h
  · next s hs =>
    cases negated with
    | false => exact ⟨s, hs, eq_of_beq h⟩
    | true => cases h
  · next s hs =>
    cases negated with
    | false => cases h
    | true => exact ⟨s, hs, eq_of_beq h⟩
  · cases h

/-- In parentheses, the comparison is one operand. -/
theorem oneOperand_parentheses :
    @OneOperand asciiWords ℚ _ wholeNumbers "(a = 1)".toList := by
  obtain ⟨u, t, ht, hrest⟩ := @parse_leaves _ (@parseUnary ℚ asciiWords _ wholeNumbers
    (@parseExprSteps ℚ asciiWords _ wholeNumbers 7)) "(a = 1)".toList [] (by decide +kernel)
  exact ⟨u, t, [], ht, hrest, rfl⟩

theorem negatesWhole_parentheses :
    @NegatesWhole ℚ asciiWords _ wholeNumbers "(a = 1)".toList (equalsOne (.identifier "a")) :=
  (@negatesWhole_iff ℚ asciiWords asciiWords_lawful _ wholeNumbers _ _
    (takes_of_readsOne false (by decide +kernel))).mpr oneOperand_parentheses

theorem predicate_in_parentheses_equation :
    ("(a = 1)".toList.dropWhile isSilent).head? = some '(' :=
  @predicate_in_parentheses ℚ asciiWords _ wholeNumbers asciiWords_lawful _ _
    (takes_of_readsOne false (by decide +kernel)) rfl oneOperand_parentheses

theorem takes_equalsOne :
    @Takes ℚ asciiWords _ wholeNumbers "a = 1".toList (equalsOne (.identifier "a")) :=
  takes_of_readsOne false (by decide +kernel)

theorem takes_not_equalsOne :
    @Takes ℚ asciiWords _ wholeNumbers ("NOT ".toList ++ "a = 1".toList)
      (equalsOne (.unaryOp .not (.identifier "a"))) :=
  takes_of_readsOne true (by decide +kernel)

/-- `NOT a = 1` compares the negation of `a`, and keeps no record with a number there. -/
theorem not_splits_equation :
    @Takes ℚ asciiWords _ wholeNumbers "a = 1".toList (equalsOne (.identifier "a")) ∧
      ¬@Takes ℚ asciiWords _ wholeNumbers ("NOT ".toList ++ "a = 1".toList)
        (.unaryOp .not (equalsOne (.identifier "a"))) ∧
      ∃ condition, @Takes ℚ asciiWords _ wholeNumbers ("NOT ".toList ++ "a = 1".toList) condition ∧
        ¬Negates condition (equalsOne (.identifier "a")) := by
  refine ⟨takes_equalsOne, fun h => ?_, _, takes_not_equalsOne, fun h => ?_⟩
  · cases @Takes.unique ℚ asciiWords _ wholeNumbers _ _ _ h takes_not_equalsOne
  · have hkept := (h Pipeline.bareEnv (AList.insert "a" (ofI64 2) ∅) RuleState.new).mpr rfl
    cases hkept

end Rekuiper.Parser
