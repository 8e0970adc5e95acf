import Rekuiper.Lib.Decimal
import Rekuiper.Parser.Precedence

/-!
# Printing expressions and parsing them again

The printer puts every compound operand in parentheses and single spaces between the tokens. The
parser gets back what has been printed, by induction on the number of tokens: parentheses and
lists hold fewer than the expression around them.
-/

namespace Rekuiper.Parser

open Lib Scan Sql

variable {F α β γ : Type}

-- ---- The printer

namespace Style

variable (style : Style F)

def quote (s : String) : Char := if style.doubleQuotes s then '"' else '\''

def isCompound : Expr F → Bool
  | .identifier _ | .literal _ | .call _ _ => false
  | _ => true

def bracket (wrapped : Bool) (toks : List Token) : List Token :=
  if wrapped then ['('] :: toks ++ [[')']] else toks

mutual
def tokens : Expr F → List Token
  | .identifier name => [name.toList]
  | .literal (.number (.int n)) => [Nat.toDigits 10 n.toNat]
  | .literal (.string s) => [style.quote s :: s.toList ++ [style.quote s]]
  | .call name args => name.toList :: ['('] :: items args ++ [[')']]
  | .unaryOp .not e => "NOT".toList :: bracket (isCompound e || style.wraps e) (tokens e)
  | .unaryOp .neg e => ['-'] :: bracket (isCompound e || style.wraps e) (tokens e)
  | .binaryOp left op right =>
    bracket (isCompound left || style.wraps left) (tokens left) ++
      style.operator op :: bracket (isCompound right || style.wraps right) (tokens right)
  | .between e low high negated =>
    bracket (isCompound e || style.wraps e) (tokens e) ++ negation negated ++
      "BETWEEN".toList :: bracket (isCompound low || style.wraps low) (tokens low) ++
        "AND".toList :: bracket (isCompound high || style.wraps high) (tokens high)
  | .inList e list negated =>
    bracket (isCompound e || style.wraps e) (tokens e) ++ negation negated ++
      "IN".toList :: ['('] :: items list ++ [[')']]
  | .isNull e negated =>
    bracket (isCompound e || style.wraps e) (tokens e) ++
      "IS".toList :: negation negated ++ ["NULL".toList]
  | _ => []
def items : List (Expr F) → List Token
  | [] => []
  | e :: es =>
    bracket (style.wraps e) (tokens e) ++ if es.isEmpty then [] else [','] :: items es
end

def operand (e : Expr F) : List Token := bracket (isCompound e || style.wraps e) (style.tokens e)

def sign : UnaryOperator → Token
  | .not => "NOT".toList
  | .neg => ['-']

theorem tokens_binaryOp (left right : Expr F) (op : BinaryOperator) :
    style.tokens (.binaryOp left op right) =
      style.operand left ++ style.operator op :: style.operand right := by
  rw [tokens, operand, operand]

theorem tokens_unaryOp (op : UnaryOperator) (e : Expr F) :
    style.tokens (.unaryOp op e) = sign op :: style.operand e := by
  cases op <;> rw [tokens, operand, sign]

theorem tokens_between (e low high : Expr F) (negated : Bool) :
    style.tokens (.between e low high negated) =
      style.operand e ++ (negation negated ++ "BETWEEN".toList ::
        (style.operand low ++ "AND".toList :: style.operand high)) := by
  simp only [tokens, operand, List.append_assoc, List.cons_append]

theorem tokens_inList (e : Expr F) (list : List (Expr F)) (negated : Bool) :
    style.tokens (.inList e list negated) =
      style.operand e ++ (negation negated ++ "IN".toList :: ['('] ::
        (style.items list ++ [[')']])) := by
  simp only [tokens, operand, List.append_assoc, List.cons_append]

theorem tokens_isNull (e : Expr F) (negated : Bool) :
    style.tokens (.isNull e negated) =
      style.operand e ++ "IS".toList :: (negation negated ++ ["NULL".toList]) := by
  simp only [tokens, operand, List.append_assoc, List.cons_append]

/-- The text of an expression: its tokens with single spaces between them. -/
def print (e : Expr F) : List Char := [' '].intercalate (style.tokens e)

end Style

theorem print_behind (style : Style F) (e : Expr F) :
    Behind (spaced (style.tokens e)) (style.print e) := by
  unfold Style.print
  cases style.tokens e with
  | nil => rfl
  | cons tok toks => simp [Behind, intercalate_eq, isWhitespace]

theorem forall_of_all {α : Type} {p : α → Prop} [DecidablePred p] {xs : List α}
    (h : (xs.all fun x => decide (p x)) = true) : ∀ x ∈ xs, p x := by
  simpa using h

section
variable [Unicode]

/-- The words that do not stand for a column or a function. -/
def literalWords : List String := ["NOT", "true", "false", "null", "CASE"]

/-- Letters, digits and underscores that the parser does not read otherwise. -/
structure IsIdentifier (name : String) : Prop where
  nonempty : name.toList ≠ []
  word : ∀ c ∈ name.toList, isWordChar c = true
  letter : ∀ c ∈ name.toList.head?, c.isDigit = false
  free : ∀ kw ∈ literalWords, eqIgnoreAsciiCase name kw = false

theorem IsIdentifier.isWord (h : IsIdentifier w) : IsWord w := ⟨h.nonempty, h.word⟩

mutual
def Printable (style : Style F) : Expr F → Prop
  | .identifier name => IsIdentifier name
  | .literal (.number (.int n)) => 0 ≤ n ∧ n < 2 ^ 63
  | .literal (.string s) => style.quote s ∉ s.toList
  | .call name args => IsIdentifier name ∧ AllPrintable style args
  | .unaryOp _ e => Printable style e
  | .binaryOp left _ right => Printable style left ∧ Printable style right
  | .between e low high _ => Printable style e ∧ Printable style low ∧ Printable style high
  | .inList e list _ => Printable style e ∧ AllPrintable style list
  | .isNull e _ => Printable style e
  | _ => False
def AllPrintable (style : Style F) : List (Expr F) → Prop
  | [] => True
  | e :: es => Printable style e ∧ AllPrintable style es
end

variable {style : Style F} {e : Expr F}

theorem all_printable {es : List (Expr F)} (h : AllPrintable style es) {e : Expr F} (he : e ∈ es) :
    Printable style e := by
  induction es with
  | nil => cases he
  | cons e' es ih =>
    rw [AllPrintable] at h
    rcases List.mem_cons.mp he with rfl | he
    · exact h.1
    · exact ih h.2 he

theorem tokens_ne_nil (h : Printable style e) : style.tokens e ≠ [] := by
  cases e with
  | identifier name => simp [Style.tokens]
  | literal value =>
    cases value with
    | number x =>
      cases x with
      | int n => simp [Style.tokens]
      | float f => cases h
    | string w => simp [Style.tokens]
    | _ => cases h
  | call name args => simp [Style.tokens]
  | unaryOp op e => simp [Style.tokens_unaryOp]
  | binaryOp left op right => simp [Style.tokens_binaryOp]
  | between e low high negated => simp [Style.tokens_between]
  | inList e list negated => simp [Style.tokens_inList]
  | isNull e negated => simp [Style.tokens_isNull]
  | _ => cases h

end

theorem length_tokens_le (style : Style F) (e : Expr F) :
    (style.tokens e).length ≤ byteLen (style.print e) + 1 := by
  have hspaced : ∀ toks : List Token, toks.length ≤ byteLen (spaced toks) := by
    intro toks
    induction toks with
    | nil => exact Nat.le_refl _
    | cons tok toks ih =>
      rw [spaced_cons, byteLen_cons, byteLen_append, List.length_cons]
      have hspace : Char.utf8Size ' ' = 1 := rfl
      omega
  unfold Style.print
  cases style.tokens e with
  | nil => exact Nat.zero_le _
  | cons tok toks =>
    have := hspaced toks
    rw [intercalate_eq, byteLen_append, List.length_cons]
    omega

variable {style : Style F} {text mid t : List Char} {Q : List Char → Prop} {k n : Nat}
  {r : List Token}

-- ---- Literals

theorem parseQuoted_gets {quote : Char} {cs unterminated} (hquote : quote ∉ cs) :
    From (parseQuoted unterminated) (quote :: (cs ++ [quote] ++ text)) (String.ofList cs)
      (· = text) := by
  refine From.rest ?_
  have htake : (cs ++ [quote] ++ text).takeWhile (· != quote) = cs := by
    rw [List.append_assoc, List.takeWhile_append_of_pos fun c hc =>
      bne_iff_ne.mpr (ne_of_mem_of_not_mem hc hquote)]
    simp
  simp only [htake]
  rw [if_pos (by simp)]
  have hstep : From (advance (quote.utf8Size + byteLen cs + quote.utf8Size) >>= fun _ =>
      Pure.pure (String.ofList cs)) ((quote :: cs ++ [quote]) ++ text) (String.ofList cs) (· = text) :=
    From.advance (by simp [Nat.add_assoc]) (From.pure rfl)
  simpa using hstep

theorem toLower_of_isDigit {c : Char} (hc : c.isDigit = true) : c.toLower = c := by
  unfold Char.toLower
  rw [dif_neg]
  rintro ⟨hupper, -⟩
  simp only [Char.isDigit, Bool.and_eq_true, decide_eq_true_eq, ge_iff_le,
    UInt32.le_iff_toNat_le] at hc hupper
  exact absurd (Nat.le_trans hupper hc.2) (by decide)

theorem quote_cases (style : Style F) (w : String) : style.quote w = '"' ∨ style.quote w = '\'' := by
  unfold Style.quote
  split
  · exact .inl rfl
  · exact .inr rfl

theorem scanNumber_digits {digits : List Char} (hdigit : ∀ c ∈ digits, c.isDigit = true)
    (r : List Token) : scanNumber (digits ++ spaced r) = digits := by
  have htake : (digits ++ spaced r).takeWhile Char.isDigit = digits := by
    rw [List.takeWhile_append_of_pos hdigit]
    cases r <;> simp
  have hfraction : ∀ hasIntPart, scanFraction hasIntPart (spaced r) = [] := by
    cases r <;> simp [scanFraction]
  have hexponent : scanExponent (spaced r) = [] := by
    cases r <;> simp [scanExponent]
  simp only [scanNumber, htake, List.drop_left, hfraction, List.length_nil, Nat.add_zero, hexponent,
    List.append_nil]

theorem numberValue_digits [Float64 F] [ParseFloat F] {n : Nat} (hn : n ≤ maxU64) :
    (numberValue (Nat.toDigits 10 n) : Option (Value F)) = some (.number (.int n)) := by
  have hplain : ∀ c, c.isDigit = false → c ∉ Nat.toDigits 10 n := by
    rintro c hc hmem
    rw [isDigit_of_mem hmem] at hc
    cases hc
  rw [numberValue, if_neg (by simp [hplain]), parseDigits_toDigits]
  exact if_pos hn

theorem parseNumber_gets [Float64 F] [ParseFloat F] {n : Nat} (hn : n ≤ maxU64) (r : List Token) :
    Gets (parseNumber : P (Expr F)) (spaced (Nat.toDigits 10 n :: r)) (.literal (.number (.int n)))
      (· = spaced r) := by
  obtain ⟨c, cs, hdigits⟩ := List.exists_cons_of_ne_nil (Nat.toDigits_ne_nil (n := n) (b := 10))
  have hc : c.isDigit = true := isDigit_of_mem (n := n) (by simp [hdigits])
  have hdrop : (spaced (Nat.toDigits 10 n :: r)).dropWhile isWhitespace =
      Nat.toDigits 10 n ++ spaced r := by
    rw [hdigits, spaced_drop (isWhitespace_of_isDigit hc), List.cons_append]
  refine Gets.skip ?_
  rw [hdrop]
  refine From.rest ?_
  simp only [scanNumber_digits (fun c => isDigit_of_mem) r]
  have hne : ((Nat.toDigits 10 n).isEmpty || Nat.toDigits 10 n == ['.']) = false := by
    rw [hdigits]
    have hne : c ≠ '.' := by
      rintro rfl
      cases hc
    simp [hne]
  rw [hne]
  refine From.advance rfl ?_
  rw [numberValue_digits hn]
  exact From.pure rfl

theorem isNumberStart_cons {c : Char} {tail : List Char} (hc : c ≠ '.') :
    isNumberStart (c :: tail) = c.isDigit := by
  unfold isNumberStart
  split
  · next heq => exact absurd (List.cons.inj heq).1 hc
  · next heq => rw [(List.cons.inj heq).1]
  · next heq => cases heq

-- ---- Lists

def Style.item (style : Style F) (e : Expr F) : List Token :=
  Style.bracket (style.wraps e) (style.tokens e)

theorem items_cons (e : Expr F) (es : List (Expr F)) :
    style.items (e :: es) =
      style.item e ++ if es.isEmpty then [] else [','] :: style.items es := by
  rw [Style.items, Style.item]

theorem item_length_le {es : List (Expr F)} (he : e ∈ es) :
    (style.item e).length ≤ (style.items es).length := by
  induction es with
  | nil => cases he
  | cons e' es ih =>
    rw [items_cons, List.length_append]
    rcases List.mem_cons.mp he with rfl | he
    · exact Nat.le_add_right _ _
    · have hne : es.isEmpty = false := by
        cases es with
        | nil => cases he
        | cons => rfl
      have := ih he
      simp only [hne, Bool.false_eq_true, if_false, List.length_cons]
      omega

def itemsStep (close : Option Char) (item : P (List (Expr F))) (items : List (Expr F)) :
    P (List (Expr F) ⊕ List (Expr F)) := do
  skipWhitespace
  if ← isClosed close then return .inr items
  else
    let items := items ++ (← item)
    skipWhitespace
    if ← looksAt ',' then
      advance 1
      return .inl items
    else return .inr items

theorem byteLen_drop_append (text text' : List Char) :
    byteLen (text'.dropWhile isWhitespace) ≤ byteLen ((text ++ text').dropWhile isWhitespace) := by
  rw [List.dropWhile_append]
  split
  · exact Nat.le_refl _
  · rw [byteLen_append]
    exact Nat.le_trans (byteLen_dropWhile_le _ _) (Nat.le_add_left _ _)

section
variable {close : Option Char} {item : P (List (Expr F))} {done : List (Expr F)}
  {toks : List Token} {e : Expr F}

theorem itemsStep_gets {d : Char} {sum : List (Expr F) ⊕ List (Expr F)} (hd : isWhitespace d = false)
    (hopen : ∀ c, close = some c →
      ((spaced (toks ++ [d] :: r)).dropWhile isWhitespace).head? ≠ some c)
    (hitem : Gets item (spaced (toks ++ [d] :: r)) [e] (Behind (spaced ([d] :: r))))
    (hend : From (if d == ',' then (do
        advance 1
        return .inl (done ++ [e])) else (return .inr (done ++ [e]) :
          P (List (Expr F) ⊕ List (Expr F)))) (d :: spaced r) sum Q) :
    Gets (itemsStep close item done) (spaced (toks ++ [d] :: r)) sum Q := by
  have hclosed : From (isClosed close) ((spaced (toks ++ [d] :: r)).dropWhile isWhitespace) false
      (· = (spaced (toks ++ [d] :: r)).dropWhile isWhitespace) := by
    cases close with
    | none => exact From.pure rfl
    | some c =>
      rw [← beq_eq_false_iff_ne.mpr (hopen c rfl)]
      exact Reaches.from fun _ hs => looksAt_reaches c hs
  refine Gets.skip (hclosed.step ?_)
  refine (hitem _ (behind_drop _)).bind (Gets.skip (From.looksAt ',' ?_))
  rw [spaced_drop hd]
  simpa using hend

end

theorem parseItems_gets {close : Option Char} {item : P (List (Expr F))} (r : List Token)
    {es : List (Expr F)} (hes : es ≠ [])
    (hopen : ∀ e ∈ es, ∀ r c, close = some c →
      ((spaced (style.item e ++ r)).dropWhile isWhitespace).head? ≠ some c)
    (hitem : ∀ e ∈ es, ∀ r, Next style r 10 →
      Gets item (spaced (style.item e ++ r)) [e] (Behind (spaced r))) :
    Gets (parseItems close item) (spaced (style.items es ++ [')'] :: r)) es
      (Behind (spaced ([')'] :: r))) := by
  have hloop : ∀ (es : List (Expr F)) (e : Expr F) (done : List (Expr F)),
      (∀ e' ∈ e :: es, ∀ r c, close = some c →
        ((spaced (style.item e' ++ r)).dropWhile isWhitespace).head? ≠ some c) →
      (∀ e' ∈ e :: es, ∀ r, Next style r 10 →
        Gets item (spaced (style.item e' ++ r)) [e'] (Behind (spaced r))) →
      LoopGets (itemsStep close item) done (spaced (style.items (e :: es) ++ [')'] :: r))
        (done ++ e :: es) (Behind (spaced ([')'] :: r))) := by
    intro es
    induction es with
    | nil =>
      rintro e done hopen hitem
      rw [items_cons, List.isEmpty_nil, if_pos rfl, List.append_nil]
      refine LoopGets.stop (itemsStep_gets (e := e) rfl (hopen e (by simp) _) ?_ ?_)
      · exact hitem e (by simp) _ (.close r)
      · exact From.pure (by simp [Behind, isWhitespace])
    | cons e' es ih =>
      rintro e done hopen hitem
      rw [items_cons, List.isEmpty_cons, if_neg (by simp), List.append_assoc, List.cons_append]
      have hstep : Gets (itemsStep close item done)
          (spaced (style.item e ++ [','] :: (style.items (e' :: es) ++ [')'] :: r)))
          (.inl (done ++ [e])) (Behind (spaced (style.items (e' :: es) ++ [')'] :: r))) := by
        refine itemsStep_gets rfl (hopen e (by simp) _) (hitem e (by simp) _ (.comma _)) ?_
        exact From.advance_char rfl (From.pure rfl)
      refine LoopGets.go hstep ?_ ?_
      · refine Nat.lt_of_lt_of_le ?_ (spaced_append _ _ ▸ byteLen_drop_append _ _)
        rw [spaced_drop rfl, byteLen_cons]
        refine Nat.lt_of_le_of_lt (byteLen_dropWhile_le _ _) ?_
        exact Nat.lt_add_of_pos_left (by decide)
      · have hrest := ih e' (done ++ [e]) (fun e'' he => hopen e'' (List.mem_cons_of_mem _ he))
          fun e'' he => hitem e'' (List.mem_cons_of_mem _ he)
        rwa [List.append_assoc] at hrest
  cases es with
  | nil => exact absurd rfl hes
  | cons e es => exact (hloop es e [] hopen hitem).gets

-- ---- What expressions begin with

theorem arg_gets {expr : P (Expr F)} {e : Expr F}
    (hstar : (text.dropWhile isWhitespace).head? ≠ some '*') (h : Gets expr text e Q) :
    Gets (parseArg expr) text [e] Q := by
  rintro t ht
  refine From.looksAt '*' ?_
  have hhead : (t.head? == some '*') = false := by
    rw [beq_eq_false_iff_ne]
    rintro hhead
    obtain ⟨t', rfl⟩ := List.head?_eq_some_iff.mp hhead
    exact hstar (ht ▸ rfl)
  rw [hhead]
  exact (h t ht).bind fun _ hQ => From.pure hQ

section
variable [Unicode] {expr : P (Expr F)} {e : Expr F}

/-- What the parser asks of the text of an operand before it reads a primary. -/
structure Opens (text : List Char) : Prop where
  head : ∀ c ∈ text.head?, c ∉ ['-', '+', '*', ')']
  word : ∀ word ∈ nextWord text, eqIgnoreAsciiCase word "NOT" = false

section
variable [LawfulUnicode]

theorem paren_opens (r : List Token) : Opens ((spaced (['('] :: r)).dropWhile isWhitespace) := by
  refine ⟨by simp [isWhitespace], ?_⟩
  rw [nextWord_behind (behind_drop _), nextWord_none (by decide) rfl]
  rintro word hword
  cases hword

theorem name_opens {name : String} (h : IsIdentifier name) (r : List Token) :
    Opens ((spaced (name.toList :: r)).dropWhile isWhitespace) := by
  refine ⟨?_, ?_⟩
  · rw [h.isWord.drop]
    obtain ⟨c, cs, hname⟩ := List.exists_cons_of_ne_nil h.nonempty
    have hc : isWordChar c = true := h.word c (by simp [hname])
    simp only [hname, List.cons_append, List.head?_cons, Option.mem_def, Option.some.injEq,
      forall_eq']
    rintro hmem
    have hnot : ∀ c' ∈ ['-', '+', '*', ')'], isWordChar c' = false := by
      simp [isWordChar_ascii]
    rw [hnot c hmem] at hc
    cases hc
  · rw [nextWord_behind (behind_drop _), h.isWord.next]
    rintro word hword
    cases hword
    exact h.free "NOT" (by decide)

theorem number_isWord (n : Nat) : IsWord (String.ofList (Nat.toDigits 10 n)) := by
  refine ⟨by simp, fun c hc => ?_⟩
  rw [String.toList_ofList] at hc
  exact isWordChar_digit (isDigit_of_mem hc)

theorem number_opens (n : Nat) (r : List Token) :
    Opens ((spaced (Nat.toDigits 10 n :: r)).dropWhile isWhitespace) := by
  have hword := number_isWord n
  obtain ⟨c, cs, hdigits⟩ := List.exists_cons_of_ne_nil (Nat.toDigits_ne_nil (n := n) (b := 10))
  have hc : c.isDigit = true := isDigit_of_mem (n := n) (by simp [hdigits])
  refine ⟨?_, ?_⟩
  · rw [hdigits, spaced_drop (isWhitespace_of_isDigit hc)]
    simp only [List.head?_cons, Option.mem_def, Option.some.injEq, forall_eq']
    rintro hmem
    have hnot : ∀ c' ∈ ['-', '+', '*', ')'], c'.isDigit = false := forall_of_all rfl
    rw [hnot c hmem] at hc
    cases hc
  · have hnext := hword.next (r := r)
    rw [String.toList_ofList] at hnext
    rw [nextWord_behind (behind_drop _), hnext]
    rintro word hword
    obtain rfl := Option.some.inj hword
    rw [eqIgnoreAsciiCase, beq_eq_false_iff_ne]
    rintro heq
    have hlower := congrArg String.toList heq
    simp only [toAsciiLowercase, String.toList_ofList, hdigits, List.map_cons,
      toLower_of_isDigit hc] at hlower
    obtain ⟨rfl, -⟩ := List.cons.inj (hlower.trans (show _ = ['n', 'o', 't'] by decide))
    cases hc

theorem string_opens {quote : Char} (hquote : quote = '"' ∨ quote = '\'') (cs : List Char)
    (r : List Token) : Opens ((spaced ((quote :: cs) :: r)).dropWhile isWhitespace) := by
  rcases hquote with rfl | rfl <;> refine ⟨by simp [isWhitespace], ?_⟩
  all_goals
    rw [nextWord_behind (behind_drop _), nextWord_none (by decide) rfl]
    rintro word hword
    cases hword

theorem atom_opens (h : Printable style e) (hatom : Style.isCompound e = false) (r : List Token) :
    Opens ((spaced (style.tokens e ++ r)).dropWhile isWhitespace) := by
  cases e with
  | identifier name => exact name_opens (by simpa [Printable] using h) r
  | call name args =>
    have hname : IsIdentifier name := by
      simp only [Printable] at h
      exact h.1
    exact name_opens hname _
  | literal value =>
    cases value with
    | number x =>
      cases x with
      | int n => exact number_opens n.toNat r
      | float f => cases h
    | string w => exact string_opens (quote_cases style w) _ r
    | _ => cases h
  | _ => cases hatom

theorem operand_opens (h : Printable style e) (r : List Token) :
    Opens ((spaced (style.operand e ++ r)).dropWhile isWhitespace) := by
  rw [Style.operand]
  cases hwrap : Style.isCompound e || style.wraps e with
  | true => exact paren_opens _
  | false => exact atom_opens h (Bool.or_eq_false_iff.mp hwrap).1 r

theorem item_head (h : Printable style e) (r : List Token) {c : Char} (hc : c = '*' ∨ c = ')') :
    ((spaced (style.item e ++ r)).dropWhile isWhitespace).head? ≠ some c := by
  have hopens : ∀ {toks : List Token}, Opens ((spaced toks).dropWhile isWhitespace) →
      ((spaced toks).dropWhile isWhitespace).head? ≠ some c := fun h hhead =>
    h.head c hhead (by rcases hc with rfl | rfl <;> simp)
  have hoperand : ∀ {e'} (toks : List Token), Printable style e' →
      ((spaced (style.operand e' ++ toks)).dropWhile isWhitespace).head? ≠ some c :=
    fun toks h => hopens (operand_opens h toks)
  rw [Style.item]
  cases style.wraps e with
  | true => exact hopens (paren_opens _)
  | false =>
    change ((spaced (style.tokens e ++ r)).dropWhile isWhitespace).head? ≠ some c
    cases e with
    | identifier name => exact hopens (atom_opens h rfl r)
    | literal value => exact hopens (atom_opens h rfl r)
    | call name args => exact hopens (atom_opens h rfl r)
    | unaryOp op e =>
      cases op with
      | not =>
        rw [Style.tokens, List.cons_append, (keyword_isWord (n := 7) (by decide)).drop]
        rcases hc with rfl | rfl <;> simp
      | neg =>
        rw [Style.tokens, List.cons_append, spaced_drop rfl]
        rcases hc with rfl | rfl <;> simp
    | binaryOp left op right =>
      rw [Style.tokens_binaryOp, List.append_assoc]
      exact hoperand _ (by simpa [Printable] using h.1)
    | between e low high negated =>
      rw [Style.tokens_between, List.append_assoc]
      exact hoperand _ (by simpa [Printable] using h.1)
    | inList e list negated =>
      rw [Style.tokens_inList, List.append_assoc]
      exact hoperand _ (by simpa [Printable] using h.1)
    | isNull e negated =>
      rw [Style.tokens_isNull, List.append_assoc]
      exact hoperand _ h
    | _ => cases h

theorem items_head {es : List (Expr F)} (h : AllPrintable style es) (hes : es ≠ []) (r : List Token) :
    (((spaced (style.items es ++ r)).dropWhile isWhitespace).head? == some ')') = false := by
  rw [beq_eq_false_iff_ne]
  cases es with
  | nil => exact absurd rfl hes
  | cons e es =>
    rw [items_cons, List.append_assoc]
    exact item_head (all_printable h List.mem_cons_self) _ (.inr rfl)

end

-- ---- Primaries

/-- The parser gets back the expressions of at most `m` tokens. -/
def Inverts (style : Style F) (expr : P (Expr F)) (m : Nat) : Prop :=
  ∀ e wrapped, Printable style e → (Style.bracket wrapped (style.tokens e)).length ≤ m →
    ∀ r, Next style r 10 →
      Gets expr (spaced (Style.bracket wrapped (style.tokens e) ++ r)) e (Behind (spaced r))

theorem item_gets {m : Nat} (hexpr : Inverts style expr m) {es : List (Expr F)}
    (h : AllPrintable style es) (hlen : (style.items es).length ≤ m) (he : e ∈ es)
    (hnext : Next style r 10) :
    Gets expr (spaced (style.item e ++ r)) e (Behind (spaced r)) :=
  hexpr e (style.wraps e) (all_printable h he) (Nat.le_trans (item_length_le he) hlen) r hnext

section
variable [Float64 F] [ParseFloat F] {m : Nat}

theorem paren_gets {inner : List Token} (hnext : Next style r n)
    (hexpr : Gets expr (spaced (inner ++ [')'] :: r)) e (Behind (spaced ([')'] :: r)))) :
    Gets (parsePrimary expr) (spaced (['('] :: inner ++ [')'] :: r)) e (Behind (spaced r)) := by
  refine Gets.skip ?_
  rw [List.cons_append, spaced_drop rfl]
  refine From.atEnd (From.rest (From.advance_char rfl ?_))
  refine hexpr.from.bind (Gets.skip_gets ?_)
  refine (expectChar_gets rfl).bind fun _ ht => ?_
  subst ht
  exact (postfix_hands_on hnext).from

theorem string_gets {quote : Char} {w : String} (hquote : quote = '"' ∨ quote = '\'')
    (hmem : quote ∉ w.toList) (hnext : Next style r n) :
    Gets (parsePrimary expr) (spaced ((quote :: w.toList ++ [quote]) :: r)) (.literal (.string w))
      (Behind (spaced r)) := by
  have hblank : isWhitespace quote = false := by
    rcases hquote with rfl | rfl <;> rfl
  refine Gets.skip ?_
  rw [List.cons_append, spaced_drop hblank]
  have hread : From (parseQuoted "Unterminated string literal" >>= fun s =>
      parsePostfix expr (.literal (.string s))) (quote :: (w.toList ++ [quote] ++ spaced r))
      (.literal (.string w)) (Behind (spaced r)) := by
    refine (parseQuoted_gets hmem).bind fun _ ht => ?_
    subst ht
    rw [String.ofList_toList]
    exact (postfix_hands_on hnext).from
  refine From.atEnd (From.rest ?_)
  rcases hquote with rfl | rfl
  · exact hread
  · exact hread

theorem wrapped_gets (hexpr : Inverts style expr m) (h : Printable style e)
    (hlen : (Style.bracket true (style.tokens e)).length ≤ m + 1) (hnext : Next style r n) :
    Gets (parsePrimary expr) (spaced (Style.bracket true (style.tokens e) ++ r)) e
      (Behind (spaced r)) := by
  have hless : (style.tokens e).length ≤ m := by
    simp only [Style.bracket, if_true, List.length_append, List.length_cons, List.length_nil] at hlen
    omega
  have hparen := paren_gets hnext (hexpr e false h hless ([')'] :: r) (.close r))
  simpa [Style.bracket] using hparen

theorem unarySteps_gets (hopens : Opens (text.dropWhile isWhitespace))
    (h : Gets (parsePrimary expr) text e Q) (k : Nat) :
    Gets (parseUnarySteps expr (k + 1)) text e Q := by
  have hhead : ∀ c ∈ ['-', '+'], ((text.dropWhile isWhitespace).head? == some c) = false := by
    rintro c hc
    rw [beq_eq_false_iff_ne]
    rintro hhead
    exact hopens.head c hhead (List.mem_append_left ['*', ')'] hc)
  refine Gets.skip (From.peekWordIs ?_)
  rw [any_keyword_false hopens.word]
  refine Gets.from (Gets.skip ?_)
  rw [List.dropWhile_idempotent]
  refine From.looksAt '-' ?_
  rw [hhead '-' (by simp)]
  refine From.looksAt '+' ?_
  rw [hhead '+' (by simp)]
  exact h _ (behind_drop _)

theorem parseUnary_gets
    (h : ∀ k, byteLen (text.dropWhile isWhitespace) ≤ k →
      Gets (parseUnarySteps expr (k + 1)) text e Q) :
    Gets (parseUnary expr) text e Q := by
  rintro t ht s hs
  have hlen := hs.length
  have hdrop := byteLen_dropWhile_le isWhitespace t
  rw [ht] at hdrop
  have hsteps : byteLen s.input + 1 - s.pos = byteLen t + 1 := by omega
  obtain ⟨rest, hQ, s', hgo, hend⟩ := h (byteLen t) hdrop t ht s hs
  refine ⟨rest, hQ, s', ?_, hend⟩
  change (parseUnarySteps expr (byteLen s.input + 1 - s.pos)).go s = _
  rw [hsteps, hgo]

variable [LawfulUnicode]

theorem primary_plain {c : Char} {tail : List Char} (hc : isWordChar c = true)
    (hdrop : text.dropWhile isWhitespace = c :: tail)
    (h : From (if isNumberStart (c :: tail) then parseNumber >>= parsePostfix expr
      else parseWordPrimary expr) (c :: tail) e Q) : Gets (parsePrimary expr) text e Q := by
  have hnot : ∀ c', c'.toNat < 128 ∧ c'.isAlphanum = false ∧ c' ≠ '_' → c ≠ c' := by
    rintro c' hc' rfl
    simp [isWordChar_ascii, hc'] at hc
  refine Gets.skip ?_
  rw [hdrop]
  refine From.atEnd (From.rest ?_)
  simp only [List.head?_cons]
  split
  iterate 6
    · next heq => exact absurd (Option.some.inj heq) (hnot _ (by decide))
  · exact h

theorem number_gets {n k : Nat} (hn : n ≤ maxU64) (hnext : Next style r k) :
    Gets (parsePrimary expr) (spaced (Nat.toDigits 10 n :: r)) (.literal (.number (.int n)))
      (Behind (spaced r)) := by
  obtain ⟨c, cs, hdigits⟩ := List.exists_cons_of_ne_nil (Nat.toDigits_ne_nil (n := n) (b := 10))
  have hc : c.isDigit = true := isDigit_of_mem (n := n) (by simp [hdigits])
  have hread : Gets (parseNumber >>= parsePostfix expr) (spaced (Nat.toDigits 10 n :: r))
      (.literal (.number (.int n))) (Behind (spaced r)) := by
    refine (parseNumber_gets hn r).bind fun _ ht => ?_
    subst ht
    exact (postfix_hands_on hnext).from
  have hfrom := hread _ (behind_drop _)
  have hdrop : (spaced (Nat.toDigits 10 n :: r)).dropWhile isWhitespace = c :: (cs ++ spaced r) := by
    rw [hdigits, spaced_drop (isWhitespace_of_isDigit hc)]
  rw [hdrop] at hfrom
  have hdot : c ≠ '.' := by
    rintro rfl
    cases hc
  refine primary_plain (isWordChar_digit hc) hdrop ?_
  rw [isNumberStart_cons hdot, if_pos hc]
  exact hfrom

theorem word_gets {name : String} (h : IsIdentifier name)
    (hend : Gets (do
      skipWhitespace
      if ← looksAt '(' then parseCall expr name else parsePostfix expr (.identifier name))
      (spaced r) e Q) :
    Gets (parsePrimary expr) (spaced (name.toList :: r)) e Q := by
  obtain ⟨c, cs, hname⟩ := List.exists_cons_of_ne_nil h.nonempty
  have hc : isWordChar c = true := h.word c (by simp [hname])
  have hdrop : (spaced (name.toList :: r)).dropWhile isWhitespace = c :: (cs ++ spaced r) := by
    rw [h.isWord.drop, hname, List.cons_append]
  have hdot : c ≠ '.' := by
    rintro rfl
    simp [isWordChar_ascii] at hc
  refine primary_plain hc hdrop ?_
  rw [isNumberStart_cons hdot, h.letter c (by simp [hname]), ← hdrop]
  refine From.peekWord ?_
  rw [nextWord_behind (behind_drop _), h.isWord.next]
  have hconsume : Gets (consumeWord name) (spaced (name.toList :: r)) () (· = spaced r) := by
    refine Gets.skip ?_
    rw [h.isWord.drop]
    exact Reaches.from fun _ hs => advance_reaches hs
  refine (hconsume _ (behind_drop _)).bind fun _ ht => ?_
  subst ht
  simp only [h.free "true" (by decide), h.free "false" (by decide), h.free "null" (by decide),
    h.free "CASE" (by decide), Bool.false_eq_true, if_false]
  exact hend.from

theorem identifier_gets {name : String} (h : IsIdentifier name) (hnext : Next style r n) :
    Gets (parsePrimary expr) (spaced (name.toList :: r)) (.identifier name) (Behind (spaced r)) := by
  refine word_gets h (Gets.skip (From.looksAt _ ?_))
  have hparen : (((spaced r).dropWhile isWhitespace).head? == some '(') = false := by
    rw [beq_eq_false_iff_ne]
    rintro hhead
    exact (hnext.closes.plain '(' hhead).2.2 rfl
  rw [hparen]
  exact postfix_hands_on hnext _ (behind_drop _)

-- ---- Operands

omit [Float64 F] [ParseFloat F] in
theorem args_gets (hexpr : Inverts style expr m) {args : List (Expr F)}
    (h : AllPrintable style args) (hlen : (style.items args).length ≤ m) (r : List Token) :
    Gets (parseItemsUntil ')' false (parseArg expr)) (spaced (style.items args ++ [')'] :: r)) args
      (· = spaced r) := by
  refine Gets.skip (From.looksAt ')' ?_)
  by_cases hargs : args = []
  · subst hargs
    have hclose := expectChar_gets (c := ')') (r := r) rfl
    have hend : Gets (skipWhitespace >>= fun _ => expectChar ')' >>= fun _ =>
        (Pure.pure [] : P (List (Expr F)))) (spaced ([')'] :: r)) [] (· = spaced r) :=
      Gets.skip_gets (hclose.bind fun _ ht => From.pure ht)
    exact hend _ (behind_drop _)
  · rw [items_head h hargs]
    have hitems : Gets (parseItems none (parseArg expr)) (spaced (style.items args ++ [')'] :: r)) args
        (Behind (spaced ([')'] :: r))) := by
      refine parseItems_gets r hargs (fun _ _ _ _ hc => nomatch hc) fun e he r hnext => ?_
      exact arg_gets (item_head (all_printable h he) r (.inl rfl)) (item_gets hexpr h hlen he hnext)
    refine (hitems _ (behind_drop _)).bind (Gets.skip_gets ?_)
    exact (expectChar_gets rfl).bind fun _ ht => From.pure ht

omit [Float64 F] [ParseFloat F] in
theorem inList_gets (hexpr : Inverts style expr m) {list : List (Expr F)}
    (h : AllPrintable style list) (hlen : (style.items list).length ≤ m) (r : List Token) :
    Gets (parseInList expr) (spaced (['('] :: (style.items list ++ [')'] :: r))) list
      (· = spaced r) := by
  refine Gets.skip_gets ((expectChar_gets rfl).bind fun _ ht => ?_)
  subst ht
  refine Gets.from (Gets.skip (From.looksAt ')' ?_))
  by_cases hlist : list = []
  · subst hlist
    have hdrop : (spaced (style.items [] ++ [')'] :: r)).dropWhile isWhitespace = ')' :: spaced r :=
      spaced_drop rfl
    rw [hdrop]
    exact From.advance_char rfl (From.pure rfl)
  · rw [items_head h hlist]
    have hitems : Gets (parseItems (some ')') (do return [← expr]))
        (spaced (style.items list ++ [')'] :: r)) list (Behind (spaced ([')'] :: r))) := by
      refine parseItems_gets r hlist (fun e he r c hc => ?_) fun e he r hnext => ?_
      · exact item_head (all_printable h he) r (.inr (Option.some.inj hc).symm)
      · exact (item_gets hexpr h hlen he hnext).bind fun _ hQ => From.pure hQ
    refine (hitems _ (behind_drop _)).bind (Gets.skip_gets ?_)
    exact (expectChar_gets rfl).bind fun _ ht => From.pure ht

theorem call_gets (hexpr : Inverts style expr m) {name : String} {args : List (Expr F)}
    (hname : IsIdentifier name) (h : AllPrintable style args) (hlen : (style.items args).length ≤ m)
    (hnext : Next style r n) :
    Gets (parsePrimary expr) (spaced (name.toList :: ['('] :: (style.items args ++ [')'] :: r)))
      (.call name args) (Behind (spaced r)) := by
  refine word_gets hname (Gets.skip (From.looksAt '(' ?_))
  rw [spaced_drop rfl]
  refine From.advance_char rfl ?_
  refine (args_gets hexpr h hlen r).from.bind fun _ ht => Gets.from (Gets.skip_gets ?_)
  subst ht
  refine (matchKeyword_not (hnext.not_keyword (k := 0) (by decide) hnext.pos)).bind fun _ ht => ?_
  subst ht
  exact postfix_hands_on hnext _ (behind_drop _)

structure Fits (style : Style F) (m : Nat) (e : Expr F) : Prop where
  printable : Printable style e
  length : (style.operand e).length ≤ m

theorem atom_gets (hexpr : Inverts style expr m) (h : Printable style e)
    (hatom : Style.isCompound e = false) (hlen : (style.tokens e).length ≤ m + 1)
    (hnext : Next style r n) :
    Gets (parsePrimary expr) (spaced (style.tokens e ++ r)) e (Behind (spaced r)) := by
  cases e with
  | identifier name => exact identifier_gets (by simpa [Printable] using h) hnext
  | call name args =>
    simp only [Printable] at h
    simp only [Style.tokens, List.length_append, List.length_cons, List.length_nil] at hlen
    have hcall := call_gets hexpr h.1 h.2 (show (style.items args).length ≤ m by omega) hnext
    simpa [Style.tokens] using hcall
  | literal value =>
    cases value with
    | number x =>
      cases x with
      | int n =>
        obtain ⟨hn, hmax⟩ : 0 ≤ n ∧ n < 2 ^ 63 := by simpa [Printable] using h
        have hle : n.toNat ≤ maxU64 := by
          unfold maxU64
          omega
        have hnumber : Gets (parsePrimary expr) (spaced (Nat.toDigits 10 n.toNat :: r))
            (.literal (.number (.int n.toNat))) (Behind (spaced r)) := number_gets hle hnext
        rw [Int.toNat_of_nonneg hn] at hnumber
        simpa [Style.tokens] using hnumber
      | float f => cases h
    | string w =>
      have hstring : Gets (parsePrimary expr)
          (spaced ((style.quote w :: w.toList ++ [style.quote w]) :: r)) (.literal (.string w))
          (Behind (spaced r)) := string_gets (quote_cases style w) h hnext
      simpa [Style.tokens] using hstring
    | _ => cases h
  | _ => cases hatom

theorem primary_gets (hexpr : Inverts style expr m) (h : Fits style m e) (hnext : Next style r n) :
    Gets (parsePrimary expr) (spaced (style.operand e ++ r)) e (Behind (spaced r)) := by
  obtain ⟨h, hlen⟩ := h
  rw [Style.operand] at hlen ⊢
  cases hwrap : Style.isCompound e || style.wraps e with
  | true =>
    rw [hwrap] at hlen
    exact wrapped_gets hexpr h (Nat.le_succ_of_le hlen) hnext
  | false =>
    rw [hwrap] at hlen
    exact atom_gets hexpr h (Bool.or_eq_false_iff.mp hwrap).1 (Nat.le_succ_of_le hlen) hnext

theorem not_gets {toks : List Token} {k : Nat}
    (h : Gets (parseUnarySteps expr k) (spaced toks) e Q) :
    Gets (parseUnarySteps expr (k + 1)) (spaced ("NOT".toList :: toks)) (.unaryOp .not e) Q := by
  have hword : IsWord "NOT" := keyword_isWord (n := 7) (by decide)
  have hmatch : Gets (matchKeyword "NOT") (spaced ("NOT".toList :: toks)) true (· = spaced toks) :=
    matchKeyword_gets hword (by decide)
  refine Gets.skip (From.peekWordIs ?_)
  rw [nextWord_behind (behind_drop _), hword.next]
  refine (hmatch _ (behind_drop _)).bind fun _ ht => ?_
  subst ht
  exact h.from.bind fun _ hQ => From.pure hQ

theorem neg_gets {toks : List Token} {k : Nat}
    (h : Gets (parseUnarySteps expr k) (spaced toks) e Q) :
    Gets (parseUnarySteps expr (k + 1)) (spaced (['-'] :: toks)) (.unaryOp .neg e) Q := by
  refine Gets.skip (From.peekWordIs ?_)
  rw [nextWord_behind (behind_drop _), nextWord_none (by decide) rfl]
  refine Gets.from (Gets.skip ?_)
  rw [List.dropWhile_idempotent, spaced_drop rfl]
  refine From.looksAt '-' (From.advance_char rfl ?_)
  exact h.from.bind fun _ hQ => From.pure hQ

theorem operand_gets (hexpr : Inverts style expr m) (h : Fits style m e) (hnext : Next style r n) :
    Gets (parseUnary expr) (spaced (style.operand e ++ r)) e (Behind (spaced r)) :=
  parseUnary_gets fun k _ =>
    unarySteps_gets (operand_opens h.printable r) (primary_gets hexpr h hnext) k

theorem unary_gets (hexpr : Inverts style expr m) {op : UnaryOperator} (h : Fits style m e)
    (hnext : Next style r n) :
    Gets (parseUnary expr) (spaced (style.tokens (.unaryOp op e) ++ r)) (.unaryOp op e)
      (Behind (spaced r)) := by
  rw [Style.tokens_unaryOp, List.cons_append]
  have hprimary := unarySteps_gets (operand_opens h.printable r) (primary_gets hexpr h hnext)
  refine parseUnary_gets fun k hk => ?_
  cases k with
  | zero =>
    have hsign : closing 0 (Style.sign op) = true := by cases op <;> rfl
    exact absurd hk (Nat.not_le.mpr (Nat.zero_lt_of_lt (byteLen_closing hsign)))
  | succ k =>
    cases op with
    | not => exact not_gets (hprimary k)
    | neg => exact neg_gets (hprimary k)

-- ---- Expressions

theorem level_gets (hexpr : Inverts style expr m) (h : Fits style m e) (hnext : Next style r n)
    (hk : k < n) (h8 : k ≤ 8) :
    Gets (level expr k) (spaced (style.operand e ++ r)) e (Behind (spaced r)) := fun t ht s hs =>
  level_hands_on (k := 0) hnext (Nat.zero_le k) hk h8 (operand_gets hexpr h hnext t ht s hs)

theorem binary_gets (hexpr : Inverts style expr m) {left right : Expr F} {op : BinaryOperator}
    (hleft : Fits style m left) (hright : Fits style m right) {operator : P (Option BinaryOperator)}
    {k : Nat} (h8 : k ≤ 8)
    (hk : k < precedence op) (hn : k < n) (hnext : Next style r n)
    (hoperator : ∀ toks, Gets operator (spaced (style.operator op :: toks)) (some op)
      (Behind (spaced toks)))
    (hstop : Gets operator (spaced r) none Q) :
    Gets (leftAssociative (level expr k) operator)
      (spaced (style.tokens (.binaryOp left op right) ++ r)) (.binaryOp left op right) Q := by
  rintro t ht s hs
  rw [Style.tokens_binaryOp, List.append_assoc, List.cons_append] at ht
  have hless : byteLen ((spaced r).dropWhile isWhitespace) <
      byteLen ((spaced (style.operator op :: (style.operand right ++ r))).dropWhile isWhitespace) := by
    refine Nat.lt_of_le_of_lt (byteLen_dropWhile_le _ _) ?_
    refine Nat.lt_of_le_of_lt ?_ (byteLen_closing (operator_closing op))
    rw [spaced_append, byteLen_append]
    exact Nat.le_add_left _ _
  exact leftAssociative_one
    (level_gets hexpr hleft (.operator op (style.operand right ++ r)) hk h8 t ht s hs)
    (hoperator _) (level_gets hexpr hright hnext hn h8) hstop hless

theorem parseOr_gets {k : Nat} (h8 : k ≤ 8) (hnext : Next style r 10)
    (h : Gets (level expr k) text e (Behind (spaced r))) :
    Gets (parseOr expr) text e (· = (spaced r).dropWhile isWhitespace) := fun t ht s hs =>
  or_hands_on hnext (by decide)
    (level_hands_on (j := 8) hnext h8 (by decide) (by decide) (h t ht s hs))

theorem symbol_gets (hexpr : Inverts style expr m) {left right : Expr F} {op : BinaryOperator}
    (hleft : Fits style m left) (hright : Fits style m right)
    {choose : List Char → Option BinaryOperator} {k : Nat} {c : Char} (hk : k < 8)
    (hlevel : precedence op = k + 1) (hchoose : AtLevel choose (k + 1))
    (hstep : level expr (k + 1) = leftAssociative (level expr k) (symbolOperator choose))
    (htok : style.operator op = [c]) (hc : c.utf8Size = 1) (hblank : isWhitespace c = false)
    (hread : ∀ toks, choose (c :: spaced toks) = some op) (hnext : Next style r 10) :
    Gets (parseOr expr) (spaced (style.tokens (.binaryOp left op right) ++ r))
      (.binaryOp left op right) (· = (spaced r).dropWhile isWhitespace) := by
  refine parseOr_gets hk hnext (hstep ▸ ?_)
  refine binary_gets hexpr hleft hright (by omega) (by omega) (by omega) hnext (fun toks => ?_) ?_
  · rw [htok]
    exact symbolOperator_some hc (spaced_drop hblank) (hread toks)
  · exact symbolOperator_none (hchoose.none hnext.closes (by omega))

theorem or_gets (hexpr : Inverts style expr m) {left right : Expr F}
    (hleft : Fits style m left) (hright : Fits style m right) (hnext : Next style r 10) :
    Gets (parseOr expr) (spaced (style.tokens (.binaryOp left .or right) ++ r))
      (.binaryOp left .or right) (· = (spaced r).dropWhile isWhitespace) := by
  have hor : IsWord "OR" := keyword_isWord (n := 9) (by decide)
  refine binary_gets (k := 8) hexpr hleft hright (by decide) (by decide) (by decide) hnext
    (fun toks => ?_) ?_
  · exact (matchKeyword_gets hor (by decide)).bind fun _ ht => From.pure (ht ▸ Behind.refl _)
  · refine (matchKeyword_not (hnext.not_keyword (k := 9) (by decide) (by decide))).bind
      fun _ ht => From.pure ht

theorem and_gets (hexpr : Inverts style expr m) {left right : Expr F}
    (hleft : Fits style m left) (hright : Fits style m right) (hnext : Next style r 10) :
    Gets (parseAnd expr) (spaced (style.tokens (.binaryOp left .and right) ++ r))
      (.binaryOp left .and right) (Behind (spaced r)) := by
  have hand : IsWord "AND" := keyword_isWord (n := 8) (by decide)
  refine binary_gets (k := 7) hexpr hleft hright (by decide) (by decide) (by decide) hnext
    (fun toks t ht => From.peekWordIs ?_) fun t ht => From.peekWordIs ?_
  · have hmatch : Gets (matchKeyword "AND") (spaced ("AND".toList :: toks)) true (· = spaced toks) :=
      matchKeyword_gets hand (by decide)
    rw [nextWord_behind ht, Style.operator, hand.next]
    exact (hmatch t ht).bind fun _ ht => From.pure (ht ▸ Behind.refl _)
  · rw [nextWord_behind ht,
      any_keyword_false (hnext.not_keyword (k := 8) (by decide) (by decide))]
    exact From.pure ht

theorem comparison_gets (hexpr : Inverts style expr m) {left right : Expr F} {op : BinaryOperator}
    (hlevel : precedence op = 6) (hleft : Fits style m left) (hright : Fits style m right)
    (hnext : Next style r 10) :
    Gets (parseComparison expr) (spaced (style.tokens (.binaryOp left op right) ++ r))
      (.binaryOp left op right) (Behind (spaced r)) := by
  have hright : Gets (parseBitor expr) (spaced (style.operand right ++ r)) right (Behind (spaced r)) :=
    level_gets (k := 5) hexpr hright hnext (by decide) (by decide)
  have hmid : Next style (style.operator op :: (style.operand right ++ r)) 6 := by
    rw [← hlevel]
    exact .operator op _
  have hleft : Gets (parseBitor expr)
      (spaced (style.tokens (.binaryOp left op right) ++ r)) left
      (Behind (spaced (style.operator op :: (style.operand right ++ r)))) := by
    rw [Style.tokens_binaryOp, List.append_assoc]
    exact level_gets (k := 5) hexpr hleft hmid (by decide) (by decide)
  refine hleft.bind (Gets.skip (From.peekWordIs ?_))
  rw [nextWord_behind (behind_drop _)]
  by_cases hlike : op = .like
  · subst hlike
    have hword : IsWord "LIKE" := keyword_isWord (n := 6) (by decide)
    have hmatch : Gets (matchKeyword "LIKE") (spaced ("LIKE".toList :: (style.operand right ++ r)))
        true (· = spaced (style.operand right ++ r)) := matchKeyword_gets hword (by decide)
    have hnot : eqIgnoreAsciiCase "LIKE" "NOT" = false := by decide
    have hlike : eqIgnoreAsciiCase "LIKE" "LIKE" = true := by decide
    rw [Style.operator, hword.next, Option.any_some, hnot]
    refine From.peekWordIs ?_
    rw [nextWord_behind (behind_drop _), hword.next, Option.any_some, hlike]
    refine (hmatch _ (behind_drop _)).bind fun _ ht => ?_
    subst ht
    exact hright.from.bind fun _ ht => From.pure ht
  · obtain ⟨hword, hdrop, hread⟩ :=
      @comparison_sign F style _ _ op hlevel hlike (style.operand right ++ r)
    rw [hword]
    refine From.peekWordIs ?_
    rw [nextWord_behind (behind_drop _), hword]
    refine Gets.from (Gets.skip (From.atEnd ?_))
    rw [List.dropWhile_idempotent, hdrop]
    have hne : (style.operator op ++ spaced (style.operand right ++ r)).isEmpty = false := by
      have hclosing : closing (precedence op) (style.operator op) = true := operator_closing op
      cases htok : style.operator op with
      | nil => simp [htok, closing] at hclosing
      | cons c cs => rfl
    rw [hne]
    refine From.rest ?_
    rw [hread]
    exact From.advance rfl (hright.from.bind fun _ ht => From.pure ht)

theorem parseBetween_gets (hexpr : Inverts style expr m) {low high : Expr F} (left : Expr F)
    (negated : Bool) (hlow : Fits style m low) (hhigh : Fits style m high)
    (hnext : Next style r 10) :
    Gets (parseBetween expr left negated)
      (spaced ("BETWEEN".toList :: (style.operand low ++ "AND".toList :: (style.operand high ++ r))))
      (.between left low high negated) (Behind (spaced r)) := by
  have hbetween : IsWord "BETWEEN" := keyword_isWord (n := 7) (by decide)
  have hand : IsWord "AND" := keyword_isWord (n := 8) (by decide)
  refine (matchKeyword_gets hbetween (by decide)).bind fun _ ht => ?_
  subst ht
  have hlow := level_gets (k := 6) hexpr hlow (.operator .and (style.operand high ++ r))
    (by decide) (by decide)
  refine hlow.from.bind ((expectKeyword_gets hand (by decide)).bind fun _ ht => ?_)
  subst ht
  have hhigh := level_gets (k := 6) hexpr hhigh hnext (by decide) (by decide)
  exact hhigh.from.bind fun _ ht => From.pure ht

omit [Float64 F] [ParseFloat F] in
theorem parseIn_gets (hexpr : Inverts style expr m) {list : List (Expr F)} (left : Expr F)
    (negated : Bool) (h : AllPrintable style list) (hlen : (style.items list).length ≤ m)
    (r : List Token) :
    Gets (parseIn expr left negated)
      (spaced ("IN".toList :: ['('] :: (style.items list ++ [')'] :: r)))
      (.inList left list negated) (Behind (spaced r)) := by
  have hin : IsWord "IN" := keyword_isWord (n := 7) (by decide)
  refine (matchKeyword_gets hin (by decide)).bind fun _ ht => ?_
  subst ht
  exact (inList_gets hexpr h hlen r).from.bind fun _ ht => From.pure (ht ▸ Behind.refl _)

theorem range_gets (hexpr : Inverts style expr m) {left e : Expr F} {toks : List Token} {w : String}
    (hleft : Fits style m left) (hw : w = "BETWEEN" ∨ w = "IN") (negated : Bool)
    (hend : Gets (if w = "BETWEEN" then parseBetween expr left negated
      else parseIn expr left negated) (spaced (w.toList :: toks)) e Q) :
    Gets (parseRange expr) (spaced (style.operand left ++
      (Style.negation negated ++ w.toList :: toks))) e Q := by
  have hword : IsWord w := by
    rcases hw with rfl | rfl
    · exact keyword_isWord (n := 7) (by decide)
    · exact keyword_isWord (n := 7) (by decide)
  have hnext : Next style (Style.negation negated ++ w.toList :: toks) 7 := by
    rcases hw with rfl | rfl
    · exact .between negated toks
    · exact .inList negated toks
  have hleft := level_gets (k := 6) hexpr hleft hnext (by decide) (by decide)
  refine hleft.bind (Gets.skip (From.peekWord ?_))
  rw [nextWord_behind (behind_drop _)]
  cases negated with
  | false =>
    change From _ ((spaced (w.toList :: toks)).dropWhile isWhitespace) e Q
    rw [show nextWord (spaced (Style.negation false ++ w.toList :: toks)) = _ from hword.next]
    rcases hw with rfl | rfl
    · exact hend _ (behind_drop _)
    · exact hend _ (behind_drop _)
  | true =>
    have hnot : IsWord "NOT" := keyword_isWord (n := 7) (by decide)
    have hmatch : Gets (matchKeyword "NOT") (spaced ("NOT".toList :: w.toList :: toks)) true
        (· = spaced (w.toList :: toks)) := matchKeyword_gets hnot (by decide)
    change From _ ((spaced ("NOT".toList :: w.toList :: toks)).dropWhile isWhitespace) e Q
    rw [show nextWord (spaced (Style.negation true ++ w.toList :: toks)) = _ from hnot.next]
    refine From.position fun s hs => (hmatch _ (behind_drop _) s hs).bind fun _ ht => ?_
    subst ht
    refine From.peekWord ?_
    rw [hword.next]
    rcases hw with rfl | rfl
    · exact hend.from
    · exact hend.from

theorem isNull_gets (hexpr : Inverts style expr m) (negated : Bool) (h : Fits style m e)
    (r : List Token) :
    Gets (parseRange expr) (spaced (style.tokens (.isNull e negated) ++ r)) (.isNull e negated)
      (Behind (spaced r)) := by
  have his : IsWord "IS" := keyword_isWord (n := 7) (by decide)
  have hnot : IsWord "NOT" := keyword_isWord (n := 7) (by decide)
  have hnull : IsWord "NULL" := by simp [IsWord, isWordChar_ascii]
  have hoperand := level_gets (k := 6) hexpr h
    (.is (Style.negation negated ++ ["NULL".toList] ++ r)) (by decide) (by decide)
  rw [Style.tokens_isNull, List.append_assoc, List.cons_append]
  refine hoperand.bind (Gets.skip (From.peekWord ?_))
  rw [nextWord_behind (behind_drop _), his.next]
  have hmatch : Gets (matchKeyword "IS")
      (spaced ("IS".toList :: (Style.negation negated ++ ["NULL".toList] ++ r))) true
      (· = spaced (Style.negation negated ++ ["NULL".toList] ++ r)) :=
    matchKeyword_gets his (by decide)
  refine (hmatch _ (behind_drop _)).bind fun _ ht => ?_
  subst ht
  have hend : From (expectKeyword "NULL" >>= fun _ => Pure.pure (Expr.isNull e negated))
      (spaced ("NULL".toList :: r)) (.isNull e negated) (Behind (spaced r)) :=
    (expectKeyword_gets hnull (by decide)).from.bind fun _ ht => From.pure (ht ▸ Behind.refl _)
  cases negated with
  | false =>
    have hoptional : From (optionalKeyword "NOT") (spaced ("NULL".toList :: r)) false
        (· = spaced ("NULL".toList :: r)) := by
      refine From.peekWordIs ?_
      rw [hnull.next]
      exact From.pure rfl
    exact hoptional.step hend
  | true =>
    have hoptional : From (optionalKeyword "NOT") (spaced ("NOT".toList :: "NULL".toList :: r)) true
        (· = spaced ("NULL".toList :: r)) := by
      refine From.peekWordIs ?_
      rw [hnot.next]
      exact (matchKeyword_gets hnot (by decide)).from.bind fun _ ht => From.pure ht
    exact hoptional.step hend

theorem binaryOp_gets (hexpr : Inverts style expr m) {left right : Expr F} {op : BinaryOperator}
    (hleft : Fits style m left) (hright : Fits style m right) (hnext : Next style r 10) :
    Gets (parseOr expr) (spaced (style.tokens (.binaryOp left op right) ++ r))
      (.binaryOp left op right) (· = (spaced r).dropWhile isWhitespace) := by
  cases op with
  | or => exact or_gets hexpr hleft hright hnext
  | and => exact parseOr_gets (k := 8) (by decide) hnext (and_gets hexpr hleft hright hnext)
  | mul | div | mod =>
    exact symbol_gets (k := 0) hexpr hleft hright (by decide) rfl multiplicative_atLevel rfl rfl rfl
      rfl (fun _ => rfl) hnext
  | add | sub =>
    exact symbol_gets (k := 1) hexpr hleft hright (by decide) rfl additive_atLevel rfl rfl rfl rfl
      (fun _ => rfl) hnext
  | bitAnd =>
    refine symbol_gets (k := 2) hexpr hleft hright (by decide) rfl bitand_atLevel rfl rfl rfl rfl
      (fun toks => ?_) hnext
    cases toks <;> rfl
  | bitXor =>
    exact symbol_gets (k := 3) hexpr hleft hright (by decide) rfl bitxor_atLevel rfl rfl rfl rfl
      (fun _ => rfl) hnext
  | bitOr =>
    refine symbol_gets (k := 4) hexpr hleft hright (by decide) rfl bitor_atLevel rfl rfl rfl rfl
      (fun toks => ?_) hnext
    cases toks <;> rfl
  | _ =>
    exact parseOr_gets (k := 6) (by decide) hnext (comparison_gets hexpr rfl hleft hright hnext)

theorem parseOr_inverts (hexpr : Inverts style expr m) (h : Printable style e) (wrapped : Bool)
    (hlen : (Style.bracket wrapped (style.tokens e)).length ≤ m + 1) (hnext : Next style r 10) :
    Gets (parseOr expr) (spaced (Style.bracket wrapped (style.tokens e) ++ r)) e
      (· = (spaced r).dropWhile isWhitespace) := by
  have hprimary : ∀ {text}, Opens (text.dropWhile isWhitespace) →
      Gets (parsePrimary expr) text e (Behind (spaced r)) →
      Gets (parseOr expr) text e (· = (spaced r).dropWhile isWhitespace) := fun hopens h =>
    parseOr_gets (k := 0) (by decide) hnext (parseUnary_gets fun k _ => unarySteps_gets hopens h k)
  cases wrapped with
  | true => exact hprimary (paren_opens _) (wrapped_gets hexpr h hlen hnext)
  | false =>
    change (style.tokens e).length ≤ m + 1 at hlen
    change Gets _ (spaced (style.tokens e ++ r)) e _
    have hfits : ∀ e', Printable style e' → (style.operand e').length < (style.tokens e).length →
        Fits style m e' := fun e' h hlt => ⟨h, Nat.le_of_lt_succ (Nat.lt_of_lt_of_le hlt hlen)⟩
    cases e with
    | identifier name => exact hprimary (atom_opens h rfl r) (atom_gets hexpr h rfl hlen hnext)
    | literal value => exact hprimary (atom_opens h rfl r) (atom_gets hexpr h rfl hlen hnext)
    | call name args => exact hprimary (atom_opens h rfl r) (atom_gets hexpr h rfl hlen hnext)
    | unaryOp op e =>
      have he : Fits style m e := hfits e h (by rw [Style.tokens_unaryOp]; simp)
      exact parseOr_gets (k := 0) (by decide) hnext (unary_gets hexpr he hnext)
    | binaryOp left op right =>
      simp only [Printable] at h
      rw [Style.tokens_binaryOp] at hfits
      exact binaryOp_gets hexpr (hfits left h.1 (by simp)) (hfits right h.2 (by simp; omega)) hnext
    | between e low high negated =>
      simp only [Printable] at h
      rw [Style.tokens_between] at hfits ⊢
      have hlow := hfits low h.2.1 (by simp; omega)
      have hhigh := hfits high h.2.2 (by simp; omega)
      have hend := parseBetween_gets hexpr e negated hlow hhigh hnext
      have hrange := range_gets hexpr (hfits e h.1 (by simp)) (.inl rfl) negated hend
      refine parseOr_gets (k := 7) (by decide) hnext ?_
      change Gets (parseRange expr) _ _ _
      simpa only [List.append_assoc, List.cons_append] using hrange
    | inList e list negated =>
      simp only [Printable] at h
      rw [Style.tokens_inList] at hfits hlen ⊢
      have hitems : (style.items list).length ≤ m := by
        simp at hlen
        omega
      have hend := parseIn_gets hexpr e negated h.2 hitems r
      have hrange := range_gets hexpr (hfits e h.1 (by simp)) (.inr rfl) negated hend
      refine parseOr_gets (k := 7) (by decide) hnext ?_
      change Gets (parseRange expr) _ _ _
      simpa only [List.append_assoc, List.cons_append, List.nil_append] using hrange
    | isNull e negated =>
      have he : Fits style m e := hfits e h (by rw [Style.tokens_isNull]; simp)
      exact parseOr_gets (k := 7) (by decide) hnext (isNull_gets hexpr negated he r)
    | _ => cases h

theorem parseExprSteps_inverts (m : Nat) : Inverts style (parseExprSteps m : P (Expr F)) m := by
  induction m with
  | zero =>
    intro e wrapped h hlen
    have hnil := List.eq_nil_of_length_eq_zero (Nat.le_zero.mp hlen)
    cases wrapped with
    | true => cases hnil
    | false => exact absurd hnil (tokens_ne_nil h)
  | succ m ih =>
    intro e wrapped h hlen r hnext t ht s hs
    obtain ⟨rest, rfl, hend⟩ := parseOr_inverts ih h wrapped hlen hnext t ht s hs
    exact ⟨_, behind_drop _, hend⟩

/-- The parser gets back what has been printed, and it consumes the whole text. -/
theorem parseExpr_print (style : Style F) (e : Expr F) (h : Printable style e) :
    ∃ s, parse parseExpr (style.print e) = (.ok e, s) ∧ s.pos = byteLen (style.print e) := by
  have hinverts := parseOr_inverts (parseExprSteps_inverts (byteLen (style.print e))) h false
    (length_tokens_le style e) .done
  rw [List.append_nil] at hinverts
  obtain ⟨rest, rfl, s, hgo, -, hrest⟩ := hinverts _ (print_behind style e)
    (Scanner.new (style.print e)) (RestAt.start _)
  exact ⟨s, hgo, hrest.length.symm⟩

end

end

theorem asciiWords_lawful : @LawfulUnicode asciiWords := by
  refine @LawfulUnicode.mk asciiWords (fun _ _ => rfl) fun c hblank => ?_
  change c.isAlphanum = false
  have hval : c.toNat = c.val.toNat := rfl
  simp only [isWhitespace, Bool.or_eq_true, Bool.and_eq_true, decide_eq_true_eq, beq_iff_eq] at hblank
  delta Char.isAlphanum Char.isAlpha Char.isUpper Char.isLower Char.isDigit
  simp [UInt32.le_iff_toNat_le]
  omega

def plainStyle : Style F where
  doubleQuotes _ := false
  doubleEquals := false
  angleBrackets := false
  wraps _ := false

def sampleExpr : Expr ℚ :=
  .binaryOp (.unaryOp .not (.binaryOp (.identifier "a") .eq (.literal (.number (.int 1))))) .and
    (.inList (.call "f" [.identifier "b", .literal (.string "x")]) [.literal (.number (.int 2))] true)

example : plainStyle.print sampleExpr =
    "( NOT ( a = 1 ) ) AND ( f ( b , 'x' ) NOT IN ( 2 ) )".toList := by decide

theorem sampleExpr_printable : @Printable ℚ asciiWords plainStyle sampleExpr := by
  have hname : ∀ name ∈ ["a", "b", "f"], @IsIdentifier asciiWords name := by
    rintro name hname
    simp only [List.mem_cons, List.not_mem_nil, or_false] at hname
    rcases hname with rfl | rfl | rfl <;>
      exact @IsIdentifier.mk asciiWords _ (by decide) (forall_of_all rfl) (by simp [Char.isDigit])
        (by decide)
  have hstring : plainStyle.quote (F := ℚ) "x" ∉ "x".toList := by decide
  exact ⟨⟨hname "a" (by decide), by decide, by decide⟩,
    ⟨hname "f" (by decide), hname "b" (by decide), hstring, trivial⟩,
    ⟨by decide, by decide⟩, trivial⟩

theorem parseExpr_print_sample : ∃ s,
    parse (@parseExpr ℚ asciiWords _ wholeNumbers) (plainStyle.print sampleExpr) =
        (.ok sampleExpr, s) ∧ s.pos = byteLen (plainStyle.print sampleExpr) :=
  @parseExpr_print ℚ asciiWords _ wholeNumbers asciiWords_lawful plainStyle sampleExpr
    sampleExpr_printable

/-- A name of digits is read as a number. -/
theorem digits_are_no_identifier :
    (∀ c ∈ "1".toList, @isWordChar asciiWords c = true) ∧
      (∀ kw ∈ literalWords, eqIgnoreAsciiCase "1" kw = false) ∧
        (parse (@parseExpr ℚ asciiWords _ wholeNumbers)
          (plainStyle.print (.identifier "1" : Expr ℚ))).1 ≠ .ok (.identifier "1") := by
  refine ⟨forall_of_all rfl, by decide, fun h => ?_⟩
  have hread : (parse (@parseExpr ℚ asciiWords _ wholeNumbers)
      (plainStyle.print (.identifier "1" : Expr ℚ))).1 = .ok (.literal (.number (.int 1))) := rfl
  cases hread.symm.trans h

end Rekuiper.Parser
