import Rekuiper.Connectors.TemplateEval
import Rekuiper.Connectors.TemplateFunctions
import Rekuiper.Connectors.TemplateGrammar
import Rekuiper.Lib.Decimal

/-!
# Literals and fields of data templates

What a template of one action renders. A minus sign behind the opening braces is taken for a trim
marker, also where it begins a number. A value of JSON comes back from the values of templates if its
integers are in `i64`; a larger one wraps.
-/

namespace Rekuiper.Connectors.DataTemplate

open Lib

section

variable {F : Type} {cls : CharClasses} {env : TemplateEnv F}

-- ---- Characters

theorem isWordChar_ascii {c : Char} (h : c.toNat < 128) :
    cls.isWordChar c = (c.isAlphanum || c == '_') := by
  rw [CharClasses.isWordChar, cls.alphanumeric_ascii c h]

def PlainChar (c : Char) : Prop := c ≠ '"' ∧ c ≠ '\x60' ∧ c ≠ '-' ∧ c ≠ '}'

theorem plainChar_digit {c : Char} (h : c.isDigit) : PlainChar c := by
  refine ⟨?_, ?_, ?_, ?_⟩ <;> (rintro rfl; cases h)

theorem plainChar_word {c : Char} (h : cls.isWordChar c) : PlainChar c := by
  refine ⟨?_, ?_, ?_, ?_⟩ <;>
    (rintro rfl; rw [isWordChar_ascii (by decide)] at h; cases h)

theorem dot_not_word : cls.isWordChar '.' = false := by
  rw [isWordChar_ascii (by decide)]
  rfl

-- ---- Where an action ends

theorem scanAction_outside {c : Char} (hminus : c ≠ '-') (hbrace : c ≠ '}') (text : List Char) :
    scanAction .outside (c :: text) = (scanAction (Quoting.outside.next c) text).map fun r =>
      ((c :: r.1.1, r.1.2), r.2) := by
  rw [scanAction]
  · exact fun _ _ hc => absurd hc hminus
  · exact fun _ _ hc => absurd hc hbrace

theorem scanAction_plain {content : List Char} (h : ∀ c ∈ content, PlainChar c) (rest : List Char) :
    scanAction .outside (content ++ '}' :: '}' :: rest) = some ((content, false), rest) := by
  induction content with
  | nil => rfl
  | cons c content ih =>
    obtain ⟨⟨hquote, hback, hminus, hbrace⟩, hcontent⟩ := List.forall_mem_cons.mp h
    rw [List.cons_append, scanAction_outside hminus hbrace]
    simp [Quoting.next, hquote, hback, ih hcontent]

def escapeChar : Char → List Char
  | '"' => ['\\', '"']
  | '\\' => ['\\', '\\']
  | '\n' => ['\\', 'n']
  | '\t' => ['\\', 't']
  | '\r' => ['\\', 'r']
  | c => [c]

def quoteLiteral (s : String) : List Char := '"' :: (s.toList.flatMap escapeChar ++ ['"'])

theorem escapeChar_cases (c : Char) :
    (∃ d, escapeChar c = ['\\', d] ∧ unescape d = [c]) ∨
      c ≠ '"' ∧ c ≠ '\\' ∧ escapeChar c = [c] := by
  unfold escapeChar
  split
  · exact .inl ⟨'"', rfl, rfl⟩
  · exact .inl ⟨'\\', rfl, rfl⟩
  · exact .inl ⟨'n', rfl, rfl⟩
  · exact .inl ⟨'t', rfl, rfl⟩
  · exact .inl ⟨'r', rfl, rfl⟩
  · next hquote hback _ _ _ => exact .inr ⟨hquote, hback, rfl⟩

theorem scanAction_string (s rest : List Char) :
    scanAction (.inside '"') (s.flatMap escapeChar ++ '"' :: rest) =
      (scanAction .outside rest).map fun r => ((s.flatMap escapeChar ++ '"' :: r.1.1, r.1.2), r.2) := by
  induction s with
  | nil => rfl
  | cons c s ih =>
    rw [List.flatMap_cons, List.append_assoc]
    rcases escapeChar_cases c with ⟨d, hescape, -⟩ | ⟨hquote, hback, hescape⟩
    · simp [hescape, scanAction, Quoting.next, ih, Function.comp_def]
    · simp [hescape, scanAction, Quoting.next, hquote, hback, ih, Function.comp_def]

theorem readString_other {c : Char} (hquote : c ≠ '"') (hback : c ≠ '\\') (text : List Char) :
    readString '"' (c :: text) = (readString '"' text).map fun r => (c :: r.1, r.2) := by
  cases text <;> simp [readString, hquote, hback]

theorem readString_escape (s rest : List Char) :
    readString '"' (s.flatMap escapeChar ++ '"' :: rest) = some (s, rest) := by
  induction s with
  | nil => cases rest <;> rfl
  | cons c s ih =>
    rw [List.flatMap_cons, List.append_assoc]
    rcases escapeChar_cases c with ⟨d, hescape, hunescape⟩ | ⟨hquote, hback, hescape⟩
    · simp [hescape, readString, ih, hunescape]
    · simp [hescape, readString_other hquote hback, ih]

theorem scanAction_literal (s : String) (rest : List Char) :
    scanAction .outside (quoteLiteral s ++ '}' :: '}' :: rest) =
      some ((quoteLiteral s, false), rest) := by
  have hend : scanAction .outside ('}' :: '}' :: rest) = some (([], false), rest) := rfl
  simp only [quoteLiteral, List.cons_append, List.append_assoc, List.nil_append]
  rw [scanAction_outside (by decide) (by decide)]
  change ((scanAction (.inside '"') _).map _) = _
  rw [scanAction_string, hend]
  rfl

-- ---- Tokens

theorem tokenizeAction_token {c : Char} {text : List Char} {token : Token F}
    (h : readToken cls env c text = .ok (some token, [])) :
    tokenizeAction cls env (c :: text) = .ok [token] := by
  cases text <;> simp [tokenizeAction, tokenizeFrom, h, bind, Except.bind, pure, Except.pure]

theorem spanNumber_digits {digits : List Char} (h : ∀ c ∈ digits, c.isDigit) :
    spanNumber false digits = ((digits, false), []) := by
  induction digits with
  | nil => rfl
  | cons c digits ih =>
    obtain ⟨hc, hdigits⟩ := List.forall_mem_cons.mp h
    simp [spanNumber, hc, ih hdigits]

theorem readToken_number {c : Char} (hc : c.isDigit) (text : List Char) :
    readToken cls env c text = (readNumber env c text).elim
      (fail ("unexpected character '" ++ String.singleton c ++ "'")) fun r => .ok (some r.1, r.2) := by
  have hne : ∀ d : Char, d.isDigit = false → c ≠ d := by
    rintro d hd rfl
    exact absurd hc (by simp [hd])
  simp only [readToken, isWhitespace_of_isDigit hc, beginsNumber, hc, hne '|' rfl, hne ',' rfl,
    hne '(' rfl, hne ')' rfl, hne ':' rfl, hne '=' rfl, hne '"' rfl, hne '\x60' rfl, false_and,
    or_false, Bool.true_or, Bool.false_eq_true, if_false, if_true]
  cases readNumber env c text <;> rfl

theorem readNumber_digits {c : Char} {digits : List Char} (h : ∀ d ∈ c :: digits, d.isDigit) :
    readNumber env c digits = (parseI64 (String.ofList (c :: digits))).map fun n =>
      (.intLit (Int64.ofInt n), []) := by
  have hminus : c ≠ '-' := by
    rintro rfl
    exact absurd (h '-' List.mem_cons_self) (by decide)
  simp [readNumber, hminus, spanNumber_digits h]

theorem tokenizeAction_digits {digits : List Char} (hne : digits ≠ [])
    (h : ∀ c ∈ digits, c.isDigit) : ∃ halt, tokenizeAction cls env digits =
      (parseI64 (String.ofList digits)).elim (.error halt) fun n =>
        .ok [.intLit (Int64.ofInt n)] := by
  obtain ⟨c, digits, rfl⟩ := List.exists_cons_of_ne_nil hne
  have hread := @readToken_number F cls env c (h c List.mem_cons_self) digits
  rw [readNumber_digits h] at hread
  refine ⟨.error ("template: sink:1: " ++ ("unexpected character '" ++ String.singleton c ++ "'")),
    ?_⟩
  cases hparse : parseI64 (String.ofList (c :: digits)) with
  | none =>
    rw [hparse] at hread
    rw [tokenizeAction, List.length_cons, tokenizeFrom, hread]
    rfl
  | some n =>
    rw [hparse] at hread
    exact tokenizeAction_token hread

theorem parseI64_digits (k : Nat) : parseI64 (String.ofList (Nat.toDigits 10 k)) =
    if (k : Int) ≤ maxI64 then some (k : Int) else none := by
  have hk : minI64 ≤ (k : Int) := le_trans (by decide) (Int.natCast_nonneg k)
  have hparse := (parseInt_digits (fun c => isDigit_of_mem) k).mpr ⟨k, parseDigits_toDigits k, rfl⟩
  by_cases hmax : (k : Int) ≤ maxI64 <;> simp [parseI64, hparse, Option.filter, hk, hmax]

theorem tokenizeAction_nat (cls : CharClasses) (env : TemplateEnv F) (k : Nat) :
    ∃ halt, tokenizeAction cls env (Nat.toDigits 10 k) =
      if (k : Int) ≤ maxI64 then .ok [.intLit (Int64.ofInt k)] else .error halt := by
  obtain ⟨halt, htokens⟩ := @tokenizeAction_digits F cls env (Nat.toDigits 10 k)
    Nat.toDigits_ne_nil fun c => isDigit_of_mem
  refine ⟨halt, htokens.trans ?_⟩
  rw [parseI64_digits]
  split <;> rfl

theorem readToken_literal (s : String) :
    readToken cls env '"' (s.toList.flatMap escapeChar ++ ['"']) =
      .ok (some (.stringLit s), []) := by
  have hblank : isWhitespace '"' = false := by decide
  simp [readToken, hblank, readString_escape]

theorem isPathChar_of_isWordChar {c : Char} (h : cls.isWordChar c) : cls.isPathChar c := by
  simp [CharClasses.isPathChar, h]

theorem splitDots_word {word : List Char} (h : ∀ c ∈ word, cls.isWordChar c) :
    splitDots word = [String.ofList word] := by
  have hdot : ∀ c ∈ word, (c == '.') = false := by
    rintro c hc
    refine beq_eq_false_iff_ne.mpr ?_
    rintro rfl
    exact absurd (h '.' hc) (by simp [dot_not_word])
  simp [splitDots, List.splitOn, List.splitOnP_eq_singleton hdot]

theorem readToken_field {word : List Char} (hne : word ≠ []) (h : ∀ c ∈ word, cls.isWordChar c) :
    readToken cls env '.' word = .ok (some (.dotField [String.ofList word]), []) := by
  obtain ⟨c, word, rfl⟩ := List.exists_cons_of_ne_nil hne
  have hpath : ∀ d ∈ c :: word, cls.isPathChar d := fun d hd => isPathChar_of_isWordChar (h d hd)
  have hblank : isWhitespace '.' = false := by decide
  have hnumber : beginsNumber '.' (c :: word) = false := rfl
  have hhead : (c :: word).head?.any cls.isWordChar = true := h c List.mem_cons_self
  simp only [readToken, hblank, hnumber, hhead, List.takeWhile_eq_self_iff.mpr hpath,
    List.dropWhile_eq_nil_iff.mpr hpath, splitDots_word h]
  rfl

theorem tokenizeAction_json :
    tokenizeAction cls env ['j', 's', 'o', 'n', ' ', '.'] = .ok [.ident "json", .dot] := by
  have hletters : ∀ c ∈ ['s', 'o', 'n'], cls.isWordChar c := by simp [isWordChar_ascii]
  have hend : cls.isWordChar ' ' = false := isWordChar_ascii (by decide)
  have hfirst : cls.isAlphabetic 'j' = true := cls.alphabetic_ascii 'j' (by decide)
  have hsolid : isWhitespace 'j' = false := by decide
  have hjson : readToken cls env 'j' ['s', 'o', 'n', ' ', '.'] =
      .ok (some (.ident "json"), [' ', '.']) := by
    simp [readToken, beginsNumber, hletters, hend, hfirst, hsolid, wordToken]
  have hblank : readToken cls env ' ' ['.'] = .ok (none, ['.']) := rfl
  have hdot : readToken cls env '.' [] = .ok (some .dot, []) := rfl
  simp [tokenizeAction, tokenizeFrom, hjson, hblank, hdot, bind, Except.bind, pure, Except.pure]

-- ---- Templates of one action

def actionTemplate (content : List Char) : String :=
  String.ofList ('{' :: '{' :: (content ++ ['}', '}']))

theorem scanFrom_nil (n : Nat) : scanFrom cls env n [] = .ok [] := by
  cases n <;> rfl

theorem trimMarker_plain {text : List Char} (h : text.head? ≠ some '-') :
    trimMarker text = (false, text) := by
  unfold trimMarker
  split
  · exact absurd rfl h
  · rfl

theorem scanRawItems_action {start content : List Char} {trimPrev : Bool}
    (hmarker : trimMarker (start ++ ['}', '}']) = (trimPrev, content ++ ['}', '}']))
    (hscan : scanAction .outside (content ++ ['}', '}']) = some ((content, false), [])) :
    scanRawItems cls env (actionTemplate start) =
      (tokenizeAction cls env content).map actionItem := by
  have hopen : findOpen ('{' :: '{' :: (start ++ ['}', '}'])) = some ([], start ++ ['}', '}']) := rfl
  have htext : textItem (F := F) (if trimPrev then trimEnd [] else []) = [] := by
    cases trimPrev <;> rfl
  rw [scanRawItems, actionTemplate, String.toList_ofList, List.length_cons, scanFrom, hopen]
  simp only [hmarker, hscan, htext]
  cases tokenizeAction cls env content <;>
    simp [scanFrom_nil, bind, Except.bind, Except.map, pure, Except.pure]

theorem parseItems_action {tokens : List (Token F)} {pipeline : Pipeline F}
    (h : IsAction tokens (.pipeline none pipeline)) :
    (parseItems [.action tokens]).1 = .ok [.action none pipeline] := by
  have hblock : IsBlock [.action tokens] [.action none pipeline] := .pipeline h .nil
  have hdrop : [RawItem.action tokens].drop 0 = [.action tokens] ++ [] := rfl
  have hparse : parseBlock [.action tokens] 2 0 false = (.ok [.action none pipeline], 1) :=
    hblock.parse hdrop rfl (Nat.lt_succ_self _)
  exact congrArg Prod.fst hparse

theorem isAction_term {tokens : List (Token F)} {term : Term F} (h : IsTerm tokens term)
    (hkeyword : ¬Keyword tokens) : IsAction tokens (.pipeline none [[term]]) := by
  have hcommands : IsCommands [] (tokens ++ []) [[term]] :=
    .term h (.last (List.cons_ne_nil _ _))
  rw [List.append_nil] at hcommands
  exact .pipeline hkeyword ⟨hcommands, List.cons_ne_nil _ _⟩

variable [Float64 F] {start content : List Char} {trimPrev : Bool}

theorem applyDataTemplateValue_action {tokens : List (Token F)} {pipeline : Pipeline F}
    (hmarker : trimMarker (start ++ ['}', '}']) = (trimPrev, content ++ ['}', '}']))
    (hscan : scanAction .outside (content ++ ['}', '}']) = some ((content, false), []))
    (htokens : tokenizeAction cls env content = .ok tokens) (hne : tokens ≠ [])
    (h : IsAction tokens (.pipeline none pipeline)) (data : Value F) :
    applyDataTemplateValue cls env (actionTemplate start) data =
      (evalPipeline env ⟨.fromJson data, .fromJson data, ∅⟩ none pipeline).map (·.render env) := by
  have hitem : actionItem tokens = [.action tokens] := by
    cases tokens with
    | nil => exact absurd rfl hne
    | cons token tokens => rfl
  have hparse : parseTemplate cls env (actionTemplate start) = .ok [.action none pipeline] := by
    rw [parseTemplate, scanRawItems_action hmarker hscan, htokens, Except.map, hitem]
    exact parseItems_action h
  rw [applyDataTemplateValue, hparse]
  simp only [evalNodes, evalNode]
  cases evalPipeline env ⟨.fromJson data, .fromJson data, ∅⟩ none pipeline <;>
    simp [bind, Except.bind, Except.map, pure, Except.pure]

theorem applyDataTemplateValue_unread {halt : Halt}
    (hmarker : trimMarker (start ++ ['}', '}']) = (trimPrev, content ++ ['}', '}']))
    (hscan : scanAction .outside (content ++ ['}', '}']) = some ((content, false), []))
    (htokens : tokenizeAction cls env content = .error halt) (data : Value F) :
    applyDataTemplateValue cls env (actionTemplate start) data = .ok (actionTemplate start) := by
  rw [applyDataTemplateValue, parseTemplate, scanRawItems_action hmarker hscan, htokens]
  rfl

-- ---- Literals and fields

theorem applyDataTemplateValue_term {token : Token F} {term : Term F} {value : TemplateValue F}
    (hmarker : trimMarker (start ++ ['}', '}']) = (trimPrev, content ++ ['}', '}']))
    (hscan : scanAction .outside (content ++ ['}', '}']) = some ((content, false), []))
    (htokens : tokenizeAction cls env content = .ok [token]) (hident : ∀ name, token ≠ .ident name)
    (hterm : token.term = some term) {data : Value F}
    (hvalue : evalTerm env ⟨.fromJson data, .fromJson data, ∅⟩ term = .ok value) :
    applyDataTemplateValue cls env (actionTemplate start) data = .ok (value.render env) := by
  have hkeyword : ¬Keyword [token] := by
    rintro ⟨id, rest, heq, -⟩
    exact hident id (List.cons.inj heq).1
  rw [applyDataTemplateValue_action hmarker hscan htokens (List.cons_ne_nil _ _)
    (isAction_term (.token hterm) hkeyword)]
  simp [evalPipeline, evalCommand, hvalue, bind, Except.bind, Except.map]

theorem literal_renders (s : String) (data : Value F) :
    applyDataTemplateValue cls env (actionTemplate (quoteLiteral s)) data = .ok s := by
  have hvalue : evalTerm env ⟨.fromJson data, .fromJson data, ∅⟩ (.stringLit s) =
      .ok (.string s) := rfl
  exact applyDataTemplateValue_term rfl (scanAction_literal s [])
    (tokenizeAction_token (readToken_literal s)) (fun _ h => nomatch h) rfl hvalue

theorem scanAction_digits {digits : List Char} (h : ∀ c ∈ digits, c.isDigit) :
    scanAction .outside (digits ++ ['}', '}']) = some ((digits, false), []) :=
  scanAction_plain (fun c hc => plainChar_digit (h c hc)) []

theorem digits_render {k : Nat} (hk : (k : Int) ≤ maxI64)
    (hmarker : trimMarker (start ++ ['}', '}']) = (trimPrev, Nat.toDigits 10 k ++ ['}', '}']))
    (data : Value F) :
    applyDataTemplateValue cls env (actionTemplate start) data = .ok (toString (k : Int)) := by
  obtain ⟨halt, htokens⟩ := tokenizeAction_nat cls env k
  rw [if_pos hk] at htokens
  have hexact : (Int64.ofInt k).toInt = k :=
    toInt_ofInt_of_inI64 ⟨le_trans (by decide) (Int.natCast_nonneg k), hk⟩
  have hvalue : evalTerm env ⟨.fromJson data, .fromJson data, ∅⟩ (.intLit (Int64.ofInt k)) =
      .ok (.int (Int64.ofInt k)) := rfl
  have hrender := applyDataTemplateValue_term hmarker (scanAction_digits fun c => isDigit_of_mem)
    htokens (fun _ h => nomatch h) rfl hvalue
  rwa [TemplateValue.render, hexact] at hrender

theorem integer_renders {n : Int64} (hn : 0 ≤ n.toInt) (data : Value F) :
    applyDataTemplateValue cls env (actionTemplate (toString n.toInt).toList) data =
      .ok (toString n.toInt) := by
  obtain ⟨k, hk⟩ := Int.eq_ofNat_of_zero_le hn
  have htext : (toString n.toInt).toList = Nat.toDigits 10 k := by
    rw [toList_toString, if_pos hn, hk, Int.toNat_natCast]
  have hfirst : (Nat.toDigits 10 k ++ ['}', '}']).head? ≠ some '-' := by
    obtain ⟨c, digits, hdigits⟩ := List.exists_cons_of_ne_nil (@Nat.toDigits_ne_nil k 10)
    rw [hdigits]
    rintro hc
    obtain rfl := Option.some.inj hc
    exact absurd (isDigit_of_mem (hdigits ▸ List.mem_cons_self)) (by decide)
  rw [htext, hk]
  exact digits_render (hk ▸ (inI64_toInt n).2) (trimMarker_plain hfirst) data

theorem negative_renders {n : Int64} (hn : n.toInt < 0) (data : Value F) :
    applyDataTemplateValue cls env (actionTemplate (toString n.toInt).toList) data ≠
      .ok (toString n.toInt) := by
  obtain ⟨k, hk⟩ := Int.eq_ofNat_of_zero_le (Int.neg_nonneg.mpr hn.le)
  have htext : (toString n.toInt).toList = '-' :: Nat.toDigits 10 k := by
    rw [toList_toString, if_neg (not_le.mpr hn), hk, Int.toNat_natCast]
  have hmarker : trimMarker ((toString n.toInt).toList ++ ['}', '}']) =
      (true, Nat.toDigits 10 k ++ ['}', '}']) := by
    rw [htext]
    rfl
  by_cases hmax : (k : Int) ≤ maxI64
  · rw [digits_render hmax hmarker]
    rintro heq
    have hsame := parseInt_toString (k : Int)
    rw [Except.ok.inj heq, parseInt_toString] at hsame
    have := Option.some.inj hsame
    omega
  · obtain ⟨halt, htokens⟩ := tokenizeAction_nat cls env k
    rw [if_neg hmax] at htokens
    rw [applyDataTemplateValue_unread hmarker (scanAction_digits fun c => isDigit_of_mem) htokens]
    rintro heq
    have hchars := congrArg String.toList (Except.ok.inj heq)
    rw [actionTemplate, String.toList_ofList, htext] at hchars
    exact absurd (List.cons.inj hchars).1 (by decide)

theorem json_renders (data : Value F) :
    applyDataTemplateValue cls env (actionTemplate ['j', 's', 'o', 'n', ' ', '.']) data =
      .ok (env.toText (TemplateValue.fromJson data).toJson) := by
  have hplain : ∀ c ∈ ['j', 's', 'o', 'n', ' ', '.'], PlainChar c := by
    simp [PlainChar]
  have hcommands : IsCommands (F := F) [] ([.ident "json"] ++ ([.dot] ++ []))
      [[.ident "json", .fieldPath .dot []]] :=
    .term (.token rfl) (.term (.token rfl) (.last (List.cons_ne_nil _ _)))
  have hkeyword : ¬Keyword (F := F) [.ident "json", .dot] := by
    rintro ⟨id, rest, heq, hid⟩
    obtain rfl := Token.ident.inj (List.cons.inj heq).1
    exact absurd hid (by decide)
  rw [applyDataTemplateValue_action rfl (scanAction_plain hplain []) tokenizeAction_json
    (List.cons_ne_nil _ _) (.pipeline hkeyword ⟨hcommands, List.cons_ne_nil _ _⟩)]
  rfl

def FieldName (cls : CharClasses) (f : String) : Prop :=
  f.toList ≠ [] ∧ ∀ c ∈ f.toList, cls.isWordChar c

theorem field_renders {f : String} (hf : FieldName cls f) (data : Value F) :
    applyDataTemplateValue cls env (actionTemplate ('.' :: f.toList)) data =
      .ok ((fieldPath (TemplateValue.fromJson data) [f]).render env) := by
  obtain ⟨hne, hword⟩ := hf
  have hplain : ∀ c ∈ '.' :: f.toList, PlainChar c := by
    refine List.forall_mem_cons.mpr ⟨by simp [PlainChar], fun c hc => plainChar_word (hword c hc)⟩
  have htokens : tokenizeAction cls env ('.' :: f.toList) = .ok [.dotField [f]] := by
    simpa only [String.ofList_toList] using tokenizeAction_token (readToken_field hne hword)
  exact applyDataTemplateValue_term rfl (scanAction_plain hplain []) htokens
    (fun _ h => nomatch h) rfl rfl

end

-- ---- Values

section

variable {F : Type} {onNumber : Number F → Prop} {onKey : String → Prop}

mutual
def Everywhere (onNumber : Number F → Prop) (onKey : String → Prop) : Value F → Prop
  | .null | .bool _ | .string _ => True
  | .number n => onNumber n
  | .array items => EverywhereItems onNumber onKey items
  | .object fields => EverywhereFields onNumber onKey fields
def EverywhereItems (onNumber : Number F → Prop) (onKey : String → Prop) : List (Value F) → Prop
  | [] => True
  | v :: rest => Everywhere onNumber onKey v ∧ EverywhereItems onNumber onKey rest
def EverywhereFields (onNumber : Number F → Prop) (onKey : String → Prop) :
    List (String × Value F) → Prop
  | [] => True
  | (k, v) :: rest => onKey k ∧ Everywhere onNumber onKey v ∧ EverywhereFields onNumber onKey rest
end

theorem EverywhereFields.lookup {fields : List (String × Value F)} {f : String} {v : Value F}
    (h : EverywhereFields onNumber onKey fields) (hlookup : fields.lookup f = some v) :
    Everywhere onNumber onKey v := by
  induction fields with
  | nil => cases hlookup
  | cons field fields ih =>
    obtain ⟨k, w⟩ := field
    obtain ⟨-, hw, hrest⟩ := h
    by_cases hk : f = k
    · simp only [List.lookup_cons, hk, beq_self_eq_true] at hlookup
      exact Option.some.inj hlookup ▸ hw
    · simp only [List.lookup_cons, beq_false_of_ne hk] at hlookup
      exact ih hrest hlookup

def NumberFinite [Float64 F] (n : Number F) : Prop := ∀ f, n = .float f → Float64.isFinite f = true

def NumberInI64 (n : Number F) : Prop := ∀ m, n = .int m → InI64 m

def External (k : String) : Prop := startsWith k "__" = false

/-- JSON without internal keys; its floats are finite. -/
def Plain [Float64 F] (v : Value F) : Prop := Everywhere NumberFinite External v

/-- The integers of a value are in `i64`. -/
def FitsI64 (v : Value F) : Prop := Everywhere NumberInI64 (fun _ => True) v

variable [Float64 F]

mutual
theorem toJson_fromJson_iff : (v : Value F) → Plain v →
    ((TemplateValue.fromJson v).toJson = v ↔ FitsI64 v)
  | .null, _ | .bool _, _ | .string _, _ => iff_of_true rfl trivial
  | .number (.int n), _ => by
    have hexact : (Int64.ofInt n).toInt = n ↔ InI64 n :=
      ⟨fun h => h ▸ inI64_toInt _, toInt_ofInt_of_inI64⟩
    simp only [TemplateValue.fromJson, TemplateValue.toJson, FitsI64, Everywhere, NumberInI64,
      Value.number.injEq, Number.int.injEq, hexact, forall_eq']
  | .number (.float f), hv => by
    have hfinite : Float64.isFinite f = true := hv f rfl
    simp [TemplateValue.fromJson, TemplateValue.toJson, FitsI64, Everywhere, NumberInI64, hfinite]
  | .array items, hv => by
    simpa [TemplateValue.fromJson, TemplateValue.toJson, FitsI64, Everywhere] using
      toItems_fromItems_iff items hv
  | .object fields, hv => by
    simpa [TemplateValue.fromJson, TemplateValue.toJson, FitsI64, Everywhere] using
      toFields_fromFields_iff fields hv
theorem toItems_fromItems_iff : (items : List (Value F)) →
    EverywhereItems NumberFinite External items →
    (TemplateValue.toItems (TemplateValue.fromItems items) = items ↔
      EverywhereItems NumberInI64 (fun _ => True) items)
  | [], _ => iff_of_true rfl trivial
  | v :: rest, h => by
    have hv := toJson_fromJson_iff v h.1
    have hrest := toItems_fromItems_iff rest h.2
    simp [TemplateValue.fromItems, TemplateValue.toItems, EverywhereItems, hv, hrest, FitsI64]
theorem toFields_fromFields_iff : (fields : List (String × Value F)) →
    EverywhereFields NumberFinite External fields →
    (TemplateValue.toFields (TemplateValue.fromFields fields) = fields ↔
      EverywhereFields NumberInI64 (fun _ => True) fields)
  | [], _ => iff_of_true rfl trivial
  | (k, v) :: rest, h => by
    obtain ⟨hk, hplain, hmore⟩ := h
    rw [External] at hk
    have hv := toJson_fromJson_iff v hplain
    have hrest := toFields_fromFields_iff rest hmore
    simp [TemplateValue.fromFields, TemplateValue.toFields, EverywhereFields, hk, hv, hrest, FitsI64]
end

omit [Float64 F] in
theorem lookup_fromFields {fields : List (String × Value F)}
    (h : EverywhereFields onNumber External fields) (f : String) :
    (TemplateValue.fromFields fields).lookup f =
      (fields.lookup f).map TemplateValue.fromJson := by
  induction fields with
  | nil => rfl
  | cons field fields ih =>
    obtain ⟨k, v⟩ := field
    obtain ⟨hk, -, hrest⟩ := h
    rw [External] at hk
    rw [TemplateValue.fromFields, if_neg (by simp [hk])]
    cases hf : f == k <;> simp [List.lookup_cons, hf, ih hrest]

/-- Templates of a literal or a field render what it stands for: an integer, a text in quotes, the
data itself, and its integer fields. -/
structure RendersOwn (cls : CharClasses) (env : TemplateEnv F) (n : Int64) (s : String)
    (v : Value F) : Prop where
  integer : ∀ data, applyDataTemplateValue cls env (actionTemplate (toString n.toInt).toList) data =
    .ok (toString n.toInt)
  literal : ∀ data, applyDataTemplateValue cls env (actionTemplate (quoteLiteral s)) data = .ok s
  value : (TemplateValue.fromJson v).toJson = v
  json : applyDataTemplateValue cls env (actionTemplate ['j', 's', 'o', 'n', ' ', '.']) v =
    .ok (env.toText v)
  field : ∀ fields f m, v = .object fields → FieldName cls f →
    fields.lookup f = some (.number (.int m)) →
    applyDataTemplateValue cls env (actionTemplate ('.' :: f.toList)) v = .ok (toString m)

/-- They do for integers that are not negative and values with integers in `i64`. -/
theorem rendersOwn_iff (cls : CharClasses) (env : TemplateEnv F) (n : Int64) (s : String)
    {v : Value F} (hv : Plain v) : RendersOwn cls env n s v ↔ 0 ≤ n.toInt ∧ FitsI64 v := by
  constructor
  · intro h
    refine ⟨?_, (toJson_fromJson_iff v hv).mp h.value⟩
    by_contra hn
    exact negative_renders (not_le.mp hn) v (h.integer v)
  · rintro ⟨hn, hfits⟩
    have hvalue := (toJson_fromJson_iff v hv).mpr hfits
    refine ⟨integer_renders hn, literal_renders s, hvalue, ?_, ?_⟩
    · rw [json_renders, hvalue]
    · rintro fields f m rfl hf hlookup
      have hm : InI64 m := EverywhereFields.lookup hfits hlookup m rfl
      rw [field_renders hf, TemplateValue.fromJson, fieldPath, lookup_fromFields hv, hlookup]
      simp [fieldPath, TemplateValue.fromJson, TemplateValue.render, toInt_ofInt_of_inI64 hm]

end

/-- The classes of the characters below 128 -/
def asciiClasses : CharClasses := ⟨Char.isAlpha, Char.isAlphanum, fun _ _ => rfl, fun _ _ => rfl⟩

/-- Templates for data of one integer field -/
def counterTemplates : TemplateEnv ℚ where
  toText
    | .object [(k, .number (.int n))] => "\x7b\"" ++ k ++ "\":" ++ toString n ++ "\x7d"
    | _ => "null"
  parseF64 _ := none
  formatWhole _ := ""
  textFunction _ := none

theorem counter_rendersOwn : RendersOwn asciiClasses counterTemplates 7 "say \"hi\"\n"
    (.object [("count", .number (.int 5))]) := by
  refine (rendersOwn_iff _ _ _ _ ?_).mpr ⟨by decide, ?_⟩
  · have hkey : startsWith "count" "__" = false := rfl
    simp [Plain, Everywhere, EverywhereFields, NumberFinite, External, hkey]
  · have hfive : InI64 5 := by decide
    simp [FitsI64, Everywhere, EverywhereFields, NumberInI64, hfive]

/-- The template `-5` in braces does not render `-5`, and a `u64` above all `i64` does not come
back. -/
theorem negative_and_large_not_own : ¬RendersOwn asciiClasses counterTemplates (-5) "" .null ∧
    ¬RendersOwn asciiClasses counterTemplates 5 "" (.number (.int (2 ^ 63))) := by
  refine ⟨fun h => negative_renders (by decide) .null (h.integer .null), fun h => ?_⟩
  have hwrapped : (Int64.ofInt (2 ^ 63)).toInt = 2 ^ 63 :=
    Number.int.inj (Value.number.inj h.value)
  exact absurd hwrapped (by decide)

end Rekuiper.Connectors.DataTemplate
