import Rekuiper.Connectors.TemplateParser
import Rekuiper.Lib.Outcome

/-!
# The grammar of data templates

The parser accepts exactly the templates of a grammar. An `if` or a `range` is closed by its `end`,
and the parser's index moves over the items of a derivation.
-/

namespace Rekuiper.Connectors.DataTemplate

open Lib

variable {F : Type}

-- ---- Pipelines

mutual
inductive IsTerm : List (Token F) → Term F → Prop
  | token {token : Token F} {term : Term F} (h : token.term = some term) : IsTerm [token] term
  | paren {tokens : List (Token F)} {pipeline : Pipeline F} (h : IsCommands [] tokens pipeline)
      (hne : pipeline ≠ []) : IsTerm (.lParen :: (tokens ++ [.rParen])) (.subExpr pipeline)
/-- The commands of a pipeline, after the first terms of a command. A pipe may be the last token. -/
inductive IsCommands : Command F → List (Token F) → Pipeline F → Prop
  | empty : IsCommands [] [] []
  | last {terms : Command F} (hne : terms ≠ []) : IsCommands terms [] [terms]
  | pipe {terms : Command F} {tokens : List (Token F)} {pipeline : Pipeline F} (hne : terms ≠ [])
      (h : IsCommands [] tokens pipeline) : IsCommands terms (.pipe :: tokens) (terms :: pipeline)
  | term {terms : Command F} {front tokens : List (Token F)} {term : Term F} {pipeline : Pipeline F}
      (hterm : IsTerm front term) (h : IsCommands (terms ++ [term]) tokens pipeline) :
      IsCommands terms (front ++ tokens) pipeline
end

def IsPipeline (tokens : List (Token F)) (pipeline : Pipeline F) : Prop :=
  IsCommands [] tokens pipeline ∧ pipeline ≠ []

def Balanced (tokens : List (Token F)) : Prop :=
  ∀ depth rest, closing depth (tokens ++ rest) =
    (closing depth rest).map fun r => (tokens ++ r.1, r.2)

theorem Balanced.append {front tokens : List (Token F)} (hfront : Balanced front)
    (htokens : Balanced tokens) : Balanced (front ++ tokens) := by
  rintro depth rest
  rw [List.append_assoc, hfront, htokens]
  simp [Function.comp_def]

theorem balanced_token {token : Token F} (hleft : token ≠ .lParen) (hright : token ≠ .rParen) :
    Balanced [token] := by
  rintro depth rest
  cases token with
  | lParen => exact absurd rfl hleft
  | rParen => exact absurd rfl hright
  | _ => cases depth <;> rfl

theorem balanced_paren {tokens : List (Token F)} (h : Balanced tokens) :
    Balanced (.lParen :: (tokens ++ [.rParen])) := by
  rintro depth rest
  have hclose : closing (depth + 1) (.rParen :: rest) =
      (closing depth rest).map fun r => (.rParen :: r.1, r.2) := rfl
  have hopen : closing depth (.lParen :: (tokens ++ (.rParen :: rest))) =
      (closing (depth + 1) (tokens ++ (.rParen :: rest))).map fun r => (.lParen :: r.1, r.2) := by
    cases depth <;> rfl
  simp only [List.cons_append, List.append_assoc, List.nil_append]
  rw [hopen, h, hclose]
  simp [Function.comp_def]

mutual
theorem IsTerm.balanced {tokens : List (Token F)} {term : Term F} :
    IsTerm tokens term → Balanced tokens
  | .token h => balanced_token (by rintro rfl; cases h) (by rintro rfl; cases h)
  | .paren h _ => balanced_paren h.balanced
theorem IsCommands.balanced {terms : Command F} {tokens : List (Token F)} {pipeline : Pipeline F} :
    IsCommands terms tokens pipeline → Balanced tokens
  | .empty | .last _ => fun _ _ => by simp
  | .pipe _ h => (balanced_token (by simp) (by simp)).append h.balanced
  | .term hterm h => hterm.balanced.append h.balanced
end

theorem closing_eq {depth : Nat} {tokens sub rest : List (Token F)}
    (h : closing depth tokens = some (sub, rest)) : tokens = sub ++ .rParen :: rest := by
  induction depth, tokens using closing.induct generalizing sub with
  | case1 depth => cases depth <;> cases h
  | case3 tokens =>
    obtain ⟨rfl, rfl⟩ := Prod.mk.inj (Option.some.inj h)
    rfl
  | case2 | case4 | case5 =>
    rename_i ih
    rw [closing] at h <;> try assumption
    obtain ⟨r, hr, heq⟩ := Option.map_eq_some_iff.mp h
    obtain ⟨rfl, rfl⟩ := Prod.mk.inj heq
    rw [List.cons_append, ← ih hr]

section

variable {n : Nat} {commands pipeline : Pipeline F} {terms : Command F} {term : Term F}
  {tokens front rest sub : List (Token F)} {token : Token F}

theorem parseTerm_token (h : token.term = some term)
    (parsePipeline : List (Token F) → Except Halt (Pipeline F)) (rest : List (Token F)) :
    parseTerm parsePipeline (token :: rest) = .ok (term, rest) := by
  cases token with
  | lParen => cases h
  | _ => simp [parseTerm, h]

theorem parseTerm_paren {parsePipeline : List (Token F) → Except Halt (Pipeline F)}
    (hbalanced : Balanced sub) (h : parsePipeline sub = .ok pipeline) (rest : List (Token F)) :
    parseTerm parsePipeline (.lParen :: (sub ++ .rParen :: rest)) = .ok (.subExpr pipeline, rest) := by
  have hclosing : closing 0 (sub ++ .rParen :: rest) = some (sub, rest) := by
    rw [hbalanced, closing]
    simp
  simp only [parseTerm, hclosing, h]
  rfl

theorem isTerm_of_parseTerm {parsePipeline : List (Token F) → Except Halt (Pipeline F)}
    (hsub : ∀ sub pipeline, parsePipeline sub = .ok pipeline → IsPipeline sub pipeline)
    (h : parseTerm parsePipeline tokens = .ok (term, rest)) :
    ∃ front, tokens = front ++ rest ∧ IsTerm front term := by
  unfold parseTerm at h
  split at h
  · cases h
  · split at h
    · cases h
    · next hclosing =>
      obtain ⟨pipeline, hpipeline, h⟩ := bind_eq_ok h
      obtain ⟨rfl, rfl⟩ := Prod.mk.inj (Except.ok.inj h)
      obtain ⟨hcommands, hne⟩ := hsub _ _ hpipeline
      refine ⟨_, ?_, .paren hcommands hne⟩
      rw [closing_eq hclosing]
      simp
  · split at h
    · next hterm =>
      obtain ⟨rfl, rfl⟩ := Prod.mk.inj (Except.ok.inj h)
      exact ⟨_, rfl, .token hterm⟩
    · cases h

theorem parseCommands_term (hpipe : token ≠ .pipe) :
    parseCommands (n + 1) commands terms (token :: tokens) =
      (parseTerm (fun sub => parseCommands n [] [] sub) (token :: tokens) >>= fun r =>
        parseCommands n commands (terms ++ [r.1]) r.2) := by
  cases token with
  | pipe => exact absurd rfl hpipe
  | _ => cases terms <;> rfl

theorem parseCommands_end : parseCommands n commands terms [] = .ok pipeline ↔
    ∃ more, IsCommands terms [] more ∧ pipeline = commands ++ more ∧ pipeline ≠ [] := by
  have hmore : ∀ more, IsCommands terms [] more ↔ more = if terms = [] then [] else [terms] := by
    intro more
    constructor
    · intro h
      generalize hnil : ([] : List (Token F)) = tokens at h
      cases h with
      | empty => rfl
      | last hne => exact (if_neg hne).symm
      | pipe => cases hnil
      | term hterm h =>
        obtain ⟨hfront, -⟩ := List.append_eq_nil_iff.mp hnil.symm
        cases hterm <;> cases hfront
    · rintro rfl
      split
      · next hnil => exact hnil ▸ .empty
      · next hne => exact .last hne
  simp only [hmore, exists_eq_left]
  cases terms with
  | nil =>
    cases commands with
    | nil => cases n <;> simp [parseCommands, fail]
    | cons command commands =>
      have heq : parseCommands n (command :: commands) [] [] = .ok (command :: commands) := by
        cases n <;> rfl
      rw [heq, Except.ok.injEq, if_pos rfl, List.append_nil, eq_comm]
      exact (and_iff_left_of_imp (by rintro rfl; simp)).symm
  | cons term terms =>
    have heq : parseCommands n commands (term :: terms) [] = .ok (commands ++ [term :: terms]) := by
      cases n <;> rfl
    rw [heq, Except.ok.injEq, if_neg (List.cons_ne_nil _ _), eq_comm]
    exact (and_iff_left_of_imp (by rintro rfl; simp)).symm

theorem isCommands_of_parseCommands (h : parseCommands n commands terms tokens = .ok pipeline) :
    ∃ more, IsCommands terms tokens more ∧ pipeline = commands ++ more ∧ pipeline ≠ [] := by
  induction n generalizing commands terms tokens pipeline with
  | zero =>
    cases tokens with
    | nil => exact parseCommands_end.mp h
    | cons token tokens => cases terms <;> cases h
  | succ n ih =>
    cases tokens with
    | nil => exact parseCommands_end.mp h
    | cons token tokens =>
      by_cases hpipe : token = .pipe
      · subst hpipe
        cases terms with
        | nil => cases h
        | cons term terms =>
          obtain ⟨more, hmore, rfl, hne⟩ := ih h
          exact ⟨(term :: terms) :: more, .pipe (List.cons_ne_nil _ _) hmore, by simp, hne⟩
      · rw [parseCommands_term hpipe] at h
        obtain ⟨⟨next, rest⟩, hterm, h⟩ := bind_eq_ok h
        have hsub : ∀ (sub : List (Token F)) pipeline, parseCommands n [] [] sub = .ok pipeline →
            IsPipeline sub pipeline := by
          intro sub pipeline hsub
          obtain ⟨more, hmore, rfl, hne⟩ := ih hsub
          exact ⟨hmore, hne⟩
        obtain ⟨front, htokens, hfront⟩ := isTerm_of_parseTerm hsub hterm
        obtain ⟨more, hmore, rfl, hne⟩ := ih h
        exact ⟨more, htokens ▸ .term hfront hmore, rfl, hne⟩

theorem IsTerm.length_pos (h : IsTerm tokens term) : 0 < tokens.length := by
  cases h <;> simp

mutual
theorem IsTerm.parse {tokens : List (Token F)} {term : Term F} (h : IsTerm tokens term) {n : Nat}
    (rest : List (Token F)) (hn : tokens.length ≤ n + 1) :
    parseTerm (fun sub => parseCommands n [] [] sub) (tokens ++ rest) = .ok (term, rest) :=
  match h with
  | .token h => parseTerm_token h _ rest
  | .paren h hne => by
    have hparse := h.parse [] hne (n := n) (by simp at hn; omega)
    have hterm := parseTerm_paren h.balanced hparse rest
    simpa using hterm
theorem IsCommands.parse {terms : Command F} {tokens : List (Token F)} {pipeline : Pipeline F}
    (h : IsCommands terms tokens pipeline) (commands : Pipeline F) (hne : commands ++ pipeline ≠ [])
    {n : Nat} (hn : tokens.length ≤ n) :
    parseCommands n commands terms tokens = .ok (commands ++ pipeline) :=
  match h with
  | .empty => parseCommands_end.mpr ⟨_, .empty, rfl, hne⟩
  | .last hterms => parseCommands_end.mpr ⟨_, .last hterms, rfl, hne⟩
  | @IsCommands.pipe _ terms tokens pipeline hterms h => by
    cases n with
    | zero => cases hn
    | succ n =>
      cases terms with
      | nil => exact absurd rfl hterms
      | cons term terms =>
        have hparse := h.parse (n := n) (commands ++ [term :: terms]) (by simp)
          (Nat.le_of_succ_le_succ hn)
        rw [List.append_assoc, List.singleton_append] at hparse
        exact hparse
  | @IsCommands.term _ terms front tokens term pipeline hterm h => by
    have hpos := hterm.length_pos
    rw [List.length_append] at hn
    cases n with
    | zero => omega
    | succ n =>
      have hparse := h.parse (n := n) commands hne (by omega)
      have hread := hterm.parse (n := n) tokens (by omega)
      obtain ⟨token, front, rfl⟩ := List.exists_cons_of_length_pos hpos
      have hpipe : token ≠ .pipe := by
        rintro rfl
        cases hterm with
        | token h => cases h
      rw [List.cons_append] at hread ⊢
      rw [parseCommands_term hpipe, hread]
      exact hparse
end

theorem parsePipelineTokens_iff :
    parsePipelineTokens tokens = .ok pipeline ↔ IsPipeline tokens pipeline := by
  constructor
  · intro h
    obtain ⟨more, hmore, rfl, hne⟩ := isCommands_of_parseCommands h
    exact ⟨hmore, hne⟩
  · rintro ⟨h, hne⟩
    exact h.parse [] hne (Nat.le_refl _)

theorem parseTerm_halts {parsePipeline : List (Token F) → Except Halt (Pipeline F)}
    (hsub : ∀ sub, sub.length ≤ n → parsePipeline sub ≠ .error .outOfFuel)
    (hn : tokens.length ≤ n + 1) : parseTerm parsePipeline tokens ≠ .error .outOfFuel := by
  intro h
  unfold parseTerm at h
  split at h
  · cases h
  · split at h
    · cases h
    · next tokens _ sub rest hclosing =>
      have hlength : sub.length ≤ n := by
        have hsum := congrArg List.length (closing_eq hclosing)
        simp only [List.length_cons, List.length_append] at hsum hn
        omega
      rcases bind_eq_error h with herror | ⟨pipeline, -, hok⟩
      · exact hsub sub hlength herror
      · cases hok
  · split at h <;> cases h

theorem parseTerm_length (h : parseTerm (fun sub => parseCommands n [] [] sub) tokens =
    .ok (term, rest)) : rest.length < tokens.length := by
  have hsub : ∀ (sub : List (Token F)) pipeline, parseCommands n [] [] sub = .ok pipeline →
      IsPipeline sub pipeline := by
    intro sub pipeline hsub
    obtain ⟨more, hmore, rfl, hne⟩ := isCommands_of_parseCommands hsub
    exact ⟨hmore, hne⟩
  obtain ⟨front, rfl, hfront⟩ := isTerm_of_parseTerm hsub h
  rw [List.length_append]
  exact Nat.lt_add_of_pos_left hfront.length_pos

theorem parseCommands_halts (hn : tokens.length ≤ n) :
    parseCommands n commands terms tokens ≠ .error .outOfFuel := by
  induction n generalizing commands terms tokens with
  | zero =>
    obtain rfl := List.eq_nil_of_length_eq_zero (Nat.le_zero.mp hn)
    cases terms with
    | nil => cases commands <;> simp [parseCommands, fail]
    | cons term terms => simp [parseCommands]
  | succ n ih =>
    cases tokens with
    | nil =>
      cases terms with
      | nil => cases commands <;> simp [parseCommands, fail]
      | cons term terms => simp [parseCommands]
    | cons token tokens =>
      have hle : tokens.length ≤ n := Nat.le_of_succ_le_succ hn
      by_cases hpipe : token = .pipe
      · subst hpipe
        cases terms with
        | nil => simp [parseCommands, fail]
        | cons term terms => exact ih hle
      · rw [parseCommands_term hpipe]
        intro h
        rcases bind_eq_error h with herror | ⟨⟨next, rest⟩, hok, herror⟩
        · exact parseTerm_halts (fun sub hsub => ih hsub) hn herror
        · exact ih (Nat.le_of_lt_succ (Nat.lt_of_lt_of_le (parseTerm_length hok) hn)) herror

-- ---- Actions

def Keyword (tokens : List (Token F)) : Prop :=
  ∃ id rest, tokens = .ident id :: rest ∧ (id = "end" ∨ id = "else" ∨ id = "if" ∨ id = "range")

/-- The actions. What follows `end` and `else` is not read, and of what stands before an assignment
only the variables are. -/
inductive IsAction : List (Token F) → ParsedAction F → Prop
  | fin (rest : List (Token F)) : IsAction (.ident "end" :: rest) .fin
  | otherwise {rest : List (Token F)} (hrest : ∀ more, rest ≠ .ident "if" :: more) :
      IsAction (.ident "else" :: rest) .otherwise
  | elseIf {tokens : List (Token F)} {cond : Pipeline F} (h : IsPipeline tokens cond) :
      IsAction (.ident "else" :: .ident "if" :: tokens) (.elseIf cond)
  | cond {tokens : List (Token F)} {cond : Pipeline F} (h : IsPipeline tokens cond) :
      IsAction (.ident "if" :: tokens) (.cond cond)
  | range {tokens : List (Token F)} {pipeline : Pipeline F} (h : IsPipeline tokens pipeline) :
      IsAction (.ident "range" :: tokens) (.range none pipeline)
  | rangeAssign {left tokens : List (Token F)} {pipeline : Pipeline F} (hleft : .assign ∉ left)
      (h : IsPipeline tokens pipeline) : IsAction (.ident "range" :: (left ++ .assign :: tokens))
        (.range (rangeVars (varNames left)) pipeline)
  | pipeline {tokens : List (Token F)} {pipeline : Pipeline F} (hkeyword : ¬Keyword tokens)
      (h : IsPipeline tokens pipeline) : IsAction tokens (.pipeline none pipeline)
  | assign {left tokens : List (Token F)} {pipeline : Pipeline F}
      (hkeyword : ¬Keyword (left ++ .assign :: tokens)) (hleft : .assign ∉ left)
      (hvars : varNames left ≠ []) (h : IsPipeline tokens pipeline) :
      IsAction (left ++ .assign :: tokens) (.pipeline (some (varNames left)) pipeline)

theorem splitAssign_none (h : .assign ∉ tokens) : splitAssign tokens = none := by
  induction tokens with
  | nil => rfl
  | cons token tokens ih =>
    rw [List.mem_cons, not_or] at h
    obtain ⟨hne, htokens⟩ := h
    rw [splitAssign, ih htokens]
    · rfl
    · exact fun heq => hne heq.symm

theorem splitAssign_append {left : List (Token F)} (h : .assign ∉ left) (right : List (Token F)) :
    splitAssign (left ++ .assign :: right) = some (left, right) := by
  induction left with
  | nil => rfl
  | cons token left ih =>
    rw [List.mem_cons, not_or] at h
    obtain ⟨hne, hleft⟩ := h
    rw [List.cons_append, splitAssign, ih hleft]
    · rfl
    · exact fun heq => hne heq.symm

theorem splitAssign_cases (tokens : List (Token F)) : splitAssign tokens = none ∧ .assign ∉ tokens ∨
    ∃ left right, tokens = left ++ .assign :: right ∧ .assign ∉ left := by
  by_cases h : .assign ∈ tokens
  · exact .inr (List.eq_append_cons_of_mem h)
  · exact .inl ⟨splitAssign_none h, h⟩

mutual
theorem IsTerm.assign_notMem {tokens : List (Token F)} {term : Term F} :
    IsTerm tokens term → .assign ∉ tokens
  | .token h => by
    rw [List.mem_singleton]
    rintro rfl
    cases h
  | .paren h _ => by simpa using h.assign_notMem
theorem IsCommands.assign_notMem {terms : Command F} {tokens : List (Token F)}
    {pipeline : Pipeline F} : IsCommands terms tokens pipeline → .assign ∉ tokens
  | .empty | .last _ => List.not_mem_nil
  | .pipe _ h => by simpa using h.assign_notMem
  | .term hterm h => by simpa using ⟨hterm.assign_notMem, h.assign_notMem⟩
end

theorem map_pipeline_iff {action : ParsedAction F} (f : Pipeline F → ParsedAction F) :
    (parsePipelineTokens tokens).map f = .ok action ↔
      ∃ pipeline, IsPipeline tokens pipeline ∧ f pipeline = action := by
  simp only [← parsePipelineTokens_iff]
  cases parsePipelineTokens tokens <;> simp [Except.map]

theorem parseActionTokens_keyword {id : String}
    (h : id = "end" ∨ id = "else" ∨ id = "if" ∨ id = "range") :
    parseActionTokens (.ident id :: tokens) =
      if id = "end" then .ok .fin
      else if id = "else" then parseElse tokens
      else if id = "if" then (parsePipelineTokens tokens).map .cond
      else parseRange tokens := by
  rcases h with rfl | rfl | rfl | rfl <;> rfl

theorem parseActionTokens_other (hne : tokens ≠ []) (h : ¬Keyword tokens) :
    parseActionTokens tokens = parseAssignment tokens := by
  unfold parseActionTokens
  split
  · exact absurd rfl hne
  · next id rest =>
    have hid : ∀ word, (word = "end" ∨ word = "else" ∨ word = "if" ∨ word = "range") →
        id ≠ word := by
      rintro word hword rfl
      exact h ⟨_, _, rfl, hword⟩
    rw [if_neg (hid "end" (by simp)), if_neg (hid "else" (by simp)), if_neg (hid "if" (by simp)),
      if_neg (hid "range" (by simp))]
  · rfl

variable {action : ParsedAction F}

theorem isAction_of_parseRange (h : parseRange tokens = .ok action) :
    IsAction (.ident "range" :: tokens) action := by
  unfold parseRange at h
  rcases splitAssign_cases tokens with ⟨hnone, -⟩ | ⟨left, right, rfl, hleft⟩
  · rw [hnone] at h
    obtain ⟨pipeline, hpipeline, rfl⟩ := (map_pipeline_iff _).mp h
    exact .range hpipeline
  · rw [splitAssign_append hleft] at h
    obtain ⟨pipeline, hpipeline, rfl⟩ := (map_pipeline_iff _).mp h
    exact .rangeAssign hleft hpipeline

theorem isAction_of_parseElse (h : parseElse tokens = .ok action) :
    IsAction (.ident "else" :: tokens) action := by
  unfold parseElse at h
  split at h
  · next id rest =>
    split at h
    · next hid =>
      obtain ⟨cond, hcond, rfl⟩ := (map_pipeline_iff _).mp h
      exact hid ▸ .elseIf hcond
    · next hid =>
      obtain rfl := Except.ok.inj h
      refine .otherwise ?_
      rintro more heq
      exact hid (Token.ident.inj (List.cons.inj heq).1)
  · next hother =>
    obtain rfl := Except.ok.inj h
    exact .otherwise fun more heq => hother _ _ heq

theorem isAction_of_parseAssignment (hkeyword : ¬Keyword tokens)
    (h : parseAssignment tokens = .ok action) : IsAction tokens action := by
  unfold parseAssignment at h
  rcases splitAssign_cases tokens with ⟨hnone, -⟩ | ⟨left, right, rfl, hleft⟩
  · rw [hnone] at h
    obtain ⟨pipeline, hpipeline, rfl⟩ := (map_pipeline_iff _).mp h
    exact .pipeline hkeyword hpipeline
  · simp only [splitAssign_append hleft] at h
    split at h
    · obtain ⟨pipeline, hpipeline, rfl⟩ := (map_pipeline_iff _).mp h
      exact .pipeline hkeyword hpipeline
    · next hvars =>
      obtain ⟨pipeline, hpipeline, rfl⟩ := (map_pipeline_iff _).mp h
      exact .assign hkeyword hleft (by simpa using hvars) hpipeline

theorem isAction_of_parse (h : parseActionTokens tokens = .ok action) : IsAction tokens action := by
  by_cases hkeyword : Keyword tokens
  · obtain ⟨id, rest, rfl, hid⟩ := hkeyword
    rw [parseActionTokens_keyword hid] at h
    rcases hid with rfl | rfl | rfl | rfl
    · obtain rfl := Except.ok.inj h
      exact .fin rest
    · exact isAction_of_parseElse h
    · obtain ⟨cond, hcond, rfl⟩ := (map_pipeline_iff _).mp h
      exact .cond hcond
    · exact isAction_of_parseRange h
  · by_cases hne : tokens = []
    · subst hne
      cases h
    · rw [parseActionTokens_other hne hkeyword] at h
      exact isAction_of_parseAssignment hkeyword h

theorem IsAction.parse (h : IsAction tokens action) : parseActionTokens tokens = .ok action := by
  cases h with
  | fin rest => rfl
  | otherwise hrest =>
    change parseElse _ = _
    unfold parseElse
    split
    · next id rest => exact if_neg (by rintro rfl; exact hrest rest rfl)
    · rfl
  | elseIf h => exact (map_pipeline_iff _).mpr ⟨_, h, rfl⟩
  | cond h => exact (map_pipeline_iff _).mpr ⟨_, h, rfl⟩
  | range h =>
    change parseRange _ = _
    rw [parseRange, splitAssign_none h.1.assign_notMem]
    exact (map_pipeline_iff _).mpr ⟨_, h, rfl⟩
  | rangeAssign hleft h =>
    change parseRange _ = _
    rw [parseRange, splitAssign_append hleft]
    exact (map_pipeline_iff _).mpr ⟨_, h, rfl⟩
  | pipeline hkeyword h =>
    have hne : tokens ≠ [] := by
      rintro rfl
      cases parsePipelineTokens_iff.mpr h
    rw [parseActionTokens_other hne hkeyword, parseAssignment, splitAssign_none h.1.assign_notMem]
    exact (map_pipeline_iff _).mpr ⟨_, h, rfl⟩
  | assign hkeyword hleft hvars h =>
    rw [parseActionTokens_other (by simp) hkeyword, parseAssignment, splitAssign_append hleft]
    refine (if_neg (by simpa using hvars)).trans ?_
    exact (map_pipeline_iff _).mpr ⟨_, h, rfl⟩

theorem parseActionTokens_iff : parseActionTokens tokens = .ok action ↔ IsAction tokens action :=
  ⟨isAction_of_parse, IsAction.parse⟩

theorem parsePipelineTokens_halts (tokens : List (Token F)) :
    parsePipelineTokens tokens ≠ .error .outOfFuel :=
  parseCommands_halts (Nat.le_refl _)

end

-- ---- Blocks

mutual
inductive IsBlock : List (RawItem F) → List (Node F) → Prop
  | nil : IsBlock [] []
  | text (s : String) {items : List (RawItem F)} {nodes : List (Node F)} (h : IsBlock items nodes) :
      IsBlock (.text s :: items) (.text s :: nodes)
  | pipeline {tokens : List (Token F)} {vars : Option (List String)} {pipeline : Pipeline F}
      {items : List (RawItem F)} {nodes : List (Node F)}
      (haction : IsAction tokens (.pipeline vars pipeline)) (h : IsBlock items nodes) :
      IsBlock (.action tokens :: items) (.action vars pipeline :: nodes)
  | cond {tokens : List (Token F)} {cond : Pipeline F} {body rest items : List (RawItem F)}
      {bodyNodes nodes : List (Node F)} {branches : List (Pipeline F × List (Node F))}
      {elseBranch : Option (List (Node F))} (haction : IsAction tokens (.cond cond))
      (hbody : IsBlock body bodyNodes) (hbranches : IsBranches rest branches elseBranch)
      (h : IsBlock items nodes) : IsBlock (.action tokens :: (body ++ (rest ++ items)))
        (.cond ((cond, bodyNodes) :: branches) elseBranch :: nodes)
  | range {tokens : List (Token F)} {vars : Option (String × Option String)} {pipeline : Pipeline F}
      {body rest items : List (RawItem F)} {bodyNodes nodes : List (Node F)}
      {elseBranch : Option (List (Node F))} (haction : IsAction tokens (.range vars pipeline))
      (hbody : IsBlock body bodyNodes) (hend : IsEnd rest elseBranch) (h : IsBlock items nodes) :
      IsBlock (.action tokens :: (body ++ (rest ++ items)))
        (.range vars pipeline bodyNodes elseBranch :: nodes)
/-- What follows the first block of an `if`. -/
inductive IsBranches : List (RawItem F) → List (Pipeline F × List (Node F)) →
    Option (List (Node F)) → Prop
  | elseIf {tokens : List (Token F)} {cond : Pipeline F} {body rest : List (RawItem F)}
      {bodyNodes : List (Node F)} {branches : List (Pipeline F × List (Node F))}
      {elseBranch : Option (List (Node F))} (haction : IsAction tokens (.elseIf cond))
      (hbody : IsBlock body bodyNodes) (hbranches : IsBranches rest branches elseBranch) :
      IsBranches (.action tokens :: (body ++ rest)) ((cond, bodyNodes) :: branches) elseBranch
  | close {items : List (RawItem F)} {elseBranch : Option (List (Node F))}
      (h : IsEnd items elseBranch) : IsBranches items [] elseBranch
/-- An `end`, with an `else` before it or without one -/
inductive IsEnd : List (RawItem F) → Option (List (Node F)) → Prop
  | fin {tokens : List (Token F)} (haction : IsAction tokens .fin) : IsEnd [.action tokens] none
  | otherwise {tokens endTokens : List (Token F)} {body : List (RawItem F)} {nodes : List (Node F)}
      (haction : IsAction tokens .otherwise) (hbody : IsBlock body nodes)
      (hend : IsAction endTokens .fin) :
      IsEnd (.action tokens :: (body ++ [.action endTokens])) (some nodes)
end

section

variable {α β : Type} {items part more : List (RawItem F)} {item : RawItem F} {idx idx' n : Nat}
  {tokens : List (Token F)} {action : ParsedAction F}

theorem andThen_ok {r : Parsed α} {next : α → Nat → Parsed β} {b : β}
    (h : r.andThen next = (.ok b, idx')) :
    ∃ a idx, r = (.ok a, idx) ∧ next a idx = (.ok b, idx') := by
  obtain ⟨result, idx⟩ := r
  cases result with
  | error halt => cases h
  | ok a => exact ⟨a, idx, rfl, h⟩

theorem actionAt_ok (h : actionAt items idx = .ok action) :
    ∃ tokens, items[idx]? = some (.action tokens) ∧ IsAction tokens action := by
  unfold actionAt at h
  split at h
  · cases h
  · next item hitem =>
    cases item with
    | text s => cases h
    | action tokens => exact ⟨tokens, hitem, isAction_of_parse h⟩

def Takes (items : List (RawItem F)) (idx : Nat) (part : List (RawItem F)) (idx' : Nat) : Prop :=
  items.drop idx = part ++ items.drop idx' ∧ idx' = idx + part.length

theorem Takes.nil (items : List (RawItem F)) (idx : Nat) : Takes items idx [] idx := ⟨rfl, rfl⟩

theorem Takes.cons (hitem : items[idx]? = some item) (h : Takes items (idx + 1) part idx') :
    Takes items idx (item :: part) idx' := by
  obtain ⟨hlt, rfl⟩ := List.getElem?_eq_some_iff.mp hitem
  refine ⟨?_, by rw [h.2, List.length_cons]; omega⟩
  rw [List.drop_eq_getElem_cons hlt, h.1, List.cons_append]

theorem Takes.append {idx₁ : Nat} (h : Takes items idx part idx₁) (h' : Takes items idx₁ more idx') :
    Takes items idx (part ++ more) idx' := by
  refine ⟨?_, by rw [h'.2, h.2, List.length_append, Nat.add_assoc]⟩
  rw [h.1, h'.1, List.append_assoc]

theorem expectEnd_ok {u : Unit} (h : expectEnd items idx = (.ok u, idx')) :
    ∃ tokens, items[idx]? = some (.action tokens) ∧ IsAction tokens .fin ∧ idx' = idx + 1 := by
  unfold expectEnd at h
  split at h
  · next haction =>
    obtain ⟨tokens, hitem, haction⟩ := actionAt_ok haction
    exact ⟨tokens, hitem, haction, (Prod.mk.inj h).2.symm⟩
  · cases h

structure Sound (items : List (RawItem F)) (n : Nat) : Prop where
  block : ∀ idx stop nodes idx', parseBlock items n idx stop = (.ok nodes, idx') →
    ∃ part, Takes items idx part idx' ∧ IsBlock part nodes ∧ (stop = false → items[idx']? = none)
  branches : ∀ idx branches idx', parseBranches items n idx = (.ok branches, idx') →
    ∃ part, Takes items idx part idx' ∧ IsBranches part branches.1 branches.2
  rangeEnd : ∀ idx elseBranch idx', parseRangeEnd items n idx = (.ok elseBranch, idx') →
    ∃ part, Takes items idx part idx' ∧ IsEnd part elseBranch

theorem stopped {stop : Bool} {what : String} {nodes : List (Node F)}
    (h : ((if stop then .ok [] else fail what : Except Halt (List (Node F))), idx) = (.ok nodes, idx')) :
    nodes = [] ∧ idx' = idx ∧ stop = true := by
  cases stop with
  | false => cases h
  | true =>
    obtain ⟨hnodes, hidx⟩ := Prod.mk.inj h
    exact ⟨(Except.ok.inj hnodes).symm, hidx.symm, rfl⟩

section

variable (ih : Sound items n)

include ih

theorem Sound.otherwise {idx₁ : Nat} {body : List (Node F)} {u : Unit}
    (hitem : items[idx]? = some (.action tokens)) (haction : IsAction tokens .otherwise)
    (hbody : parseBlock items n (idx + 1) true = (.ok body, idx₁))
    (hend : expectEnd items idx₁ = (.ok u, idx')) :
    ∃ part, Takes items idx part idx' ∧ IsEnd part (some body) := by
  obtain ⟨part, htakes, hblock, -⟩ := ih.block _ _ _ _ hbody
  obtain ⟨endTokens, hendItem, hendAction, rfl⟩ := expectEnd_ok hend
  exact ⟨_, htakes.append (.cons hendItem (.nil _ _)) |>.cons hitem,
    .otherwise haction hblock hendAction⟩

theorem Sound.block_succ : ∀ idx stop nodes idx',
    parseBlock items (n + 1) idx stop = (.ok nodes, idx') → ∃ part, Takes items idx part idx' ∧
      IsBlock part nodes ∧ (stop = false → items[idx']? = none) := by
  rintro idx stop nodes idx' h
  rw [parseBlock] at h
  split at h
  · next hnone =>
    cases stop with
    | true => cases h
    | false =>
      obtain ⟨hnodes, rfl⟩ := Prod.mk.inj h
      obtain rfl := Except.ok.inj hnodes
      exact ⟨[], .nil _ _, .nil, fun _ => hnone⟩
  · next s hitem =>
    obtain ⟨nodes, idx₁, hmore, h⟩ := andThen_ok h
    obtain ⟨hnodes, rfl⟩ := Prod.mk.inj h
    obtain rfl := Except.ok.inj hnodes
    obtain ⟨part, htakes, hblock, hend⟩ := ih.block _ _ _ _ hmore
    exact ⟨_, htakes.cons hitem, .text s hblock, hend⟩
  · next tokens hitem =>
    split at h
    · cases h
    · obtain ⟨rfl, rfl, rfl⟩ := stopped h
      exact ⟨[], .nil _ _, .nil, nofun⟩
    · obtain ⟨rfl, rfl, rfl⟩ := stopped h
      exact ⟨[], .nil _ _, .nil, nofun⟩
    · obtain ⟨rfl, rfl, rfl⟩ := stopped h
      exact ⟨[], .nil _ _, .nil, nofun⟩
    · next haction =>
      obtain ⟨body, idx₁, hbody, h⟩ := andThen_ok h
      obtain ⟨branches, idx₂, hbranches, h⟩ := andThen_ok h
      obtain ⟨nodes, idx₃, hmore, h⟩ := andThen_ok h
      obtain ⟨hnodes, rfl⟩ := Prod.mk.inj h
      obtain rfl := Except.ok.inj hnodes
      obtain ⟨part₁, htakes₁, hblock₁, -⟩ := ih.block _ _ _ _ hbody
      obtain ⟨part₂, htakes₂, hbranches⟩ := ih.branches _ _ _ hbranches
      obtain ⟨part₃, htakes₃, hblock₃, hend⟩ := ih.block _ _ _ _ hmore
      exact ⟨_, (htakes₁.append (htakes₂.append htakes₃)).cons hitem,
        .cond (isAction_of_parse haction) hblock₁ hbranches hblock₃, hend⟩
    · next haction =>
      obtain ⟨body, idx₁, hbody, h⟩ := andThen_ok h
      obtain ⟨elseBranch, idx₂, hrest, h⟩ := andThen_ok h
      obtain ⟨nodes, idx₃, hmore, h⟩ := andThen_ok h
      obtain ⟨hnodes, rfl⟩ := Prod.mk.inj h
      obtain rfl := Except.ok.inj hnodes
      obtain ⟨part₁, htakes₁, hblock₁, -⟩ := ih.block _ _ _ _ hbody
      obtain ⟨part₂, htakes₂, hrest⟩ := ih.rangeEnd _ _ _ hrest
      obtain ⟨part₃, htakes₃, hblock₃, hend⟩ := ih.block _ _ _ _ hmore
      exact ⟨_, (htakes₁.append (htakes₂.append htakes₃)).cons hitem,
        .range (isAction_of_parse haction) hblock₁ hrest hblock₃, hend⟩
    · next haction =>
      obtain ⟨nodes, idx₁, hmore, h⟩ := andThen_ok h
      obtain ⟨hnodes, rfl⟩ := Prod.mk.inj h
      obtain rfl := Except.ok.inj hnodes
      obtain ⟨part, htakes, hblock, hend⟩ := ih.block _ _ _ _ hmore
      exact ⟨_, htakes.cons hitem, .pipeline (isAction_of_parse haction) hblock, hend⟩

theorem Sound.branches_succ : ∀ idx branches idx',
    parseBranches items (n + 1) idx = (.ok branches, idx') →
      ∃ part, Takes items idx part idx' ∧ IsBranches part branches.1 branches.2 := by
  rintro idx branches idx' h
  rw [parseBranches] at h
  split at h
  · cases h
  · next haction =>
    obtain ⟨tokens, hitem, haction⟩ := actionAt_ok haction
    obtain ⟨body, idx₁, hbody, h⟩ := andThen_ok h
    obtain ⟨branches, idx₂, hbranches, h⟩ := andThen_ok h
    obtain ⟨heq, rfl⟩ := Prod.mk.inj h
    obtain rfl := Except.ok.inj heq
    obtain ⟨part₁, htakes₁, hblock, -⟩ := ih.block _ _ _ _ hbody
    obtain ⟨part₂, htakes₂, hbranches⟩ := ih.branches _ _ _ hbranches
    exact ⟨_, (htakes₁.append htakes₂).cons hitem, .elseIf haction hblock hbranches⟩
  · next haction =>
    obtain ⟨tokens, hitem, haction⟩ := actionAt_ok haction
    obtain ⟨body, idx₁, hbody, h⟩ := andThen_ok h
    obtain ⟨u, idx₂, hend, h⟩ := andThen_ok h
    obtain ⟨heq, rfl⟩ := Prod.mk.inj h
    obtain rfl := Except.ok.inj heq
    obtain ⟨part, htakes, hend⟩ := ih.otherwise hitem haction hbody hend
    exact ⟨part, htakes, .close hend⟩
  · next haction =>
    obtain ⟨tokens, hitem, haction⟩ := actionAt_ok haction
    obtain ⟨heq, rfl⟩ := Prod.mk.inj h
    obtain rfl := Except.ok.inj heq
    exact ⟨_, .cons hitem (.nil _ _), .close (.fin haction)⟩
  · cases h

theorem Sound.rangeEnd_succ : ∀ idx elseBranch idx',
    parseRangeEnd items (n + 1) idx = (.ok elseBranch, idx') →
      ∃ part, Takes items idx part idx' ∧ IsEnd part elseBranch := by
  rintro idx elseBranch idx' h
  rw [parseRangeEnd] at h
  split at h
  · cases h
  · next haction =>
    obtain ⟨tokens, hitem, haction⟩ := actionAt_ok haction
    obtain ⟨body, idx₁, hbody, h⟩ := andThen_ok h
    obtain ⟨u, idx₂, hend, h⟩ := andThen_ok h
    obtain ⟨heq, rfl⟩ := Prod.mk.inj h
    obtain rfl := Except.ok.inj heq
    exact ih.otherwise hitem haction hbody hend
  · next haction =>
    obtain ⟨tokens, hitem, haction⟩ := actionAt_ok haction
    obtain ⟨heq, rfl⟩ := Prod.mk.inj h
    obtain rfl := Except.ok.inj heq
    exact ⟨_, .cons hitem (.nil _ _), .fin haction⟩
  · cases h

end

theorem sound (items : List (RawItem F)) (n : Nat) : Sound items n := by
  induction n with
  | zero => exact ⟨nofun, nofun, nofun⟩
  | succ n ih => exact ⟨ih.block_succ, ih.branches_succ, ih.rangeEnd_succ⟩

def ParsedAction.Closes : ParsedAction F → Prop
  | .fin | .otherwise | .elseIf _ => True
  | _ => False

def Follows (stop : Bool) (rest : List (RawItem F)) : Prop :=
  if stop then ∃ tokens action more, rest = .action tokens :: more ∧ IsAction tokens action ∧
    action.Closes
  else rest = []

theorem follows_action (h : IsAction tokens action) (hcloses : action.Closes)
    (more : List (RawItem F)) : Follows true (.action tokens :: more) :=
  ⟨tokens, action, more, rfl, h, hcloses⟩

theorem getElem?_of_drop (h : items.drop idx = item :: more) : items[idx]? = some item := by
  rw [← List.head?_drop, h]
  rfl

theorem drop_of_drop (h : items.drop idx = part ++ more) : items.drop (idx + part.length) = more := by
  rw [← List.drop_drop, h, List.drop_left]

theorem drop_succ_of_drop (h : items.drop idx = item :: more) : items.drop (idx + 1) = more := by
  have hdrop : items.drop (idx + [item].length) = more := drop_of_drop h
  exact hdrop

theorem actionAt_of_drop (h : items.drop idx = .action tokens :: more)
    (haction : IsAction tokens action) : actionAt items idx = .ok action := by
  rw [actionAt, getElem?_of_drop h]
  exact haction.parse

theorem expectEnd_of_drop (h : items.drop idx = .action tokens :: more)
    (haction : IsAction tokens .fin) : expectEnd items idx = (.ok (), idx + 1) := by
  rw [expectEnd, actionAt_of_drop h haction]

theorem parseBlock_stop {stop : Bool} {rest : List (RawItem F)} (h : items.drop idx = rest)
    (hfollows : Follows stop rest) : parseBlock items (n + 1) idx stop = (.ok [], idx) := by
  cases stop with
  | true =>
    obtain ⟨tokens, action, more, rfl, haction, hcloses⟩ := hfollows
    rw [parseBlock, getElem?_of_drop h]
    simp only [haction.parse]
    cases action with
    | fin => rfl
    | otherwise => rfl
    | elseIf cond => rfl
    | _ => exact hcloses.elim
  | false =>
    obtain rfl : rest = [] := hfollows
    rw [parseBlock, List.getElem?_eq_none (List.drop_eq_nil_iff.mp h)]
    rfl

theorem IsEnd.follows {elseBranch : Option (List (Node F))} (h : IsEnd part elseBranch)
    (rest : List (RawItem F)) : Follows true (part ++ rest) := by
  cases h with
  | fin haction => exact follows_action haction trivial rest
  | otherwise haction => exact follows_action haction trivial _

theorem IsBranches.follows {branches : List (Pipeline F × List (Node F))}
    {elseBranch : Option (List (Node F))} (h : IsBranches part branches elseBranch)
    (rest : List (RawItem F)) : Follows true (part ++ rest) := by
  cases h with
  | elseIf haction => exact follows_action haction trivial _
  | close h => exact h.follows rest

@[simp] theorem andThen_pure (a : α) (idx : Nat) (next : α → Nat → Parsed β) :
    Parsed.andThen (.ok a, idx) next = next a idx := rfl

mutual
theorem IsBlock.parse {items part rest : List (RawItem F)} {nodes : List (Node F)}
    (h : IsBlock part nodes) {idx n : Nat} {stop : Bool} (hdrop : items.drop idx = part ++ rest)
    (hfollows : Follows stop rest) (hn : part.length < n) :
    parseBlock items n idx stop = (.ok nodes, idx + part.length) := by
  cases n with
  | zero => cases hn
  | succ n =>
    match h with
    | .nil => exact parseBlock_stop hdrop hfollows
    | .text s h =>
      have hmore := h.parse (n := n) (drop_succ_of_drop hdrop) hfollows (Nat.lt_of_succ_lt_succ hn)
      rw [parseBlock, getElem?_of_drop hdrop]
      simp only [hmore, andThen_pure, List.length_cons]
      rw [Nat.add_right_comm, Nat.add_assoc]
    | .pipeline haction h =>
      have hmore := h.parse (n := n) (drop_succ_of_drop hdrop) hfollows (Nat.lt_of_succ_lt_succ hn)
      rw [parseBlock, getElem?_of_drop hdrop]
      simp only [haction.parse, hmore, andThen_pure, List.length_cons]
      rw [Nat.add_right_comm, Nat.add_assoc]
    | .cond haction hbody hbranches h =>
      simp only [List.length_cons, List.length_append] at hn ⊢
      simp only [List.cons_append, List.append_assoc] at hdrop
      have hdrop₁ := drop_succ_of_drop hdrop
      have hdrop₂ := drop_of_drop hdrop₁
      have hbodyParse := hbody.parse (n := n) hdrop₁ (hbranches.follows _) (by omega)
      have hbranchesParse := hbranches.parse (n := n) hdrop₂ (by omega)
      have hmore := h.parse (n := n) (drop_of_drop hdrop₂) hfollows (by omega)
      rw [parseBlock, getElem?_of_drop hdrop]
      simp only [haction.parse, hbodyParse, hbranchesParse, hmore, andThen_pure]
      congr 1
      omega
    | .range haction hbody hend h =>
      simp only [List.length_cons, List.length_append] at hn ⊢
      simp only [List.cons_append, List.append_assoc] at hdrop
      have hdrop₁ := drop_succ_of_drop hdrop
      have hdrop₂ := drop_of_drop hdrop₁
      have hbodyParse := hbody.parse (n := n) hdrop₁ (hend.follows _) (by omega)
      have hendParse := (hend.parse (n := n) hdrop₂ (by omega)).2
      have hmore := h.parse (n := n) (drop_of_drop hdrop₂) hfollows (by omega)
      rw [parseBlock, getElem?_of_drop hdrop]
      simp only [haction.parse, hbodyParse, hendParse, hmore, andThen_pure]
      congr 1
      omega
theorem IsBranches.parse {items part rest : List (RawItem F)}
    {branches : List (Pipeline F × List (Node F))} {elseBranch : Option (List (Node F))}
    (h : IsBranches part branches elseBranch) {idx n : Nat} (hdrop : items.drop idx = part ++ rest)
    (hn : part.length < n) :
    parseBranches items n idx = (.ok (branches, elseBranch), idx + part.length) := by
  match h with
  | .close h => exact (h.parse hdrop hn).1
  | .elseIf haction hbody hbranches =>
    cases n with
    | zero => cases hn
    | succ n =>
      simp only [List.length_cons, List.length_append] at hn ⊢
      simp only [List.cons_append, List.append_assoc] at hdrop
      have hdrop₁ := drop_succ_of_drop hdrop
      have hbodyParse := hbody.parse (n := n) hdrop₁ (hbranches.follows _) (by omega)
      have hbranchesParse := hbranches.parse (n := n) (drop_of_drop hdrop₁) (by omega)
      rw [parseBranches, actionAt_of_drop hdrop haction]
      simp only [hbodyParse, hbranchesParse, andThen_pure]
      congr 1
      omega
theorem IsEnd.parse {items part rest : List (RawItem F)} {elseBranch : Option (List (Node F))}
    (h : IsEnd part elseBranch) {idx n : Nat} (hdrop : items.drop idx = part ++ rest)
    (hn : part.length < n) :
    parseBranches items n idx = (.ok ([], elseBranch), idx + part.length) ∧
      parseRangeEnd items n idx = (.ok elseBranch, idx + part.length) := by
  cases n with
  | zero => cases hn
  | succ n =>
    match h with
    | .fin haction =>
      rw [parseBranches, parseRangeEnd, actionAt_of_drop hdrop haction]
      exact ⟨rfl, rfl⟩
    | .otherwise haction hbody hend =>
      simp only [List.length_cons, List.length_append, List.length_nil] at hn ⊢
      simp only [List.cons_append, List.append_assoc, List.nil_append] at hdrop
      have hdrop₁ := drop_succ_of_drop hdrop
      have hbodyParse := hbody.parse (n := n) hdrop₁ (follows_action hend trivial _) (by omega)
      have hendParse := expectEnd_of_drop (drop_of_drop hdrop₁) hend
      rw [parseBranches, parseRangeEnd, actionAt_of_drop hdrop haction]
      simp only [hbodyParse, hendParse, andThen_pure]
      refine ⟨?_, ?_⟩ <;> congr 1 <;> omega
end

-- ---- The index

/-- The index does not go back and not past the end, and with `n` steps the run comes to its end. -/
structure Safe (items : List (RawItem F)) (n idx : Nat) (r : Parsed α) : Prop where
  forward : idx ≤ r.2
  inside : idx ≤ items.length → r.2 ≤ items.length
  halts : idx ≤ items.length → items.length < n + idx → r.1 ≠ .error .outOfFuel

theorem Safe.stay (items : List (RawItem F)) (n idx : Nat) {result : Except Halt α}
    (h : result ≠ .error .outOfFuel) : Safe items n idx (result, idx) :=
  ⟨Nat.le_refl idx, id, fun _ _ => h⟩

theorem Safe.step {r : Parsed α} (hitem : items[idx]? = some item) (h : Safe items n (idx + 1) r) :
    Safe items (n + 1) idx r := by
  obtain ⟨hlt, -⟩ := List.getElem?_eq_some_iff.mp hitem
  exact ⟨Nat.le_of_succ_le h.forward, fun _ => h.inside hlt,
    fun _ hn => h.halts hlt (by omega)⟩

theorem Safe.andThen {r : Parsed α} {next : α → Nat → Parsed β} (h : Safe items n idx r)
    (hnext : ∀ a idx', Safe items n idx' (next a idx')) : Safe items n idx (r.andThen next) := by
  obtain ⟨result, idx'⟩ := r
  cases result with
  | error halt =>
    exact ⟨h.forward, h.inside, fun hle hn heq => h.halts hle hn (congrArg _ (Except.error.inj heq))⟩
  | ok a =>
    have hforward : idx ≤ idx' := h.forward
    refine ⟨Nat.le_trans hforward (hnext a idx').forward,
      fun hle => (hnext a idx').inside (h.inside hle), fun hle hn => ?_⟩
    exact (hnext a idx').halts (h.inside hle) (by omega)

theorem map_halts (tokens : List (Token F)) (f : Pipeline F → ParsedAction F) :
    (parsePipelineTokens tokens).map f ≠ .error .outOfFuel := by
  have h := parsePipelineTokens_halts tokens
  cases hresult : parsePipelineTokens tokens with
  | error halt => exact fun heq => h (hresult.trans (congrArg _ (Except.error.inj heq)))
  | ok pipeline => exact nofun

theorem parseRange_halts (tokens : List (Token F)) : parseRange tokens ≠ .error .outOfFuel := by
  unfold parseRange
  split <;> exact map_halts _ _

theorem parseElse_halts (tokens : List (Token F)) : parseElse tokens ≠ .error .outOfFuel := by
  unfold parseElse
  split
  · split
    · exact map_halts _ _
    · exact nofun
  · exact nofun

theorem parseAssignment_halts (tokens : List (Token F)) :
    parseAssignment tokens ≠ .error .outOfFuel := by
  unfold parseAssignment
  split
  · split <;> exact map_halts _ _
  · exact map_halts _ _

theorem parseActionTokens_halts (tokens : List (Token F)) :
    parseActionTokens tokens ≠ .error .outOfFuel := by
  by_cases hkeyword : Keyword tokens
  · obtain ⟨id, rest, rfl, hid⟩ := hkeyword
    rw [parseActionTokens_keyword hid]
    split
    · exact nofun
    · split
      · exact parseElse_halts rest
      · split
        · exact map_halts rest _
        · exact parseRange_halts rest
  · by_cases hne : tokens = []
    · subst hne
      exact nofun
    · rw [parseActionTokens_other hne hkeyword]
      exact parseAssignment_halts tokens

theorem actionAt_halts (items : List (RawItem F)) (idx : Nat) :
    actionAt items idx ≠ .error .outOfFuel := by
  unfold actionAt
  split
  · exact nofun
  · next item _ =>
    cases item with
    | text s => exact nofun
    | action tokens => exact parseActionTokens_halts tokens

theorem expectEnd_safe (items : List (RawItem F)) (n idx : Nat) :
    Safe items n idx (expectEnd items idx) := by
  unfold expectEnd
  split
  · next haction =>
    obtain ⟨tokens, hitem, -⟩ := actionAt_ok haction
    obtain ⟨hlt, -⟩ := List.getElem?_eq_some_iff.mp hitem
    exact ⟨Nat.le_succ idx, fun _ => hlt, fun _ _ => nofun⟩
  · exact .stay items n idx nofun

structure AllSafe (items : List (RawItem F)) (n : Nat) : Prop where
  block : ∀ idx stop, Safe items n idx (parseBlock items n idx stop)
  branches : ∀ idx, Safe items n idx (parseBranches items n idx)
  rangeEnd : ∀ idx, Safe items n idx (parseRangeEnd items n idx)

theorem closed_safe {result : Except Halt α} (hitem : items[idx]? = some item)
    (h : result ≠ .error .outOfFuel) : Safe items (n + 1) idx (result, idx + 1) :=
  .step hitem (.stay items n (idx + 1) h)

theorem allSafe (items : List (RawItem F)) (n : Nat) : AllSafe items n := by
  induction n with
  | zero =>
    have hnone : ∀ {β : Type} (idx : Nat),
        Safe items 0 idx ((.error .outOfFuel, idx) : Parsed β) := fun idx =>
      ⟨Nat.le_refl idx, id, fun hle hn => absurd hn (by omega)⟩
    exact ⟨fun idx _ => hnone idx, fun idx => hnone idx, fun idx => hnone idx⟩
  | succ n ih =>
    refine ⟨fun idx stop => ?_, fun idx => ?_, fun idx => ?_⟩
    · rw [parseBlock]
      split
      · exact .stay _ _ _ (by split <;> exact nofun)
      · next hitem => exact .step hitem ((ih.block _ _).andThen fun _ _ => .stay _ _ _ nofun)
      · next tokens hitem =>
        split
        · next halt herror =>
          exact .stay _ _ _ fun heq =>
            parseActionTokens_halts tokens (herror.trans (congrArg _ (Except.error.inj heq)))
        · exact .stay _ _ _ (by split <;> exact nofun)
        · exact .stay _ _ _ (by split <;> exact nofun)
        · exact .stay _ _ _ (by split <;> exact nofun)
        · exact .step hitem ((ih.block _ _).andThen fun _ _ => (ih.branches _).andThen fun _ _ =>
            (ih.block _ _).andThen fun _ _ => .stay _ _ _ nofun)
        · exact .step hitem ((ih.block _ _).andThen fun _ _ => (ih.rangeEnd _).andThen fun _ _ =>
            (ih.block _ _).andThen fun _ _ => .stay _ _ _ nofun)
        · exact .step hitem ((ih.block _ _).andThen fun _ _ => .stay _ _ _ nofun)
    · rw [parseBranches]
      split
      · next halt herror =>
        exact .stay _ _ _ fun heq =>
          actionAt_halts items idx (herror.trans (congrArg _ (Except.error.inj heq)))
      · next haction =>
        obtain ⟨tokens, hitem, -⟩ := actionAt_ok haction
        exact .step hitem ((ih.block _ _).andThen fun _ _ => (ih.branches _).andThen fun _ _ =>
          .stay _ _ _ nofun)
      · next haction =>
        obtain ⟨tokens, hitem, -⟩ := actionAt_ok haction
        exact .step hitem ((ih.block _ _).andThen fun _ _ => (expectEnd_safe _ _ _).andThen
          fun _ _ => .stay _ _ _ nofun)
      · next haction =>
        obtain ⟨tokens, hitem, -⟩ := actionAt_ok haction
        exact closed_safe hitem nofun
      · exact .stay _ _ _ nofun
    · rw [parseRangeEnd]
      split
      · next halt herror =>
        exact .stay _ _ _ fun heq =>
          actionAt_halts items idx (herror.trans (congrArg _ (Except.error.inj heq)))
      · next haction =>
        obtain ⟨tokens, hitem, -⟩ := actionAt_ok haction
        exact .step hitem ((ih.block _ _).andThen fun _ _ => (expectEnd_safe _ _ _).andThen
          fun _ _ => .stay _ _ _ nofun)
      · next haction =>
        obtain ⟨tokens, hitem, -⟩ := actionAt_ok haction
        exact closed_safe hitem nofun
      · exact .stay _ _ _ nofun

/-- The parser accepts what the grammar has, with the tree of its derivation, and its index comes to
the end of the items and in no call past it. -/
theorem parseItems_iff (items : List (RawItem F)) :
    (∀ nodes, (parseItems items).1 = .ok nodes ↔ IsBlock items nodes) ∧
    (∀ nodes, (parseItems items).1 = .ok nodes → (parseItems items).2 = items.length) ∧
    (∀ n idx stop, idx ≤ items.length → (parseBlock items n idx stop).2 ≤ items.length) ∧
    (parseItems items).1 ≠ .error .outOfFuel := by
  have hsafe := (allSafe items (items.length + 1)).block 0 false
  have hsound : ∀ nodes, (parseItems items).1 = .ok nodes →
      IsBlock items nodes ∧ (parseItems items).2 = items.length := by
    intro nodes h
    obtain ⟨part, ⟨hdrop, hidx⟩, hblock, hend⟩ := (sound items (items.length + 1)).block 0 false nodes
      (parseItems items).2 (Prod.ext h rfl)
    have hlength : items.length ≤ (parseItems items).2 := List.getElem?_eq_none_iff.mp (hend rfl)
    rw [List.drop_of_length_le hlength, List.append_nil, List.drop_zero] at hdrop
    subst hdrop
    exact ⟨hblock, hidx.trans (Nat.zero_add _)⟩
  refine ⟨fun nodes => ⟨fun h => (hsound nodes h).1, fun h => ?_⟩, fun nodes h => (hsound nodes h).2,
    fun n idx stop => ((allSafe items n).block idx stop).inside,
    hsafe.halts (Nat.zero_le _) (Nat.lt_succ_self _)⟩
  have hdrop : items.drop 0 = items ++ [] := by simp
  have hparse : parseBlock items (items.length + 1) 0 false = (.ok nodes, 0 + items.length) :=
    h.parse hdrop rfl (Nat.lt_succ_self _)
  exact congrArg Prod.fst hparse

end

end Rekuiper.Connectors.DataTemplate
