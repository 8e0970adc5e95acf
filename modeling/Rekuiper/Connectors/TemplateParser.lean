import Mathlib.Data.List.Basic

/-!
# Parsing data templates

The items of a template are its texts and the tokens of its actions. One index moves over the items;
a block that is nested in another ends before the action that ends it, which its caller reads again.
-/

namespace Rekuiper.Connectors.DataTemplate

variable {F : Type}

-- ---- Tokens and trees

inductive Token (F : Type)
  | dot
  | dotField (fields : List String)
  | varField (name : String) (fields : List String)
  | stringLit (s : String)
  | intLit (i : Int64)
  | floatLit (f : F)
  | boolLit (b : Bool)
  | nilLit
  | ident (name : String)
  | pipe
  | assign
  | comma
  | lParen
  | rParen

inductive RawItem (F : Type)
  | text (s : String)
  | action (tokens : List (Token F))

inductive PathBase
  | dot
  | var (name : String)

/-- A term; a command is its terms, and a pipeline its commands. -/
inductive Term (F : Type)
  | fieldPath (base : PathBase) (fields : List String)
  | stringLit (s : String)
  | intLit (i : Int64)
  | floatLit (f : F)
  | boolLit (b : Bool)
  | nilLit
  | ident (name : String)
  | subExpr (pipeline : List (List (Term F)))

abbrev Command (F : Type) := List (Term F)

abbrev Pipeline (F : Type) := List (Command F)

inductive Node (F : Type)
  | text (s : String)
  | action (assignVars : Option (List String)) (pipeline : Pipeline F)
  | cond (branches : List (Pipeline F × List (Node F))) (elseBranch : Option (List (Node F)))
  | range (vars : Option (String × Option String)) (pipeline : Pipeline F) (body : List (Node F))
      (elseBranch : Option (List (Node F)))

inductive ParsedAction (F : Type)
  | fin
  | otherwise
  | elseIf (cond : Pipeline F)
  | cond (cond : Pipeline F)
  | range (vars : Option (String × Option String)) (pipeline : Pipeline F)
  | pipeline (assignVars : Option (List String)) (pipeline : Pipeline F)

/-- Why there is no result: an error, or fewer steps than the run takes. -/
inductive Halt
  | error (message : String)
  | outOfFuel

def fail {α : Type} (what : String) : Except Halt α := .error (.error ("template: sink:1: " ++ what))

-- ---- Pipelines

def Token.term : Token F → Option (Term F)
  | .dot => some (.fieldPath .dot [])
  | .dotField fields => some (.fieldPath .dot fields)
  | .varField name fields => some (.fieldPath (.var name) fields)
  | .stringLit s => some (.stringLit s)
  | .intLit i => some (.intLit i)
  | .floatLit f => some (.floatLit f)
  | .boolLit b => some (.boolLit b)
  | .nilLit => some .nilLit
  | .ident name => some (.ident name)
  | _ => none

def closing : Nat → List (Token F) → Option (List (Token F) × List (Token F))
  | _, [] => none
  | depth, .lParen :: tokens => (closing (depth + 1) tokens).map fun r => (.lParen :: r.1, r.2)
  | 0, .rParen :: tokens => some ([], tokens)
  | depth + 1, .rParen :: tokens => (closing depth tokens).map fun r => (.rParen :: r.1, r.2)
  | depth, token :: tokens => (closing depth tokens).map fun r => (token :: r.1, r.2)

/-- `parse_term`; `parsePipeline` reads what is inside a parenthesis. -/
def parseTerm (parsePipeline : List (Token F) → Except Halt (Pipeline F)) :
    List (Token F) → Except Halt (Term F × List (Token F))
  | [] => fail "unexpected end of action"
  | .lParen :: tokens =>
    match closing 0 tokens with
    | none => fail "unclosed parenthesis"
    | some (sub, rest) => do
      let pipeline ← parsePipeline sub
      return (.subExpr pipeline, rest)
  | token :: tokens =>
    match token.term with
    | some term => .ok (term, tokens)
    | none => fail "syntax error in expression"

/-- The loops of `parse_pipeline_tokens`, after some commands and the terms of the next one. -/
def parseCommands : Nat → Pipeline F → Command F → List (Token F) → Except Halt (Pipeline F)
  | _, commands, [], [] => if commands.isEmpty then fail "empty pipeline" else .ok commands
  | _, commands, terms, [] => .ok (commands ++ [terms])
  | 0, _, _, _ :: _ => .error .outOfFuel
  | _ + 1, _, [], .pipe :: _ => fail "empty command in pipeline"
  | n + 1, commands, terms, .pipe :: tokens => parseCommands n (commands ++ [terms]) [] tokens
  | n + 1, commands, terms, token :: tokens => do
    let r ← parseTerm (fun sub => parseCommands n [] [] sub) (token :: tokens)
    parseCommands n commands (terms ++ [r.1]) r.2

def parsePipelineTokens (tokens : List (Token F)) : Except Halt (Pipeline F) :=
  parseCommands tokens.length [] [] tokens

-- ---- Actions

/-- The tokens before the first assignment and after it. -/
def splitAssign : List (Token F) → Option (List (Token F) × List (Token F))
  | [] => none
  | .assign :: tokens => some ([], tokens)
  | token :: tokens => (splitAssign tokens).map fun r => (token :: r.1, r.2)

def varNames (tokens : List (Token F)) : List String :=
  tokens.filterMap fun
    | .varField name _ => some name
    | _ => none

def rangeVars : List String → Option (String × Option String)
  | [v] => some (v, none)
  | [i, v] => some (i, some v)
  | _ => none

def parseElse : List (Token F) → Except Halt (ParsedAction F)
  | .ident id :: tokens =>
    if id = "if" then (parsePipelineTokens tokens).map .elseIf else .ok .otherwise
  | _ => .ok .otherwise

def parseRange (tokens : List (Token F)) : Except Halt (ParsedAction F) :=
  match splitAssign tokens with
  | some (left, right) => (parsePipelineTokens right).map (.range (rangeVars (varNames left)))
  | none => (parsePipelineTokens tokens).map (.range none)

def parseAssignment (tokens : List (Token F)) : Except Halt (ParsedAction F) :=
  match splitAssign tokens with
  | some (left, right) =>
    if (varNames left).isEmpty then (parsePipelineTokens tokens).map (.pipeline none)
    else (parsePipelineTokens right).map (.pipeline (some (varNames left)))
  | none => (parsePipelineTokens tokens).map (.pipeline none)

def parseActionTokens : List (Token F) → Except Halt (ParsedAction F)
  | [] => fail "empty action"
  | .ident id :: tokens =>
    if id = "end" then .ok .fin
    else if id = "else" then parseElse tokens
    else if id = "if" then (parsePipelineTokens tokens).map .cond
    else if id = "range" then parseRange tokens
    else parseAssignment (.ident id :: tokens)
  | token :: tokens => parseAssignment (token :: tokens)

-- ---- Blocks

abbrev Parsed (α : Type) := Except Halt α × Nat

def Parsed.andThen {α β : Type} (r : Parsed α) (next : α → Nat → Parsed β) : Parsed β :=
  match r.1 with
  | .ok a => next a r.2
  | .error halt => (.error halt, r.2)

def RawItem.parse : RawItem F → Except Halt (ParsedAction F)
  | .text _ => fail "unexpected EOF"
  | .action tokens => parseActionTokens tokens

def actionAt (items : List (RawItem F)) (idx : Nat) : Except Halt (ParsedAction F) :=
  match items[idx]? with
  | none => fail "unexpected EOF"
  | some item => item.parse

/-- The `end` after an `else` -/
def expectEnd (items : List (RawItem F)) (idx : Nat) : Parsed Unit :=
  match actionAt items idx with
  | .ok .fin => (.ok (), idx + 1)
  | _ => (fail "unexpected EOF", idx)

mutual
/-- `parse_block`, with a bound on its steps -/
def parseBlock (items : List (RawItem F)) : Nat → Nat → Bool → Parsed (List (Node F))
  | 0, idx, _ => (.error .outOfFuel, idx)
  | n + 1, idx, stop =>
    match items[idx]? with
    | none => (if stop then fail "unexpected EOF" else .ok [], idx)
    | some (.text s) =>
      (parseBlock items n (idx + 1) stop).andThen fun nodes idx => (.ok (.text s :: nodes), idx)
    | some (.action tokens) =>
      match parseActionTokens tokens with
      | .error halt => (.error halt, idx)
      | .ok .fin => (if stop then .ok [] else fail "unexpected \x7b\x7bend\x7d\x7d", idx)
      | .ok .otherwise => (if stop then .ok [] else fail "unexpected \x7b\x7belse\x7d\x7d", idx)
      | .ok (.elseIf _) => (if stop then .ok [] else fail "unexpected \x7b\x7belse if\x7d\x7d", idx)
      | .ok (.cond cond) =>
        (parseBlock items n (idx + 1) true).andThen fun body idx =>
        (parseBranches items n idx).andThen fun branches idx =>
        (parseBlock items n idx stop).andThen fun nodes idx =>
          (.ok (.cond ((cond, body) :: branches.1) branches.2 :: nodes), idx)
      | .ok (.range vars pipeline) =>
        (parseBlock items n (idx + 1) true).andThen fun body idx =>
        (parseRangeEnd items n idx).andThen fun elseBranch idx =>
        (parseBlock items n idx stop).andThen fun nodes idx =>
          (.ok (.range vars pipeline body elseBranch :: nodes), idx)
      | .ok (.pipeline vars pipeline) =>
        (parseBlock items n (idx + 1) stop).andThen fun nodes idx =>
          (.ok (.action vars pipeline :: nodes), idx)
/-- The loop after the first block of an `if` -/
def parseBranches (items : List (RawItem F)) :
    Nat → Nat → Parsed (List (Pipeline F × List (Node F)) × Option (List (Node F)))
  | 0, idx => (.error .outOfFuel, idx)
  | n + 1, idx =>
    match actionAt items idx with
    | .error halt => (.error halt, idx)
    | .ok (.elseIf cond) =>
      (parseBlock items n (idx + 1) true).andThen fun body idx =>
      (parseBranches items n idx).andThen fun branches idx =>
        (.ok ((cond, body) :: branches.1, branches.2), idx)
    | .ok .otherwise =>
      (parseBlock items n (idx + 1) true).andThen fun body idx =>
      (expectEnd items idx).andThen fun _ idx => (.ok ([], some body), idx)
    | .ok .fin => (.ok ([], none), idx + 1)
    | .ok _ => (fail "syntax error in control block", idx)
/-- What follows the block of a `range` -/
def parseRangeEnd (items : List (RawItem F)) : Nat → Nat → Parsed (Option (List (Node F)))
  | 0, idx => (.error .outOfFuel, idx)
  | n + 1, idx =>
    match actionAt items idx with
    | .error halt => (.error halt, idx)
    | .ok .otherwise =>
      (parseBlock items n (idx + 1) true).andThen fun body idx =>
      (expectEnd items idx).andThen fun _ idx => (.ok (some body), idx)
    | .ok .fin => (.ok none, idx + 1)
    | .ok _ => (fail "syntax error in range block", idx)
end

/-- The block at the top of a template, with as many steps as it has items and one more. -/
def parseItems (items : List (RawItem F)) : Parsed (List (Node F)) :=
  parseBlock items (items.length + 1) 0 false

end Rekuiper.Connectors.DataTemplate
