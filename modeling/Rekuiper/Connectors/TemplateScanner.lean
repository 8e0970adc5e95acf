import Rekuiper.Connectors.Delimited
import Rekuiper.Connectors.TemplateParser
import Rekuiper.Connectors.TemplateValues

/-!
# Scanning data templates

A template is cut into texts and actions, and an action into tokens. Where an action ends is found
before its tokens are: both skip what is in quotes. A minus sign behind the opening braces trims
the text before them.
-/

namespace Rekuiper.Connectors.DataTemplate

open Lib

variable {F : Type}

/-- What the standard library knows of characters; below 128 they are those of ASCII. -/
structure CharClasses where
  /-- `char::is_alphabetic` -/
  isAlphabetic : Char → Bool
  /-- `char::is_alphanumeric` -/
  isAlphanumeric : Char → Bool
  alphabetic_ascii : ∀ c, c.toNat < 128 → isAlphabetic c = c.isAlpha
  alphanumeric_ascii : ∀ c, c.toNat < 128 → isAlphanumeric c = c.isAlphanum

namespace CharClasses

variable (cls : CharClasses)

def isWordChar (c : Char) : Bool := cls.isAlphanumeric c || c == '_'

def isPathChar (c : Char) : Bool := cls.isWordChar c || c == '.'

end CharClasses

-- ---- Tokens

def unescape : Char → List Char
  | 'n' => ['\n']
  | 't' => ['\t']
  | 'r' => ['\r']
  | '\\' => ['\\']
  | '"' => ['"']
  | other => ['\\', other]

def readString (quote : Char) : List Char → Option (List Char × List Char)
  | [] => none
  | [c] => if c = quote then some ([], []) else none
  | c :: d :: text =>
    if c = quote then some ([], d :: text)
    else if quote = '"' ∧ c = '\\' then
      (readString quote text).map fun r => (unescape d ++ r.1, r.2)
    else (readString quote (d :: text)).map fun r => (c :: r.1, r.2)

def spanNumber (hasDot : Bool) : List Char → (List Char × Bool) × List Char
  | [] => (([], hasDot), [])
  | c :: text =>
    if c.isDigit then
      let r := spanNumber hasDot text
      ((c :: r.1.1, r.1.2), r.2)
    else if !hasDot && c == '.' && text.head?.any Char.isDigit then
      let r := spanNumber true text
      ((c :: r.1.1, r.1.2), r.2)
    else (([], hasDot), c :: text)

def beginsNumber (c : Char) (text : List Char) : Bool :=
  c.isDigit || c == '-' && text.head?.any fun d => d.isDigit || d == '.'

def readNumber (env : TemplateEnv F) (c : Char) (text : List Char) : Option (Token F × List Char) :=
  let r := if c = '-' then spanNumber false text else spanNumber false (c :: text)
  let s := String.ofList (if c = '-' then c :: r.1.1 else r.1.1)
  if r.1.2 then (env.parseF64 s).map fun f => (.floatLit f, r.2)
  else (parseI64 s).map fun n => (.intLit (Int64.ofInt n), r.2)

def splitDots (path : List Char) : List String :=
  (path.splitOn '.').map String.ofList

def wordToken (word : String) : Token F :=
  if word = "true" then .boolLit true
  else if word = "false" then .boolLit false
  else if word = "nil" then .nilLit
  else .ident word

def varToken (path : List Char) : Token F :=
  match splitDots path with
  | name :: fields => if path = [] then .varField "$" [] else .varField ("$" ++ name) fields
  | [] => .varField "$" []

/-- The first token of a text, and what is left; `none` for a blank. -/
def readToken (cls : CharClasses) (env : TemplateEnv F) (c : Char) (text : List Char) :
    Except Halt (Option (Token F) × List Char) :=
  if isWhitespace c then .ok (none, text)
  else if c = '|' then .ok (some .pipe, text)
  else if c = ',' then .ok (some .comma, text)
  else if c = '(' then .ok (some .lParen, text)
  else if c = ')' then .ok (some .rParen, text)
  else if c = ':' ∧ text.head? = some '=' then .ok (some .assign, text.tail)
  else if c = '=' then .ok (some .assign, text)
  else if c = '"' ∨ c = '\x60' then
    match readString c text with
    | some (s, rest) => .ok (some (.stringLit (String.ofList s)), rest)
    | none => fail "unclosed quote"
  else if beginsNumber c text then
    -- what is no number begins nothing else
    match readNumber env c text with
    | some (token, rest) => .ok (some token, rest)
    | none => fail ("unexpected character '" ++ String.singleton c ++ "'")
  else if c = '.' then
    if text.head?.any cls.isWordChar then
      .ok (some (.dotField (splitDots (text.takeWhile cls.isPathChar))),
        text.dropWhile cls.isPathChar)
    else .ok (some .dot, text)
  else if c = '$' then
    .ok (some (varToken (text.takeWhile cls.isPathChar)), text.dropWhile cls.isPathChar)
  else if cls.isAlphabetic c || c == '_' then
    .ok (some (wordToken (String.ofList (c :: text.takeWhile cls.isWordChar))),
      text.dropWhile cls.isWordChar)
  else fail ("unexpected character '" ++ String.singleton c ++ "'")

/-- The loop of `tokenize_action` -/
def tokenizeFrom (cls : CharClasses) (env : TemplateEnv F) :
    Nat → List Char → Except Halt (List (Token F))
  | _, [] => .ok []
  | 0, _ :: _ => .error .outOfFuel
  | n + 1, c :: text => do
    let r ← readToken cls env c text
    let tokens ← tokenizeFrom cls env n r.2
    return r.1.toList ++ tokens

def tokenizeAction (cls : CharClasses) (env : TemplateEnv F) (raw : List Char) :
    Except Halt (List (Token F)) :=
  tokenizeFrom cls env raw.length raw

-- ---- Items

/-- What stands before the first opening braces and behind them. -/
def findOpen : List Char → Option (List Char × List Char)
  | '{' :: '{' :: text => some ([], text)
  | c :: text => (findOpen text).map fun r => (c :: r.1, r.2)
  | [] => none

inductive Quoting
  | outside
  | inside (quote : Char)
  | escaped (quote : Char)

def Quoting.next : Quoting → Char → Quoting
  | .outside, c => if c = '"' ∨ c = '\x60' then .inside c else .outside
  | .inside quote, c =>
    if c = quote then .outside
    else if quote = '"' ∧ c = '\\' then .escaped quote
    else .inside quote
  | .escaped quote, _ => .inside quote

def scanAction : Quoting → List Char → Option ((List Char × Bool) × List Char)
  | .outside, '-' :: '}' :: '}' :: text => some (([], true), text)
  | .outside, '}' :: '}' :: text => some (([], false), text)
  | quoting, c :: text =>
    (scanAction (quoting.next c) text).map fun r => ((c :: r.1.1, r.1.2), r.2)
  | _, [] => none

def trimStart (text : List Char) : List Char := text.dropWhile isWhitespace

def trimEnd (text : List Char) : List Char := (text.reverse.dropWhile isWhitespace).reverse

def trimMarker : List Char → Bool × List Char
  | '-' :: text => (true, text)
  | text => (false, text)

def textItem (text : List Char) : List (RawItem F) :=
  if text.isEmpty then [] else [.text (String.ofList text)]

def actionItem (tokens : List (Token F)) : List (RawItem F) :=
  if tokens.isEmpty then [] else [.action tokens]

/-- The loop of `scan_raw_items` -/
def scanFrom (cls : CharClasses) (env : TemplateEnv F) :
    Nat → List Char → Except Halt (List (RawItem F))
  | _, [] => .ok []
  | 0, _ :: _ => .error .outOfFuel
  | n + 1, c :: rest =>
    match findOpen (c :: rest) with
    | none => .ok [.text (String.ofList (c :: rest))]
    | some (textBefore, afterOpen) =>
      let (trimPrev, actionStart) := trimMarker afterOpen
      match scanAction .outside actionStart with
      | none => fail "unclosed action"
      | some ((content, trimNext), remaining) => do
        let tokens ← tokenizeAction cls env content
        let items ← scanFrom cls env n (if trimNext then trimStart remaining else remaining)
        return textItem (if trimPrev then trimEnd textBefore else textBefore) ++
          (actionItem tokens ++ items)

def scanRawItems (cls : CharClasses) (env : TemplateEnv F) (template : String) :
    Except Halt (List (RawItem F)) :=
  scanFrom cls env template.toList.length template.toList

def parseTemplate (cls : CharClasses) (env : TemplateEnv F) (template : String) :
    Except Halt (List (Node F)) := do
  let items ← scanRawItems cls env template
  (parseItems items).1

end Rekuiper.Connectors.DataTemplate
