import Rekuiper.Parser.Cursor
import Rekuiper.Sql.Operators

/-!
# The expression parser

One production for each level of precedence. They are given the parser of whole expressions, which
they call for what stands in parentheses, brackets, calls and `CASE`; `parseExpr` ties the knot.
-/

namespace Rekuiper.Parser

open Lib Scan Sql

/-- What the standard library does for numbers that are no integers. -/
class ParseFloat (F : Type) where
  /-- `parse::<f64>` -/
  parseF64 : String → Option F
  /-- `as u64`, of a finite number that is whole and not negative -/
  wholeU64 : F → Option Nat

/-- The largest `u64`. -/
def maxU64 : Nat := 2 ^ 64 - 1

variable {F : Type}

-- ---- Numbers

def isNumberStart : List Char → Bool
  | '.' :: n :: _ => n.isDigit
  | c :: _ => c.isDigit
  | [] => false

/-- The exponent that a text begins with: `e`, a sign and digits, or nothing. -/
def scanExponent : List Char → List Char
  | e :: text =>
    if e == 'e' || e == 'E' then
      let sign := text.take (match text with
        | '+' :: _ | '-' :: _ => 1
        | _ => 0)
      let digits := (text.drop sign.length).takeWhile Char.isDigit
      if digits.isEmpty then [] else e :: sign ++ digits
    else []
  | [] => []

def scanFraction (hasIntPart : Bool) : List Char → List Char
  | '.' :: text =>
    let digits := text.takeWhile Char.isDigit
    if !digits.isEmpty || hasIntPart then '.' :: digits else []
  | _ => []

def scanNumber (text : List Char) : List Char :=
  let int := text.takeWhile Char.isDigit
  let fraction := scanFraction (!int.isEmpty) (text.drop int.length)
  let exponent := scanExponent (text.drop (int.length + fraction.length))
  int ++ fraction ++ exponent

def numberValue [Float64 F] [ParseFloat F] (text : List Char) : Option (Value F) :=
  let float := (ParseFloat.parseF64 (String.ofList text)).map ofFloat
  if '.' ∈ text ∨ 'e' ∈ text ∨ 'E' ∈ text then float
  else
    match parseDigits text with
    | some n => if n ≤ maxU64 then some (.number (.int n)) else float
    | none => float

section
variable [Unicode] [Float64 F] [ParseFloat F]

def parseNumber : P (Expr F) := do
  skipWhitespace
  let text := scanNumber (← rest)
  if text.isEmpty || text == ['.'] then fail "Invalid number literal"
  else
    advance (byteLen text)
    match numberValue text with
    | some value => return .literal value
    | none =>
      let shown := String.ofList text
      fail s!"Invalid number literal '{shown}'"

-- ---- Lists

def isClosed : Option Char → P Bool
  | some close => looksAt close
  | none => return false

/-- An expression, unless something else is next. -/
def parseUnless (other : P Bool) (expr : P (Expr F)) : P (Option (Expr F)) := do
  if ← other then return none else some <$> expr

def parseBehind (kw : String) (expr : P (Expr F)) : P (Option (Expr F)) := do
  if ← matchKeyword kw then some <$> expr else return none

/-- Items that are separated by commas, up to what is no comma. With `close` the items may be
followed by a comma before it. -/
def parseItems (close : Option Char) (item : P (List (Expr F))) : P (List (Expr F)) :=
  loop (fun items => do
    skipWhitespace
    if ← isClosed close then return .inr items
    else
      let items := items ++ (← item)
      skipWhitespace
      if ← looksAt ',' then
        advance 1
        return .inl items
      else return .inr items) []

def parseItemsUntil (close : Char) (trailing : Bool) (item : P (List (Expr F))) :
    P (List (Expr F)) := do
  skipWhitespace
  if ← looksAt close then
    skipWhitespace
    expectChar close
    return []
  else
    let items ← parseItems (if trailing then some close else none) item
    skipWhitespace
    expectChar close
    return items

def parseInList (expr : P (Expr F)) : P (List (Expr F)) := do
  skipWhitespace
  expectChar '('
  skipWhitespace
  if ← looksAt ')' then
    advance 1
    return []
  else
    let list ← parseItems (some ')') (do return [← expr])
    skipWhitespace
    expectChar ')'
    return list

def parseObjectKey : P String := do
  skipWhitespace
  if ← atEnd then fail "Unexpected end of object literal"
  else if (← looksAt '\'') || (← looksAt '"') then parseQuoted "Unterminated object key"
  else
    match ← peekWord with
    | none => fail "Expected object key"
    | some word =>
      consumeWord word
      return word

def parseEntry (expr : P (Expr F)) : P (List (Expr F)) := do
  let key ← parseObjectKey
  skipWhitespace
  expectChar ':'
  let value ← expr
  return [.literal (.string key), value]

def parseArg (expr : P (Expr F)) : P (List (Expr F)) := do
  if ← looksAt '*' then
    let after := (← restAfter 1).dropWhile isWhitespace
    if after.head? == some ',' || after.head? == some ')' then
      advance 1
      return [.wildcard]
    else return [← expr]
  else return [← expr]

-- ---- Postfixes

def parseFieldWord (expected : String) : P String := do
  if ← looksAt '\x60' then parseBacktickIdentifier
  else
    match ← peekWord with
    | none => fail expected
    | some word =>
      advance (wordLen word)
      return word

def parseSliceEnd (expr : P (Expr F)) : P (Option (Expr F)) := do
  advance 1
  skipWhitespace
  let hi ← parseUnless (looksAt ']') expr
  skipWhitespace
  expectChar ']'
  return hi

def parsePostfixOne (expr : P (Expr F)) (e : Expr F) : P (Expr F ⊕ Expr F) := do
  skipWhitespace
  if ← looksAt '.' then
    advance 1
    skipWhitespace
    if ← looksAt '*' then
      advance 1
      return .inl (.fieldAccess e "*")
    else
      let field ← parseFieldWord "Expected field name after '.'"
      return .inl (.fieldAccess e field)
  else if ← looksAtText ['-', '>'] then
    advance 2
    skipWhitespace
    if (← looksAt '\'') || (← looksAt '"') then
      let field ← parseQuoted "Unterminated field name after '->'"
      return .inl (.fieldAccess e field)
    else
      let field ← parseFieldWord "Expected field name after '->'"
      return .inl (.fieldAccess e field)
  else if ← looksAt '[' then
    advance 1
    skipWhitespace
    if ← looksAt ':' then
      let hi ← parseSliceEnd expr
      return .inl (.slice e none hi)
    else
      let first ← expr
      skipWhitespace
      if ← looksAt ':' then
        let hi ← parseSliceEnd expr
        return .inl (.slice e (some first) hi)
      else
        expectChar ']'
        return .inl (.index e first)
  else return .inr e

def parsePostfix (expr : P (Expr F)) (e : Expr F) : P (Expr F) := loop (parsePostfixOne expr) e

-- ---- Primaries

def parseWhen (expr : P (Expr F)) (clauses : List (Expr F × Expr F)) :
    P (List (Expr F × Expr F) ⊕ List (Expr F × Expr F)) := do
  if ← matchKeyword "WHEN" then
    let condition ← expr
    expectKeyword "THEN"
    let result ← expr
    return .inl (clauses ++ [(condition, result)])
  else return .inr clauses

def parseCase (expr : P (Expr F)) : P (Expr F) := do
  let operand ← parseUnless (peekWordIs "WHEN") expr
  let clauses ← loop (parseWhen expr) []
  if clauses.isEmpty then fail "CASE expression requires at least one WHEN clause"
  else
    let elseClause ← parseBehind "ELSE" expr
    expectKeyword "END"
    return .case operand clauses elseClause

/-- One part of an `OVER` clause, if there is one: `PARTITION BY` or `WHEN`. -/
def parseOverPart (expr : P (Expr F)) (parts : Option (Expr F) × Option (Expr F)) :
    P ((Option (Expr F) × Option (Expr F)) ⊕ (Option (Expr F) × Option (Expr F))) := do
  skipWhitespace
  if ← peekWordIs "PARTITION" then
    let _ ← matchKeyword "PARTITION"
    expectKeyword "BY"
    let partition ← expr
    return .inl (some partition, parts.2)
  else if ← peekWordIs "WHEN" then
    let _ ← matchKeyword "WHEN"
    let condition ← expr
    return .inl (parts.1, some condition)
  else return .inr parts

/-- A call, behind its opening parenthesis, with the `OVER` clause that may follow. -/
def parseCall (expr : P (Expr F)) (name : String) : P (Expr F) := do
  advance 1
  let args ← parseItemsUntil ')' false (parseArg expr)
  skipWhitespace
  if ← matchKeyword "OVER" then
    skipWhitespace
    expectChar '('
    let (partitionBy, condition) ← loop (parseOverPart expr) (none, none)
    skipWhitespace
    expectChar ')'
    parsePostfix expr (.over (.call name args) partitionBy condition)
  else parsePostfix expr (.call name args)

/-- What a word stands for: a literal, `CASE`, a call or a column. -/
def parseWordPrimary (expr : P (Expr F)) : P (Expr F) := do
  match ← peekWord with
  | none => fail "Expected expression token"
  | some word =>
    consumeWord word
    if eqIgnoreAsciiCase word "true" then parsePostfix expr (.literal (.bool true))
    else if eqIgnoreAsciiCase word "false" then parsePostfix expr (.literal (.bool false))
    else if eqIgnoreAsciiCase word "null" then parsePostfix expr (.literal .null)
    else if eqIgnoreAsciiCase word "CASE" then
      let e ← parseCase expr
      parsePostfix expr e
    else
      skipWhitespace
      if ← looksAt '(' then parseCall expr word
      else parsePostfix expr (.identifier word)

def parsePrimary (expr : P (Expr F)) : P (Expr F) := do
  skipWhitespace
  if ← atEnd then fail "Unexpected end of expression"
  else
    let rem ← rest
    match rem.head? with
    | some '\x60' =>
      let ident ← parseBacktickIdentifier
      parsePostfix expr (.identifier ident)
    | some '(' =>
      advance 1
      let e ← expr
      skipWhitespace
      expectChar ')'
      parsePostfix expr e
    | some '\'' | some '"' =>
      let s ← parseQuoted "Unterminated string literal"
      parsePostfix expr (.literal (.string s))
    | some '[' =>
      advance 1
      let args ← parseItemsUntil ']' true (do return [← expr])
      parsePostfix expr (.call "array_create" args)
    | some '\x7b' =>
      advance 1
      let args ← parseItemsUntil '\x7d' true (parseEntry expr)
      parsePostfix expr (.call "json_map" args)
    | _ =>
      if isNumberStart rem then
        let num ← parseNumber
        parsePostfix expr num
      else parseWordPrimary expr

-- ---- Operators

/-- `parse_unary`, with as many signs and `NOT`s before the operand as there are steps. -/
def parseUnarySteps (expr : P (Expr F)) : Nat → P (Expr F)
  | 0 => throw .unfinished
  | steps + 1 => do
    skipWhitespace
    if ← peekWordIs "NOT" then
      let _ ← matchKeyword "NOT"
      let e ← parseUnarySteps expr steps
      return .unaryOp .not e
    else
      skipWhitespace
      if ← looksAt '-' then
        advance 1
        let e ← parseUnarySteps expr steps
        return .unaryOp .neg e
      else if ← looksAt '+' then
        advance 1
        parseUnarySteps expr steps
      else parsePrimary expr

def parseUnary (expr : P (Expr F)) : P (Expr F) := do
  let s ← get
  parseUnarySteps expr (byteLen s.input + 1 - s.pos)

def leftAssociative (operand : P (Expr F)) (operator : P (Option BinaryOperator)) :
    P (Expr F) := do
  let first ← operand
  loop (fun left => do
    match ← operator with
    | some op =>
      let right ← operand
      return .inl (.binaryOp left op right)
    | none => return .inr left) first

def symbolOperator (choose : List Char → Option BinaryOperator) : P (Option BinaryOperator) := do
  skipWhitespace
  if ← atEnd then return none
  else
    match choose (← rest) with
    | some op =>
      advance 1
      return some op
    | none => return none

def multiplicativeOperator : List Char → Option BinaryOperator
  | '*' :: _ => some .mul
  | '/' :: _ => some .div
  | '%' :: _ => some .mod
  | _ => none

def additiveOperator : List Char → Option BinaryOperator
  | '+' :: _ => some .add
  | '-' :: _ => some .sub
  | _ => none

def bitandOperator : List Char → Option BinaryOperator
  | '&' :: '&' :: _ => none
  | '&' :: _ => some .bitAnd
  | _ => none

def bitxorOperator : List Char → Option BinaryOperator
  | '^' :: _ => some .bitXor
  | _ => none

def bitorOperator : List Char → Option BinaryOperator
  | '|' :: '|' :: _ => none
  | '|' :: _ => some .bitOr
  | _ => none

def parseMultiplicative (expr : P (Expr F)) : P (Expr F) :=
  leftAssociative (parseUnary expr) (symbolOperator multiplicativeOperator)

def parseAdditive (expr : P (Expr F)) : P (Expr F) :=
  leftAssociative (parseMultiplicative expr) (symbolOperator additiveOperator)

def parseBitand (expr : P (Expr F)) : P (Expr F) :=
  leftAssociative (parseAdditive expr) (symbolOperator bitandOperator)

def parseBitxor (expr : P (Expr F)) : P (Expr F) :=
  leftAssociative (parseBitand expr) (symbolOperator bitxorOperator)

def parseBitor (expr : P (Expr F)) : P (Expr F) :=
  leftAssociative (parseBitxor expr) (symbolOperator bitorOperator)

def comparisonOperator : List Char → Option (BinaryOperator × Nat)
  | '>' :: '=' :: _ => some (.gte, 2)
  | '<' :: '=' :: _ => some (.lte, 2)
  | '!' :: '=' :: _ | '<' :: '>' :: _ => some (.neq, 2)
  | '=' :: '=' :: _ => some (.eq, 2)
  | '>' :: _ => some (.gt, 1)
  | '<' :: _ => some (.lt, 1)
  | '=' :: _ => some (.eq, 1)
  | _ => none

def parseComparison (expr : P (Expr F)) : P (Expr F) := do
  let left ← parseBitor expr
  skipWhitespace
  if ← peekWordIs "NOT" then
    let saved ← position
    let _ ← matchKeyword "NOT"
    if ← peekWordIs "LIKE" then
      let _ ← matchKeyword "LIKE"
      let right ← parseBitor expr
      return .unaryOp .not (.binaryOp left .like right)
    else
      seek saved
      return left
  else if ← peekWordIs "LIKE" then
    let _ ← matchKeyword "LIKE"
    let right ← parseBitor expr
    return .binaryOp left .like right
  else
    skipWhitespace
    if ← atEnd then return left
    else
      match comparisonOperator (← rest) with
      | none => return left
      | some (op, len) =>
        advance len
        let right ← parseBitor expr
        return .binaryOp left op right

def parseBetween (expr : P (Expr F)) (left : Expr F) (negated : Bool) : P (Expr F) := do
  let _ ← matchKeyword "BETWEEN"
  let low ← parseComparison expr
  expectKeyword "AND"
  let high ← parseComparison expr
  return .between left low high negated

def parseIn (expr : P (Expr F)) (left : Expr F) (negated : Bool) : P (Expr F) := do
  let _ ← matchKeyword "IN"
  let list ← parseInList expr
  return .inList left list negated

/-- `NOT BETWEEN`, `NOT IN` or `NOT LIKE`, or nothing. -/
def parseNotRange (expr : P (Expr F)) (left : Expr F) : P (Expr F) := do
  let saved ← position
  let _ ← matchKeyword "NOT"
  match ← peekWord with
  | none =>
    seek saved
    return left
  | some word =>
    if eqIgnoreAsciiCase word "BETWEEN" then parseBetween expr left true
    else if eqIgnoreAsciiCase word "IN" then parseIn expr left true
    else if eqIgnoreAsciiCase word "LIKE" then
      let _ ← matchKeyword "LIKE"
      let right ← parseComparison expr
      return .unaryOp .not (.binaryOp left .like right)
    else
      seek saved
      return left

def parseRange (expr : P (Expr F)) : P (Expr F) := do
  let left ← parseComparison expr
  skipWhitespace
  match ← peekWord with
  | none => return left
  | some word =>
    if eqIgnoreAsciiCase word "BETWEEN" then parseBetween expr left false
    else if eqIgnoreAsciiCase word "NOT" then parseNotRange expr left
    else if eqIgnoreAsciiCase word "IN" then parseIn expr left false
    else if eqIgnoreAsciiCase word "IS" then
      let _ ← matchKeyword "IS"
      let negated ← optionalKeyword "NOT"
      expectKeyword "NULL"
      return .isNull left negated
    else if eqIgnoreAsciiCase word "LIKE" then
      let _ ← matchKeyword "LIKE"
      let right ← parseComparison expr
      return .binaryOp left .like right
    else return left

def andOperator : P (Option BinaryOperator) := do
  if ← peekWordIs "AND" then
    let _ ← matchKeyword "AND"
    return some .and
  else return none

def orOperator : P (Option BinaryOperator) := do
  if ← matchKeyword "OR" then return some .or else return none

def parseAnd (expr : P (Expr F)) : P (Expr F) := leftAssociative (parseRange expr) andOperator

def parseOr (expr : P (Expr F)) : P (Expr F) := leftAssociative (parseAnd expr) orOperator

def parseExprSteps : Nat → P (Expr F)
  | 0 => throw .unfinished
  | steps + 1 => parseOr (parseExprSteps steps)

def parseExpr : P (Expr F) := do
  let s ← get
  parseExprSteps (byteLen s.input + 1 - s.pos)

end

end Rekuiper.Parser
