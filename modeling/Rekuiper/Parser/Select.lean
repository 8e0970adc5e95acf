import Rekuiper.Parser.Expressions

/-!
# `SELECT` statements

`parse_select`, clause by clause. What follows the last clause of a statement and the semicolon
behind it is not looked at, unless it is a `UNION`.
-/

namespace Rekuiper.Parser

open Lib Scan Sql

variable {F : Type}

-- ---- Windows

section
variable [Float64 F] [ParseFloat F]

def timeUnitFromStr (s : String) : Except String TimeUnit :=
  match toAsciiLowercase s with
  | "dd" => .ok .dd
  | "hh" => .ok .hh
  | "mi" => .ok .mi
  | "ss" => .ok .ss
  | "ms" => .ok .ms
  | _ => .error s!"Unknown time unit '{s}', expected one of dd, hh, mi, ss, ms"

def parseWindowUnit : Expr F → Except String TimeUnit
  | .identifier name => timeUnitFromStr name
  | .literal (.string s) => timeUnitFromStr s
  | _ => .error "Window time unit must be one of dd, hh, mi, ss, ms"

def parseWindowU64 : Expr F → Except String Nat
  | .literal (.number (.int n)) =>
    if 0 ≤ n then .ok n.toNat
    else .error s!"Window length/interval must be non-negative, got {n}"
  | .literal (.number (.float f)) =>
    match ParseFloat.wholeU64 f with
    | some n => .ok n
    | none =>
      let text := Float64.render f
      .error s!"Window length/interval must be a non-negative integer, got {text}"
  | .literal _ => .error "Window length/interval must be an integer"
  | _ => .error "Window length/interval must be an integer literal"

def parseWindowUsize (e : Expr F) : Except String Nat := parseWindowU64 e

/-- The call that an item of `GROUP BY` is, under `OVER` or not. -/
def windowCall : Expr F → Option (String × List (Expr F))
  | .call name args => some (name, args)
  | .over (.call name args) _ _ => some (name, args)
  | _ => none

def tryParseWindowDef (e : Expr F) : Except String (Option (WindowDef F)) :=
  match windowCall e with
  | none => .ok none
  | some (name, args) =>
    let got := args.length
    match toAsciiLowercase name with
    | "statewindow" =>
      match args with
      | [start] => .ok (some (.state start none))
      | [start, stop] => .ok (some (.state start (some stop)))
      | _ => .error s!"STATEWINDOW expects 1 or 2 arguments, got {got}"
    | "tumblingwindow" =>
      match args with
      | [unit, length] => do
        let unit ← parseWindowUnit unit
        let length ← parseWindowU64 length
        return some (.tumblingTime unit length)
      | _ => .error s!"TUMBLINGWINDOW expects 2 arguments (unit, length), got {got}"
    | "hoppingwindow" =>
      match args with
      | [unit, length, interval] => do
        let unit ← parseWindowUnit unit
        let length ← parseWindowU64 length
        let interval ← parseWindowU64 interval
        return some (.hoppingTime unit length interval)
      | _ => .error s!"HOPPINGWINDOW expects 3 arguments (unit, length, interval), got {got}"
    | "slidingwindow" =>
      match args with
      | [unit, length] => do
        let unit ← parseWindowUnit unit
        let length ← parseWindowU64 length
        return some (.slidingTime unit length none)
      | [unit, length, delay] => do
        let unit ← parseWindowUnit unit
        let length ← parseWindowU64 length
        let delay ← parseWindowU64 delay
        return some (.slidingTime unit length (some delay))
      | _ => .error s!"SLIDINGWINDOW expects 2 or 3 arguments (unit, length[, delay]), got {got}"
    | "countwindow" =>
      match args with
      | [size] => do
        let size ← parseWindowUsize size
        return some (.count size none)
      | [size, interval] => do
        let size ← parseWindowUsize size
        let interval ← parseWindowUsize interval
        return some (.count size (some interval))
      | _ => .error s!"COUNTWINDOW expects 1 or 2 arguments (size[, interval]), got {got}"
    | "sessionwindow" =>
      match args with
      | [unit, maxDuration, timeout] => do
        let unit ← parseWindowUnit unit
        let maxDuration ← parseWindowU64 maxDuration
        let timeout ← parseWindowU64 timeout
        if maxDuration = 0 ∨ timeout = 0 then
          throw "SESSIONWINDOW maxDuration and timeout must be positive"
        return some (.session unit maxDuration timeout)
      | _ =>
        .error s!"SESSIONWINDOW expects 3 arguments (unit, maxDuration, timeout), got {got}"
    | _ => .ok none

end

def orFail {α : Type} : Except String α → P α
  | .ok a => pure a
  | .error text => fail text

section
variable [Unicode]

-- ---- Aliases

def reserved : List String :=
  ["WHERE", "GROUP", "ORDER", "LIMIT", "HAVING", "JOIN", "INNER", "LEFT", "RIGHT", "FULL", "CROSS",
    "OUTER", "ASOF", "ON", "UNION", "ALL", "SELECT", "FROM", "AS", "DESC", "ASC", "OVER",
    "PARTITION", "BY", "BETWEEN", "IN", "LIKE", "IS", "NOT", "NULL", "AND", "OR", "CASE", "WHEN",
    "THEN", "ELSE", "END"]

/-- Optional source alias after FROM/JOIN targets: `AS a` or bare `a`. -/
def parseOptionalAlias : P (Option String) := do
  skipWhitespace
  if ← matchKeyword "AS" then
    skipWhitespace
    if ← looksAt '\x60' then some <$> parseBacktickIdentifier
    else
      match ← peekWord with
      | none => fail "Expected alias after AS"
      | some name =>
        consumeWord name
        return some name
  else if ← looksAt '\x60' then some <$> parseBacktickIdentifier
  else
    match ← peekWord with
    | none => return none
    | some word =>
      if reserved.any fun kw => eqIgnoreAsciiCase word kw then return none
      else
        consumeWord word
        return some word

/-- The optional alias of a field: `AS` and a name, or a quoted name. -/
def parseFieldAlias : P (Option String) := do
  skipWhitespace
  if ← peekWordIs "AS" then
    let _ ← matchKeyword "AS"
    skipWhitespace
    if ← looksAt '\x60' then some <$> parseBacktickIdentifier
    else
      match ← peekWord with
      | none => return none
      | some name =>
        if ["FROM", "WHERE", "AND", "OR"].any fun kw => eqIgnoreAsciiCase name kw then return none
        else
          consumeWord name
          return some name
  else if ← looksAt '\x60' then some <$> parseBacktickIdentifier
  else return none

variable [Float64 F] [ParseFloat F]

-- ---- Fields

def parseCommas {α : Type} (item : List α → P (List α)) : P (List α) :=
  loop (fun items => do
    let items ← item items
    skipWhitespace
    if ← looksAt ',' then
      advance 1
      return .inl items
    else return .inr items) []

def parseExceptColumn (cols : List String) : P (List String) := do
  skipWhitespace
  let col ← parseColumnIdentifier
  return cols ++ [col]

def parseReplacement (replace : List (Expr F × String)) : P (List (Expr F × String)) := do
  skipWhitespace
  let e ← parseExpr
  skipWhitespace
  expectKeyword "AS"
  skipWhitespace
  let col ← parseColumnIdentifier
  return replace ++ [(e, col)]

def parseModifier {α : Type} (kw : String) (item : List α → P (List α)) : P (List α) := do
  let _ ← matchKeyword kw
  skipWhitespace
  expectChar '('
  let items ← parseCommas item
  skipWhitespace
  expectChar ')'
  return items

structure Modifiers (F : Type) where
  except : List String
  replace : List (Expr F × String)
  isModified : Bool

def parseWildcardModifier (m : Modifiers F) : P (Modifiers F ⊕ Modifiers F) := do
  skipWhitespace
  if ← peekWordIs "EXCEPT" then
    let cols ← parseModifier "EXCEPT" parseExceptColumn
    return .inl { m with except := m.except ++ cols, isModified := true }
  else if ← peekWordIs "REPLACE" then
    let replace ← parseModifier "REPLACE" parseReplacement
    return .inl { m with replace := m.replace ++ replace, isModified := true }
  else return .inr m

def parseField (fields : List (Expr F × Option String)) : P (List (Expr F × Option String)) := do
  skipWhitespace
  if ← looksAt '*' then
    advance 1
    skipWhitespace
    let m ← loop parseWildcardModifier ⟨[], [], false⟩
    let field := if m.isModified then .wildcardModified m.except m.replace else .wildcard
    return fields ++ [(field, none)]
  else if ← peekWordIs "FROM" then fail "Unexpected FROM in select field list"
  else
    let e ← parseExpr
    let name ← parseFieldAlias
    return fields ++ [(e, name)]

-- ---- Sources

def joinWords : List String := ["LEFT", "RIGHT", "FULL", "CROSS", "INNER", "JOIN", "OUTER", "ASOF"]

def joinTypeOf (lead : Option String) (isAsof : Bool) : JoinType :=
  match lead with
  | some "LEFT" => if isAsof then .leftAsof else .left
  | some "RIGHT" => .right
  | some "FULL" => .full
  | some "CROSS" => .cross
  | some "ASOF" => .asof
  | _ => .inner

def parseJoinLead : P (Option String) := do
  match ← peekWord with
  | none => return none
  | some word =>
    let upper := toAsciiUppercase word
    if ["LEFT", "RIGHT", "FULL", "CROSS", "INNER", "ASOF"].contains upper then
      consumeWord word
      return some upper
    else return none

def parseLeftAsof (lead : Option String) : P Bool := do
  if lead = some "LEFT" then optionalKeyword "ASOF" else return false

def parseJoinHeader : P (Option JoinType) := do
  let lead ← parseJoinLead
  let isAsof ← parseLeftAsof lead
  let _ ← optionalKeyword "OUTER"
  if ← matchKeyword "JOIN" then return some (joinTypeOf lead isAsof) else return none

def parseJoinTarget : P String := do
  match ← peekWord with
  | none => fail "Expected join target after JOIN"
  | some t =>
    if ["WHERE", "GROUP", "ORDER", "LIMIT", "HAVING", "JOIN", "ON", "ASOF"].contains
        (toAsciiUppercase t) then
      fail s!"Expected join target after JOIN, found '{t}'"
    else
      consumeWord t
      return t

/-- One join, if there is one. A stream merely named e.g. `left` does not break parsing. -/
def parseJoin (joins : List (JoinClause F)) : P (List (JoinClause F) ⊕ List (JoinClause F)) := do
  let isJoin := (← peekWord).any fun w => joinWords.contains (toAsciiUppercase w)
  if !isJoin then return .inr joins
  else
    let saved ← position
    match ← parseJoinHeader with
    | none =>
      seek saved
      return .inr joins
    | some joinType =>
      let target ← parseJoinTarget
      let targetAlias ← parseOptionalAlias
      let onCondition ← parseBehind "ON" parseExpr
      let join : JoinClause F := { joinType, target, targetAlias, onCondition }
      return .inl (joins ++ [join])

-- ---- Grouping

/-- What `GROUP BY` has said so far. -/
structure Grouping (F : Type) where
  groupBy : List (Expr F)
  window : Option (WindowDef F)
  windowFilter : Option (Expr F)
  windowTriggerCondition : Option (Expr F)
  windowPartitionBy : Option (Expr F)

def parseWindowOverPart (g : Grouping F) : P (Grouping F ⊕ Grouping F) := do
  skipWhitespace
  if ← peekWordIs "WHEN" then
    let _ ← matchKeyword "WHEN"
    let condition ← parseExpr
    return .inl { g with windowTriggerCondition := some condition }
  else if ← peekWordIs "PARTITION" then
    let _ ← matchKeyword "PARTITION"
    expectKeyword "BY"
    let partition ← parseExpr
    return .inl { g with windowPartitionBy := some partition }
  else return .inr g

/-- One clause behind a window, if there is one: `FILTER` or `OVER`. -/
def parseWindowClause (g : Grouping F) : P (Grouping F ⊕ Grouping F) := do
  skipWhitespace
  if ← peekWordIs "FILTER" then
    let _ ← matchKeyword "FILTER"
    expectChar '('
    expectKeyword "WHERE"
    let condition ← parseExpr
    expectChar ')'
    return .inl { g with windowFilter := some condition }
  else if ← peekWordIs "OVER" then
    let _ ← matchKeyword "OVER"
    expectChar '('
    let g ← loop parseWindowOverPart g
    expectChar ')'
    return .inl g
  else return .inr g

/-- The parts of an `OVER` in `GROUP BY` count for the window where it has none yet. -/
def Grouping.adopt (g : Grouping F) : Expr F → Grouping F
  | .over _ partitionBy condition =>
    { g with
      windowPartitionBy := g.windowPartitionBy.or partitionBy
      windowTriggerCondition := g.windowTriggerCondition.or condition }
  | _ => g

/-- An item of `GROUP BY` is a window, with its clauses behind it, or an expression. -/
def parseGroupWindow (g : Grouping F) (item : Expr F) : P (Grouping F) := do
  match ← orFail (tryParseWindowDef item) with
  | some window => loop parseWindowClause { g with window := some window }
  | none => return { g with groupBy := g.groupBy ++ [item] }

/-- One item of `GROUP BY`. -/
def parseGroupItem (g : Grouping F) : P (Grouping F ⊕ Grouping F) := do
  skipWhitespace
  let item ← parseExpr
  let g ← parseGroupWindow (g.adopt item) item
  skipWhitespace
  if ← looksAt ',' then
    advance 1
    return .inl g
  else return .inr g

def parseGroupBy : P (Grouping F) := do
  let none : Grouping F := ⟨[], none, none, none, none⟩
  if ← peekWordIs "GROUP" then
    expectKeyword "GROUP"
    expectKeyword "BY"
    loop parseGroupItem none
  else return none

-- ---- Clauses

/-- One item of `ORDER BY`. -/
def parseOrderItem (items : List (OrderByItem F)) : P (List (OrderByItem F)) := do
  skipWhitespace
  let expr ← parseExpr
  if ← peekWordIs "DESC" then
    let _ ← matchKeyword "DESC"
    return items ++ [⟨expr, .desc⟩]
  else
    let _ ← optionalKeyword "ASC"
    return items ++ [⟨expr, .asc⟩]

def parseOrderBy : P (List (OrderByItem F)) := do
  if ← matchKeyword "ORDER" then
    expectKeyword "BY"
    parseCommas parseOrderItem
  else return []

def parseLimit : P (Option Nat) := do
  if ← matchKeyword "LIMIT" then
    skipWhitespace
    match ← peekWord with
    | none => fail "Expected integer after LIMIT"
    | some token =>
      match (parseDigits token.toList).filter (· ≤ maxU64) with
      | none => fail s!"Expected integer after LIMIT, found '{token}'"
      | some n =>
        consumeWord token
        return some n
  else return none

-- ---- Statements

/-- A statement up to its last clause. -/
def parseClauses : P (SelectStmt F) := do
  expectKeyword "SELECT"
  skipWhitespace
  let fields ← parseCommas parseField
  expectKeyword "FROM"
  skipWhitespace
  match ← peekWord with
  | none => fail "Expected stream name after FROM"
  | some source =>
    consumeWord source
    let sourceAlias ← parseOptionalAlias
    let joins ← loop parseJoin []
    let whereClause ← parseBehind "WHERE" parseExpr
    let g ← parseGroupBy
    let having ← parseBehind "HAVING" parseExpr
    let orderBy ← parseOrderBy
    let limit ← parseLimit
    return {
      fields := fields.map Prod.fst, fieldAliases := fields.map Prod.snd, source, sourceAlias,
      joins, whereClause, groupBy := g.groupBy, window := g.window,
      windowFilter := g.windowFilter, windowTriggerCondition := g.windowTriggerCondition,
      windowPartitionBy := g.windowPartitionBy, having, orderBy, limit, setOp := none }

def parseTerminator : P Unit := do
  skipWhitespace
  if ← looksAt ';' then advance 1

/-- `parse_select`, with as many `UNION`s as there are steps. -/
def parseSelectSteps : Nat → P (SelectStmt F)
  | 0 => throw .unfinished
  | steps + 1 => do
    let stmt ← parseClauses
    parseTerminator
    if ← matchKeyword "UNION" then
      let op := if ← matchKeyword "ALL" then SetOp.unionAll else SetOp.union
      let rhs ← parseSelectSteps steps
      return { stmt with setOp := some (op, rhs) }
    else return stmt

def parseSelect : P (SelectStmt F) := do
  let s ← get
  parseSelectSteps (byteLen s.input + 1 - s.pos)

end

end Rekuiper.Parser
