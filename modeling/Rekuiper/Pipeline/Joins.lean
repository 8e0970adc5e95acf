import Rekuiper.Pipeline.Record

/-!
# Joins of one record

The row that a rule without a window evaluates: the record, joined with the latest rows
of other streams and with rows of lookup tables. What a table gives for a lookup is a
parameter.
-/

namespace Rekuiper.Pipeline

open Lib Sql

variable {F : Type}

/-- The latest row of a joined stream for each target and key, with its time. -/
abbrev AsofState (F : Type) := HashMap (String × String) (Int × Row F)

/-- `lookup_candidates`: the rows of the join's table for the combined row. -/
abbrev Tables (F : Type) := JoinClause F → Row F → Except Failure (List (Row F))

def isAsof (join : JoinClause F) : Bool := join.joinType = .asof || join.joinType = .leftAsof

-- ---- Combined rows

def rowObject (row : Row F) : Value F :=
  .object (row.entries.foldl (fun fields entry => setField entry.1 entry.2 fields) [])

/-- The map with the row under its stream's or table's name and alias. -/
def insertNamespaced (map : Row F) (name : String) (nickname : Option String) (row : Row F) :
    Row F :=
  let named := map.insert name (rowObject row)
  match nickname with
  | some nickname => if nickname ≠ name then named.insert nickname (rowObject row) else named
  | none => named

def fillMissing (combined row : Row F) : Row F :=
  row.entries.foldl (fun m entry =>
    if (m.lookup entry.1).isSome then m else m.insert entry.1 entry.2) combined

def joinRow (combined : Row F) (join : JoinClause F) (row : Row F) : Row F :=
  insertNamespaced (fillMissing combined row) join.target join.targetAlias row

/-- The joins in order; `none` as soon as one finds no row. -/
def foldJoins (step : Row F → JoinClause F → Except Failure (Option (Row F))) :
    List (JoinClause F) → Row F → Except Failure (Option (Row F))
  | [], combined => .ok (some combined)
  | join :: joins, combined =>
    match step combined join with
    | .error e => .error e
    | .ok none => .ok none
    | .ok (some combined) => foldJoins step joins combined

-- ---- Join keys

inductive Side
  | stream | table | unknown
  deriving DecidableEq, Repr

def side (stmt : SelectStmt F) (join : JoinClause F) : Expr F → Side
  | .fieldAccess (.identifier name) _ =>
    if name = join.target ∨ join.targetAlias = some name then .table
    else if name = stmt.source ∨ stmt.sourceAlias = some name then .stream
    else .unknown
  | .identifier _ => .stream
  | _ => .unknown

def keyColumn : Expr F → Option String
  | .fieldAccess _ leaf => some leaf
  | .identifier name => some name
  | _ => none

section
variable [Float64 F]

def scalarize : Value F → Option String
  | .string s => some s
  | .number n => some n.render
  | .bool b => some (toString b)
  | _ => none

/-- The table's column and the key's value of an equality between the two sides. -/
def joinKeyParts (env : Env F) (stmt : SelectStmt F) (join : JoinClause F) (combined : Row F) :
    Except Failure (Option (String × String)) :=
  match join.onCondition with
  | some (.binaryOp left .eq right) =>
    let parts := match side stmt join left, side stmt join right with
      | .table, _ => some (left, right)
      | _, .table => some (right, left)
      | _, _ => none
    match parts.bind fun (tableExpr, keyExpr) => (keyColumn tableExpr).map fun c => (c, keyExpr) with
    | none => .ok none
    | some (tableColumn, keyExpr) =>
      (evalVal env combined keyExpr).map fun value =>
        (scalarize value).map fun key => (tableColumn, key)
  | _ => .ok none

-- ---- Lookup joins

def firstMatch (env : Env F) (combined : Row F) (join : JoinClause F) :
    List (Row F) → Except Failure (Option (Row F))
  | [] => .ok none
  | row :: rows =>
    let holds := match join.onCondition with
      | some condition => evalBool env (joinRow combined join row) condition
      | none => .ok true
    match holds with
    | .error e => .error e
    | .ok true => .ok (some row)
    | .ok false => firstMatch env combined join rows

def lookupJoin (env : Env F) (tables : Tables F) (combined : Row F) (join : JoinClause F) :
    Except Failure (Option (Row F)) :=
  if isAsof join then .ok (some combined)
  else
    match tables join combined with
    | .error e => .error e
    | .ok rows =>
      match firstMatch env combined join rows with
      | .error e => .error e
      | .ok (some row) => .ok (some (joinRow combined join row))
      | .ok none => if join.joinType = .left then .ok (some combined) else .ok none

def applyLookupJoins (env : Env F) (tables : Tables F) (stmt : SelectStmt F) (record : Row F) :
    Except Failure (Option (Row F)) :=
  if stmt.joins.isEmpty then .ok (some record)
  else
    foldJoins (lookupJoin env tables) stmt.joins
      (insertNamespaced record stmt.source stmt.sourceAlias record)

-- ---- ASOF joins

def asofJoin (env : Env F) (stmt : SelectStmt F) (latest : AsofState F) (leftTs : Int)
    (combined : Row F) (join : JoinClause F) : Except Failure (Option (Row F)) :=
  if !isAsof join then .ok (some combined)
  else
    match joinKeyParts env stmt join combined with
    | .error e => .error e
    | .ok parts =>
      let found := (parts.bind fun (_, key) => latest.lookup (join.target, key)).filter
        fun (rightTs, _) => rightTs ≤ leftTs
      match found with
      | some (_, row) => .ok (some (joinRow combined join row))
      | none => if join.joinType = .leftAsof then .ok (some combined) else .ok none

def probeLeftEvent (env : Env F) (latest : AsofState F) (stmt : SelectStmt F) (leftTs : Int)
    (record : Row F) : Except Failure (Option (Row F)) :=
  foldJoins (asofJoin env stmt latest leftTs) stmt.joins
    (insertNamespaced record stmt.source stmt.sourceAlias record)

/-- The row that a rule without a window evaluates, or `none` if it drops the record. -/
def joinedRow (env : Env F) (tables : Tables F) (latest : AsofState F) (stmt : SelectStmt F)
    (timestampField : Option String) (record : Row F) : Except Failure (Option (Row F)) :=
  let hasLookupJoins := stmt.joins.any fun join => !isAsof join
  let probed :=
    if stmt.joins.any isAsof then
      probeLeftEvent env latest stmt (extractEventTimestamp env record timestampField) record
    else .ok (some record)
  match probed with
  | .ok (some row) => if hasLookupJoins then applyLookupJoins env tables stmt row else probed
  | _ => probed

end

end Rekuiper.Pipeline
