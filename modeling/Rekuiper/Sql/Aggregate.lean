import Rekuiper.Lib.Groups
import Rekuiper.Lib.Outcome
import Rekuiper.Sql.Window

/-!
# Windows over buffered rows

`eval_window`: `WHERE` filters the rows of a window, `GROUP BY` partitions them, every
group gives one row, and `ORDER BY` and `LIMIT` shape the result.
-/

namespace Rekuiper.Sql

open Lib

variable {F : Type}

/-- The parts of the evaluator that windows only call. -/
structure Projection (F : Type) where
  /-- `eval_select` -/
  select : SelectStmt F → Row F → Except Failure (Option (Row F))
  /-- `eval_agg_expr`, which can read the columns computed so far. -/
  aggExpr : Expr F → List (Row F) → Row F → Except Failure (Value F)
  /-- The aggregates besides `count`, `sum`, `avg`, `min` and `max`. -/
  aggCall : String → List (Expr F) → List (Row F) → Except Failure (Value F)

section
variable [Float64 F]

-- ---- Aggregates

def checkedAdd (a b : Int) : Option Int :=
  if minI64 ≤ a + b ∧ a + b ≤ maxI64 then some (a + b) else none

def sumF64 (values : List (Value F)) : F :=
  (values.filterMap Value.asF64).foldl Float64.add (Float64.ofInt 0)

/-- The sum of numbers: of `i64` unless it overflows, otherwise of `f64`. -/
def sumValues (values : List (Value F)) : Value F :=
  if values.isEmpty then .null
  else if values.all fun v => v.asI64.isSome then
    match (values.filterMap Value.asI64).foldlM checkedAdd 0 with
    | some n => ofI64 n
    | none => ofFloat (sumF64 values)
  else ofFloat (sumF64 values)

def avgValues (values : List (Value F)) : Value F :=
  if values.isEmpty then .null
  else ofFloat (Float64.div (sumF64 values) (Float64.ofInt values.length))

/-- The first of the values that no later one beats. -/
def extreme (wanted : Ordering) : List (Value F) → Value F
  | [] => .null
  | v :: vs =>
    vs.foldl (fun best v => if compareValues v best = some wanted then v else best) v

def extremeValues (wanted : Ordering) (values : List (Value F)) : Value F :=
  let values := values.filter fun v => !v.isNull
  if values.any Value.isNumber then extreme wanted (values.filter Value.isNumber)
  else extreme wanted values

def aggCount (env : Env F) (args : List (Expr F)) (records : List (Row F)) :
    Except Failure (Value F) :=
  match args with
  | [] => .ok .null
  | [.wildcard] => .ok (ofI64 records.length)
  | arg :: _ => do
    let values ← records.mapM fun row => evalVal env row arg
    return ofI64 (values.countP fun v => !v.isNull)

def aggValues (result : List (Value F) → Value F) (env : Env F) (args : List (Expr F))
    (records : List (Row F)) : Except Failure (Value F) :=
  match args with
  | [.wildcard] => .ok .null
  | [arg] => do
    let values ← records.mapM fun row => evalVal env row arg
    return result values
  | _ => .ok .null

def aggSum : Env F → List (Expr F) → List (Row F) → Except Failure (Value F) :=
  aggValues fun values => sumValues (values.filter Value.isNumber)

def aggAvg : Env F → List (Expr F) → List (Row F) → Except Failure (Value F) :=
  aggValues fun values => avgValues (values.filter Value.isNumber)

def aggMin : Env F → List (Expr F) → List (Row F) → Except Failure (Value F) :=
  aggValues (extremeValues .lt)

def aggMax : Env F → List (Expr F) → List (Row F) → Except Failure (Value F) :=
  aggValues (extremeValues .gt)

def evalAggregateCall (env : Env F) (proj : Projection F) (name : String) (args : List (Expr F))
    (records : List (Row F)) : Except Failure (Value F) :=
  match toAsciiLowercase name with
  | "count" => aggCount env args records
  | "sum" => aggSum env args records
  | "avg" => aggAvg env args records
  | "min" => aggMin env args records
  | "max" => aggMax env args records
  | lowered => proj.aggCall lowered args records

-- ---- The row of a group

def isHidden (key : String) : Bool := key == "__meta__" || startsWith key "__"

def addColumns (fields : List (String × Value F)) (output : Row F) : Row F :=
  fields.foldl (fun output entry =>
    if isHidden entry.1 then output else output.orInsert entry.1 entry.2) output

def columnsOf (row : Row F) : List (String × Value F) :=
  row.entries.map fun entry => (entry.1, entry.2)

/-- The columns of `parent.*`, given the value of the parent. -/
def qualifiedColumns (row : Row F) (parent : Expr F) (value : Value F) :
    List (String × Value F) :=
  match value, parent with
  | .object fields, _ => fields
  | _, .identifier name =>
    let otherNamespace := row.entries.any fun entry =>
      entry.1 != name && !startsWith entry.1 "__" && entry.2.asObject.isSome
    if otherNamespace then [] else columnsOf row
  | _, _ => []

def aggregateField (env : Env F) (proj : Projection F) (stmt : SelectStmt F)
    (records : List (Row F)) (output : Row F) (entry : Expr F × Nat) :
    Except Failure (Row F) :=
  let key := selectFieldNameAt stmt entry.2 entry.1
  match entry.1 with
  | .wildcard =>
    .ok (match records with
      | [] => output
      | first :: _ => addColumns (columnsOf first) output)
  | .wildcardModified except replace =>
    let replaced := fun k => replace.any fun entry => entry.2 == k
    let output := match records with
      | [] => output
      | first :: _ =>
        addColumns ((columnsOf first).filter fun column =>
          !(except.contains column.1 && !replaced column.1)) output
    replace.foldlM (fun output (entry : Expr F × String) => do
      let value ← proj.aggExpr entry.1 records output
      return output.insert entry.2 value) output
  | .identifier name =>
    .ok (output.orInsert key ((records.head?.bind fun first => first.lookup name).getD .null))
  | .fieldAccess parent "*" =>
    match records with
    | [] => .ok output
    | first :: _ => do
      let value ← evalVal env first parent
      return addColumns (qualifiedColumns first parent value) output
  | .fieldAccess parent leaf =>
    if key ∈ output then .ok output
    else
      match records with
      | [] => .ok (output.insert key .null)
      | first :: _ => do
        let value ← evalVal env first (.fieldAccess parent leaf)
        return output.insert key value
  | .call name args => do
    if isAggregateCall name then
      let value ← evalAggregateCall env proj name args records
      return output.insert key value
    else
      let value ← proj.aggExpr (.call name args) records output
      return output.orInsert key value
  | e => do
    let value ← proj.aggExpr e records output
    return output.orInsert key value

def aggregateBranch (env : Env F) (proj : Projection F) (stmt : SelectStmt F)
    (records : List (Row F)) : Except Failure (Option (Row F)) := do
  let output ← stmt.fields.zipIdx.foldlM (aggregateField env proj stmt records) ∅
  match stmt.having with
  | none => return some output
  | some having =>
    match ← proj.aggExpr having records output with
    | .bool true => return some output
    | _ => return none

def mergeUnionRows : Option (Row F) → Option (Row F) → Option (Row F)
  | some left, some right => some (right.entries.foldl (fun m e => m.insert e.1 e.2) left)
  | left, right => left.or right

/-- `eval_aggregate_stateful` -/
def evalAggregate (env : Env F) (proj : Projection F) (stmt : SelectStmt F)
    (records : List (Row F)) : Except Failure (Option (Row F)) := do
  let rows ← (branches stmt).mapM fun branch => aggregateBranch env proj branch records
  return rows.foldr mergeUnionRows none

-- ---- Groups

def groupValue (env : Env F) (row : Row F) : Expr F → Except Failure (Value F)
  | .identifier name => .ok ((row.lookup name).getD .null)
  | e => evalVal env row e

def writeGroupKey (env : Env F) : Value F → String
  | .string s => let length := s.utf8ByteSize; s!"s{length}:{s}\x1f"
  | v => let text := env.jsonText v; s!"v{text}\x1f"

def groupKey (env : Env F) (groupBy : List (Expr F)) (row : Row F) : Except Failure String := do
  let values ← groupBy.mapM (groupValue env row)
  return String.join (values.map (writeGroupKey env))

def partitionKeyedGroups (env : Env F) (groupBy : List (Expr F)) (rows : List (Row F)) :
    Except Failure (List (String × List (Row F))) :=
  rows.foldlM (fun groups row => do
    let key ← groupKey env groupBy row
    return put key ((groups.lookup key).getD [] ++ [row]) groups) []

-- ---- Order and limit

def orderValue (env : Env F) (row : Row F) (e : Expr F) (idx : Nat) :
    Except Failure (Value F) := do
  let value ← evalVal env row e
  match e with
  | .call _ _ =>
    if value.isNull then return (row.lookup (columnName e idx)).getD value else return value
  | _ => return value

def compareRows (env : Env F) : List (OrderByItem F × Nat) → Row F → Row F →
    Except Failure Ordering
  | [], _, _ => .ok .eq
  | (item, idx) :: items, a, b => do
    let va ← orderValue env a item.expr idx
    let vb ← orderValue env b item.expr idx
    let ord := (compareValues va vb).getD .eq
    let ord := match item.order with
      | .asc => ord
      | .desc => ord.swap
    if ord = .eq then compareRows env items a b else return ord

def orderRows (env : Env F) (stmt : SelectStmt F) (rows : List (Row F)) :
    Except Failure (List (Row F)) :=
  if !stmt.orderBy.isEmpty && 1 < rows.length then
    sortBy (compareRows env stmt.orderBy.zipIdx) rows
  else .ok rows

def applyOrderLimit (env : Env F) (stmt : SelectStmt F) (rows : List (Row F)) :
    Except Failure (List (Row F)) := do
  let rows ← orderRows env stmt rows
  return match stmt.limit with
    | some limit => rows.take limit
    | none => rows

def projectRows (env : Env F) (proj : Projection F) (stmt : SelectStmt F) (rows : List (Row F)) :
    Except Failure (List (Option (Row F))) :=
  if !isGroupedWindow stmt then
    rows.mapM fun row => proj.select { stmt with whereClause := none } row
  else if stmt.groupBy.isEmpty then
    (evalAggregate env proj stmt rows).map fun row => [row]
  else do
    let groups ← partitionKeyedGroups env stmt.groupBy rows
    groups.mapM fun group => evalAggregate env proj stmt group.2

/-- `eval_window_filtered`: the rows have passed `WHERE`. -/
def evalWindowFiltered (env : Env F) (proj : Projection F) (stmt : SelectStmt F)
    (rows : List (Row F)) : Except Failure (List (Row F)) := do
  if rows.isEmpty then return []
  else
    let out ← projectRows env proj stmt rows
    applyOrderLimit env stmt (out.filterMap id)

def evalWindow (env : Env F) (proj : Projection F) (stmt : SelectStmt F) (rows : List (Row F)) :
    Except Failure (List (Row F)) := do
  let rows ← rows.filterM (passesWhere env stmt)
  evalWindowFiltered env proj stmt rows

end

end Rekuiper.Sql
