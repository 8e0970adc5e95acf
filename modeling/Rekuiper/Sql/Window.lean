import Rekuiper.Sql.Eval

/-!
# Window plans

Which window statements are computed by row-free accumulators.
-/

namespace Rekuiper.Sql

open Lib

variable {F : Type}

def isAggregateCall (name : String) : Bool :=
  ["count", "sum", "avg", "min", "max", "collect", "lead", "latest", "median", "stddev",
    "stddevs", "var", "vars", "percentile", "percentile_cont", "percentile_disc", "last_value",
    "merge_agg", "row_number", "last_agg_hit_count", "last_agg_hit_time"].contains
    (toAsciiLowercase name)

def containsAggregate (e : Expr F) : Bool :=
  (subexprs e).any fun
    | .call name _ => isAggregateCall name
    | _ => false

def isGroupedWindow (stmt : SelectStmt F) : Bool :=
  !stmt.groupBy.isEmpty || stmt.fields.any containsAggregate || stmt.having.isSome

def passesWhere [Float64 F] (env : Env F) (stmt : SelectStmt F) (row : Row F) :
    Except Failure Bool :=
  match stmt.whereClause with
  | some condition => evalBool env row condition
  | none => .ok true

-- ---- Names of columns

def isUnnamed : Expr F → Bool
  | .wildcard | .wildcardModified _ _ | .identifier _ | .fieldAccess _ _ | .call _ _ => false
  | _ => true

def fieldAlias (stmt : SelectStmt F) (idx : Nat) : Option String :=
  (stmt.fieldAliases[idx]?).join

def selectFieldNameAt (stmt : SelectStmt F) (idx : Nat) (e : Expr F) : String :=
  match fieldAlias stmt idx with
  | some name => name
  | none =>
    if isUnnamed e then
      let unaliased := (stmt.fields.take idx).zipIdx.countP fun (f, i) =>
        (fieldAlias stmt i).isNone && isUnnamed f
      s!"kuiper_field_{unaliased}"
    else columnName e idx

-- ---- Incremental windows

inductive AggKind (F : Type)
  | countAll | count | sum | avg | min | max | stddev | stddevs | var | vars | median
  | percentile (p : F)

/-- How a column of an incremental window is computed: from the group's first row, or by
an accumulator. -/
inductive Plan (F : Type)
  | first (name : String) (expr : Expr F)
  | agg (name : String) (kind : AggKind F) (arg : Option (Expr F))

section
variable [Float64 F]

def aggKind : String → Option (AggKind F)
  | "count" => some .count
  | "sum" => some .sum
  | "avg" => some .avg
  | "min" => some .min
  | "max" => some .max
  | "stddev" => some .stddev
  | "stddevs" => some .stddevs
  | "var" => some .var
  | "vars" => some .vars
  | "median" => some .median
  | _ => none

/-- The accumulator of a percentile, whose second argument is a literal in `0 ..= 1`. -/
def percentileKind (lowered : String) (level : Expr F) : Option (AggKind F) :=
  if ["percentile", "percentile_cont", "percentile_disc"].contains lowered then
    match level with
    | .literal (.number n) =>
      let p := n.asF64
      if Float64.le (Float64.ofInt 0) p && Float64.le p (Float64.ofInt 1) then some (.percentile p)
      else none
    | _ => none
  else none

def fieldPlan (name : String) (e : Expr F) : Option (Plan F) :=
  match e with
  | .identifier _ => some (.first name e)
  | .fieldAccess parent _ => if containsAggregate parent then none else some (.first name e)
  | .call function [.wildcard] =>
    if toAsciiLowercase function = "count" then some (.agg name .countAll none) else none
  | .call function [arg] =>
    if containsAggregate arg then none
    else (aggKind (toAsciiLowercase function)).map fun kind => .agg name kind (some arg)
  | .call function [arg, level] =>
    match arg with
    | .wildcard => none
    | _ =>
      if containsAggregate arg then none
      else
        (percentileKind (toAsciiLowercase function) level).map fun kind =>
          .agg name kind (some arg)
  | _ => none

/-- `IncrementalWindow::try_new`: the plans of the columns, or `none` if the window needs
its rows. -/
def incrementalPlans (stmt : SelectStmt F) : Option (List (Plan F)) :=
  if stmt.setOp.isSome || !stmt.joins.isEmpty || stmt.having.isSome || !isGroupedWindow stmt ||
      stmt.groupBy.any containsAggregate then none
  else stmt.fields.zipIdx.mapM fun (e, idx) => fieldPlan (selectFieldNameAt stmt idx e) e

end

end Rekuiper.Sql
