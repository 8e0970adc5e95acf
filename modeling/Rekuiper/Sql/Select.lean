import Rekuiper.Sql.Aggregate
import Rekuiper.Sql.Refinement

/-!
# Projection of one record

`eval_select` and the path that rules without a window take, `eval_select_stateless_fast`. For a
`UNION` the first filters the record for each branch. The second applies the `WHERE` of the first
branch and then projects every branch.
-/

namespace Rekuiper.Sql

open Lib

variable {F : Type} {α : Type}

-- ---- The columns of a branch

/-- `map_err` -/
def mapMessage (f : String → String) (x : Eval F α) : Eval F α := fun s =>
  match x.go s with
  | (.error (.message text), s) => (.error (.message (f text)), s)
  | result => result

/-- `eval_stateful_expr`: without a value, null. -/
def orNull (x : Eval F (Value F)) : Eval F (Value F) := fun s =>
  let (result, s) := x.go s
  (unwrapOr .null result, s)

def insertVisible (columns : List (String × Value F)) (output : Row F) : Row F :=
  columns.foldl (fun output column =>
    if isHidden column.1 then output else output.insert column.1 column.2) output

/-- What an error of a field says: `to_ekuiper_string_qualified` gives its text. -/
def selectError (label : Option String) (text err : String) : String :=
  match label with
  | some name => s!"run Select error: alias: {name} expr: {text} meet error, err:{err}"
  | none => s!"run Select error: expr: {text} meet error, err:{err}"

section
variable [Float64 F]

/-- One column of `changed_cols`, which is the field at `idx`. -/
def changedColumn (lead : String) (ignoreNull : Bool) (idx : Nat) (output : Row F)
    (column : String × Value F) : Eval F (Row F) := do
  if ignoreNull && column.2.isNull then return output
  else
    let name := column.1
    let key := s!"changed_cols:{idx}:{name}:"
    let s ← get
    if hasChanged (s.state.lookup key) column.2 then
      set (s.insert key column.2)
      return output.insert (lead ++ name) column.2
    else return output

/-- The columns of the arguments of `changed_cols` from the third on. -/
def changedArg (env : Env F) (row : Row F) (lead : String) (ignoreNull : Bool) (idx : Nat)
    (output : Row F) (arg : Expr F × Nat) : Eval F (Row F) :=
  match arg.1 with
  | .wildcard =>
    ((columnsOf row).filter fun column => column.1 != "__meta__").foldlM
      (changedColumn lead ignoreNull idx) output
  | e => do
    let value ← orNull (evalExpr env row e)
    changedColumn lead ignoreNull idx output (columnName e arg.2, value)

def changedColsField (env : Env F) (row : Row F) (idx : Nat) (args : List (Expr F))
    (output : Row F) : Eval F (Row F) := do
  let lead ← orNull (evalExpr env row (args.headD .wildcard))
  let ignoreNull ← orNull (evalExpr env row ((args.drop 1).headD .wildcard))
  (args.drop 2).zipIdx.foldlM
    (changedArg env row (lead.asStr.getD "") (ignoreNull.asBool.getD false) idx) output

def valueField (env : Env F) (text : Expr F → String) (row : Row F) (key : String)
    (label : Option String) (e : Expr F) (output : Row F) : Eval F (Row F) := do
  match tryEvalNumericFast row e with
  | some value => return output.insert key value
  | none =>
    let value ← mapMessage (selectError label (text e)) (evalExpr env row e)
    return output.insert key value

def selectField (env : Env F) (text : Expr F → String) (stmt : SelectStmt F) (names : List String)
    (row : Row F) (output : Row F) (entry : Expr F × Nat) : Eval F (Row F) :=
  let idx := entry.2
  let label := fieldAlias stmt idx
  let key := names[idx]?.getD (selectFieldNameAt stmt idx entry.1)
  match entry.1 with
  | .wildcard => pure (insertVisible (columnsOf row) output)
  | .wildcardModified except replace =>
    let replaced := fun name => replace.any fun r => r.2 == name
    let output := insertVisible ((columnsOf row).filter fun column =>
      !(except.contains column.1 && !replaced column.1)) output
    replace.foldlM (fun output (r : Expr F × String) => do
      let value ← mapMessage (selectError (some r.2) (text r.1)) (evalExpr env row r.1)
      return output.insert r.2 value) output
  | .identifier name => pure (output.insert key (column row name))
  | .fieldAccess parent leaf =>
    let message := selectError (some (label.getD leaf)) (text (.fieldAccess parent leaf))
    if leaf = "*" then do
      let value ← mapMessage message (evalExpr env row parent)
      return insertVisible (qualifiedColumns row parent value) output
    else do
      let value ← mapMessage message (evalExpr env row (.fieldAccess parent leaf))
      return output.insert key value
  | .call name args =>
    if toAsciiLowercase name = "extract" then
      match args with
      | [] => pure output
      | arg :: _ => do
        let value ← mapMessage (selectError (some (label.getD "extract")) (text (.call name args)))
          (evalExpr env row arg)
        return match value with
          | .object fields => fields.foldl (fun output f => output.insert f.1 f.2) output
          | _ => output
    else if toAsciiLowercase name = "changed_cols" ∧ 2 ≤ args.length then
      changedColsField env row idx args output
    else valueField env text row key label (.call name args) output
  | e => valueField env text row key label e output

def selectFieldNames (stmt : SelectStmt F) : List String :=
  stmt.fields.zipIdx.map fun entry => selectFieldNameAt stmt entry.2 entry.1

/-- `eval_select_stateful_with_names` without a set operation. -/
def selectBranch (env : Env F) (text : String → Expr F → String) (stmt : SelectStmt F)
    (names : List String) (row : Row F) : Eval F (Row F) :=
  stmt.fields.zipIdx.foldlM (selectField env (text stmt.source) stmt names row) ∅

/-- `eval_select_stateful_fallible`: the branches of the union, from left to right. -/
def evalSelectStateful (env : Env F) (text : String → Expr F → String) (stmt : SelectStmt F)
    (row : Row F) : Eval F (Option (Row F)) := do
  let rows ← (branches stmt).mapM fun branch =>
    selectBranch env text branch (selectFieldNames branch) row
  return (rows.map some).foldr mergeUnionRows none

def evalSelectStatefulWithNames (env : Env F) (text : String → Expr F → String)
    (stmt : SelectStmt F) (names : List String) (row : Row F) : Eval F (Option (Row F)) :=
  match stmt.setOp with
  | some _ => evalSelectStateful env text stmt row
  | none => do return some (← selectBranch env text stmt names row)

-- ---- The reference evaluation

def evalSelectBranch (env : Env F) (text : String → Expr F → String) (row : Row F)
    (branch : SelectStmt F) : Except Failure (Option (Row F)) := do
  if ← passesWhere env branch row then
    unwrapOr none (((selectBranch env text branch (selectFieldNames branch) row).go
      RuleState.new).1.map some)
  else return none

def evalSelect (env : Env F) (text : String → Expr F → String) (stmt : SelectStmt F)
    (row : Row F) : Except Failure (Option (Row F)) := do
  let rows ← (branches stmt).mapM (evalSelectBranch env text row)
  return rows.foldr mergeUnionRows none

-- ---- The fast path

mutual
/-- The analytic calls of an expression, arguments first. -/
def collectAnalyticExprs (e : Expr F) : List (Expr F) :=
  (match e with
    | .call _ args => collectArgs args
    | .over call partitionBy condition =>
      (match call with
        | .call _ args => collectArgs args
        | _ => []) ++ collectOpt partitionBy ++ collectOpt condition
    | .binaryOp left _ right => collectAnalyticExprs left ++ collectAnalyticExprs right
    | .unaryOp _ expr => collectAnalyticExprs expr
    | .isNull expr _ => collectAnalyticExprs expr
    | .fieldAccess parent _ => collectAnalyticExprs parent
    | .index base index => collectAnalyticExprs base ++ collectAnalyticExprs index
    | .slice base lo hi => collectAnalyticExprs base ++ collectOpt lo ++ collectOpt hi
    | .between expr low high _ =>
      collectAnalyticExprs expr ++ collectAnalyticExprs low ++ collectAnalyticExprs high
    | .inList expr list _ => collectAnalyticExprs expr ++ collectArgs list
    | .case operand whenClauses elseClause =>
      collectOpt operand ++ collectOpt elseClause ++ collectWhens whenClauses
    | .wildcardModified _ replace => collectReplace replace
    | .wildcard | .literal _ | .identifier _ => []) ++ if isAnalyticExpr e then [e] else []
def collectArgs : List (Expr F) → List (Expr F)
  | [] => []
  | e :: es => collectAnalyticExprs e ++ collectArgs es
def collectOpt : Option (Expr F) → List (Expr F)
  | none => []
  | some e => collectAnalyticExprs e
def collectWhens : List (Expr F × Expr F) → List (Expr F)
  | [] => []
  | (c, v) :: rest => collectAnalyticExprs c ++ collectAnalyticExprs v ++ collectWhens rest
def collectReplace : List (Expr F × String) → List (Expr F)
  | [] => []
  | (e, _) :: rest => collectAnalyticExprs e ++ collectReplace rest
end

def withRowValues (x : Eval F α) : Eval F α := fun s =>
  let (result, s') := x.go { s with rowValues := ∅ }
  (result, { s' with rowValues := s.rowValues })

def advanceCalls (env : Env F) (row : Row F) (message : String → String) (calls : List (Expr F)) :
    Eval F Unit :=
  calls.forM fun call => do
    let s ← get
    let key := env.debugText call
    if (s.rowValues.lookup key).isNone then
      let value ← mapMessage message (evalExpr env row call)
      let s ← get
      set { s with rowValues := s.rowValues.insert key value }

def analyticError (text : Expr F → String) (stmt : SelectStmt F) (entry : Expr F × Nat)
    (err : String) : String :=
  let label := match fieldAlias stmt entry.2 with
    | some name => s!"alias: {name} "
    | none => ""
  let expr := text entry.1
  s!"run Select error: {label}expr: {expr} meet error, err:{err}"

def evalSelectStatelessFast (env : Env F) (text : String → Expr F → String)
    (stmt : SelectStmt F) (names : List String) (hasAnalytic : Bool) (row : Row F) :
    Eval F (Option (Row F)) :=
  match stmt.whereClause with
  | none => evalSelectStatefulWithNames env text stmt names row
  | some condition =>
    if !hasAnalytic then do
      if ← evalBoolStateful env row condition then
        evalSelectStatefulWithNames env text stmt names row
      else return none
    else
      withRowValues do
        stmt.fields.zipIdx.forM fun entry =>
          advanceCalls env row (analyticError (text stmt.source) stmt entry)
            (collectAnalyticExprs entry.1)
        advanceCalls env row (fun err => s!"run Where error: {err}")
          (collectAnalyticExprs condition)
        if ← evalBoolStateful env row condition then
          evalSelectStatefulWithNames env text stmt names row
        else return none

end

end Rekuiper.Sql
