import Rekuiper.Json

/-!
# Statements

The syntax tree of rule statements, as the parser builds it.
-/

namespace Rekuiper.Sql

inductive BinaryOperator
  | eq | neq | lt | lte | gt | gte
  | and | or
  | add | sub | mul | div | mod
  | like
  | bitAnd | bitOr | bitXor
  deriving DecidableEq, Repr

inductive UnaryOperator
  | not | neg
  deriving DecidableEq, Repr

inductive Expr (F : Type) where
  | wildcard
  | wildcardModified (except : List String) (replace : List (Expr F × String))
  | identifier (name : String)
  | literal (value : Value F)
  | binaryOp (left : Expr F) (op : BinaryOperator) (right : Expr F)
  | unaryOp (op : UnaryOperator) (expr : Expr F)
  | between (expr low high : Expr F) (negated : Bool)
  | inList (expr : Expr F) (list : List (Expr F)) (negated : Bool)
  | isNull (expr : Expr F) (negated : Bool)
  | fieldAccess (parent : Expr F) (field : String)
  | index (base index : Expr F)
  | slice (base : Expr F) (lo hi : Option (Expr F))
  | call (name : String) (args : List (Expr F))
  | case (operand : Option (Expr F)) (whenClauses : List (Expr F × Expr F))
      (elseClause : Option (Expr F))
  | over (call : Expr F) (partitionBy condition : Option (Expr F))

section
variable {F : Type}

mutual
/-- The subexpressions that an evaluation can reach. -/
def subexprs (e : Expr F) : List (Expr F) :=
  e ::
    match e with
    | .wildcard | .wildcardModified _ _ | .literal _ | .identifier _ => []
    | .fieldAccess parent _ => subexprs parent
    | .index base index => subexprs base ++ subexprs index
    | .slice base lo hi => subexprs base ++ optSubexprs lo ++ optSubexprs hi
    | .binaryOp left _ right => subexprs left ++ subexprs right
    | .unaryOp _ expr => subexprs expr
    | .between expr low high _ => subexprs expr ++ subexprs low ++ subexprs high
    | .inList expr list _ => subexprs expr ++ argSubexprs list
    | .isNull expr _ => subexprs expr
    | .call _ args => argSubexprs args
    | .over call partitionBy condition =>
      subexprs call ++ optSubexprs partitionBy ++ optSubexprs condition
    | .case operand whenClauses elseClause =>
      optSubexprs operand ++ whenSubexprs whenClauses ++ optSubexprs elseClause
def argSubexprs : List (Expr F) → List (Expr F)
  | [] => []
  | e :: es => subexprs e ++ argSubexprs es
def optSubexprs : Option (Expr F) → List (Expr F)
  | none => []
  | some e => subexprs e
def whenSubexprs : List (Expr F × Expr F) → List (Expr F)
  | [] => []
  | (c, e) :: rest => subexprs c ++ subexprs e ++ whenSubexprs rest
end

end

inductive TimeUnit
  | dd | hh | mi | ss | ms
  deriving DecidableEq, Repr

inductive WindowDef (F : Type) where
  | tumblingTime (unit : TimeUnit) (length : Nat)
  | hoppingTime (unit : TimeUnit) (length interval : Nat)
  | slidingTime (unit : TimeUnit) (length : Nat) (delay : Option Nat)
  | count (size : Nat) (interval : Option Nat)
  | session (unit : TimeUnit) (maxDuration timeout : Nat)
  | state (startCondition : Expr F) (endCondition : Option (Expr F))

inductive SortOrder
  | asc | desc
  deriving DecidableEq, Repr

structure OrderByItem (F : Type) where
  expr : Expr F
  order : SortOrder

inductive JoinType
  | inner | left | right | full | cross | asof | leftAsof
  deriving DecidableEq, Repr

structure JoinClause (F : Type) where
  joinType : JoinType
  target : String
  targetAlias : Option String
  onCondition : Option (Expr F)

inductive SetOp
  | union | unionAll
  deriving DecidableEq, Repr

structure SelectStmt (F : Type) where
  fields : List (Expr F)
  fieldAliases : List (Option String)
  source : String
  sourceAlias : Option String
  joins : List (JoinClause F)
  whereClause : Option (Expr F)
  groupBy : List (Expr F)
  window : Option (WindowDef F)
  windowFilter : Option (Expr F)
  windowTriggerCondition : Option (Expr F)
  windowPartitionBy : Option (Expr F)
  having : Option (Expr F)
  orderBy : List (OrderByItem F)
  limit : Option Nat
  setOp : Option (SetOp × SelectStmt F)

variable {F : Type}

/-- `SELECT fields FROM source WHERE condition` -/
def SelectStmt.plain (fields : List (Expr F)) (source : String) (condition : Option (Expr F)) :
    SelectStmt F :=
  { fields, fieldAliases := fields.map fun _ => none, source, sourceAlias := none, joins := [],
    whereClause := condition, groupBy := [], window := none, windowFilter := none,
    windowTriggerCondition := none, windowPartitionBy := none, having := none, orderBy := [],
    limit := none, setOp := none }

mutual
/-- A statement and the statements that it is united with, in order. -/
def branches : SelectStmt F → List (SelectStmt F)
  | stmt@{ setOp := setOp, .. } => stmt :: optBranches setOp
def optBranches : Option (SetOp × SelectStmt F) → List (SelectStmt F)
  | none => []
  | some op => opBranches op
def opBranches : SetOp × SelectStmt F → List (SelectStmt F)
  | (_, rhs) => branches rhs
end

theorem branches_eq (stmt : SelectStmt F) : branches stmt = stmt :: optBranches stmt.setOp := by
  cases stmt
  rw [branches]

end Rekuiper.Sql
