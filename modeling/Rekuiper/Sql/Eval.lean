import Rekuiper.Sql.Operators

/-!
# Expressions

`Evaluator` on one row. Evaluating an expression reads and writes the state of the
rule's analytic functions. The clock, the texts of expressions and values, the
function library and the analytic functions themselves are parameters.
-/

namespace Rekuiper.Sql

open Lib

variable {F : Type}

/-- The state of a rule's analytic functions, and their values on the current row. -/
structure RuleState (F : Type) where
  state : HashMap String (Value F)
  rowValues : HashMap String (Value F)

def RuleState.new : RuleState F := ⟨∅, ∅⟩

def RuleState.insert (s : RuleState F) (key : String) (value : Value F) : RuleState F :=
  { s with state := s.state.insert key value }

abbrev Eval (F : Type) := ExceptT Failure (StateM (RuleState F))

def Eval.go {α : Type} (x : Eval F α) (s : RuleState F) : Except Failure α × RuleState F := x s

/-- A call of an analytic function with its arguments evaluated. Only the sequence
functions read the event time. -/
structure AnalyticCall (F : Type) where
  name : String
  args : List (Value F)
  callId : String
  partitionKey : String
  skipUpdate : Bool
  eventTime : Option Int

structure Env (F : Type) where
  /-- `Utc::now().timestamp_millis()` -/
  now : Int
  /-- `to_ekuiper_string` -/
  toEkuiperString : Expr F → String
  /-- The `Debug` text, which names a call among the values of the current row. -/
  debugText : Expr F → String
  /-- `to_string` -/
  jsonText : Value F → String
  /-- `serde_json::from_str` -/
  parseJson : String → Option (Value F)
  /-- `parse::<f64>` -/
  parseF64 : String → Option F
  /-- `parse_from_rfc3339`, in milliseconds -/
  parseRfc3339 : String → Option Int
  /-- `NaiveDateTime::parse_from_str` with a format, in milliseconds -/
  parseNaiveDateTime : String → String → Option Int
  /-- Midnight of `NaiveDate::parse_from_str` with a format, in milliseconds -/
  parseNaiveDate : String → String → Option Int
  likeMatch : String → String → Bool
  /-- `eval_call_fallible` -/
  evalCall : String → List (Value F) → Except Failure (Value F)
  /-- `eval_aggregate_call` on one record: the number of arguments, whether the first is
  `*`, and what `eval_val` gives for it. -/
  aggregate : String → Nat → Bool → Except Failure (Value F) → Except Failure (Value F)
  /-- The `acc_*` functions, `lag`, `had_changed`, `changed_col` and the sequence functions. -/
  analytic : AnalyticCall F → StateM (HashMap String (Value F)) (Value F)

-- ---- Names of functions

def isAccCall (lowered : String) : Bool :=
  ["acc_map_agg", "acc_max", "acc_max_by", "acc_min", "acc_min_by", "acc_count", "acc_sum",
    "acc_avg", "acc_collect", "acc_distinct_collect", "distinct_acc"].contains lowered

def isAnalyticExpr : Expr F → Bool
  | .call name _ =>
    let name := toAsciiLowercase name
    isAccCall name ||
      ["lag", "had_changed", "changed_col", "row_number", "last_hit_count", "last_hit_time",
        "sequence_match", "sequence_count"].contains name
  | .over call _ _ => isAnalyticExpr call
  | _ => false

mutual
def exprHasAnalytic (e : Expr F) : Bool :=
  isAnalyticExpr e ||
    match e with
    | .call _ args => argsHaveAnalytic args
    | .over call partitionBy condition =>
      (match call with
        | .call _ args => argsHaveAnalytic args
        | _ => false) ||
        optHasAnalytic partitionBy || optHasAnalytic condition
    | .binaryOp left _ right => exprHasAnalytic left || exprHasAnalytic right
    | .unaryOp _ expr => exprHasAnalytic expr
    | .isNull expr _ => exprHasAnalytic expr
    | .fieldAccess parent _ => exprHasAnalytic parent
    | .index base index => exprHasAnalytic base || exprHasAnalytic index
    | .slice base lo hi => exprHasAnalytic base || optHasAnalytic lo || optHasAnalytic hi
    | .between expr low high _ =>
      exprHasAnalytic expr || exprHasAnalytic low || exprHasAnalytic high
    | .inList expr list _ => exprHasAnalytic expr || argsHaveAnalytic list
    | .case operand whenClauses elseClause =>
      optHasAnalytic operand || whensHaveAnalytic whenClauses || optHasAnalytic elseClause
    | .wildcardModified _ replace => replaceHasAnalytic replace
    | .wildcard | .literal _ | .identifier _ => false
def argsHaveAnalytic : List (Expr F) → Bool
  | [] => false
  | e :: es => exprHasAnalytic e || argsHaveAnalytic es
def optHasAnalytic : Option (Expr F) → Bool
  | none => false
  | some e => exprHasAnalytic e
def whensHaveAnalytic : List (Expr F × Expr F) → Bool
  | [] => false
  | (c, v) :: rest => exprHasAnalytic c || exprHasAnalytic v || whensHaveAnalytic rest
def replaceHasAnalytic : List (Expr F × String) → Bool
  | [] => false
  | (e, _) :: rest => exprHasAnalytic e || replaceHasAnalytic rest
end

def stmtHasAnalytic (stmt : SelectStmt F) : Bool :=
  argsHaveAnalytic stmt.fields || optHasAnalytic stmt.whereClause

def columnName (e : Expr F) (idx : Nat) : String :=
  match e with
  | .wildcard | .wildcardModified _ _ => "*"
  | .identifier name => name
  | .fieldAccess _ leaf => leaf
  | .call name _ => name
  | _ => s!"kuiper_field_{idx}"

section
variable [Float64 F]

-- ---- Columns

def column (row : Row F) (name : String) : Value F :=
  match row.lookup name with
  | some value => value
  | none =>
    if name = "window_start" ∨ name = "window_end" then
      (row.lookup s!"__{name}__").getD .null
    else .null

def ownedByOther (row : Row F) (parent leaf : String) : Bool :=
  row.entries.any fun entry =>
    entry.1 != parent && (entry.2.asObject.bind (field leaf)).isSome

/-- The value of `parent.leaf`, given the value of the parent. -/
def fieldAccess (row : Row F) (parent : Expr F) (value : Value F) (leaf : String) : Value F :=
  match value.get leaf with
  | some v => v
  | none =>
    match parent with
    | .identifier name =>
      match row.lookup s!"{name}.{leaf}" with
      | some v => v
      | none => if ownedByOther row name leaf then .null else (row.lookup leaf).getD .null
    | _ => .null

def firstPresent (row : Row F) (keys : List String) : Option (Value F) :=
  keys.findSome? fun key => row.lookup key

/-- A metadata key in the first present metadata object, or a field of the row. -/
def resolveMetaKey (row : Row F) (object : Option (List (String × Value F))) (key : String) :
    Value F :=
  let found := object.bind fun fields =>
    (field key fields).or
      ((fields.find? fun entry => eqIgnoreAsciiCase entry.1 key).map Prod.snd)
  found.getD ((row.lookup key).getD .null)

def resolveMeta (args : List (Expr F)) (first : Except Failure (Value F)) (row : Row F)
    (objectKeys : List String) : Except Failure (Value F) :=
  let object := (firstPresent row objectKeys).bind Value.asObject
  match args with
  | [] | .wildcard :: _ => .ok ((object.map Value.object).getD .null)
  | .identifier name :: _ => .ok (resolveMetaKey row object name)
  | _ =>
    first.map fun value =>
      match value with
      | .string key => resolveMetaKey row object key
      | _ => .null

def resolveEventTime (env : Env F) (row : Row F) : Value F :=
  (["timestamp", "event_time", "__timestamp__"].findSome? fun key =>
    (row.lookup key).filter fun v => !v.isNull).getD (ofI64 env.now)

/-- `meta`, `mqtt`, `event_time`, `window_start` and `window_end`. -/
def evalContextCall (env : Env F) (lowered : String) (args : List (Expr F))
    (first : Except Failure (Value F)) (row : Row F) : Option (Except Failure (Value F)) :=
  if lowered = "meta" then some (resolveMeta args first row ["__meta__", "meta"])
  else if lowered = "mqtt" then
    some (resolveMeta args first row ["__mqtt__", "mqtt", "__meta__"])
  else if lowered = "event_time" then some (.ok (resolveEventTime env row))
  else if lowered = "window_start" then
    some (.ok ((firstPresent row ["window_start", "__window_start__"]).getD .null))
  else if lowered = "window_end" then
    some (.ok ((firstPresent row ["window_end", "__window_end__"]).getD .null))
  else none

-- ---- Calls

/-- A partition value as a part of a state key. -/
def valueToKey (env : Env F) : Value F → String
  | .null => "null:"
  | .bool b => s!"bool:{b}"
  | .number n => let text := n.render; s!"num:{text}"
  | .string s => s!"str:{s}"
  | v => let text := env.jsonText v; s!"json:{text}"

def callAnalytic (env : Env F) (call : AnalyticCall F) : Eval F (Value F) := do
  let s ← get
  let (value, state) := (env.analytic call).run s.state
  set { s with state := state }
  pure value

/-- Whether `changed_cols` reports a column. -/
def hasChanged (previous : Option (Value F)) (value : Value F) : Bool :=
  match previous with
  | none => true
  | some p => if p.isNull && value.isNull then false else !valuesEqual p value

def changedCols (callId partitionKey lead : String) (ignoreNull : Bool) :
    Nat → List (Expr F) → List (Value F) → List (String × Value F) →
      Eval F (List (String × Value F))
  | idx, arg :: args, value :: values, result =>
    if ignoreNull && value.isNull then
      changedCols callId partitionKey lead ignoreNull (idx + 1) args values result
    else do
      let col := columnName arg idx
      let key := s!"changed_cols:{callId}:{col}:{partitionKey}"
      let s ← get
      if hasChanged (s.state.lookup key) value then
        set (s.insert key value)
        changedCols callId partitionKey lead ignoreNull (idx + 1) args values
          (setField (lead ++ col) value result)
      else
        changedCols callId partitionKey lead ignoreNull (idx + 1) args values result
  | _, _, _, result => pure result

def callChangedCols (callId partitionKey : String) (args : List (Expr F))
    (values : List (Value F)) : Eval F (Value F) := do
  let lead := (values[0]?.bind Value.asStr).getD ""
  let ignoreNull := (values[1]?.bind Value.asBool).getD false
  let result ← changedCols callId partitionKey lead ignoreNull 0 (args.drop 2) (values.drop 2) []
  pure (if result.isEmpty then .null else .object result)

def counter (s : RuleState F) (key : String) : Int :=
  ((s.state.lookup key).bind Value.asI64).getD 0

def callRowNumber (key : String) (skipUpdate : Bool) : Eval F (Value F) := do
  let s ← get
  let current := counter s key
  if skipUpdate then pure (ofI64 current)
  else
    let next := saturate (current + 1)
    set (s.insert key (ofI64 next))
    pure (ofI64 next)

def callLastHit (key : String) (next : Int → Int) : Eval F (Value F) := do
  let s ← get
  let current := counter s key
  set (s.insert key (ofI64 (next current)))
  pure (ofI64 current)

def callRuleId (row : Row F) : Eval F (Value F) := do
  let s ← get
  match row.lookup "__rule_id__", s.state.lookup "__rule_id__" with
  | some (.string id), _ => pure (.string id)
  | _, some (.string id) => pure (.string id)
  | _, _ => pure (.string "")

def callRuleStart (env : Env F) (row : Row F) : Eval F (Value F) := do
  let s ← get
  match row.lookup "__rule_start__", s.state.lookup "__rule_start__" with
  | some (.number n), _ => pure (.number n)
  | _, some (.number n) => pure (.number n)
  | _, _ => pure (ofI64 env.now)

/-- `eval_stateful_call_fallible`, given how its arguments and its first argument alone
are evaluated. -/
def evalStatefulCall (env : Env F) (row : Row F) (name : String) (args : List (Expr F))
    (values : Eval F (List (Value F))) (first : Except Failure (Value F))
    (partitionKey : Option String) (skipUpdate : Bool) : Eval F (Value F) :=
  let lowered := toAsciiLowercase name
  let callId := env.toEkuiperString (.call name args)
  let key := partitionKey.getD ""
  if isAccCall lowered ∨ lowered = "lag" ∨ lowered = "had_changed" ∨ lowered = "changed_col" then do
    callAnalytic env ⟨lowered, ← values, callId, key, skipUpdate, none⟩
  else if lowered = "sequence_match" ∨ lowered = "sequence_count" then do
    let eventTime := (resolveEventTime env row).asI64.getD 0
    callAnalytic env ⟨lowered, ← values, callId, key, skipUpdate, some eventTime⟩
  else if lowered = "changed_cols" ∧ 2 ≤ args.length then do
    callChangedCols callId key args (← values)
  else if lowered = "row_number" then
    if args.isEmpty then callRowNumber s!"row_number:{callId}:{key}" skipUpdate
    else pure .null
  else if lowered = "last_hit_count" then
    callLastHit s!"$$last_hit_count:{callId}:{key}" fun current => saturate (current + 1)
  else if lowered = "last_hit_time" then
    callLastHit s!"$$last_hit_time:{callId}:{key}" fun _ =>
      (resolveEventTime env row).asI64.getD 0
  else if lowered = "rule_id" then callRuleId row
  else if lowered = "rule_start" then callRuleStart env row
  else
    match evalContextCall env lowered args first row with
    | some result => liftExcept result
    | none =>
      if ["count", "sum", "avg", "min", "max"].contains lowered then
        let wildcard := match args with
          | .wildcard :: _ => true
          | _ => false
        liftExcept (env.aggregate lowered args.length wildcard first)
      else do
        liftExcept (env.evalCall name (← values))

def cached (env : Env F) (e : Expr F) (x : Eval F (Value F)) : Eval F (Value F) := do
  let s ← get
  if isAnalyticExpr e then
    match s.rowValues.lookup (env.debugText e) with
    | some value => pure value
    | none => x
  else x

-- ---- Expressions

def whenHolds : Option (Value F) → Value F → Bool
  | some operand, value => valuesEqual operand value
  | none, .bool true => true
  | none, _ => false

mutual
/-- `eval_stateful_expr_fallible` -/
def evalExpr (env : Env F) (row : Row F) : Expr F → Eval F (Value F)
  | .wildcard => pure .null
  | .wildcardModified _ _ => pure .null
  | .literal value => pure value
  | .identifier name => pure (column row name)
  | .fieldAccess parent leaf => do
    let value ← evalExpr env row parent
    pure (fieldAccess row parent value leaf)
  | .index base index => do
    let b ← evalExpr env row base
    let i ← evalExpr env row index
    pure (indexValue b i)
  | .slice base lo hi => do
    let b ← evalExpr env row base
    let l ← evalOpt env row lo
    let h ← evalOpt env row hi
    pure (sliceValue b l h)
  | .binaryOp left op right => do
    let l ← evalExpr env row left
    let r ← evalExpr env row right
    liftExcept (evalBinaryOp env.likeMatch l op r)
  | .unaryOp op expr => do
    let v ← evalExpr env row expr
    pure (evalUnaryOp op v)
  | .between expr low high negated => do
    let v ← evalExpr env row expr
    let l ← evalExpr env row low
    let h ← evalExpr env row high
    liftExcept (evalBetween v l h negated)
  | .inList expr list negated => do
    let v ← evalExpr env row expr
    let matched ← evalInList env row v list
    pure (.bool (matched != negated))
  | .isNull expr negated => do
    let v ← evalExpr env row expr
    pure (.bool (v.isNull != negated))
  | .call name args =>
    cached env (.call name args)
      (evalStatefulCall env row name args (evalArgs env row args) (evalFirst env row args)
        none false)
  | .over (.call name args) partitionBy condition =>
    cached env (.over (.call name args) partitionBy condition) do
      let partition ← evalOpt env row partitionBy
      let met ← evalOpt env row condition
      evalStatefulCall env row name args (evalArgs env row args) (evalFirst env row args)
        (some ((partition.map (valueToKey env)).getD ""))
        ((met.map fun v => !(v.asBool.getD false)).getD false)
  | .over call partitionBy condition =>
    cached env (.over call partitionBy condition) do
      let _ ← evalOpt env row partitionBy
      let _ ← evalOpt env row condition
      evalExpr env row call
  | .case operand whenClauses elseClause => do
    let value ← evalOpt env row operand
    match ← evalWhens env row value whenClauses with
    | some result => pure result
    | none => return (← evalOpt env row elseClause).getD .null
def evalArgs (env : Env F) (row : Row F) : List (Expr F) → Eval F (List (Value F))
  | [] => pure []
  | e :: es => do
    let v ← evalExpr env row e
    let vs ← evalArgs env row es
    pure (v :: vs)
/-- `eval_val` of the first argument -/
def evalFirst (env : Env F) (row : Row F) : List (Expr F) → Except Failure (Value F)
  | [] => .ok .null
  | e :: _ => unwrapOr .null ((evalExpr env row e).go RuleState.new).1
def evalOpt (env : Env F) (row : Row F) : Option (Expr F) → Eval F (Option (Value F))
  | none => pure none
  | some e => do
    let v ← evalExpr env row e
    pure (some v)
/-- Whether some item is equal to the value; the items after it are not evaluated. -/
def evalInList (env : Env F) (row : Row F) (value : Value F) : List (Expr F) → Eval F Bool
  | [] => pure false
  | e :: es => do
    let v ← evalExpr env row e
    if valuesEqual value v then pure true else evalInList env row value es
/-- The value of the first clause that holds. -/
def evalWhens (env : Env F) (row : Row F) (operand : Option (Value F)) :
    List (Expr F × Expr F) → Eval F (Option (Value F))
  | [] => pure none
  | (c, e) :: rest => do
    let v ← evalExpr env row c
    if whenHolds operand v then
      let result ← evalExpr env row e
      pure (some result)
    else evalWhens env row operand rest
end

def evalVal (env : Env F) (row : Row F) (e : Expr F) : Except Failure (Value F) :=
  unwrapOr .null ((evalExpr env row e).go RuleState.new).1

-- ---- Conditions

def conditionAnswer : Except Failure (Value F) → Except Failure Bool
  | .ok (.bool b) => .ok b
  | .ok .null => .ok false
  | .ok other =>
    let text := formatEkuiperValType other
    .error (.message s!"run Where error: invalid condition that returns non-bool value {text}")
  | .error (.message text) => .error (.message s!"run Where error: {text}")
  | .error (.panic text) => .error (.panic text)

/-- A comparison of a column with a literal, on `f64` where both are numbers. -/
def fastComparison (env : Env F) (left : Value F) (op : BinaryOperator) (right : Value F) :
    Except Failure Bool :=
  match left.asF64, right.asF64 with
  | some l, some r =>
    match op with
    | .gt => .ok (Float64.lt r l)
    | .gte => .ok (Float64.le r l)
    | .lt => .ok (Float64.lt l r)
    | .lte => .ok (Float64.le l r)
    | .eq => .ok (Float64.lt (Float64.abs (Float64.sub l r)) Float64.epsilon)
    | .neq => .ok (Float64.le Float64.epsilon (Float64.abs (Float64.sub l r)))
    | _ => conditionAnswer (evalBinaryOp env.likeMatch left op right)
  | _, _ => conditionAnswer (evalBinaryOp env.likeMatch left op right)

/-- The part of `eval_bool_stateful_fallible` that evaluates any expression. -/
def evalCondition (env : Env F) (row : Row F) (e : Expr F) : Eval F Bool :=
  fun s => let (result, s) := (evalExpr env row e).go s; (conditionAnswer result, s)

def fastPath (env : Env F) (row : Row F) : Expr F → Option (Except Failure Bool)
  | .binaryOp (.identifier name) op (.literal lit) =>
    (row.lookup name).map fun v => fastComparison env v op lit
  | .binaryOp (.literal lit) op (.identifier name) =>
    (row.lookup name).map fun v => fastComparison env lit op v
  | _ => none

/-- `eval_bool_stateful_fallible` -/
def evalBoolStateful (env : Env F) (row : Row F) (e : Expr F) : Eval F Bool :=
  match fastPath env row e with
  | some answer => liftExcept answer
  | none => evalCondition env row e

def evalBool (env : Env F) (row : Row F) (e : Expr F) : Except Failure Bool :=
  unwrapOr false ((evalBoolStateful env row e).go RuleState.new).1

-- ---- Arithmetic in projections

/-- The `f64` value of an arithmetic expression, and whether it has integers only. -/
def evalF64 (row : Row F) : Expr F → Option (F × Bool)
  | .literal v => v.asF64.map fun f => (f, v.asI64.isSome)
  | .identifier name =>
    (row.lookup name).bind fun v => v.asF64.map fun f => (f, v.asI64.isSome)
  | .binaryOp left op right =>
    match evalF64 row left, evalF64 row right with
    | some (l, leftInts), some (r, rightInts) =>
      match op with
      | .add => some (Float64.add l r, leftInts && rightInts)
      | .sub => some (Float64.sub l r, leftInts && rightInts)
      | .mul => some (Float64.mul l r, leftInts && rightInts)
      | .div =>
        if Float64.eq r (Float64.ofInt 0) then none else some (Float64.div l r, false)
      | _ => none
    | _, _ => none
  | _ => none

/-- `try_eval_numeric_fast`: integers are left to the general evaluation. -/
def tryEvalNumericFast (row : Row F) (e : Expr F) : Option (Value F) :=
  match e with
  | .binaryOp _ op _ =>
    if op = .add ∨ op = .sub ∨ op = .mul ∨ op = .div then
      (evalF64 row e).bind fun (result, ints) =>
        if !Float64.isFinite result then none
        else if ints && Float64.le (Float64.ofInt minI64) result &&
          Float64.le result (Float64.ofInt maxI64) then none
        else some (.number (.float result))
    else none
  | _ => none

end

end Rekuiper.Sql
