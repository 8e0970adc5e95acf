import Rekuiper.Lib.Footprint
import Rekuiper.Sql.Analytic
import Rekuiper.Sql.Laws

/-!
# The state keys and the call sites of an expression

The entries of the rule's state that the evaluation of an expression reads and writes, row
by row. They are the ones of the calls that it makes, under the partition values that it gets.
A property of evaluations that every call site of an expression has holds of the evaluation of the
expression, if it goes through sequences and the values of the row.
-/

namespace Rekuiper.Sql

open Lib

section

variable {F : Type} [Float64 F]

-- ---- Calls

def argsEvaluated (lowered : String) : Bool :=
  !(["row_number", "last_hit_count", "last_hit_time", "rule_id", "rule_start", "meta", "mqtt",
    "event_time", "window_start", "window_end", "count", "sum", "avg", "min", "max"].contains lowered)

/-- The keys that a call reads and writes. -/
def callKeys (env : Env F) (name : String) (args : List (Expr F)) (partitionKey : String) :
    List String :=
  let lowered := toAsciiLowercase name
  let callId := env.toEkuiperString (.call name args)
  if isAccCall lowered then [s!"{lowered}:{callId}:{partitionKey}"]
  else if lowered = "lag" then [s!"lag:{callId}:{partitionKey}"]
  else if lowered = "had_changed" ∨ lowered = "changed_col" then
    (List.range args.length).map fun idx => s!"{lowered}:{callId}:{idx}:{partitionKey}"
  else if lowered = "sequence_match" ∨ lowered = "sequence_count" then
    [s!"cep:{lowered}:{callId}:{partitionKey}"]
  else if lowered = "changed_cols" ∧ 2 ≤ args.length then
    (args.drop 2).zipIdx.map fun (arg, idx) =>
      let col := columnName arg idx
      s!"changed_cols:{callId}:{col}:{partitionKey}"
  else if lowered = "row_number" ∧ args.isEmpty then [s!"row_number:{callId}:{partitionKey}"]
  else if lowered = "last_hit_count" then [s!"$$last_hit_count:{callId}:{partitionKey}"]
  else if lowered = "last_hit_time" then [s!"$$last_hit_time:{callId}:{partitionKey}"]
  else []

def ruleKeys (name : String) : List String :=
  let lowered := toAsciiLowercase name
  if lowered = "rule_id" then ["__rule_id__"]
  else if lowered = "rule_start" then ["__rule_start__"]
  else []

/-- The partition keys that an `OVER` can give on a row. -/
def partitionKeys (env : Env F) (row : Row F) : Option (Expr F) → Set String
  | none => {""}
  | some e => { key | ∃ s v, ((evalExpr env row e).go s).1 = .ok v ∧ valueToKey env v = key }

/-- The keys that a call, alone or under `OVER`, can read and write on a row. -/
def siteKeys (env : Env F) (row : Row F) : Expr F → Set String
  | .call name args => { key | key ∈ callKeys env name args "" }
  | .over (.call name args) partitionBy _ =>
    { key | ∃ partitionKey ∈ partitionKeys env row partitionBy,
      key ∈ callKeys env name args partitionKey }
  | _ => ∅

def siteRuleKeys : Expr F → List String
  | .call name _ => ruleKeys name
  | .over (.call name _) _ _ => ruleKeys name
  | _ => []

-- ---- Expressions

mutual
def stateCalls : Expr F → List (Expr F)
  | .call name args =>
    (if argsEvaluated (toAsciiLowercase name) then argStateCalls args else []) ++ [.call name args]
  | .over (.call name args) partitionBy condition =>
    optStateCalls partitionBy ++ optStateCalls condition ++
      (if argsEvaluated (toAsciiLowercase name) then argStateCalls args else []) ++
      [.over (.call name args) partitionBy condition]
  | .over call partitionBy condition =>
    optStateCalls partitionBy ++ optStateCalls condition ++ stateCalls call
  | .fieldAccess parent _ => stateCalls parent
  | .index base index => stateCalls base ++ stateCalls index
  | .slice base lo hi => stateCalls base ++ optStateCalls lo ++ optStateCalls hi
  | .binaryOp left _ right => stateCalls left ++ stateCalls right
  | .unaryOp _ expr => stateCalls expr
  | .between expr low high _ => stateCalls expr ++ stateCalls low ++ stateCalls high
  | .inList expr list _ => stateCalls expr ++ argStateCalls list
  | .isNull expr _ => stateCalls expr
  | .case operand whenClauses elseClause =>
    optStateCalls operand ++ whenStateCalls whenClauses ++ optStateCalls elseClause
  | .wildcard | .wildcardModified _ _ | .literal _ | .identifier _ => []
def argStateCalls : List (Expr F) → List (Expr F)
  | [] => []
  | e :: es => stateCalls e ++ argStateCalls es
def optStateCalls : Option (Expr F) → List (Expr F)
  | none => []
  | some e => stateCalls e
def whenStateCalls : List (Expr F × Expr F) → List (Expr F)
  | [] => []
  | (c, e) :: rest => stateCalls c ++ stateCalls e ++ whenStateCalls rest
end

def callsFootprint (env : Env F) (row : Row F) (calls : List (Expr F)) : Footprint String where
  reads := { key | ∃ call ∈ calls, key ∈ siteKeys env row call ∨ key ∈ siteRuleKeys call }
  writes := { key | ∃ call ∈ calls, key ∈ siteKeys env row call }
  reads_writes := fun _ ⟨call, hcall, hkey⟩ => ⟨call, hcall, .inl hkey⟩

def footprint (env : Env F) (row : Row F) (e : Expr F) : Footprint String :=
  callsFootprint env row (stateCalls e)

end

variable {F : Type} {α : Type}

/-- A property of evaluations that goes from the call sites to the whole. What is done with a
value need have it only for values that there are. -/
structure Inherited (P : ∀ {α : Type}, Eval F α → Prop) : Prop where
  lift : ∀ {α : Type} (r : Except Failure α), P (liftExcept r)
  bind : ∀ {α β : Type} {x : Eval F α} {f : α → Eval F β}, P x →
    (∀ a s, (x.go s).1 = .ok a → P (f a)) → P (x >>= f)
  cached : ∀ (env : Env F) (e : Expr F) {x : Eval F (Value F)}, P x → P (cached env e x)

section
variable [Float64 F] {P : ∀ {α : Type}, Eval F α → Prop}

def SiteHas (P : ∀ {α : Type}, Eval F α → Prop) (env : Env F) (row : Row F) : Expr F → Prop
  | .call name args =>
    (argsEvaluated (toAsciiLowercase name) = true → P (evalArgs env row args)) →
      P (evalStatefulCall env row name args (evalArgs env row args) (evalFirst env row args)
        none false)
  | .over (.call name args) partitionBy _ =>
    ∀ key ∈ partitionKeys env row partitionBy, ∀ skipUpdate : Bool,
      (argsEvaluated (toAsciiLowercase name) = true → P (evalArgs env row args)) →
        P (evalStatefulCall env row name args (evalArgs env row args) (evalFirst env row args)
          (some key) skipUpdate)
  | _ => True

theorem mem_partitionKeys {env : Env F} {row : Row F} {partitionBy : Option (Expr F)}
    {s : RuleState F} {value : Option (Value F)}
    (h : ((evalOpt env row partitionBy).go s).1 = .ok value) :
    (value.map (valueToKey env)).getD "" ∈ partitionKeys env row partitionBy := by
  cases partitionBy with
  | none =>
    unfold evalOpt at h
    cases h
    rfl
  | some e =>
    unfold evalOpt at h
    rw [go_bind] at h
    rcases hv : (evalExpr env row e).go s with ⟨_ | v, s₁⟩
    · rw [hv] at h
      cases h
    · rw [hv] at h
      cases h
      exact ⟨s, v, congrArg Prod.fst hv, rfl⟩

variable (env : Env F) (row : Row F)

mutual
theorem evalExpr_inherits (hP : Inherited P) (e : Expr F)
    (h : ∀ call ∈ stateCalls e, SiteHas P env row call) : P (evalExpr env row e) := by
  cases e with
  | wildcard | wildcardModified | literal | identifier =>
    unfold evalExpr
    exact hP.lift (.ok _)
  | fieldAccess parent leaf =>
    simp only [stateCalls] at h
    unfold evalExpr
    exact hP.bind (evalExpr_inherits hP parent h) fun _ _ _ => hP.lift (.ok _)
  | index base index =>
    simp only [stateCalls, List.forall_mem_append] at h
    unfold evalExpr
    exact hP.bind (evalExpr_inherits hP base h.1) fun _ _ _ =>
      hP.bind (evalExpr_inherits hP index h.2) fun _ _ _ => hP.lift (.ok _)
  | slice base lo hi =>
    simp only [stateCalls, List.forall_mem_append] at h
    unfold evalExpr
    exact hP.bind (evalExpr_inherits hP base h.1.1) fun _ _ _ =>
      hP.bind (evalOpt_inherits hP lo h.1.2) fun _ _ _ =>
        hP.bind (evalOpt_inherits hP hi h.2) fun _ _ _ => hP.lift (.ok _)
  | binaryOp left op right =>
    simp only [stateCalls, List.forall_mem_append] at h
    unfold evalExpr
    exact hP.bind (evalExpr_inherits hP left h.1) fun _ _ _ =>
      hP.bind (evalExpr_inherits hP right h.2) fun _ _ _ => hP.lift _
  | unaryOp op expr =>
    simp only [stateCalls] at h
    unfold evalExpr
    exact hP.bind (evalExpr_inherits hP expr h) fun _ _ _ => hP.lift (.ok _)
  | between expr low high negated =>
    simp only [stateCalls, List.forall_mem_append] at h
    unfold evalExpr
    exact hP.bind (evalExpr_inherits hP expr h.1.1) fun _ _ _ =>
      hP.bind (evalExpr_inherits hP low h.1.2) fun _ _ _ =>
        hP.bind (evalExpr_inherits hP high h.2) fun _ _ _ => hP.lift _
  | inList expr list negated =>
    simp only [stateCalls, List.forall_mem_append] at h
    unfold evalExpr
    exact hP.bind (evalExpr_inherits hP expr h.1) fun value _ _ =>
      hP.bind (evalInList_inherits hP value list h.2) fun _ _ _ => hP.lift (.ok _)
  | isNull expr negated =>
    simp only [stateCalls] at h
    unfold evalExpr
    exact hP.bind (evalExpr_inherits hP expr h) fun _ _ _ => hP.lift (.ok _)
  | call name args =>
    simp only [stateCalls, List.forall_mem_append, List.forall_mem_singleton] at h
    unfold evalExpr
    refine hP.cached _ _ (h.2 fun hargs => ?_)
    rw [if_pos hargs] at h
    exact evalArgs_inherits hP args h.1
  | «over» call partitionBy condition =>
    cases call with
    | call name args =>
      simp only [stateCalls, List.forall_mem_append, List.forall_mem_singleton] at h
      obtain ⟨⟨⟨hpartition, hcondition⟩, hargs⟩, hcall⟩ := h
      unfold evalExpr
      refine hP.cached _ _ (hP.bind (evalOpt_inherits hP partitionBy hpartition)
        fun value s hvalue => hP.bind (evalOpt_inherits hP condition hcondition) fun met _ _ => ?_)
      refine hcall _ (mem_partitionKeys hvalue) _ fun hevaluated => ?_
      rw [if_pos hevaluated] at hargs
      exact evalArgs_inherits hP args hargs
    | _ =>
      rw [stateCalls, List.forall_mem_append, List.forall_mem_append] at h
      · unfold evalExpr
        exact hP.cached _ _ (hP.bind (evalOpt_inherits hP partitionBy h.1.1) fun _ _ _ =>
          hP.bind (evalOpt_inherits hP condition h.1.2) fun _ _ _ => evalExpr_inherits hP _ h.2)
      · nofun
  | case operand whenClauses elseClause =>
    simp only [stateCalls, List.forall_mem_append] at h
    unfold evalExpr
    refine hP.bind (evalOpt_inherits hP operand h.1.1) fun value _ _ =>
      hP.bind (evalWhens_inherits hP value whenClauses h.1.2) fun result _ _ => ?_
    cases result with
    | some v => exact hP.lift (.ok _)
    | none => exact hP.bind (evalOpt_inherits hP elseClause h.2) fun _ _ _ => hP.lift (.ok _)
theorem evalArgs_inherits (hP : Inherited P) (args : List (Expr F))
    (h : ∀ call ∈ argStateCalls args, SiteHas P env row call) : P (evalArgs env row args) := by
  cases args with
  | nil =>
    unfold evalArgs
    exact hP.lift (.ok _)
  | cons e es =>
    simp only [argStateCalls, List.forall_mem_append] at h
    unfold evalArgs
    exact hP.bind (evalExpr_inherits hP e h.1) fun _ _ _ =>
      hP.bind (evalArgs_inherits hP es h.2) fun _ _ _ => hP.lift (.ok _)
theorem evalOpt_inherits (hP : Inherited P) (e : Option (Expr F))
    (h : ∀ call ∈ optStateCalls e, SiteHas P env row call) : P (evalOpt env row e) := by
  cases e with
  | none =>
    unfold evalOpt
    exact hP.lift (.ok _)
  | some e =>
    simp only [optStateCalls] at h
    unfold evalOpt
    exact hP.bind (evalExpr_inherits hP e h) fun _ _ _ => hP.lift (.ok _)
theorem evalInList_inherits (hP : Inherited P) (value : Value F) (list : List (Expr F))
    (h : ∀ call ∈ argStateCalls list, SiteHas P env row call) :
    P (evalInList env row value list) := by
  cases list with
  | nil =>
    unfold evalInList
    exact hP.lift (.ok _)
  | cons e es =>
    simp only [argStateCalls, List.forall_mem_append] at h
    unfold evalInList
    refine hP.bind (evalExpr_inherits hP e h.1) fun v _ _ => ?_
    split
    · exact hP.lift (.ok _)
    · exact evalInList_inherits hP value es h.2
theorem evalWhens_inherits (hP : Inherited P) (operand : Option (Value F))
    (clauses : List (Expr F × Expr F))
    (h : ∀ call ∈ whenStateCalls clauses, SiteHas P env row call) :
    P (evalWhens env row operand clauses) := by
  match clauses with
  | [] =>
    unfold evalWhens
    exact hP.lift (.ok _)
  | (c, e) :: rest =>
    simp only [whenStateCalls, List.forall_mem_append] at h
    unfold evalWhens
    refine hP.bind (evalExpr_inherits hP c h.1.1) fun v _ _ => ?_
    split
    · exact hP.bind (evalExpr_inherits hP e h.1.2) fun _ _ _ => hP.lift (.ok _)
    · exact evalWhens_inherits hP operand rest h.2
end

end

end Rekuiper.Sql
