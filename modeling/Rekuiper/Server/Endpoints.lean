import Rekuiper.Rules.Graph
import Rekuiper.Server.RuleChecks

/-!
# Creating and validating rules

`POST /rules` creates a rule and `POST /rules/validate` answers whether it could be
created. Both run the same checks but for the one on actions: creation looks at the actions
after a graph is compiled, validation accepts any rule with a graph. And creation makes the
rule's buffers.
-/

namespace Rekuiper.Server

open Lib Rules Sql

variable {F Text : Type} (lang : Manifest.Language F)
  (validateDataTemplate : String → Except String Unit)

def withCompiledGraph (rule : RuleDefinition F) : Except String (RuleDefinition F) :=
  if trim rule.sql = "" then
    match rule.graph with
    | none => .ok rule
    | some graph =>
      (compileGraphToSqlAndActions graph).map fun (sql, actions) =>
        { rule with sql, actions := if rule.actions.isEmpty then actions else rule.actions }
  else .ok rule

def unlessRejected {α : Type} (rejection : Option Response) (a : α) : Except Response α :=
  match rejection with
  | some r => .error r
  | none => .ok a

def checkedStmt (state : AppState F Text) (options : Option (HashMap String (Value F)))
    (validation : Bool) (sql : String) : Except Response (SelectStmt F) := do
  let stmt ← (lang.parseSelect sql).mapError fun e => badRequest s!"Invalid rule SQL: {e}"
  unlessRejected (rejectInvalidRule lang state stmt options validation) stmt

/-- What `create_rule` checks, and the rule that it then creates. -/
def checkedRule (state : AppState F Text) (rule : RuleDefinition F) :
    Except Response (RuleDefinition F) := do
  reject (trim rule.id == "") (badRequest "Missing rule id.")
  (validateRuleOptions rule.options).mapError badRequest
  (validateSinkActions validateDataTemplate rule.actions).mapError badRequest
  let rule ← (withCompiledGraph rule).mapError fun e => badRequest s!"Invalid rule graph: {e}"
  reject rule.actions.isEmpty (badRequest "invalid rule json: Missing rule actions.")
  let _ ← checkedStmt lang state rule.options false rule.sql
  return rule

def createRule (codec : EnvelopeCodec F Text) (state : AppState F Text) (rule : RuleDefinition F)
    (ok : Bool) : Response × AppState F Text :=
  match checkedRule lang validateDataTemplate state rule with
  | .error r => (r, state)
  | .ok rule =>
    match state.ruleManager.createRule codec rule ok with
    | (.error .panicked, ruleManager) => (.dropped, { state with ruleManager })
    | (.error e, _) => (⟨400, (e.message.map Body.failure).getD .storeFailure⟩, state)
    | (.ok (), ruleManager) =>
      let state := { state with ruleManager }
      if rule.bufferLen ≤ maxPermits then
        (⟨201, .text s!"Rule {rule.id} was created successfully."⟩, state.spawnRuleTask rule.id)
      else (.dropped, state)

/-- What `validate_rule` answers about a statement. -/
def validateSql (state : AppState F Text) (options : Option (HashMap String (Value F)))
    (sql : String) (sources : SelectStmt F → List String) : Except Response Response := do
  let stmt ← checkedStmt lang state options true sql
  return (checkRuleFunctions lang state stmt).getD ⟨200, .valid (sources stmt)⟩

def validateStatement (state : AppState F Text) (rule : RuleDefinition F) :
    Except Response Response :=
  match trim rule.sql == "", rule.graph with
  | true, some graph => do
    let compiled ← (compileGraphToSqlAndActions graph).mapError fun e =>
      badRequest s!"Invalid rule graph: {e}"
    validateSql lang state rule.options compiled.1 fun _ => graph.topo.sources
  | _, _ => validateSql lang state rule.options rule.sql fun stmt => [stmt.source]

def validatedRule (state : AppState F Text) (rule : RuleDefinition F) :
    Except Response Response := do
  (validateRuleOptions rule.options).mapError badRequest
  (validateSinkActions validateDataTemplate rule.actions).mapError badRequest
  reject (rule.actions.isEmpty && rule.graph.isNone)
    (unprocessable "invalid rule json: Missing rule actions.")
  validateStatement lang state rule

def validateRule (state : AppState F Text) (rule : RuleDefinition F) : Response :=
  match validatedRule lang validateDataTemplate state rule with
  | .ok r => r
  | .error r => r

-- ---- The shared checks

/-- The checks that both handlers make pass. -/
def PassesChecks (state : AppState F Text) (rule : RuleDefinition F) : Prop :=
  validateRuleOptions rule.options = .ok () ∧
    validateSinkActions validateDataTemplate rule.actions = .ok () ∧
    ∃ compiled stmt, withCompiledGraph rule = .ok compiled ∧
      lang.parseSelect compiled.sql = .ok stmt ∧
      rejectInvalidRule lang state stmt rule.options false = none

variable {lang validateDataTemplate} {state : AppState F Text} {rule : RuleDefinition F}

theorem reject_eq_ok {ε : Type} {condition : Bool} {e : ε} :
    reject condition e = .ok () ↔ condition = false := by
  cases condition <;> simp [reject]

theorem unlessRejected_eq_ok {α : Type} {rejection : Option Response} {a b : α} :
    unlessRejected rejection a = .ok b ↔ rejection = none ∧ a = b := by
  cases rejection <;> simp [unlessRejected]

theorem checkedStmt_eq_ok {options : Option (HashMap String (Value F))} {validation : Bool}
    {sql : String} {stmt : SelectStmt F} :
    checkedStmt lang state options validation sql = .ok stmt ↔
      lang.parseSelect sql = .ok stmt ∧
        rejectInvalidRule lang state stmt options validation = none := by
  constructor
  · intro h
    obtain ⟨parsed, hparsed, h⟩ := bind_eq_ok h
    obtain ⟨hreject, rfl⟩ := unlessRejected_eq_ok.mp h
    exact ⟨(mapError_ok_iff _).mp hparsed, hreject⟩
  · rintro ⟨hparsed, hreject⟩
    exact bind_eq_ok_iff.mpr
      ⟨stmt, (mapError_ok_iff _).mpr hparsed, unlessRejected_eq_ok.mpr ⟨hreject, rfl⟩⟩

def CompiledFrom (rule : RuleDefinition F) (graph : GraphDefinition F) : Prop :=
  trim rule.sql = "" ∧ rule.graph = some graph

theorem withCompiledGraph_graph {graph : GraphDefinition F} (h : CompiledFrom rule graph) :
    withCompiledGraph rule = (compileGraphToSqlAndActions graph).map fun (sql, actions) =>
      { rule with sql, actions := if rule.actions.isEmpty then actions else rule.actions } := by
  unfold withCompiledGraph
  rw [if_pos h.1, h.2]

theorem withCompiledGraph_plain (h : ∀ graph, ¬ CompiledFrom rule graph) :
    withCompiledGraph rule = .ok rule := by
  unfold withCompiledGraph
  by_cases hsql : trim rule.sql = ""
  · rw [if_pos hsql]
    cases hgraph : rule.graph with
    | none => rfl
    | some graph => exact absurd ⟨hsql, hgraph⟩ (h graph)
  · exact if_neg hsql

theorem withCompiledGraph_ok {compiled : RuleDefinition F}
    (h : withCompiledGraph rule = .ok compiled) :
    (∃ graph sql actions, CompiledFrom rule graph ∧
        compileGraphToSqlAndActions graph = .ok (sql, actions) ∧
        compiled =
          { rule with sql, actions := if rule.actions.isEmpty then actions else rule.actions }) ∨
      ((∀ graph, ¬ CompiledFrom rule graph) ∧ compiled = rule) := by
  by_cases hplain : ∀ graph, ¬ CompiledFrom rule graph
  · rw [withCompiledGraph_plain hplain] at h
    exact .inr ⟨hplain, (Except.ok.inj h).symm⟩
  · obtain ⟨graph, hgraph⟩ := not_forall_not.mp hplain
    rw [withCompiledGraph_graph hgraph] at h
    cases hcompile : compileGraphToSqlAndActions graph with
    | error e =>
      rw [hcompile] at h
      cases h
    | ok result =>
      rw [hcompile] at h
      exact .inl ⟨graph, result.1, result.2, hgraph, hcompile, (Except.ok.inj h).symm⟩

theorem withCompiledGraph_keeps {compiled : RuleDefinition F}
    (h : withCompiledGraph rule = .ok compiled) :
    compiled.id = rule.id ∧ compiled.options = rule.options := by
  obtain ⟨graph, sql, actions, -, -, rfl⟩ | ⟨-, rfl⟩ := withCompiledGraph_ok h
  · exact ⟨rfl, rfl⟩
  · exact ⟨rfl, rfl⟩

theorem compiled_has_actions_iff {compiled : RuleDefinition F}
    (h : withCompiledGraph rule = .ok compiled) :
    compiled.actions ≠ [] ↔
      rule.actions ≠ [] ∨ ∃ graph, CompiledFrom rule graph ∧ graph.HasSink := by
  obtain ⟨graph, sql, actions, hgraph, hcompile, rfl⟩ | ⟨hplain, rfl⟩ := withCompiledGraph_ok h
  · have hsink := compiled_actions_ne_nil hcompile
    by_cases hactions : rule.actions = []
    · simp [hactions, hsink, CompiledFrom, hgraph.1, hgraph.2]
    · simp [hactions]
  · refine ⟨.inl, ?_⟩
    rintro (hactions | ⟨graph, hgraph, -⟩)
    · exact hactions
    · exact absurd hgraph (hplain graph)

-- ---- Answers

def Refusing {α : Type} (x : Except Response α) : Prop := ∀ r, x = .error r → r.Refuses

theorem Refusing.bind {α β : Type} {x : Except Response α} {f : α → Except Response β}
    (hx : Refusing x) (hf : ∀ a, Refusing (f a)) : Refusing (x >>= f) := by
  intro r h
  cases x with
  | error e => exact hx r (congrArg Except.error (Except.error.inj h))
  | ok a => exact hf a r h

theorem refusing_ok {α : Type} (a : α) : Refusing (.ok a) := fun _ h => nomatch h

theorem refusing_reject (condition : Bool) {r : Response} (hr : r.Refuses) :
    Refusing (reject condition r) := by
  intro r' h
  cases condition with
  | false => cases h
  | true =>
    cases h
    exact hr

theorem refusing_mapError {α : Type} (x : Except String α) (message : String → String) :
    Refusing (x.mapError fun e => badRequest (message e)) := by
  intro r h
  cases x with
  | error e =>
    cases h
    exact refuses_badRequest _
  | ok a => cases h

theorem refusing_checkedStmt (options : Option (HashMap String (Value F))) (validation : Bool)
    (sql : String) : Refusing (checkedStmt lang state options validation sql) := by
  refine (refusing_mapError _ fun e => s!"Invalid rule SQL: {e}").bind fun stmt => ?_
  intro r h
  cases hreject : rejectInvalidRule lang state stmt options validation with
  | none =>
    rw [hreject] at h
    cases h
  | some r' =>
    rw [hreject] at h
    cases h
    exact rejectInvalidRule_refuses hreject

theorem refusing_checkedRule : Refusing (checkedRule lang validateDataTemplate state rule) :=
  (refusing_reject _ (refuses_badRequest _)).bind fun _ =>
    (refusing_mapError _ id).bind fun _ =>
      (refusing_mapError _ id).bind fun _ =>
        (refusing_mapError _ fun e => s!"Invalid rule graph: {e}").bind fun _ =>
          (refusing_reject _ (refuses_badRequest _)).bind fun _ =>
            (refusing_checkedStmt _ _ _).bind fun _ => refusing_ok _

theorem checkedRule_eq_ok {created : RuleDefinition F} :
    checkedRule lang validateDataTemplate state rule = .ok created ↔
      trim rule.id ≠ "" ∧ validateRuleOptions rule.options = .ok () ∧
        validateSinkActions validateDataTemplate rule.actions = .ok () ∧
        withCompiledGraph rule = .ok created ∧ created.actions ≠ [] ∧
        ∃ stmt, lang.parseSelect created.sql = .ok stmt ∧
          rejectInvalidRule lang state stmt created.options false = none := by
  simp only [checkedRule, check_bind_ok_iff, mapError_ok_iff, reject_eq_ok, beq_eq_false_iff_ne]
  refine and_congr_right fun _ => and_congr_right fun _ => and_congr_right fun _ => ?_
  constructor
  · intro h
    obtain ⟨compiled, hcompiled, h⟩ := bind_eq_ok h
    rw [mapError_ok_iff] at hcompiled
    obtain ⟨hactions, h⟩ := check_bind_ok_iff.mp h
    obtain ⟨stmt, hstmt, h⟩ := bind_eq_ok h
    cases h
    rw [reject_eq_ok, List.isEmpty_eq_false_iff] at hactions
    exact ⟨hcompiled, hactions, stmt, checkedStmt_eq_ok.mp hstmt⟩
  · rintro ⟨hcompiled, hactions, stmt, hstmt⟩
    refine bind_eq_ok_iff.mpr ⟨created, (mapError_ok_iff _).mpr hcompiled, ?_⟩
    refine check_bind_ok_iff.mpr
      ⟨reject_eq_ok.mpr (List.isEmpty_eq_false_iff.mpr hactions), ?_⟩
    exact bind_eq_ok_iff.mpr ⟨stmt, checkedStmt_eq_ok.mpr hstmt, rfl⟩

theorem refusing_validateSql (options : Option (HashMap String (Value F))) (sql : String)
    (sources : SelectStmt F → List String) :
    Refusing (validateSql lang state options sql sources) :=
  (refusing_checkedStmt _ _ _).bind fun _ => refusing_ok _

theorem refusing_validatedRule : Refusing (validatedRule lang validateDataTemplate state rule) := by
  refine (refusing_mapError _ id).bind fun _ => (refusing_mapError _ id).bind fun _ =>
    (refusing_reject _ (.inr rfl)).bind fun _ => ?_
  unfold validateStatement
  split
  · exact (refusing_mapError _ fun e => s!"Invalid rule graph: {e}").bind fun _ =>
      refusing_validateSql _ _ _
  · exact refusing_validateSql _ _ _

theorem validateSql_eq_ok {options : Option (HashMap String (Value F))} {sql : String}
    {sources : SelectStmt F → List String} {r : Response} :
    validateSql lang state options sql sources = .ok r ↔
      ∃ stmt, lang.parseSelect sql = .ok stmt ∧
        rejectInvalidRule lang state stmt options false = none ∧
        r = ⟨200, .valid (sources stmt)⟩ := by
  unfold validateSql
  rw [bind_eq_ok_iff]
  refine exists_congr fun stmt => ?_
  rw [checkedStmt_eq_ok, and_assoc, ← rejectInvalidRule_eq_none]
  refine and_congr_right fun _ => and_congr_right fun haccepted => ?_
  rw [checkRuleFunctions_of_accepted haccepted]
  exact ⟨fun h => (Except.ok.inj h).symm, fun h => congrArg Except.ok h.symm⟩

theorem validateStatement_eq (lang : Manifest.Language F) (state : AppState F Text)
    (rule : RuleDefinition F) :
    ∃ sources, validateStatement lang state rule =
      (withCompiledGraph rule).mapError (fun e => badRequest s!"Invalid rule graph: {e}") >>=
        fun compiled => validateSql lang state rule.options compiled.sql sources := by
  unfold validateStatement
  split
  · rename_i graph hsql hgraph
    refine ⟨fun _ => graph.topo.sources, ?_⟩
    rw [withCompiledGraph_graph ⟨eq_of_beq hsql, hgraph⟩]
    cases compileGraphToSqlAndActions graph with
    | error e => rfl
    | ok result => rfl
  · rename_i hplain
    refine ⟨fun stmt => [stmt.source], ?_⟩
    rw [withCompiledGraph_plain]
    · rfl
    · rintro graph ⟨hsql, hgraph⟩
      exact hplain graph (beq_iff_eq.mpr hsql) hgraph

-- ---- Agreement

theorem validateRule_success_iff :
    (validateRule lang validateDataTemplate state rule).isSuccess = true ↔
      (rule.actions ≠ [] ∨ rule.graph ≠ none) ∧
        PassesChecks lang validateDataTemplate state rule := by
  have hanswer : (validateRule lang validateDataTemplate state rule).isSuccess = true ↔
      ∃ r, validatedRule lang validateDataTemplate state rule = .ok r ∧ r.isSuccess = true := by
    unfold validateRule
    cases h : validatedRule lang validateDataTemplate state rule with
    | error r => simp [(refusing_validatedRule r h).not_success]
    | ok r => simp
  obtain ⟨sources, hstatement⟩ := validateStatement_eq lang state rule
  rw [hanswer]
  simp only [validatedRule, check_bind_ok_iff, mapError_ok_iff, reject_eq_ok, PassesChecks,
    Bool.and_eq_false_iff, List.isEmpty_eq_false_iff, Option.isNone_eq_false_iff,
    Option.isSome_iff_ne_none]
  simp only [hstatement, bind_eq_ok_iff, mapError_ok_iff, validateSql_eq_ok]
  constructor
  · rintro ⟨r, ⟨hoptions, hsinks, hactions, compiled, hcompiled, stmt, hstmt, haccepted, -⟩, -⟩
    exact ⟨hactions, hoptions, hsinks, compiled, stmt, hcompiled, hstmt, haccepted⟩
  · rintro ⟨hactions, hoptions, hsinks, compiled, stmt, hcompiled, hstmt, haccepted⟩
    exact ⟨_, ⟨hoptions, hsinks, hactions, compiled, hcompiled, stmt, hstmt, haccepted, rfl⟩, rfl⟩

/-- The buffers that creating a rule makes can be made. -/
def BuffersFit (rule : RuleDefinition F) : Prop :=
  rule.dlqFits = true ∧ rule.bufferLen ≤ maxPermits

theorem withCompiledGraph_buffersFit {compiled : RuleDefinition F}
    (h : withCompiledGraph rule = .ok compiled) : BuffersFit compiled ↔ BuffersFit rule := by
  unfold BuffersFit RuleDefinition.dlqFits extractDlqCapacity RuleDefinition.bufferLen
  rw [(withCompiledGraph_keeps h).2]

theorem createRule_success_iff (codec : EnvelopeCodec F Text) (hid : trim rule.id ≠ "")
    (hnew : rule.id ∉ state.ruleManager.rules) :
    (createRule lang validateDataTemplate codec state rule true).1.isSuccess = true ↔
      (rule.actions ≠ [] ∨ ∃ graph, CompiledFrom rule graph ∧ graph.HasSink) ∧
        BuffersFit rule ∧ PassesChecks lang validateDataTemplate state rule := by
  have hanswer : (createRule lang validateDataTemplate codec state rule true).1.isSuccess = true ↔
      ∃ created, checkedRule lang validateDataTemplate state rule = .ok created ∧
        BuffersFit rule := by
    unfold createRule
    cases h : checkedRule lang validateDataTemplate state rule with
    | error r => simp [(refusing_checkedRule r h).not_success]
    | ok created =>
      have hcompiled := (checkedRule_eq_ok.mp h).2.2.2.1
      rw [← (withCompiledGraph_keeps hcompiled).1] at hnew
      rw [← withCompiledGraph_buffersFit hcompiled]
      by_cases hdlq : created.dlqFits = true
      · by_cases hqueue : created.bufferLen ≤ maxPermits
        · simp [RuleManager.createRule, RuleManager.createFitting, hnew, RuleManager.persistRule,
            RuleManager.write, Response.isSuccess, BuffersFit, hdlq, hqueue]
        · simp [RuleManager.createRule, RuleManager.createFitting, hnew, RuleManager.persistRule,
            RuleManager.write, Response.isSuccess, Response.dropped, BuffersFit, hdlq, hqueue]
      · simp [RuleManager.createRule, RuleManager.createFitting, hnew, RuleManager.persistRule,
          RuleManager.write, Response.isSuccess, Response.dropped, BuffersFit, hdlq]
  rw [hanswer]
  simp only [checkedRule_eq_ok]
  constructor
  · rintro ⟨created, ⟨-, hoptions, hsinks, hcompiled, hactions, stmt, hstmt, haccepted⟩, hfit⟩
    rw [(withCompiledGraph_keeps hcompiled).2] at haccepted
    exact ⟨(compiled_has_actions_iff hcompiled).mp hactions, hfit, hoptions, hsinks, created, stmt,
      hcompiled, hstmt, haccepted⟩
  · rintro ⟨hactions, hfit, hoptions, hsinks, created, stmt, hcompiled, hstmt, haccepted⟩
    rw [← (withCompiledGraph_keeps hcompiled).2] at haccepted
    exact ⟨created, ⟨hid, hoptions, hsinks, hcompiled,
      (compiled_has_actions_iff hcompiled).mpr hactions, stmt, hstmt, haccepted⟩, hfit⟩

/-- Validation accepts exactly what creation accepts, unless a rule passes every shared check
that has no actions of its own but a graph which gives it none, or asks for a buffer that
cannot be made. -/
theorem validation_agrees_iff (lang : Manifest.Language F)
    (validateDataTemplate : String → Except String Unit) (codec : EnvelopeCodec F Text)
    (state : AppState F Text) (rule : RuleDefinition F) (hid : trim rule.id ≠ "")
    (hnew : rule.id ∉ state.ruleManager.rules) :
    ((validateRule lang validateDataTemplate state rule).isSuccess = true ↔
        (createRule lang validateDataTemplate codec state rule true).1.isSuccess = true) ↔
      (rule.actions = [] ∧ rule.graph = none) ∨
        (rule.actions ≠ [] ∨ ∃ graph, CompiledFrom rule graph ∧ graph.HasSink) ∧
          BuffersFit rule ∨
        ¬ PassesChecks lang validateDataTemplate state rule := by
  rw [validateRule_success_iff, createRule_success_iff codec hid hnew]
  have hsink : (∃ graph, CompiledFrom rule graph ∧ graph.HasSink) → rule.graph ≠ none := by
    rintro ⟨graph, ⟨-, h⟩, -⟩
    rw [h]
    exact Option.some_ne_none graph
  by_cases hpasses : PassesChecks lang validateDataTemplate state rule
  · simp only [hpasses, and_true, not_true_eq_false, or_false]
    constructor
    · intro hagree
      by_cases hvalid : rule.actions ≠ [] ∨ rule.graph ≠ none
      · exact .inr (hagree.mp hvalid)
      · rw [not_or, not_not, not_not] at hvalid
        exact .inl hvalid
    · rintro (⟨hactions, hgraph⟩ | ⟨hactions, hfit⟩)
      · exact iff_of_false (fun h => h.elim (· hactions) (· hgraph)) fun h =>
          h.1.elim (· hactions) fun hcompiled => hsink hcompiled hgraph
      · exact iff_of_true (hactions.imp_right hsink) ⟨hactions, hfit⟩
  · simp [hpasses]

def demoState : AppState ℚ (RuleDefinition ℚ × String ⊕ StreamDefinition) :=
  { AppState.empty with
    streamManager := ⟨AList.singleton "demo" ⟨"demo", "CREATE STREAM demo", [], ∅⟩, ∅⟩ }

def selectDemo : Manifest.Language ℚ :=
  Manifest.languageOf "SELECT * FROM demo" (SelectStmt.plain [.wildcard] "demo" none)

theorem validation_agrees_on_sample :
    trim (Manifest.sampleRule "SELECT * FROM demo").id ≠ "" ∧
      ((validateRule selectDemo (fun _ => .ok ()) demoState
          (Manifest.sampleRule "SELECT * FROM demo")).isSuccess = true ↔
        (createRule selectDemo (fun _ => .ok ()) .plain demoState
          (Manifest.sampleRule "SELECT * FROM demo") true).1.isSuccess = true) :=
  ⟨by decide,
    (validation_agrees_iff selectDemo _ _ demoState _ (by decide) (by decide)).mpr
      (.inr (.inl ⟨.inl (List.cons_ne_nil _ _), by decide, by decide⟩))⟩

def graphWithoutSinks : RuleDefinition ℚ :=
  { Manifest.sampleRule "SELECT * FROM demo" with actions := [], graph := some ⟨∅, ⟨[], ∅⟩⟩ }

/-- The rule is validated, but it is not created. -/
theorem validated_but_not_created :
    trim graphWithoutSinks.id ≠ "" ∧ graphWithoutSinks.id ∉ demoState.ruleManager.rules ∧
      (validateRule selectDemo (fun _ => .ok ()) demoState graphWithoutSinks).isSuccess = true ∧
      (createRule selectDemo (fun _ => .ok ()) .plain demoState graphWithoutSinks
        true).1.isSuccess = false :=
  ⟨by decide, by decide, rfl, rfl⟩

end Rekuiper.Server
