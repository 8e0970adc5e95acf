import Rekuiper.Manifest.Model
import Rekuiper.Sql.Ast

/-!
# Offline validation

`validate_manifest` checks a manifest without touching the node: the DDL of streams and
tables, and for every rule its statement, its sources, its function calls, its actions and
its options. The parsers and the function catalogue are parameters.
-/

namespace Rekuiper.Manifest

open Lib Rules Sql

variable {F : Type}

structure StreamColumn where
  name : String
  dataType : String
  defaultValue : Option String

/-- A parsed `CREATE STREAM` or `CREATE TABLE`. -/
structure CreateStmt where
  name : String
  fields : List StreamColumn
  options : HashMap String String

/-- The parsers, with the texts of their errors, and the names in the function catalogue. -/
structure Language (F : Type) where
  parseSelect : String → Except String (SelectStmt F)
  parseCreateStream : String → Except String CreateStmt
  parseCreateTable : String → Except String CreateStmt
  catalogue : List String

def knownSinkTypes : List String :=
  ["mqtt", "http", "rest", "log", "file", "memory", "influx", "influx2", "tdengine", "tdengine3",
    "iotdb", "kafka", "sql", "image", "nop", "edgex", "redis", "redisPub", "rabbitmq", "zmq",
    "zeromq", "video", "websocket", "neuron", "modbus", "opcua", "opc_ua", "opc-ua", "otlp"]

def builtinStreams : List String := ["demo", "demo2", "mockstream", "mock_stream", "table1"]

def isKnownFunction (lang : Language F) (name : String) : Bool :=
  let lower := toAsciiLowercase name
  lang.catalogue.any (eqIgnoreAsciiCase · lower) ||
    ["meta", "window_start", "window_end", "cast", "coalesce", "isnull", "dedup", "element_at",
      "cardinality", "array_contains", "array_join", "now", "current_timestamp",
      "local_timestamp", "to_seconds", "json_path_query", "json_path_exists", "latest", "lag",
      "echo", "countplusone", "accumulatewordcount"].contains lower

mutual
def collectFunctions : Expr F → List String
  | .call name args => name :: collectArgs args
  | .over call partitionBy condition =>
    collectFunctions call ++ collectOpt partitionBy ++ collectOpt condition
  | .binaryOp left _ right => collectFunctions left ++ collectFunctions right
  | .unaryOp _ expr => collectFunctions expr
  | .between expr low high _ =>
    collectFunctions expr ++ collectFunctions low ++ collectFunctions high
  | .inList expr list _ => collectFunctions expr ++ collectArgs list
  | .isNull expr _ => collectFunctions expr
  | .fieldAccess parent _ => collectFunctions parent
  | .index base index => collectFunctions base ++ collectFunctions index
  | .slice base lo hi => collectFunctions base ++ collectOpt lo ++ collectOpt hi
  | .case operand whenClauses elseClause =>
    collectOpt operand ++ collectWhens whenClauses ++ collectOpt elseClause
  | .wildcardModified _ replace => collectReplace replace
  | .wildcard | .identifier _ | .literal _ => []
def collectArgs : List (Expr F) → List String
  | [] => []
  | e :: es => collectFunctions e ++ collectArgs es
def collectOpt : Option (Expr F) → List String
  | none => []
  | some e => collectFunctions e
def collectWhens : List (Expr F × Expr F) → List String
  | [] => []
  | (c, e) :: rest => collectFunctions c ++ collectFunctions e ++ collectWhens rest
def collectReplace : List (Expr F × String) → List String
  | [] => []
  | (e, _) :: rest => collectFunctions e ++ collectReplace rest
end

-- ---- Rules

def ruleError (ruleId message : String) : ValidationDiagnostic :=
  ⟨.error, "rule", ruleId, message⟩

def backquote : Char := Char.ofNat 0x60

def doubleQuote : Char := Char.ofNat 0x22

def unquote (source : String) : String :=
  trimMatches doubleQuote (trimMatches backquote (trim source))

def sourceExists (m : DeclarativeManifest F) (source : String) : Bool :=
  let lower := toAsciiLowercase (unquote source)
  m.streams.keys.any (fun name => toAsciiLowercase name == lower) ||
    m.tables.keys.any (fun name => toAsciiLowercase name == lower) ||
    builtinStreams.contains lower

def checkSource (m : DeclarativeManifest F) (ruleId clause source : String) :
    List ValidationDiagnostic :=
  if sourceExists m source then []
  else
    let name := unquote source
    [ruleError ruleId s!"references undefined stream or table '{name}' in {clause} clause"]

def checkedClauses (stmt : SelectStmt F) : List (Expr F) :=
  stmt.fields ++ stmt.whereClause.toList ++ stmt.groupBy ++ stmt.having.toList ++
    stmt.windowFilter.toList ++ stmt.windowTriggerCondition.toList

def checkFunction (lang : Language F) (ruleId name : String) : List ValidationDiagnostic :=
  if isKnownFunction lang name then []
  else [ruleError ruleId s!"references unknown function '{name}'"]

def validateRuleSelect (lang : Language F) (m : DeclarativeManifest F) (ruleId : String)
    (stmt : SelectStmt F) : List ValidationDiagnostic :=
  checkSource m ruleId "FROM" stmt.source ++
    stmt.joins.flatMap (fun join => checkSource m ruleId "JOIN" join.target) ++
    ((checkedClauses stmt).flatMap collectFunctions).flatMap (checkFunction lang ruleId)

def validateAction (ruleId : String) (action : Sigma fun _ : String => Value F) :
    List ValidationDiagnostic :=
  let type := action.1
  (if knownSinkTypes.any (eqIgnoreAsciiCase · (toAsciiLowercase type)) then []
    else [⟨.warning, "rule", ruleId,
      s!"action '{type}' is not a known built-in sink type (may require external plugin)"⟩]) ++
    (if action.2.asObject.isSome then []
      else [ruleError ruleId s!"action '{type}' configuration must be an object"])

def validateActions (ruleId : String) (actions : List (HashMap String (Value F))) :
    List ValidationDiagnostic :=
  if actions.isEmpty then [ruleError ruleId "must define at least one sink action"]
  else actions.flatMap fun action => action.entries.flatMap (validateAction ruleId)

def validateOnError (ruleId : String) : Option (Value F) → List ValidationDiagnostic
  | none => []
  | some (.string policy) =>
    if ["drop", "dlq", "halt"].contains (toAsciiLowercase policy) then []
    else
      [ruleError ruleId
        s!"invalid 'onError' option '{policy}'; must be 'drop', 'dlq', or 'halt'"]
  | some _ => [ruleError ruleId "'onError' option must be a string ('drop', 'dlq', or 'halt')"]

def validateDlq (ruleId : String) : Option (Value F) → List ValidationDiagnostic
  | none => []
  | some dlq =>
    if dlq.asObject.isNone then [ruleError ruleId "'dlq' option must be an object"]
    else
      match dlq.get "action" with
      | none => []
      | some action =>
        if action.asObject.isSome then []
        else [ruleError ruleId "'dlq.action' must be an object specifying a sink action"]

def validateOptions (ruleId : String) (options : Option (HashMap String (Value F))) :
    List ValidationDiagnostic :=
  match options with
  | none => []
  | some options =>
    validateOnError ruleId (options.lookup "onError") ++ validateDlq ruleId (options.lookup "dlq")

/-- A rule without a statement is not looked at any further. -/
def validateRule (lang : Language F) (m : DeclarativeManifest F) (ruleId : String)
    (rule : RuleDefinition F) : List ValidationDiagnostic :=
  if trim rule.sql = "" then [ruleError ruleId "SQL statement cannot be empty"]
  else
    (match lang.parseSelect rule.sql with
      | .ok stmt => validateRuleSelect lang m ruleId stmt
      | .error e => [ruleError ruleId s!"SQL parse error: {e}"]) ++
      validateActions ruleId rule.actions ++ validateOptions ruleId rule.options

-- ---- Streams and tables

def isConnectionOption (key : String) : Bool :=
  eqIgnoreAsciiCase key "connection" || eqIgnoreAsciiCase key "conf_key"

def checkConnection (m : DeclarativeManifest F) (entityType name : String)
    (option : Sigma fun _ : String => String) : List ValidationDiagnostic :=
  let value := option.2
  let lower := toAsciiLowercase value
  if isConnectionOption option.1 && value != "" &&
      !m.connections.keys.any (fun name => toAsciiLowercase name == lower) && lower != "default" then
    [⟨.error, entityType, name, s!"references undefined connection '{value}' in options"⟩]
  else []

def checkSchema (m : DeclarativeManifest F) (name : String)
    (option : Sigma fun _ : String => String) : List ValidationDiagnostic :=
  let value := option.2
  if eqIgnoreAsciiCase option.1 "schema" && decide (value ∉ m.schemas) then
    [⟨.warning, "stream", name,
      s!"references schema '{value}' not explicitly declared in manifest schemas"⟩]
  else []

def validateStream (lang : Language F) (m : DeclarativeManifest F) (name ddl : String) :
    List ValidationDiagnostic :=
  match lang.parseCreateStream ddl with
  | .ok stmt => stmt.options.entries.flatMap fun option =>
      checkConnection m "stream" name option ++ checkSchema m name option
  | .error e => [⟨.error, "stream", name, s!"invalid CREATE STREAM DDL syntax: {e}"⟩]

def validateTable (lang : Language F) (m : DeclarativeManifest F) (name ddl : String) :
    List ValidationDiagnostic :=
  match lang.parseCreateTable ddl with
  | .ok stmt => stmt.options.entries.flatMap (checkConnection m "table" name)
  | .error e => [⟨.error, "table", name, s!"invalid CREATE TABLE DDL syntax: {e}"⟩]

-- ---- Manifests

structure ValidationSummary where
  streamsCount : Nat
  tablesCount : Nat
  rulesCount : Nat
  connectionsCount : Nat
  schemasCount : Nat
  errorsCount : Nat
  warningsCount : Nat

/-- The rules of a manifest, or the one error that there are none. -/
def manifestRules (formats : Formats F) (m : DeclarativeManifest F) :
    HashMap String (RuleDefinition F) × List ValidationDiagnostic :=
  match m.rules.intoRulesMap formats with
  | .ok map => (map, [])
  | .error e => (∅, [⟨.error, "rules", "catalog", e⟩])

def diagnose (formats : Formats F) (lang : Language F) (m : DeclarativeManifest F) :
    List ValidationDiagnostic :=
  m.streams.entries.flatMap (fun stream => validateStream lang m stream.1 stream.2) ++
    m.tables.entries.flatMap (fun table => validateTable lang m table.1 table.2) ++
    (manifestRules formats m).2 ++
    (manifestRules formats m).1.entries.flatMap fun rule => validateRule lang m rule.1 rule.2

def validateManifest (formats : Formats F) (lang : Language F) (m : DeclarativeManifest F) :
    Except (List ValidationDiagnostic) ValidationSummary :=
  let diagnostics := diagnose formats lang m
  let count (level : DiagnosticLevel) := diagnostics.countP fun d => d.level = level
  if count .error = 0 then
    .ok
      { streamsCount := m.streams.entries.length, tablesCount := m.tables.entries.length,
        rulesCount := (manifestRules formats m).1.entries.length,
        connectionsCount := m.connections.entries.length,
        schemasCount := m.schemas.entries.length, errorsCount := count .error,
        warningsCount := count .warning }
  else .error diagnostics

-- ---- Accepted manifests

section
variable {formats : Formats F} {lang : Language F} {m : DeclarativeManifest F}
  {summary : ValidationSummary}

theorem validateManifest_fine (h : validateManifest formats lang m = .ok summary) :
    ∀ d ∈ diagnose formats lang m, d.level ≠ .error := by
  simp only [validateManifest] at h
  split at h
  · rename_i hcount
    simpa [List.countP_eq_zero] using hcount
  · cases h

theorem accepted_rule {ruleId : String} {rule : RuleDefinition F}
    (h : validateManifest formats lang m = .ok summary)
    (hrule : (manifestRules formats m).1.lookup ruleId = some rule) :
    ∃ stmt, lang.parseSelect rule.sql = .ok stmt ∧
      ∀ d ∈ validateRuleSelect lang m ruleId stmt, d.level ≠ .error := by
  have hfine := validateManifest_fine h
  simp only [diagnose, List.forall_mem_append, List.forall_mem_flatMap] at hfine
  have hrule := hfine.2 ⟨ruleId, rule⟩ (AList.mem_lookup_iff.mp hrule)
  unfold validateRule at hrule
  split at hrule
  · exact absurd rfl (hrule _ (List.mem_singleton_self _))
  · simp only [List.forall_mem_append] at hrule
    obtain ⟨⟨hselect, -⟩, -⟩ := hrule
    split at hselect
    · rename_i stmt hparse
      exact ⟨stmt, hparse, hselect⟩
    · exact absurd rfl (hselect _ (List.mem_singleton_self _))

theorem accepted_definitions (h : validateManifest formats lang m = .ok summary) :
    (∀ name ddl, m.streams.lookup name = some ddl → ∃ stmt, lang.parseCreateStream ddl = .ok stmt) ∧
      ∀ name ddl, m.tables.lookup name = some ddl →
        ∃ stmt, lang.parseCreateTable ddl = .ok stmt := by
  have hfine := validateManifest_fine h
  simp only [diagnose, List.forall_mem_append, List.forall_mem_flatMap] at hfine
  obtain ⟨⟨⟨hstreams, htables⟩, -⟩, -⟩ := hfine
  constructor
  · intro name ddl hddl
    have hstream := hstreams ⟨name, ddl⟩ (AList.mem_lookup_iff.mp hddl)
    unfold validateStream at hstream
    split at hstream
    · exact ⟨_, ‹_›⟩
    · exact absurd rfl (hstream _ (List.mem_singleton_self _))
  · intro name ddl hddl
    have htable := htables ⟨name, ddl⟩ (AList.mem_lookup_iff.mp hddl)
    unfold validateTable at htable
    split at htable
    · exact ⟨_, ‹_›⟩
    · exact absurd rfl (htable _ (List.mem_singleton_self _))

theorem accepted_rules (h : validateManifest formats lang m = .ok summary) :
    m.rules.intoRulesMap formats = .ok (manifestRules formats m).1 := by
  have hfine := validateManifest_fine h
  simp only [diagnose, List.forall_mem_append] at hfine
  obtain ⟨⟨-, hrules⟩, -⟩ := hfine
  unfold manifestRules at hrules ⊢
  cases hmap : m.rules.intoRulesMap formats with
  | ok map => rfl
  | error e =>
    rw [hmap] at hrules
    exact absurd rfl (hrules _ (List.mem_singleton_self _))

end

def languageOf (sql : String) (stmt : SelectStmt ℚ) : Language ℚ where
  parseSelect text := if text = sql then .ok stmt else .error "Expected SELECT"
  parseCreateStream _ := .error "Expected CREATE"
  parseCreateTable _ := .error "Expected CREATE"
  catalogue := ["abs", "count", "sum"]

def noFormats : Formats ℚ where
  fromStr _ _ := .error "EOF while parsing a value"
  parseRule _ := .error "expected value at line 1 column 1"

end Rekuiper.Manifest
