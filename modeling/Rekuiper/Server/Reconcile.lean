import Rekuiper.Manifest.Validator
import Rekuiper.Server.State

/-!
# Reconciling a manifest

`reconcile_manifest` brings the streams, tables and rules of the node in line with a
manifest. Streams and tables are compared by their DDL, rules by a hash that is kept beside
them. The errors of the managers are ignored. Which writes to the store succeed is a
parameter: in one run every manager is called at most once for an operation and a name.
-/

namespace Rekuiper.Server

open Lib Rules Manifest Pipeline Sql

variable {F Text : Type}

/-- The calls that write to the store, by the name or manifest key they are made for. -/
inductive KvCall
  | registerSchema (key : String)
  | createStream (name : String)
  | deleteStream (name : String)
  | createTable (name : String)
  | deleteTable (name : String)
  | stopRule (id : String)
  | deleteRule (id : String)
  | deleteCheckpoint (id : String)
  | createRule (key : String)

abbrev KvPattern := KvCall → Bool

structure ReconcileReport where
  status : String
  streamsCreated : Nat
  streamsUpdated : Nat
  streamsDeleted : Nat
  tablesCreated : Nat
  tablesUpdated : Nat
  tablesDeleted : Nat
  rulesStarted : Nat
  rulesRestarted : Nat
  rulesUnchanged : Nat
  rulesStopped : Nat

/-- The renderer of JSON, SHA-256 over length-prefixed texts, and the encoding of
definitions in the store. -/
structure Encoders (F Text : Type) where
  jsonText : Value F → String
  digest : List String → Nat
  definitionText : StreamDefinition → Text
  envelope : EnvelopeCodec F Text

def toStreamFields (columns : List StreamColumn) : List StreamField :=
  columns.map fun column => ⟨column.name, column.dataType, column.defaultValue⟩

-- ---- Streams and tables

structure Changes where
  created : Nat
  updated : Nat
  deleted : Nat

/-- The operations on definitions of one kind: the parser of their DDL, and the calls of
the manager with the writes that succeed. -/
structure DefinitionOps (Text : Type) where
  parse : String → Except String CreateStmt
  create : DefinitionManager Text → StreamDefinition → Bool →
    Except DefinitionError Unit × DefinitionManager Text
  delete : DefinitionManager Text → String → Bool →
    Except DefinitionError Unit × DefinitionManager Text
  createOk : String → Bool
  deleteOk : String → Bool

def declaredDefinition (name ddl : String) (stmt : CreateStmt) : StreamDefinition :=
  ⟨name, ddl, toStreamFields stmt.fields, stmt.options⟩

def reconcileEntry (ops : DefinitionOps Text) (existing : HashMap String StreamDefinition)
    (s : DefinitionManager Text × Changes) (entry : Sigma fun _ : String => String) :
    DefinitionManager Text × Changes :=
  let (m, changes) := s
  let name := entry.1
  match ops.parse entry.2 with
  | .error _ => s
  | .ok stmt =>
    let d := declaredDefinition name entry.2 stmt
    match existing.lookup name with
    | some old =>
      if old.sql ≠ entry.2 then
        ((ops.create (ops.delete m name (ops.deleteOk name)).2 d (ops.createOk name)).2,
          { changes with updated := changes.updated + 1 })
      else s
    | none =>
      ((ops.create m d (ops.createOk name)).2, { changes with created := changes.created + 1 })

def removeEntry (ops : DefinitionOps Text) (declared : HashMap String String)
    (s : DefinitionManager Text × Changes) (old : Sigma fun _ : String => StreamDefinition) :
    DefinitionManager Text × Changes :=
  let (m, changes) := s
  let name := old.1
  if name ∈ declared then s
  else
    ((ops.delete m name (ops.deleteOk name)).2, { changes with deleted := changes.deleted + 1 })

def reconcileDefinitions (ops : DefinitionOps Text) (declared : HashMap String String)
    (m : DefinitionManager Text) : DefinitionManager Text × Changes :=
  m.definitions.entries.foldl (removeEntry ops declared)
    (declared.entries.foldl (reconcileEntry ops m.definitions) (m, ⟨0, 0, 0⟩))

def streamOps (lang : Manifest.Language F) (enc : Encoders F Text) (kv : KvPattern) :
    DefinitionOps Text where
  parse := lang.parseCreateStream
  create m := m.createStream enc.definitionText
  delete m := m.deleteStream
  createOk name := kv (.createStream name)
  deleteOk name := kv (.deleteStream name)

def tableOps (lang : Manifest.Language F) (enc : Encoders F Text) (kv : KvPattern) :
    DefinitionOps Text where
  parse := lang.parseCreateTable
  create m := m.createTable enc.definitionText
  delete m := m.deleteTable
  createOk name := kv (.createTable name)
  deleteOk name := kv (.deleteTable name)

-- ---- The hash of a rule

def GraphNode.toValue (node : GraphNode F) : Value F :=
  .object [("nodeType", .string node.nodeType), ("props", Value.ofMap node.props),
    ("type", .string node.nodeCategory)]

def GraphDefinition.toValue (graph : GraphDefinition F) : Value F :=
  let strings (names : List String) : Value F := .array (names.map .string)
  let topo : Value F :=
    .object [("edges", Value.ofMap (graph.topo.edges.mapValues strings)),
      ("sources", strings graph.topo.sources)]
  .object [("nodes", Value.ofMap (graph.nodes.mapValues GraphNode.toValue)), ("topo", topo)]

def sourceTexts (m : DeclarativeManifest F) (source : String) : List String :=
  let lower := toAsciiLowercase (unquote source)
  let ddls (declared : HashMap String String) : List String :=
    (declared.entries.filter fun entry => eqIgnoreAsciiCase entry.1 lower).map Sigma.snd
  lower :: ddls m.streams ++ ddls m.tables

def statementTexts (lang : Manifest.Language F) (m : DeclarativeManifest F) (sql : String) :
    List String :=
  match lang.parseSelect sql with
  | .error _ => []
  | .ok stmt => (stmt.source :: stmt.joins.map (·.target)).flatMap (sourceTexts m)

def ruleTexts (lang : Manifest.Language F) (enc : Encoders F Text) (m : DeclarativeManifest F)
    (rule : RuleDefinition F) : List String :=
  [rule.id] ++ rule.name.toList ++ rule.version.toList ++
    [rule.sql, enc.jsonText (.array (rule.actions.map Value.ofMap)),
      enc.jsonText ((rule.options.map Value.ofMap).getD .null),
      enc.jsonText ((rule.graph.map GraphDefinition.toValue).getD .null)] ++
    rule.tags ++ statementTexts lang m rule.sql ++
    m.connections.entries.flatMap (fun entry =>
      [toAsciiLowercase entry.1, enc.jsonText entry.2]) ++
    m.schemas.entries.flatMap fun entry => toAsciiLowercase entry.1 :: entry.2.content.toList

def computeRuleEffectiveHash (lang : Manifest.Language F) (enc : Encoders F Text)
    (m : DeclarativeManifest F) (rule : RuleDefinition F) : Nat :=
  enc.digest (ruleTexts lang enc m rule)

-- ---- Rules

section
variable (lang : Manifest.Language F) (enc : Encoders F Text) (kv : KvPattern) (now : Int)

def stopAndDelete (state : AppState F Text) (id : String) : AppState F Text :=
  let stopped := (state.ruleManager.stopRule enc.envelope id now (kv (.stopRule id))).2
  { state with
    ruleManager := (stopped.deleteRule id (kv (.deleteRule id)) (kv (.deleteCheckpoint id))).2 }

def createAndSpawn (m : DeclarativeManifest F) (state : AppState F Text) (key : String)
    (rule : RuleDefinition F) : AppState F Text :=
  let created := (state.ruleManager.createFitting enc.envelope rule (kv (.createRule key))).2
  let state := { state with ruleManager := created }.spawnRuleTask key
  { state with
    activeRuleHashes :=
      state.activeRuleHashes.insert key (computeRuleEffectiveHash lang enc m rule) }

def isRunning (state : AppState F Text) (id : String) : Bool :=
  (state.ruleManager.rules.lookup id).any fun active => active.status.status == "running"

def isUnchanged (m : DeclarativeManifest F) (state : AppState F Text) (key : String)
    (rule : RuleDefinition F) : Bool :=
  state.activeRuleHashes.lookup key == some (computeRuleEffectiveHash lang enc m rule) &&
    isRunning state key

def removeOld (existing : List String) (s : AppState F Text × ReconcileReport) (key : String) :
    AppState F Text × ReconcileReport :=
  if existing.contains key then
    (stopAndDelete enc kv now s.1 key, { s.2 with rulesRestarted := s.2.rulesRestarted + 1 })
  else (s.1, { s.2 with rulesStarted := s.2.rulesStarted + 1 })

def reconcileRules (m : DeclarativeManifest F) (existing : List String) :
    List (Sigma fun _ : String => RuleDefinition F) → AppState F Text × ReconcileReport →
      Except String Unit × (AppState F Text × ReconcileReport)
  | [], s => (.ok (), s)
  | ⟨key, rule⟩ :: rest, s =>
    if isUnchanged lang enc m s.1 key rule then
      reconcileRules m existing rest
        (s.1, { s.2 with rulesUnchanged := s.2.rulesUnchanged + 1 })
    else
      let removed := removeOld enc kv now existing s key
      match lang.parseSelect rule.sql with
      | .error e => (.error s!"Failed to parse SQL for rule '{key}': {e}", removed)
      | .ok _ =>
        reconcileRules m existing rest (createAndSpawn lang enc kv m removed.1 key rule, removed.2)

def removeRule (incoming : HashMap String (RuleDefinition F))
    (s : AppState F Text × ReconcileReport) (id : String) : AppState F Text × ReconcileReport :=
  if id ∈ incoming then s
  else
    let state := stopAndDelete enc kv now s.1 id
    ({ state with activeRuleHashes := state.activeRuleHashes.erase id },
      { s.2 with rulesStopped := s.2.rulesStopped + 1 })

-- ---- Manifests

def ValidationDiagnostic.render (d : ValidationDiagnostic) : String :=
  let mark := if d.level = .error then "✗" else "⚠"
  s!"{mark} {d.entityType} '{d.entityId}': {d.message}"

def registerSchemas (m : DeclarativeManifest F) (schemas : HashMap String SchemaDefinition) :
    HashMap String SchemaDefinition :=
  m.schemas.entries.foldl (fun schemas entry =>
    let key := s!"{entry.2.kind}/{entry.2.name}"
    if kv (.registerSchema key) then schemas.insert key entry.2 else schemas) schemas

def reconcileSources (m : DeclarativeManifest F) (state : AppState F Text) :
    AppState F Text × ReconcileReport :=
  let connections := m.connections.entries.foldl (fun connections entry =>
    connections.insert entry.1 entry.2) state.connections
  let streams := reconcileDefinitions (streamOps lang enc kv) m.streams state.streamManager
  let tables := reconcileDefinitions (tableOps lang enc kv) m.tables state.tableManager
  ({ state with
      connections
      schemas := registerSchemas kv m state.schemas
      streamManager := streams.1
      tableManager := tables.1 },
    { status := "reloaded"
      streamsCreated := streams.2.created
      streamsUpdated := streams.2.updated
      streamsDeleted := streams.2.deleted
      tablesCreated := tables.2.created
      tablesUpdated := tables.2.updated
      tablesDeleted := tables.2.deleted
      rulesStarted := 0
      rulesRestarted := 0
      rulesUnchanged := 0
      rulesStopped := 0 })

def reconcileManifest (formats : Formats F) (m : DeclarativeManifest F)
    (state : AppState F Text) : Except String ReconcileReport × AppState F Text :=
  match validateManifest formats lang m with
  | .error diagnostics =>
    let messages := "\n".intercalate (diagnostics.map ValidationDiagnostic.render)
    (.error s!"Manifest validation failed with {diagnostics.length} error(s):\n{messages}", state)
  | .ok _ =>
    let sources := reconcileSources lang enc kv m state
    match m.rules.intoRulesMap formats with
    | .error e => (.error s!"Failed to parse rules from manifest: {e}", sources.1)
    | .ok incoming =>
      let existing := state.ruleManager.rules.entries.map fun entry => entry.2.definition.id
      match reconcileRules lang enc kv now m existing incoming.entries sources with
      | (.error e, s) => (.error e, s.1)
      | (.ok (), s) =>
        let s := existing.foldl (removeRule enc kv now incoming) s
        (.ok s.2, s.1)

end

def demoLanguage : Manifest.Language ℚ :=
  { languageOf "SELECT * FROM demo" (.plain [.wildcard] "demo" none) with
    parseCreateStream := fun ddl =>
      if ddl = "CREATE STREAM demo" then .ok ⟨"demo", [], ∅⟩ else .error "Expected CREATE" }

def demoEncoders : Encoders ℚ (RuleDefinition ℚ × String ⊕ StreamDefinition) where
  jsonText
    | .null => "null"
    | _ => "[\x7b\"log\":\x7b\x7d\x7d]"
  digest texts := (texts.map String.length).sum
  definitionText := .inr
  envelope := .plain

end Rekuiper.Server
