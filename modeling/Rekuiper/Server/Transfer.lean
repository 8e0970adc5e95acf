import Rekuiper.Server.Endpoints
import Rekuiper.Server.Reconcile

/-!
# Creation, export and import

The requests that create streams and tables, the export of everything that is defined, and
the import of such a payload. An export keeps only the SQL of streams and tables; an import
parses it again. JSON (de)serialisers and the check of video options are parameters.
-/

namespace Rekuiper.Server

open Lib Rules Sql
open Manifest (CreateStmt)

variable {F Text : Type}

-- ---- Creating streams and tables

structure CreateStreamPayload where
  sql : Option String
  name : Option String

def parsedDefinition (sql : String) (stmt : CreateStmt) : StreamDefinition :=
  ⟨stmt.name, sql, toStreamFields stmt.fields, stmt.options⟩

def bareDefinition (name sql : String) : StreamDefinition := ⟨name, sql, [], ∅⟩

def checkStreamOption (option : Sigma fun _ : String => String) : Option Response :=
  let key := option.1
  let value := option.2
  if eqIgnoreAsciiCase key "buffer_full_policy" && !eqIgnoreAsciiCase value "block" &&
      !eqIgnoreAsciiCase value "dropOldest" then
    some ⟨400,
      .text s!"Invalid buffer_full_policy: '{value}', must be 'block' or 'dropOldest'"⟩
  else if (eqIgnoreAsciiCase key "offset_reset" || eqIgnoreAsciiCase key "offsetreset") &&
      !eqIgnoreAsciiCase value "earliest" && !eqIgnoreAsciiCase value "latest" then
    some ⟨400, .text s!"Invalid offset_reset: '{value}', must be 'earliest' or 'latest'"⟩
  else none

def createFailure (command noun name : String) : DefinitionError → Response
  | .alreadyExists _ _ =>
    ⟨400, .commandFailure
      s!"{command} command error: Create {noun} fails: Item {name} already exists."⟩
  | .notFound _ _ => ⟨400, .storeFailure⟩
  | .kv => ⟨400, .storeFailure⟩

def storeStream (definitionText : StreamDefinition → Text) (state : AppState F Text)
    (d : StreamDefinition) (ok : Bool) : Response × AppState F Text :=
  match state.streamManager.createStream definitionText d ok with
  | (.error e, _) => (createFailure "Stream" "stream" d.name e, state)
  | (.ok (), streamManager) =>
    (⟨201, .text s!"Stream {d.name} is created."⟩, { state with streamManager })

def storeTable (definitionText : StreamDefinition → Text) (state : AppState F Text)
    (d : TableDefinition) (ok : Bool) : Response × AppState F Text :=
  match state.tableManager.createTable definitionText d ok with
  | (.error e, _) => (createFailure "Table" "table" d.name e, state)
  | (.ok (), tableManager) =>
    (⟨201, .text s!"Table {d.name} is created."⟩, { state with tableManager })

/-- `SHOW STREAMS` and `DESCRIBE STREAM` are answered without changing anything. -/
def answerStatement (state : AppState F Text) (sql : String) : Option Response :=
  match (splitWhitespace sql).map toAsciiUppercase with
  | "SHOW" :: "STREAMS" :: _ => some ⟨201, .names state.streamManager.definitions.keys⟩
  | "DESCRIBE" :: "STREAM" :: _ =>
    let quotes := [Char.ofNat 0x22, Char.ofNat 0x27, Char.ofNat 0x60, ';']
    let target := trimAny quotes (((splitWhitespace sql)[2]?).getD "")
    if target = "" then some ⟨400, .text "Missing stream name in DESCRIBE STREAM"⟩
    else
      match state.getStream target with
      | some d => some ⟨201, .described d⟩
      | none =>
        some ⟨400, .commandFailure
          s!"describe stream error: Describe stream fails, {target} is not found."⟩
  | _ => none

section
variable (lang : Manifest.Language F)
  (validateVideoOptions : HashMap String String → Except String Unit)
  (definitionText : StreamDefinition → Text)

def checkStreamOptions (options : HashMap String String) : Option Response :=
  (options.entries.findSome? checkStreamOption).or <|
    match validateVideoOptions options with
    | .ok () => none
    | .error e => some ⟨400, .commandFailure s!"Stream command error: {e}"⟩

def createStreamSql (state : AppState F Text) (sql : String) (ok : Bool) :
    Response × AppState F Text :=
  match answerStatement state sql with
  | some r => (r, state)
  | none =>
    match lang.parseCreateStream sql with
    | .error e => (⟨400, .commandFailure s!"Stream command error: {e}"⟩, state)
    | .ok stmt =>
      match checkStreamOptions validateVideoOptions stmt.options with
      | some r => (r, state)
      | none => storeStream definitionText state (parsedDefinition sql stmt) ok

def createStream (state : AppState F Text) (payload : CreateStreamPayload) (ok : Bool) :
    Response × AppState F Text :=
  match payload.sql, payload.name with
  | some sql, _ => createStreamSql lang validateVideoOptions definitionText state sql ok
  | none, some name => storeStream definitionText state (bareDefinition name "") ok
  | none, none => (⟨400, .commandFailure "Missing sql or name in request"⟩, state)

def createTable (state : AppState F Text) (payload : CreateStreamPayload) (ok : Bool) :
    Response × AppState F Text :=
  match payload.sql with
  | none => (⟨400, .commandFailure "Missing sql in request"⟩, state)
  | some sql =>
    match lang.parseCreateTable sql with
    | .error e => (⟨400, .commandFailure s!"Table command error: {e}"⟩, state)
    | .ok stmt => storeTable definitionText state (parsedDefinition sql stmt) ok

end

-- ---- Export

structure TransferCodec (F : Type) where
  ruleText : RuleDefinition F → String
  parseJson : String → Option (Value F)
  ruleOfValue : Value F → Option (RuleDefinition F)
  definitionOfValue : Value F → Except String StreamDefinition

def insertAll (entries : List (String × Value F)) : List (String × Value F) :=
  entries.foldl (fun fields entry => setField entry.1 entry.2 fields) []

def exportDefinitions (m : DefinitionManager Text) : Value F :=
  .object (insertAll (m.definitions.entries.map fun entry => (entry.1, .string entry.2.sql)))

def exportRules (codec : TransferCodec F) (m : RuleManager F Text) : Value F :=
  .object (insertAll (m.rules.entries.map fun entry =>
    (entry.2.definition.id, .string (codec.ruleText entry.2.definition))))

def exportRuleset (codec : TransferCodec F) (state : AppState F Text) : Value F :=
  .object [("rules", exportRules codec state.ruleManager),
    ("streams", exportDefinitions state.streamManager),
    ("tables", exportDefinitions state.tableManager)]

def exportData (codec : TransferCodec F) (state : AppState F Text) : Value F :=
  .object [("Schema", .object []), ("Service", .object []), ("connectionConfig", .object []),
    ("nativePlugins", .object []), ("portablePlugins", .object []),
    ("rules", exportRules codec state.ruleManager), ("scripts", .object []),
    ("sinkConfig", .object []), ("sourceConfig", .object []),
    ("streams", exportDefinitions state.streamManager),
    ("tables", exportDefinitions state.tableManager), ("uploads", .object [])]

-- ---- Import

abbrev ImportErrors := HashMap String (Option String)

/-- A section of an import: what was created and what failed. -/
structure Imported (α : Type) where
  state : α
  count : Nat
  errors : ImportErrors

/-- The writes that succeed, by the position of the entry in its section. -/
structure ImportWrites where
  streams : Nat → Bool
  tables : Nat → Bool
  rules : Nat → Bool

section
variable (parse : String → Except String CreateStmt)
  (create : DefinitionManager Text → StreamDefinition → Bool →
    Except DefinitionError Unit × DefinitionManager Text)

def importDefinition (s : Imported (DefinitionManager Text)) (d : StreamDefinition) (ok : Bool) :
    Imported (DefinitionManager Text) :=
  match create s.state d ok with
  | (.error e, _) => { s with errors := s.errors.insert d.name e.message }
  | (.ok (), m) => { s with state := m, count := s.count + 1 }

def importItem (codec : TransferCodec F) (noun : String) (ok : Nat → Bool)
    (s : Imported (DefinitionManager Text)) (item : Value F × Nat) :
    Imported (DefinitionManager Text) :=
  match codec.definitionOfValue item.1 with
  | .error e =>
    { s with errors := s.errors.insert "unknown" (some s!"invalid {noun} definition: {e}") }
  | .ok d => importDefinition create s d (ok item.2)

/-- The definition that an entry of the object form gives: the name is taken from the text,
and only if it does not parse from the entry. -/
def reimported (name sql : String) : Option StreamDefinition :=
  match parse sql with
  | .ok stmt => some (parsedDefinition sql stmt)
  | .error _ => if name = "" then none else some (bareDefinition name sql)

def sqlOf (value : Value F) : String :=
  (value.asStr.or ((value.get "sql").bind Value.asStr)).getD ""

def importField (ok : Nat → Bool) (s : Imported (DefinitionManager Text))
    (entry : (String × Value F) × Nat) : Imported (DefinitionManager Text) :=
  match reimported parse entry.1.1 (sqlOf entry.1.2) with
  | none => s
  | some d => importDefinition create s d (ok entry.2)

def importDefinitions (codec : TransferCodec F) (noun : String) (ok : Nat → Bool)
    (entries : Option (Value F)) (m : DefinitionManager Text) :
    Imported (DefinitionManager Text) :=
  let start : Imported (DefinitionManager Text) := ⟨m, 0, ∅⟩
  match entries with
  | some (.array items) => items.zipIdx.foldl (importItem create codec noun ok) start
  | some (.object fields) => fields.zipIdx.foldl (importField parse create ok) start
  | _ => start

end

def withId (key : String) : Value F → Value F
  | .object fields =>
    if (field "id" fields).isSome then .object fields
    else .object (setField "id" (.string key) fields)
  | v => v

def ruleEntry (codec : TransferCodec F) (entry : String × Value F) : Option (Value F) :=
  (match entry.2.asStr with
    | some text => codec.parseJson text
    | none => some entry.2).map (withId entry.1)

def ruleValues (codec : TransferCodec F) : Option (Value F) → List (Value F)
  | some (.array items) => items
  | some (.object fields) => fields.filterMap (ruleEntry codec)
  | _ => []

def importRule (lang : Manifest.Language F) (envelope : EnvelopeCodec F Text)
    (codec : TransferCodec F)
    (ok : Nat → Bool) (s : Imported (AppState F Text)) (item : Value F × Nat) :
    Imported (AppState F Text) :=
  match codec.ruleOfValue item.1 with
  | none => { s with errors := s.errors.insert "unknown" (some "invalid rule definition") }
  | some rule =>
    match lang.parseSelect rule.sql with
    | .error _ => { s with errors := s.errors.insert rule.id (some "failed to parse SQL") }
    | .ok _ =>
      match s.state.ruleManager.createFitting envelope rule (ok item.2) with
      | (.error e, _) => { s with errors := s.errors.insert rule.id e.message }
      | (.ok (), ruleManager) =>
        { s with
          state := { s.state with ruleManager }.spawnRuleTask rule.id
          count := s.count + 1 }

structure ImportStatus where
  streams : ImportErrors
  tables : ImportErrors
  rules : ImportErrors

structure ImportCounts where
  streams : Nat
  tables : Nat
  rules : Nat

def processImportPayload (lang : Manifest.Language F) (enc : Encoders F Text)
    (codec : TransferCodec F)
    (writes : ImportWrites) (state : AppState F Text) (payload : Value F) :
    (ImportCounts × ImportStatus) × AppState F Text :=
  let streams := importDefinitions lang.parseCreateStream
    (fun m => m.createStream enc.definitionText) codec "stream" writes.streams
    (payload.get "streams") state.streamManager
  let tables := importDefinitions lang.parseCreateTable
    (fun m => m.createTable enc.definitionText) codec "table" writes.tables
    (payload.get "tables") state.tableManager
  let start := { state with streamManager := streams.state, tableManager := tables.state }
  let rules := (ruleValues codec (payload.get "rules")).zipIdx.foldl
    (importRule lang enc.envelope codec writes.rules) ⟨start, 0, ∅⟩
  ((⟨streams.count, tables.count, rules.count⟩, ⟨streams.errors, tables.errors, rules.errors⟩),
    rules.state)

def resetConfiguration (kv : KvPattern) (state : AppState F Text) : AppState F Text :=
  let ids := state.ruleManager.rules.entries.map fun entry => entry.2.definition.id
  { state with
    ruleManager := ids.foldl (fun m id =>
      (m.deleteRule id (kv (.deleteRule id)) (kv (.deleteCheckpoint id))).2) state.ruleManager
    streamManager := state.streamManager.definitions.keys.foldl (fun m name =>
      (m.deleteStream name (kv (.deleteStream name))).2) state.streamManager
    tableManager := state.tableManager.definitions.keys.foldl (fun m name =>
      (m.deleteTable name (kv (.deleteTable name))).2) state.tableManager }

def importData (lang : Manifest.Language F) (enc : Encoders F Text) (codec : TransferCodec F)
    (kv : KvPattern) (writes : ImportWrites) (isPartial : Bool) (state : AppState F Text)
    (payload : Value F) : (ImportCounts × ImportStatus) × AppState F Text :=
  processImportPayload lang enc codec writes
    (if isPartial then state else resetConfiguration kv state) payload

end Rekuiper.Server
