import Rekuiper.Rules.Manager

/-!
# Manifests

A manifest declares connections, schemas, streams, tables and rules. The files of a
directory are combined into one manifest, in which every name may be declared once. The
deserialisers of files and of stringified rules are parameters.
-/

namespace Rekuiper.Manifest

open Lib Rules

variable {F α : Type}

inductive DiagnosticLevel
  | error | warning
  deriving DecidableEq, Repr

structure ValidationDiagnostic where
  level : DiagnosticLevel
  entityType : String
  entityId : String
  message : String
  deriving DecidableEq, Repr

structure SchemaDefinition where
  name : String
  kind : String
  content : Option String
  file : Option String

inductive DeclarativeRuleValue (F : Type)
  | structured (rule : RuleDefinition F)
  | stringified (text : String)

inductive DeclarativeRules (F : Type)
  | map (rules : HashMap String (DeclarativeRuleValue F))
  | list (rules : List (RuleDefinition F))

structure DeclarativeManifest (F : Type) where
  version : String
  connections : HashMap String (Value F)
  schemas : HashMap String SchemaDefinition
  streams : HashMap String String
  tables : HashMap String String
  rules : DeclarativeRules F

def DeclarativeManifest.default : DeclarativeManifest F where
  version := ""
  connections := ∅
  schemas := ∅
  streams := ∅
  tables := ∅
  rules := .map ∅

/-- The deserialisers: of a file's content, by its extension, with environment variables
filled in, and of the JSON of a rule. -/
structure Formats (F : Type) where
  fromStr : String → String → Except String (DeclarativeManifest F)
  parseRule : String → Except String (RuleDefinition F)

-- ---- Rules

def withFallbackId (rule : RuleDefinition F) (fallbackId : String) : RuleDefinition F :=
  if rule.id = "" then { rule with id := fallbackId } else rule

def DeclarativeRuleValue.toRuleDefinition (formats : Formats F) (fallbackId : String) :
    DeclarativeRuleValue F → Except String (RuleDefinition F)
  | .structured rule => .ok (withFallbackId rule fallbackId)
  | .stringified text =>
    match formats.parseRule text with
    | .ok rule => .ok (withFallbackId rule fallbackId)
    | .error e => .error s!"Failed to parse rule '{fallbackId}' stringified JSON: {e}"

def insertDeclared (formats : Formats F) :
    List (Sigma fun _ : String => DeclarativeRuleValue F) → HashMap String (RuleDefinition F) →
      Except String (HashMap String (RuleDefinition F))
  | [], map => .ok map
  | ⟨id, value⟩ :: rest, map => do
    let rule ← value.toRuleDefinition formats id
    insertDeclared formats rest (map.insert id rule)

def insertListed : List (RuleDefinition F) → HashMap String (RuleDefinition F) →
    Except String (HashMap String (RuleDefinition F))
  | [], map => .ok map
  | rule :: rest, map =>
    if rule.id = "" then .error "Rule in list missing 'id' field"
    else insertListed rest (map.insert rule.id rule)

def DeclarativeRules.intoRulesMap (formats : Formats F) :
    DeclarativeRules F → Except String (HashMap String (RuleDefinition F))
  | .map rules => insertDeclared formats rules.entries ∅
  | .list rules => insertListed rules ∅

-- ---- Directories

/-- An entry of a directory, with what reading it gives. -/
structure File where
  name : String
  content : Except String String

structure Directory where
  path : String
  entries : Except String (List File)

/-- The part of a file name behind its last dot, unless the name only begins with it. -/
def extension (name : String) : Option String :=
  match name.toList.reverse.span (· ≠ '.') with
  | (ext, '.' :: stem) => if stem.isEmpty then none else some (String.ofList ext.reverse)
  | _ => none

def isManifestFile (file : File) : Bool :=
  (extension file.name).any fun ext =>
    ["yaml", "yml", "json", "toml"].contains (toAsciiLowercase ext)

/-- The manifest files in the order of their names. -/
def manifestFiles (files : List File) : List File :=
  (files.filter isManifestFile).mergeSort fun a b => a.name ≤ b.name

/-- One kind of entity: the file in which each name was seen, and the values. -/
structure Section (α : Type) where
  seen : HashMap String String
  combined : HashMap String α

def Section.empty : Section α := ⟨∅, ∅⟩

def duplicate (entityType noun name prev file : String) : ValidationDiagnostic where
  level := .error
  entityType := entityType
  entityId := name
  message := s!"Duplicate {noun} '{name}' defined in both '{prev}' and '{file}'"

def Section.merge (entityType noun file : String) :
    Section α → List (Sigma fun _ : String => α) → Section α × List ValidationDiagnostic
  | s, [] => (s, [])
  | s, ⟨name, value⟩ :: rest =>
    match s.seen.lookup name with
    | some prev =>
      let (s, diagnostics) := Section.merge entityType noun file s rest
      (s, duplicate entityType noun name prev file :: diagnostics)
    | none =>
      Section.merge entityType noun file
        { seen := s.seen.insert name file, combined := s.combined.insert name value } rest

structure Loading (F : Type) where
  version : String
  connections : Section (Value F)
  schemas : Section SchemaDefinition
  streams : Section String
  tables : Section String
  rules : Section (RuleDefinition F)
  diagnostics : List ValidationDiagnostic

def Loading.start : Loading F where
  version := ""
  connections := .empty
  schemas := .empty
  streams := .empty
  tables := .empty
  rules := .empty
  diagnostics := []

def Loading.report (l : Loading F) (diagnostics : List ValidationDiagnostic) : Loading F :=
  { l with diagnostics := l.diagnostics ++ diagnostics }

def Loading.addRules (l : Loading F) (formats : Formats F) (file : String)
    (rules : DeclarativeRules F) : Loading F :=
  match rules.intoRulesMap formats with
  | .ok map =>
    let (rules, diagnostics) := l.rules.merge "rule" "rule ID" file map.entries
    { l with rules }.report diagnostics
  | .error e => l.report [⟨.error, "rule", file, e⟩]

def Loading.addManifest (l : Loading F) (formats : Formats F) (file : String)
    (manifest : DeclarativeManifest F) : Loading F :=
  let version :=
    if l.version = "v1" ∧ manifest.version ≠ "v1" then manifest.version else l.version
  let (connections, d₁) :=
    l.connections.merge "connection" "connection" file manifest.connections.entries
  let (schemas, d₂) := l.schemas.merge "schema" "schema" file manifest.schemas.entries
  let (streams, d₃) := l.streams.merge "stream" "stream" file manifest.streams.entries
  let (tables, d₄) := l.tables.merge "table" "table" file manifest.tables.entries
  ({ l with version, connections, schemas, streams, tables }.report
    (d₁ ++ d₂ ++ d₃ ++ d₄)).addRules formats file manifest.rules

/-- The manifest of a file, or the message why there is none. -/
def parseFile (formats : Formats F) (file : File) : Except String (DeclarativeManifest F) :=
  match file.content with
  | .error e => .error s!"Failed to read file: {e}"
  | .ok content => formats.fromStr content ((extension file.name).getD "yaml")

def Loading.addFile (formats : Formats F) (l : Loading F) (file : File) : Loading F :=
  match parseFile formats file with
  | .error e => l.report [⟨.error, "manifest", file.name, e⟩]
  | .ok manifest => l.addManifest formats file.name manifest

def Loading.manifest (l : Loading F) : DeclarativeManifest F where
  version := l.version
  connections := l.connections.combined
  schemas := l.schemas.combined
  streams := l.streams.combined
  tables := l.tables.combined
  rules := .map (l.rules.combined.mapValues .structured)

def loadFromDir (formats : Formats F) (dir : Directory) :
    Except (List ValidationDiagnostic) (DeclarativeManifest F) :=
  match dir.entries with
  | .error e =>
    .error [⟨.error, "manifest", dir.path, s!"Failed to read directory {dir.path}: {e}"⟩]
  | .ok files =>
    let l := (manifestFiles files).foldl (Loading.addFile formats) .start
    if l.diagnostics.any fun d => d.level = .error then .error l.diagnostics
    else .ok l.manifest

/-- A rule with id `r` and one log action. -/
def sampleRule (sql : String) : RuleDefinition ℚ where
  id := "r"
  name := none
  version := none
  sql := sql
  actions := [AList.singleton "log" (.object [])]
  options := none
  graph := none
  tags := []

end Rekuiper.Manifest
