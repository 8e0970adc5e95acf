import Rekuiper.Manifest.Model
import Rekuiper.Pipeline.Record

/-!
# The state of the node

The managers of streams and tables keep definitions in memory and in the key/value store.
Every operation takes whether its write succeeds, as the operations of the rule manager do.
-/

namespace Rekuiper.Server

open Lib Rules Manifest Pipeline

variable {F Text : Type}

structure StreamDefinition where
  name : String
  sql : String
  streamFields : List StreamField
  options : HashMap String String

abbrev TableDefinition := StreamDefinition

/-- What `StreamManager` and `TableManager` share: the definitions by their names, and the
entries of the store. -/
structure DefinitionManager (Text : Type) where
  definitions : HashMap String StreamDefinition
  kv : KvStore Text

inductive DefinitionError
  | alreadyExists (noun name : String)
  | notFound (noun name : String)
  | kv
  deriving DecidableEq, Repr

def DefinitionError.message : DefinitionError → Option String
  | .alreadyExists noun name => some s!"{noun} {name} already exists"
  | .notFound noun name => some s!"{noun} {name} not found"
  | .kv => none

namespace DefinitionManager

variable (encode : StreamDefinition → Text) (ns noun : String)

def get (m : DefinitionManager Text) (name : String) : Option StreamDefinition :=
  m.definitions.lookup name

def store (m : DefinitionManager Text) (d : StreamDefinition) (ok : Bool) :
    Except DefinitionError Unit × DefinitionManager Text :=
  if ok then
    (.ok (), { kv := m.kv.insert (ns, d.name) (encode d), definitions := m.definitions.insert d.name d })
  else (.error .kv, m)

def create (m : DefinitionManager Text) (d : StreamDefinition) (ok : Bool) :
    Except DefinitionError Unit × DefinitionManager Text :=
  if d.name ∈ m.definitions then (.error (.alreadyExists noun d.name), m)
  else m.store encode ns d ok

def delete (m : DefinitionManager Text) (name : String) (ok : Bool) :
    Except DefinitionError Unit × DefinitionManager Text :=
  if name ∈ m.definitions then
    if ok then (.ok (), { kv := m.kv.erase (ns, name), definitions := m.definitions.erase name })
    else (.error .kv, m)
  else (.error (.notFound noun name), m)

def createStream (m : DefinitionManager Text) := m.create encode "streams" "Stream"

def deleteStream (m : DefinitionManager Text) := m.delete "streams" "Stream"

def createTable (m : DefinitionManager Text) := m.create encode "tables" "Table"

def deleteTable (m : DefinitionManager Text) := m.delete "tables" "Table"

end DefinitionManager

structure PluginDefinition where
  name : String
  pluginType : String
  functions : List String

/-- `udfs` are the normalised names of the handlers. -/
structure PluginManager where
  plugins : HashMap String PluginDefinition
  udfs : List String

def PluginManager.hasUdf (m : PluginManager) (name : String) : Bool :=
  m.udfs.contains (toAsciiLowercase (trim name))

def PluginManager.listPlugins (m : PluginManager) (pluginType : String) : List PluginDefinition :=
  ((m.plugins.entries.map Sigma.snd).filter (·.pluginType = pluginType)).mergeSort fun a b =>
    a.name ≤ b.name

/-- The part of `AppState` that rules and definitions live in. `globalUdfs` is the registry
of the process, and `nextTask` the handle of the next task that is spawned. -/
structure AppState (F Text : Type) where
  streamManager : DefinitionManager Text
  tableManager : DefinitionManager Text
  schemas : HashMap String SchemaDefinition
  connections : HashMap String (Value F)
  pluginManager : PluginManager
  globalUdfs : PluginManager
  ruleManager : RuleManager F Text
  activeRuleHashes : HashMap String Nat
  nextTask : Nat

namespace AppState

def getStream (state : AppState F Text) (name : String) : Option StreamDefinition :=
  state.streamManager.get name

def getTable (state : AppState F Text) (name : String) : Option TableDefinition :=
  state.tableManager.get name

def empty : AppState F Text where
  streamManager := ⟨∅, ∅⟩
  tableManager := ⟨∅, ∅⟩
  schemas := ∅
  connections := ∅
  pluginManager := ⟨∅, []⟩
  globalUdfs := ⟨∅, []⟩
  ruleManager := RuleManager.newWithKv ∅
  activeRuleHashes := ∅
  nextTask := 0

def spawnRuleTask (state : AppState F Text) (ruleId : String) : AppState F Text :=
  { state with
    ruleManager := state.ruleManager.setRuleHandle ruleId state.nextTask
    nextTask := state.nextTask + 1 }

end AppState

end Rekuiper.Server
