import Mathlib.Data.List.Destutter
import Rekuiper.Json

/-!
# The rule manager

`RuleManager` keeps the rules in memory and a copy of each definition and its
status in a key/value store. Its operations are serialised by a lock. A write to
the store can fail, which is an argument of the operations here. A buffer or a queue
that is too large panics when it is made.
-/

namespace Rekuiper.Rules

open Lib

variable {F Text : Type}

structure GraphNode (F : Type) where
  nodeCategory : String
  nodeType : String
  props : HashMap String (Value F)

structure GraphTopo where
  sources : List String
  edges : HashMap String (List String)

structure GraphDefinition (F : Type) where
  nodes : HashMap String (GraphNode F)
  topo : GraphTopo

structure RuleDefinition (F : Type) where
  id : String
  name : Option String
  version : Option String
  sql : String
  actions : List (HashMap String (Value F))
  options : Option (HashMap String (Value F))
  graph : Option (GraphDefinition F)
  tags : List String

/-- The part of `RuleStatus` that the operations below write. -/
structure RuleStatus where
  status : String
  message : String
  lastException : String
  lastStartTimestamp : Int
  lastStopTimestamp : Int

/-- The part of `RuleCounters` that the operations below write. -/
structure RuleCounters where
  exceptions : Nat
  lastException : String

structure ActiveRule (F : Type) where
  definition : RuleDefinition F
  status : RuleStatus
  handle : Option Nat
  counters : RuleCounters
  dlqCapacity : Nat

def extractDlqCapacity (rule : RuleDefinition F) : Nat :=
  let capacity := do
    let options ← rule.options
    let dlq ← options.lookup "dlq"
    let capacity ← dlq.get "buffer_capacity" <|> dlq.get "bufferCapacity" <|>
      dlq.get "buffer_size" <|> dlq.get "capacity"
    capacity.asU64
  (capacity.map Int.toNat).getD 100

/-- `VecDeque::with_capacity` panics for a buffer of more than `isize::MAX` bytes. A
`DlqEnvelope` has 144 on a 64-bit machine. -/
def maxDlqCapacity : Nat := (2 ^ 63 - 1) / 144

def RuleDefinition.dlqFits (rule : RuleDefinition F) : Bool :=
  extractDlqCapacity rule ≤ maxDlqCapacity

/-- `buffer_len` of `spawn_rule_task`. -/
def RuleDefinition.bufferLen (rule : RuleDefinition F) : Nat :=
  let length := (rule.options.bind (·.lookup "bufferLength")).bind Value.asU64
  (length.map fun n => max n.toNat 1).getD 32768

/-- The permits that a semaphore can have, `usize::MAX >> 3`. A queue of more slots panics
when it is made. -/
def maxPermits : Nat := 2 ^ 61 - 1

def freshRule (rule : RuleDefinition F) (status : String) : ActiveRule F where
  definition := rule
  status :=
    { status := status, message := "", lastException := "", lastStartTimestamp := 0,
      lastStopTimestamp := 0 }
  handle := none
  counters := { exceptions := 0, lastException := "" }
  dlqCapacity := extractDlqCapacity rule

def bareRule (id : String) : RuleDefinition Unit where
  id := id
  name := none
  version := none
  sql := ""
  actions := []
  options := none
  graph := none
  tags := []

-- ---- The store

/-- A `KvStore`: a text under a namespace and a key. -/
abbrev KvStore (Text : Type) := HashMap (String × String) Text

def listAll (kv : KvStore Text) (ns : String) : List (String × Text) :=
  let entries := kv.entries.filter (·.1.1 = ns)
  (entries.map fun entry => (entry.1.2, entry.2)).mergeSort fun a b => a.1 ≤ b.1

/-- The JSON of a `PersistedRule`, which survives being read back. -/
structure EnvelopeCodec (F Text : Type) where
  encode : RuleDefinition F → String → Text
  decode : Text → Option (RuleDefinition F × String)
  decode_encode : ∀ rule status, decode (encode rule status) = some (rule, status)

/-- A store that keeps the envelopes themselves, beside other entries. -/
def EnvelopeCodec.plain {D : Type} : EnvelopeCodec F (RuleDefinition F × String ⊕ D) where
  encode rule status := .inl (rule, status)
  decode := Sum.getLeft?
  decode_encode _ _ := rfl

/-- How an operation of the manager ends without a result. A panic unwinds its callers too. -/
inductive RuleError
  | alreadyExists (id : String)
  | notFound (id : String)
  | kv
  | panicked
  deriving DecidableEq, Repr

def RuleError.message : RuleError → Option String
  | .alreadyExists id => some s!"Rule {id} already exists"
  | .notFound id => some s!"Rule {id} not found"
  | .kv | .panicked => none

/-- `aborted` are the tasks whose handle was aborted. -/
structure RuleManager (F Text : Type) where
  rules : HashMap String (ActiveRule F)
  kv : KvStore Text
  aborted : List Nat

namespace RuleManager

variable (codec : EnvelopeCodec F Text)

def newWithKv (kv : KvStore Text) : RuleManager F Text where
  rules := ∅
  kv := kv
  aborted := []

/-- `kv.set` or `kv.delete`: a write that fails stores nothing. -/
def write (ok : Bool) (kv : KvStore Text) : Except RuleError (KvStore Text) :=
  if ok then .ok kv else .error .kv

def persistRule (m : RuleManager F Text) (id : String) (rule : RuleDefinition F) (status : String)
    (ok : Bool) : Except RuleError (KvStore Text) :=
  write ok (m.kv.insert ("rules", id) (codec.encode rule status))

def unpersistRule (m : RuleManager F Text) (id : String) (ok : Bool) :
    Except RuleError (KvStore Text) :=
  write ok (m.kv.erase ("rules", id))

def deleteRuleCheckpoint (kv : KvStore Text) (id : String) (ok : Bool) :
    Except RuleError (KvStore Text) :=
  write ok (kv.erase ("rule_checkpoints", id))

def abortTask (m : RuleManager F Text) (rule : ActiveRule F) : List Nat :=
  rule.handle.toList ++ m.aborted

-- ---- Operations

/-- `create_rule` for a rule whose dead-letter buffer can be made. -/
def createFitting (m : RuleManager F Text) (rule : RuleDefinition F) (ok : Bool) :
    Except RuleError Unit × RuleManager F Text :=
  if rule.id ∈ m.rules then (.error (.alreadyExists rule.id), m)
  else
    match m.persistRule codec rule.id rule "running" ok with
    | .error e => (.error e, m)
    | .ok kv => (.ok (), { m with kv, rules := m.rules.insert rule.id (freshRule rule "running") })

/-- The rule is stored before its dead-letter buffer is made. -/
def createRule (m : RuleManager F Text) (rule : RuleDefinition F) (ok : Bool) :
    Except RuleError Unit × RuleManager F Text :=
  match m.createFitting codec rule ok with
  | (.error e, m) => (.error e, m)
  | (.ok (), created) =>
    if rule.dlqFits then (.ok (), created) else (.error .panicked, { m with kv := created.kv })

def updateRule (m : RuleManager F Text) (rule : RuleDefinition F) (ok : Bool) :
    Except RuleError Bool × RuleManager F Text :=
  match m.rules.lookup rule.id with
  | none => (.error (.notFound rule.id), m)
  | some active =>
    let wasRunning := active.status.status == "running"
    let status := if wasRunning then "running" else "stopped"
    match m.persistRule codec rule.id rule status ok with
    | .error e => (.error e, m)
    | .ok kv =>
      if wasRunning then
        (.ok wasRunning,
          { m with
            kv
            rules := m.rules.insert rule.id { active with definition := rule, handle := none }
            aborted := m.abortTask active })
      else
        (.ok wasRunning,
          { m with kv, rules := m.rules.insert rule.id { active with definition := rule } })

/-- `sort` and `dedup` -/
def sortTags (tags : List String) : List String :=
  (tags.mergeSort fun a b => a ≤ b).destutter (· ≠ ·)

def updateRuleTags (m : RuleManager F Text) (id : String) (update : List String → List String)
    (ok : Bool) : Except RuleError (List String) × RuleManager F Text :=
  match m.rules.lookup id with
  | none => (.error (.notFound id), m)
  | some active =>
    let tags := sortTags (update active.definition.tags)
    let rule := { active.definition with tags }
    match m.persistRule codec id rule active.status.status ok with
    | .error e => (.error e, m)
    | .ok kv => (.ok tags, { m with kv, rules := m.rules.insert id { active with definition := rule } })

/-- The lifecycle operations: the rule is stored with its new status, then changed
in memory, and its task aborted unless it goes on. -/
def changeStatus (m : RuleManager F Text) (id status : String) (aborts : Bool)
    (change : ActiveRule F → ActiveRule F) (ok : Bool) :
    Except RuleError Unit × RuleManager F Text :=
  match m.rules.lookup id with
  | none => (.error (.notFound id), m)
  | some active =>
    match m.persistRule codec id active.definition status ok with
    | .error e => (.error e, m)
    | .ok kv =>
      let rule := change active
      let rule := { rule with status := { rule.status with status } }
      if aborts then
        (.ok (),
          { m with
            kv
            rules := m.rules.insert id { rule with handle := none }
            aborted := m.abortTask active })
      else (.ok (), { m with kv, rules := m.rules.insert id rule })

def started (now : Int) (rule : ActiveRule F) : ActiveRule F :=
  { rule with status := { rule.status with lastStartTimestamp := now, message := "" } }

def startRule (m : RuleManager F Text) (id : String) (now : Int) (ok : Bool) :
    Except RuleError Unit × RuleManager F Text :=
  m.changeStatus codec id "running" false (started now) ok

def restartRule (m : RuleManager F Text) (id : String) (now : Int) (ok : Bool) :
    Except RuleError Unit × RuleManager F Text :=
  m.changeStatus codec id "running" true (started now) ok

def stopRule (m : RuleManager F Text) (id : String) (now : Int) (ok : Bool) :
    Except RuleError Unit × RuleManager F Text :=
  m.changeStatus codec id "stopped" true (fun rule =>
    { rule with
      status := { rule.status with lastStopTimestamp := now, message := "canceled manually" } }) ok

def haltRuleWithError (m : RuleManager F Text) (id error : String) (now : Int) (ok : Bool) :
    Except RuleError Unit × RuleManager F Text :=
  m.changeStatus codec id "stopped" true (fun rule =>
    { rule with
      counters := { exceptions := rule.counters.exceptions + 1, lastException := error }
      status :=
        { rule.status with
          lastStopTimestamp := now
          message := s!"halted on error: {error}"
          lastException := error } }) ok

def deleteRule (m : RuleManager F Text) (id : String) (ok checkpointOk : Bool) :
    Except RuleError Unit × RuleManager F Text :=
  match m.rules.lookup id with
  | none => (.error (.notFound id), m)
  | some active =>
    match m.unpersistRule id ok with
    | .error e => (.error e, m)
    | .ok kv =>
      let kv := (deleteRuleCheckpoint kv id checkpointOk).toOption.getD kv
      (.ok (), { m with kv, rules := m.rules.erase id, aborted := m.abortTask active })

def setRuleHandle (m : RuleManager F Text) (id : String) (handle : Nat) : RuleManager F Text :=
  match m.rules.lookup id with
  | none => { m with aborted := handle :: m.aborted }
  | some active =>
    if active.status.status = "running" then
      { m with
        rules := m.rules.insert id { active with handle := some handle }
        aborted := m.abortTask active }
    else
      { m with
        rules := m.rules.insert id { active with handle := none }
        aborted := handle :: m.aborted }

def loadEntry (rules : HashMap String (ActiveRule F)) (value : Text) :
    HashMap String (ActiveRule F) :=
  match codec.decode value with
  | none => rules
  | some (rule, status) =>
    rules.insert rule.id (freshRule rule (if status = "running" then "running" else "stopped"))

def loadEntries (m : RuleManager F Text) (kv : KvStore Text) : RuleManager F Text :=
  { m with
    rules := (listAll kv "rules").foldl (fun rules entry => loadEntry codec rules entry.2) m.rules }

/-- `none` is a panic, at a stored rule whose dead-letter buffer cannot be made. -/
def loadFromKv (m : RuleManager F Text) (kv : KvStore Text) : Option (RuleManager F Text) :=
  if (listAll kv "rules").all fun entry => (codec.decode entry.2).all (·.1.dlqFits) then
    some (m.loadEntries codec kv)
  else none

/-- The manager of a daemon that is started on a store, if it starts. -/
def restarted (kv : KvStore Text) : RuleManager F Text := (newWithKv kv).loadEntries codec kv

end RuleManager

end Rekuiper.Rules
