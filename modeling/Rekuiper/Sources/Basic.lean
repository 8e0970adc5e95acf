import Mathlib.Data.Finset.Union
import Rekuiper.Lib.Maps

/-!
# Shared stream sources

Rules that read the same stream share one source task. The maps below say which
source tasks run, which rules they run for, and which fields the decoders have to
keep; `bootstrap_rule_sources`, `cancel_rule_source` and `cancel_stream_sources`
update them one by one.
-/

namespace Rekuiper.Sources

open Lib

/-- The fields of a `JsonFieldMask`. -/
abbrev FieldMask := Finset String

/-- `stream_source_cancels` holds streams and tables; a table's key is its name
behind `$table/`. -/
inductive SourceKey
  | stream (name : String)
  | table (name : String)
  deriving DecidableEq, Repr

/-- The sending end of a cancel channel: whose it is, and its number. -/
inductive CancelSender
  | source (key : SourceKey) (serial : Nat)
  | rule (id : String) (serial : Nat)
  deriving DecidableEq, Repr

/-- The part of `AppState` that keeps the sources. A `HashSet` is a list without
repetitions; `cancelled` are the channels on which `true` was sent. -/
structure AppState where
  sourceCancels : HashMap String (List CancelSender)
  streamActiveRules : HashMap String (List String)
  streamSourceCancels : HashMap SourceKey (List CancelSender)
  ruleStreams : HashMap String (List String)
  streamAttachMeta : HashMap String Bool
  streamFieldMasks : HashMap String (Option FieldMask)
  streamRuleFieldMasks : HashMap String (HashMap String (Option FieldMask))
  httpPushEndpoints : HashMap String String
  nextSerial : Nat
  cancelled : List CancelSender

namespace AppState

def empty : AppState where
  sourceCancels := ∅
  streamActiveRules := ∅
  streamSourceCancels := ∅
  ruleStreams := ∅
  streamAttachMeta := ∅
  streamFieldMasks := ∅
  streamRuleFieldMasks := ∅
  httpPushEndpoints := ∅
  nextSerial := 0
  cancelled := []

def activeRules (state : AppState) (stream : String) : List String :=
  state.streamActiveRules.find stream []

def streamsOf (state : AppState) (rule : String) : List String := state.ruleStreams.find rule []

def heldMask (state : AppState) (stream : String) : Option FieldMask :=
  state.streamFieldMasks.find stream none

def ruleMasks (state : AppState) (stream : String) : HashMap String (Option FieldMask) :=
  state.streamRuleFieldMasks.find stream ∅

def Live (state : AppState) (stream : String) : Prop :=
  ∃ sender ∈ state.streamSourceCancels.find (.stream stream) [], sender ∉ state.cancelled

-- ---- Field masks

def unionFields : List (Sigma fun _ : String => Option FieldMask) → Option FieldMask
  | [] => some ∅
  | entry :: rest => do
    let fields ← entry.2
    let union ← unionFields rest
    some (fields ∪ union)

def computeUnionFieldMask (rules : HashMap String (Option FieldMask)) : Option FieldMask :=
  if rules.entries.isEmpty then none
  else
    match unionFields rules.entries with
    | none => none
    | some union => if union = ∅ then none else some union

def updateStreamFieldMask (state : AppState) (stream rule : String) (mask : Option FieldMask) :
    AppState :=
  let masks := state.streamRuleFieldMasks.upsert stream ∅ (·.insert rule mask)
  let combined := computeUnionFieldMask (masks.find stream ∅)
  { state with
    streamRuleFieldMasks := masks
    streamFieldMasks := state.streamFieldMasks.insert stream combined }

-- ---- Starting sources

/-- `HashSet::insert` -/
def insertSet (name : String) (set : List String) : List String :=
  if name ∈ set then set else name :: set

def addRule (state : AppState) (stream rule : String) : AppState :=
  { state with
    streamActiveRules := state.streamActiveRules.upsert stream [] (insertSet rule)
    ruleStreams := state.ruleStreams.upsert rule [] (insertSet stream)
    sourceCancels :=
      state.sourceCancels.upsert rule [] (· ++ [.rule rule state.nextSerial])
    nextSerial := state.nextSerial + 1 }

def addSource (state : AppState) (key : SourceKey) : AppState :=
  { state with
    streamSourceCancels :=
      state.streamSourceCancels.upsert key [] (· ++ [.source key state.nextSerial])
    nextSerial := state.nextSerial + 1 }

def registerRuleStreamSource (state : AppState) (stream rule : String) : AppState :=
  (state.addSource (.stream stream)).addRule stream rule

def setAttachMeta (state : AppState) (stream : String) : AppState :=
  match state.streamAttachMeta.lookup stream with
  | none => state
  | some _ => { state with streamAttachMeta := state.streamAttachMeta.insert stream true }

end AppState

/-- The source a stream's definition resolves to, the first in this order whose
resolver answers. A video source can fail its validation, and a simulator can be
without data. -/
inductive SourceKind
  | httpPush (path : String)
  | mqtt
  | edgex
  | file
  | httpPull
  | webSocket
  | redisSub
  | kafka
  | sql
  | rabbitMq
  | zmq
  | video (valid : Bool)
  | modbus
  | opcUa
  | otlp
  | simulator (hasData : Bool)
  deriving DecidableEq, Repr

def SourceKind.starts : SourceKind → Bool
  | .video valid => valid
  | .simulator hasData => hasData
  | _ => true

/-- What the stream and table definitions and the source configurations say when
a rule is bootstrapped. -/
structure Definitions where
  isTable : String → Bool
  timestampField : String → Option String
  resolve : String → String → Option SourceKind

/-- What is read of a rule's statement. -/
structure Statement where
  source : String
  joins : List String
  calledFunctions : List String
  hasWildcard : Bool
  identifiers : List String

def eqIgnoreAsciiCase (a b : String) : Bool :=
  a.toList.map Char.toLower == b.toList.map Char.toLower

def Statement.needsMeta (stmt : Statement) : Bool :=
  stmt.calledFunctions.any fun f => eqIgnoreAsciiCase f "meta" || eqIgnoreAsciiCase f "mqtt"

/-- The mask for the columns a statement refers to: none where a wildcard needs
every field. -/
def extractRequiredFields (hasWildcard : Bool) (identifiers : List String)
    (timestampField : Option String) : Option FieldMask :=
  if hasWildcard || identifiers.isEmpty then none
  else
    let names := identifiers.toFinset ∪ timestampField.toList.toFinset
    some (names ∪ {"timestamp", "ts", "event_time", "time"})

def Statement.maskForStream (stmt : Statement) (defs : Definitions) (stream : String) :
    Option FieldMask :=
  extractRequiredFields stmt.hasWildcard stmt.identifiers (defs.timestampField stream)

namespace AppState

/-- `bootstrap_stream_sources` for a stream without a running source. -/
def startSource (state : AppState) (stream rule : String) (needsMeta : Bool) :
    Option SourceKind → AppState
  | none => state
  | some kind =>
    if kind.starts then
      match kind with
      | .httpPush path =>
        let state := state.registerRuleStreamSource stream rule
        { state with httpPushEndpoints := state.httpPushEndpoints.insert path stream }
      | .mqtt | .edgex =>
        let state :=
          { state with streamAttachMeta := state.streamAttachMeta.insert stream needsMeta }
        state.registerRuleStreamSource stream rule
      | _ => state.registerRuleStreamSource stream rule
    else state

def bootstrapStreamSources (state : AppState) (defs : Definitions) (rule stream : String)
    (needsMeta : Bool) (mask : Option FieldMask) : AppState :=
  if rule ∈ state.activeRules stream then
    let state := if needsMeta then state.setAttachMeta stream else state
    state.updateStreamFieldMask stream rule mask
  else if SourceKey.stream stream ∈ state.streamSourceCancels then
    let state := state.addRule stream rule
    let state := if needsMeta then state.setAttachMeta stream else state
    state.updateStreamFieldMask stream rule mask
  else
    let state := state.updateStreamFieldMask stream rule mask
    state.startSource stream rule needsMeta (defs.resolve stream rule)

def bootstrapTableSource (state : AppState) (table : String) : AppState :=
  if SourceKey.table table ∈ state.streamSourceCancels then state
  else state.addSource (.table table)

def bootstrapSource (state : AppState) (defs : Definitions) (rule : String) (stmt : Statement)
    (name : String) : AppState :=
  if defs.isTable name then state.bootstrapTableSource name
  else
    state.bootstrapStreamSources defs rule name stmt.needsMeta (stmt.maskForStream defs name)

def bootstrapRuleSources (state : AppState) (defs : Definitions) (rule : String)
    (stmt : Statement) : AppState :=
  stmt.joins.foldl
    (fun state target =>
      if !defs.isTable target && target = stmt.source then state
      else state.bootstrapSource defs rule stmt target)
    (state.bootstrapSource defs rule stmt stmt.source)

-- ---- Cancelling

def cancel (state : AppState) (senders : List CancelSender) : AppState :=
  { state with cancelled := senders ++ state.cancelled }

def dropStream (state : AppState) (stream : String) : AppState :=
  let state := state.cancel (state.streamSourceCancels.find (.stream stream) [])
  { state with
    streamSourceCancels := state.streamSourceCancels.erase (.stream stream)
    streamActiveRules := state.streamActiveRules.erase stream
    streamAttachMeta := state.streamAttachMeta.erase stream
    streamFieldMasks := state.streamFieldMasks.erase stream
    streamRuleFieldMasks := state.streamRuleFieldMasks.erase stream
    httpPushEndpoints := ⟨state.httpPushEndpoints.entries.filter (·.2 ≠ stream),
      state.httpPushEndpoints.nodupKeys.sublist (List.filter_sublist)⟩ }

def cancelStreamSources (state : AppState) (stream : String) : AppState := state.dropStream stream

def forgetMask (state : AppState) (rule stream : String) : AppState :=
  let recomputed := computeUnionFieldMask ((state.ruleMasks stream).erase rule)
  { state with
    streamRuleFieldMasks :=
      match state.streamRuleFieldMasks.lookup stream with
      | none => state.streamRuleFieldMasks
      | some masks => state.streamRuleFieldMasks.insert stream (masks.erase rule)
    streamFieldMasks :=
      match state.streamFieldMasks.lookup stream with
      | none => state.streamFieldMasks
      | some _ => state.streamFieldMasks.insert stream recomputed }

def setRules (state : AppState) (stream : String) (rules : List String) : AppState :=
  { state with streamActiveRules := state.streamActiveRules.insert stream rules }

/-- `cancel_rule_source` for one of the rule's streams. -/
def releaseStream (state : AppState) (rule stream : String) : AppState :=
  match state.streamActiveRules.lookup stream with
  | none => state.forgetMask rule stream
  | some rules =>
    let rules := rules.filter (· ≠ rule)
    let state := state.setRules stream rules
    if rules.isEmpty then state.dropStream stream else state.forgetMask rule stream

def cancelRuleSource (state : AppState) (rule : String) : AppState :=
  let streams := state.streamsOf rule
  let state := state.cancel (state.sourceCancels.find rule [])
  let state :=
    { state with
      sourceCancels := state.sourceCancels.erase rule
      ruleStreams := state.ruleStreams.erase rule }
  streams.foldl (·.releaseStream rule) state

end AppState

-- ---- Runs

/-- One call, with what the definitions say at that time. -/
inductive Op
  | bootstrapRule (defs : Definitions) (rule : String) (stmt : Statement)
  | cancelRule (rule : String)
  | cancelStream (stream : String)

def step (state : AppState) : Op → AppState
  | .bootstrapRule defs rule stmt => state.bootstrapRuleSources defs rule stmt
  | .cancelRule rule => state.cancelRuleSource rule
  | .cancelStream stream => state.cancelStreamSources stream

def run (ops : List Op) : AppState := ops.foldl step .empty

end Rekuiper.Sources
