import Rekuiper.Bus.Topic
import Rekuiper.Lib.Chunks

/-!
# The publish functions

`publish_async_topic`, `publish_batch_topic` and `try_publish_topic` as programs
over the topic's operations. A guard's drop is the operation it performs: the
gate is unlocked, and before that the batch flag cleared, on every way out.
-/

namespace Rekuiper.Bus

open Lib (Prog)
open Lib.Prog (perform)

variable {ρ : Type}

abbrev PublishResult := Except PublishError Nat

def admissionChunkRecords : Nat := 512

-- ---- The operations as programs

abbrev loadBatchActive : BusProg ρ Bool := perform BusOp.loadBatchActive

abbrev storeBatchActive (active : Bool) : BusProg ρ Unit := perform (BusOp.storeBatchActive active)

abbrev readSenders : BusProg ρ (List (Sender ρ)) := perform BusOp.readSenders

abbrev purgeClosed : BusProg ρ Unit := perform BusOp.purgeClosed

abbrev isClosed (s : Sender ρ) : BusProg ρ Bool := perform (BusOp.isClosed s)

abbrev bump (counter : Nat) : BusProg ρ Unit := perform (BusOp.bump counter)

abbrev tryReserve (chunk chan n : Nat) : BusProg ρ TryReserve :=
  perform (BusOp.tryReserve chunk chan n)

abbrev reserve (chunk chan n : Nat) : BusProg ρ Bool := perform (BusOp.reserve chunk chan n)

abbrev release (chan n : Nat) : BusProg ρ Unit := perform (BusOp.release chan n)

abbrev send (chan : Nat) (record : ρ) : BusProg ρ Unit := perform (BusOp.send chan record)

abbrev tryLockGate : BusProg ρ Bool := perform BusOp.tryLockGate

abbrev lockGate : BusProg ρ Unit := perform BusOp.lockGate

abbrev unlockGate : BusProg ρ Unit := perform BusOp.unlockGate

abbrev addUndelivered (n : Nat) : BusProg ρ Unit := perform (BusOp.addUndelivered n)

-- ---- Parts shared by the publish functions

/-- An `if` without `else`. -/
def onlyIf (condition : Bool) (p : BusProg ρ Unit) : BusProg ρ Unit :=
  if condition then p else pure ()

def SubscriberFilter.checkAndAccount (f : SubscriberFilter ρ) (record : ρ) : BusProg ρ Bool :=
  if f.accepts record then pure true
  else do
    bump f.sourceInCounter
    bump f.filteredCounter
    pure false

def Sender.check (s : Sender ρ) (record : ρ) : BusProg ρ Bool :=
  match s.filter with
  | none => pure true
  | some f => f.checkAndAccount record

def liveSenders : List (Sender ρ) → BusProg ρ (List (Sender ρ))
  | [] => pure []
  | s :: rest => do
    let closed ← isClosed s
    let live ← liveSenders rest
    pure (if closed then live else s :: live)

/-- The number of registered senders and those that are open. -/
def snapshot : BusProg ρ (Nat × List (Sender ρ)) := do
  let senders ← readSenders
  let live ← liveSenders senders
  pure (senders.length, live)

def admission : BusProg ρ Unit := do
  if ← tryLockGate then pure () else lockGate

/-- `n` slots of a queue, waiting for them if it is full: whether they could be
reserved. -/
def reserveSlots (chunk chan n : Nat) : BusProg ρ Bool := do
  match ← tryReserve chunk chan n with
  | .permit => pure true
  | .closed => pure false
  | .full => reserve chunk chan n

/-- `record` to every queue, each of which has a permit reserved. -/
def sendEach (record : ρ) : List (Sender ρ) → BusProg ρ Unit
  | [] => pure ()
  | s :: rest => do
    send s.chan record
    sendEach record rest

-- ---- publish_async

/-- The path for at most one subscriber, `none` if there are more. It stands in
the source twice, in front of the gate and behind it. -/
def publishSingle (record : ρ) : BusProg ρ (Option PublishResult) := do
  match ← readSenders with
  | [] => pure (some (.ok 0))
  | [s] =>
    if ← s.check record then
      match ← tryReserve 0 s.chan 1 with
      | .permit =>
        send s.chan record
        pure (some (.ok 1))
      | .closed =>
        purgeClosed
        pure (some (.error .closed))
      | .full =>
        if ← reserve 0 s.chan 1 then
          send s.chan record
          pure (some (.ok 1))
        else
          purgeClosed
          pure (some (.error .closed))
    else pure (some (.ok 0))
  | _ => pure none

/-- One slot on each selected subscriber whose filter lets the record pass: the
senders reserved, whether one was closed, whether one let the record pass. -/
def reserveEach (record : ρ) : List (Sender ρ) → BusProg ρ (List (Sender ρ) × Bool × Bool)
  | [] => pure ([], false, false)
  | s :: rest => do
    if ← s.check record then
      let reserved ← reserveSlots 0 s.chan 1
      let (permits, closed, _) ← reserveEach record rest
      pure (if reserved then (s :: permits, closed, true) else (permits, true, true))
    else reserveEach record rest

/-- `publish_async_topic` behind the gate. -/
def publishAdmitted (record : ρ) : BusProg ρ PublishResult := do
  match ← publishSingle record with
  | some result => pure result
  | none =>
    let (registered, selected) ← snapshot
    if registered = 0 then pure (.ok 0)
    else
      onlyIf (selected.length < registered) purgeClosed
      if selected.isEmpty then pure (.error .closed)
      else
        let (permits, closed, passed) ← reserveEach record selected
        onlyIf closed purgeClosed
        if permits.isEmpty then pure (if passed then .error .closed else .ok 0)
        else
          sendEach record permits
          pure (.ok permits.length)

/-- `publish_async_topic` from the gate on. -/
def publishGated (record : ρ) : BusProg ρ PublishResult := do
  admission
  let result ← publishAdmitted record
  unlockGate
  pure result

def publishAsyncTopic (record : ρ) : BusProg ρ PublishResult := do
  if ← loadBatchActive then publishGated record
  else
    match ← publishSingle record with
    | some result => pure result
    | none => publishGated record

-- ---- try_publish

def tryPublishSingle (record : ρ) : BusProg ρ (Option PublishResult) := do
  match ← readSenders with
  | [] => pure (some (.error .noSubscribers))
  | [s] =>
    if ← s.check record then
      match ← tryReserve 0 s.chan 1 with
      | .permit =>
        send s.chan record
        pure (some (.ok 1))
      | .closed =>
        purgeClosed
        pure (some (.error .closed))
      | .full => pure (some (.error .full))
    else pure (some (.ok 0))
  | _ => pure none

def activeSenders (record : ρ) : List (Sender ρ) → BusProg ρ (List (Sender ρ))
  | [] => pure []
  | s :: rest => do
    let pass ← s.check record
    let active ← activeSenders record rest
    pure (if pass then s :: active else active)

def releaseEach : List (Sender ρ) → BusProg ρ Unit
  | [] => pure ()
  | s :: rest => do
    release s.chan 1
    releaseEach rest

/-- One slot on each sender without waiting; `none` if a queue is full, with the
permits acquired so far dropped. -/
def tryReserveEach : List (Sender ρ) → List (Sender ρ) → BusProg ρ (Option (List (Sender ρ)))
  | permits, [] => pure (some permits)
  | permits, s :: rest => do
    match ← tryReserve 0 s.chan 1 with
    | .permit => tryReserveEach (permits ++ [s]) rest
    | .full =>
      releaseEach permits
      pure none
    | .closed => tryReserveEach permits rest

/-- `try_publish_topic` behind the gate. -/
def tryPublishAdmitted (record : ρ) : BusProg ρ PublishResult := do
  let (registered, selected) ← snapshot
  if registered = 0 then pure (.error .noSubscribers)
  else
    onlyIf (selected.length < registered) purgeClosed
    if selected.isEmpty then pure (.error .closed)
    else
      let active ← activeSenders record selected
      if active.isEmpty then pure (.ok 0)
      else
        match ← tryReserveEach [] active with
        | none => pure (.error .full)
        | some permits =>
          if permits.isEmpty then
            purgeClosed
            pure (.error .closed)
          else
            sendEach record permits
            pure (.ok permits.length)

/-- `try_publish_topic` from the gate on. -/
def tryPublishGated (record : ρ) : BusProg ρ PublishResult := do
  if ← tryLockGate then
    let result ← tryPublishAdmitted record
    unlockGate
    pure result
  else
    let (registered, _) ← snapshot
    pure (.error (if registered = 0 then .noSubscribers else .full))

def tryPublishTopic (record : ρ) : BusProg ρ PublishResult := do
  if ← loadBatchActive then tryPublishGated record
  else
    match ← tryPublishSingle record with
    | some result => pure result
    | none => tryPublishGated record

-- ---- publish_batch

def matchRecords (s : Sender ρ) : List ρ → BusProg ρ (List ρ)
  | [] => pure []
  | record :: rest => do
    let keep ← s.check record
    let matched ← matchRecords s rest
    pure (if keep then record :: matched else matched)

def matchChunk (chunk : List ρ) : List (Sender ρ × Nat) → BusProg ρ (List (Nat × List ρ))
  | [] => pure []
  | (s, idx) :: rest => do
    let matched ← matchRecords s chunk
    let others ← matchChunk chunk rest
    pure (if matched.isEmpty then others else (idx, matched) :: others)

def reserveChunk (chunk : Nat) (selected : List (Sender ρ)) :
    List (Nat × List ρ) → BusProg ρ (List (Sender ρ × List ρ) × List Nat)
  | [] => pure ([], [])
  | (idx, matched) :: rest =>
    match selected[idx]? with
    | none => reserveChunk chunk selected rest
    | some s => do
      let reserved ← reserveSlots chunk s.chan matched.length
      let (permits, closed) ← reserveChunk chunk selected rest
      pure (if reserved then ((s, matched) :: permits, closed) else (permits, idx :: closed))

def sendRecords (s : Sender ρ) : List ρ → BusProg ρ Unit
  | [] => pure ()
  | record :: rest => do
    send s.chan record
    sendRecords s rest

def sendChunk : List (Sender ρ × List ρ) → BusProg ρ Unit
  | [] => pure ()
  | (s, matched) :: rest => do
    sendRecords s matched
    sendChunk rest

/-- `selected.remove(idx)` for each index, from the last one down. -/
def removeIndices (closed : List Nat) (selected : List (Sender ρ)) : List (Sender ρ) :=
  closed.foldr (fun idx selected => selected.eraseIdx idx) selected

/-- The admission loop: the chunks left, the number of the first of them, the
selection, and whether something was committed. -/
def admitChunks : List (List ρ) → Nat → List (Sender ρ) → Bool → BusProg ρ PublishResult
  | [], _, selected, _ => pure (.ok selected.length)
  | chunk :: rest, k, selected, committed => do
    let subMatches ← matchChunk chunk selected.zipIdx
    if subMatches.isEmpty then admitChunks rest (k + 1) selected true
    else
      let (permits, closed) ← reserveChunk k selected subMatches
      let remaining := chunk.length + rest.flatten.length
      onlyIf (committed && !closed.isEmpty) (addUndelivered (closed.length * remaining))
      if permits.isEmpty then
        purgeClosed
        pure (if committed then .ok 0 else .error .closed)
      else
        sendChunk permits
        onlyIf (!closed.isEmpty) purgeClosed
        admitChunks rest (k + 1) (removeIndices closed selected) true

/-- `publish_batch_topic` behind the gate. -/
def admitBatch (records : List ρ) : BusProg ρ PublishResult := do
  let (registered, selected) ← snapshot
  if registered = 0 then pure (.ok 0)
  else
    onlyIf (selected.length < registered) purgeClosed
    if selected.isEmpty then pure (.error .closed)
    else admitChunks (Lib.chunks admissionChunkRecords records) 0 selected false

def publishBatchTopic (records : List ρ) : BusProg ρ PublishResult := do
  if records.isEmpty then pure (.ok 0)
  else
    admission
    storeBatchActive true
    let result ← admitBatch records
    storeBatchActive false
    unlockGate
    pure result

-- ---- Calls

inductive Call (ρ : Type)
  | publishAsync (record : ρ)
  | tryPublish (record : ρ)
  | publishBatch (records : List ρ)

def Call.program : Call ρ → BusProg ρ PublishResult
  | .publishAsync record => publishAsyncTopic record
  | .tryPublish record => tryPublishTopic record
  | .publishBatch records => publishBatchTopic records

def Call.records : Call ρ → List ρ
  | .publishAsync record | .tryPublish record => [record]
  | .publishBatch records => records

abbrev BusConfig (ρ : Type) := Lib.Config (BusOp ρ) BusOp.Answer (Topic ρ) PublishResult

abbrev BusEvent (ρ : Type) := Lib.Event (BusOp ρ) BusOp.Answer (Topic ρ)

abbrev BusChoice (ρ : Type) := Lib.Choice (BusEnv ρ)

def start (topic : Topic ρ) (calls : Nat → Call ρ) : BusConfig ρ where
  state := topic
  threads t := (calls t).program

/-- No call is under way and nothing was sent yet. -/
def Topic.Fresh (topic : Topic ρ) : Prop :=
  topic.gate = none ∧ topic.batchActive = false ∧ ∀ chan, (topic.chans chan).sent = []

/-- A topic with one subscriber, whose queue has four slots. -/
def oneSubscriber : Topic Nat where
  senders := [⟨0, none⟩]
  chans _ := ⟨4, false, 0, [], 0, by decide⟩
  nextChan := 1
  gate := none
  batchActive := false
  counters _ := 0
  undelivered := 0
  senders_lt := by simp
  senders_nodup := by simp

end Rekuiper.Bus
