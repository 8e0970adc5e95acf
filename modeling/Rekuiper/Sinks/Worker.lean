import Rekuiper.Sinks.Actions
import Rekuiper.SinkCache.Delivery

/-!
# The sink worker

One action as the sink worker of a rule runs it: output records are delivered, batched
or queued behind the cache, each tick flushes a batch that has waited long enough and
resends cached records, and the end of the rule flushes and closes. Every send leaves an
entry in a log, with what the destination acknowledged; what the worker does is read
off the log and the three places where rows wait.

Counters, traces, the dead letter queue and the file writers' own flushes are left out:
no send and no place depends on them.
-/

namespace Rekuiper.Sinks

open SinkCache (held)

inductive ResendPriority
  | liveFirst
  | equal
  | cacheFirst
  deriving DecidableEq, Repr

/-- The resend options of an action with a cache. `indicator` sets the indicator field. -/
structure ResendConfig (V : Type) where
  priority : ResendPriority
  resendInterval : Nat
  indicator : Option (V → V)

inductive Delivery
  | delivered
  | cached
  | failed
  deriving DecidableEq, Repr

/-- The more severe of two outcomes. -/
def Delivery.max : Delivery → Delivery → Delivery
  | .failed, _ | _, .failed => .failed
  | .cached, _ | _, .cached => .cached
  | .delivered, .delivered => .delivered

def resendBatchMax : Nat := 4096

/-- Pause, in milliseconds, before the destination is probed again. -/
def resendRetryBackoff : Nat := 1000

def sinkTick : Nat := 100

/-- Times are in milliseconds. `writes n` is the outcome of the page write of the `n`-th
push, if it makes one. -/
structure ActionRuntime (V Line : Type) where
  action : PreparedAction V
  resend : ResendConfig V
  cache : Option (SinkCache (Output V) Line)
  retryAt : Nat
  batchBuffer : List (SinkRow V)
  lastBatchTime : Nat
  wire : Wire
  writes : Nat → Bool
  pushed : Nat
  log : List (Entry (SinkRow V))

variable {V Line : Type}

def resendCopy (indicator : Option (V → V)) : Output V → Output V
  | .single row => .single (indicator.elim row row.map)
  | .batch rows => .batch rows

namespace ActionRuntime

variable (codec : LineCodec (Output V) Line)

def pending (rt : ActionRuntime V Line) : Bool := rt.cache.any fun c => !c.isEmpty

def commonBatching (rt : ActionRuntime V Line) : Option (CommonSinkOpts V) :=
  rt.action.commonOpts.filter fun o => decide (0 < o.batchSize ∨ 0 < o.lingerInterval)

def cacheRecord (rt : ActionRuntime V Line) (output : Output V) : ActionRuntime V Line :=
  { rt with
    cache := rt.cache.map fun c => c.push codec output (rt.writes rt.pushed)
    pushed := rt.pushed + 1 }

def send (rt : ActionRuntime V Line) (path : Path) (output : Output V) :
    ActionRuntime V Line × SendResult :=
  let (wire, acked, result) := sendAction rt.action output rt.wire
  ({ rt with
      wire := wire
      log := rt.log ++ [.sent path rt.pending output.rows acked result] }, result)

/-- A send of `deliver_record`: of a full batch or of the record itself. -/
def sendLive (path : Path) (rt : ActionRuntime V Line) (output : Output V) :
    ActionRuntime V Line × Delivery :=
  match rt.send path output with
  | (rt, .ok) => (rt, .delivered)
  | (rt, .retry) =>
    if rt.cache.isSome then (rt.cacheRecord codec output, .cached) else (rt, .failed)
  | (rt, _) => (rt, .failed)

/-- The batch loop of `deliver_record`, which runs once for each full batch. -/
def sendBatches (now size : Nat) : Nat → ActionRuntime V Line → ActionRuntime V Line × Delivery
  | 0, rt => (rt, .delivered)
  | n + 1, rt =>
    let batch := Output.batch (rt.batchBuffer.take size)
    let (rt, first) := sendLive codec .batch
      { rt with batchBuffer := rt.batchBuffer.drop size, lastBatchTime := now } batch
    let (rt, rest) := sendBatches now size n rt
    (rt, first.max rest)

/-- `deliver_record` for one action. -/
def deliver (now : Nat) (output : Output V) (rt : ActionRuntime V Line) :
    ActionRuntime V Line × Delivery :=
  if rt.resend.priority = .cacheFirst ∧ rt.pending then
    let waiting := !rt.batchBuffer.isEmpty
    ({ rt.cacheRecord codec output with log := rt.log ++ [.queued waiting output.rows] }, .cached)
  else
    match rt.commonBatching with
    | some opts =>
      let rt := { rt with
        batchBuffer := rt.batchBuffer ++ output.rows.map (SinkRow.map opts.formatRecord) }
      if 0 < opts.batchSize then
        sendBatches codec now opts.batchSize (rt.batchBuffer.length / opts.batchSize) rt
      else (rt, .delivered)
    | none => sendLive codec .live rt output

def lingerFlush (now : Nat) (rt : ActionRuntime V Line) : ActionRuntime V Line :=
  let linger := (rt.action.commonOpts.map CommonSinkOpts.lingerInterval).getD 0
  if 0 < linger ∧ rt.batchBuffer ≠ [] ∧ linger ≤ now - rt.lastBatchTime then
    let batch := Output.batch rt.batchBuffer
    (send { rt with batchBuffer := [], lastBatchTime := now } .flush batch).1
  else rt

def popCached (rt : ActionRuntime V Line) : ActionRuntime V Line :=
  { rt with cache := rt.cache.map fun c => (c.popFront codec).1 }

/-- After a record was resent, with `resendInterval`: the next one is due an interval
after the previous slot. -/
def paced (now : Nat) (rt : ActionRuntime V Line) : ActionRuntime V Line :=
  if rt.resend.resendInterval = 0 then rt
  else
    let floor := if sinkTick ≤ now then now - sinkTick else now
    { rt with retryAt := max rt.retryAt floor + rt.resend.resendInterval }

/-- The loop of `resend_cached`, with the number of records sent so far; `clock i` is the
time at its `i`-th iteration. An iteration takes a record out of the cache or ends the
loop, so that the number of records cached bounds it. -/
def resendLoop (clock : Nat → Nat) :
    Nat → Nat → Nat → ActionRuntime V Line → ActionRuntime V Line × Nat
  | 0, _, sent, rt => (rt, sent)
  | fuel + 1, i, sent, rt =>
    if sent < resendBatchMax ∧ rt.retryAt ≤ clock i then
      match rt.cache.map fun c => c.front codec with
      | none => (rt, sent)
      | some (c, none) => ({ rt with cache := some c }, sent)
      | some (c, some record) =>
        let copy := resendCopy rt.resend.indicator record
        match send { rt with cache := some c } .resend copy with
        | (rt, .ok) => resendLoop clock fuel (i + 1) (sent + 1) ((rt.popCached codec).paced (clock i))
        | (rt, .retry) =>
          ({ rt with retryAt := clock i + max rt.resend.resendInterval resendRetryBackoff }, sent)
        | (rt, _) => resendLoop clock fuel (i + 1) sent (rt.popCached codec)
    else (rt, sent)

def resendCached (liveRecent : Bool) (clock : Nat → Nat) (rt : ActionRuntime V Line) :
    ActionRuntime V Line × Nat :=
  match rt.cache with
  | none => (rt, 0)
  | some c =>
    if c.isEmpty ∨ rt.resend.priority = .liveFirst ∧ liveRecent then (rt, 0)
    else resendLoop codec clock c.len 0 0 rt

/-- The end of the rule: the batch is flushed, whatever comes of it, and the cache closed;
gives the page files left behind. -/
def stop (rt : ActionRuntime V Line) : ActionRuntime V Line × PageDir Line :=
  let rt :=
    if rt.batchBuffer = [] then rt
    else (send { rt with batchBuffer := [] } .shutdown (.batch rt.batchBuffer)).1
  (rt, (rt.cache.map fun c => c.close codec fun i => rt.writes (rt.pushed + i)).getD ∅)

end ActionRuntime

-- ---- Runs

/-- What a rule puts out at once. -/
inductive Payload (V : Type)
  | single (value : V)
  | batch (values : List V)

/-- The rows of a payload, numbered from `n` on. -/
def number (n : Nat) : List V → List (SinkRow V)
  | [] => []
  | value :: values => ⟨n, value⟩ :: number (n + 1) values

def Payload.values : Payload V → List V
  | .single value => [value]
  | .batch values => values

def Payload.output (n : Nat) : Payload V → Output V
  | .single value => .single ⟨n, value⟩
  | .batch values => .batch (number n values)

/-- The worker of one action: when it last took a record, and how many rows the rule has
produced. -/
structure SinkWorker (V Line : Type) where
  runtime : ActionRuntime V Line
  lastLive : Nat
  produced : Nat

/-- One turn of the worker: a record arrives at time `now`, or it ticks at `now` and the
resend loop reads the time as `clock`. -/
inductive WorkerOp (V : Type)
  | record (now : Nat) (payload : Payload V)
  | tick (now : Nat) (clock : Nat → Nat)

namespace SinkWorker

variable (codec : LineCodec (Output V) Line)

def step (w : SinkWorker V Line) : WorkerOp V → SinkWorker V Line
  | .record now payload =>
    { runtime := (w.runtime.deliver codec now (payload.output w.produced)).1
      lastLive := now
      produced := w.produced + payload.values.length }
  | .tick now clock =>
    let liveRecent : Bool := now - w.lastLive < sinkTick * 2
    { w with runtime := ((w.runtime.lingerFlush now).resendCached codec liveRecent clock).1 }

def run (w : SinkWorker V Line) (ops : List (WorkerOp V)) : SinkWorker V Line :=
  ops.foldl (step codec) w

/-- The worker as `spawn_rule_task` starts it at time `now`, on a directory without pages. -/
def start (action : PreparedAction V) (resend : ResendConfig V) (cfg : CacheConfig)
    (answers : Nat → Answer) (writes : Nat → Bool) (now : Nat) : SinkWorker V Line where
  runtime :=
    { action := action
      resend := resend
      cache := some (SinkCache.openDir cfg ∅)
      retryAt := now
      batchBuffer := []
      lastBatchTime := now
      wire := ⟨answers, 0⟩
      writes := writes
      pushed := 0
      log := [] }
  lastLive := now
  produced := 0

def outputCodec : LineCodec (Output V) (Output V) := ⟨id, some, fun _ => rfl⟩

def roomyConfig : CacheConfig where
  memoryThreshold := 8
  maxDisk := 64
  pageSize := 4
  cleanAtStop := false
  memoryThreshold_pos := by decide
  pageSize_pos := Nat.succ_pos 3

def equalResend : ResendConfig V := ⟨.equal, 0, none⟩

end SinkWorker

end Rekuiper.Sinks
