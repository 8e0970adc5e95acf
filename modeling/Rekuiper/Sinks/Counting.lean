import Rekuiper.Sinks.Custody

/-!
# What `sink_out` counts

`spawn_rule_task` counts a record as sent out when `deliver_record` calls it delivered, and
adds what `resend_cached` says it has resent. A record that only joins a batch is called
delivered, with its rows; the batch is counted no more when a linger flush or the stop sends
it, and a resent record counts for one whatever it carries. So the counter and the rows
acknowledged go together in those runs only in which each send is counted for the rows it
carries, or fails before one of them is acknowledged.
-/

namespace Rekuiper.Sinks

variable {V Line : Type} {codec : LineCodec (Output V) Line}

namespace PreparedAction

variable {action : PreparedAction V} {output : Output V} {wire : Wire}

def isFile : PreparedAction V → Bool
  | .file _ => true
  | _ => false

def isNop : PreparedAction V → Bool
  | .nop => true
  | _ => false

def Accepts (action : PreparedAction V) (output : Output V) (wire : Wire) : Prop :=
  action.refuses output = false ∧
    (action.isLocal = true ∨
      ∀ i < (action.requests output).length, wire.answers (wire.made + i) = .ok)

def Rejects (action : PreparedAction V) (output : Output V) (wire : Wire) : Prop :=
  action.refuses output = true ∨
    action.isLocal = false ∧ action.ignoresFailures output = false ∧
      action.requests output ≠ [] ∧ wire.answers wire.made ≠ .ok

def TakesNone (action : PreparedAction V) (output : Output V) (wire : Wire) : Prop :=
  action.Rejects output wire ∨ action.requests output = []

instance : Decidable (action.Accepts output wire) := by
  unfold Accepts
  infer_instance

instance : Decidable (action.Rejects output wire) := by
  unfold Rejects
  infer_instance

instance : Decidable (action.TakesNone output wire) := by
  unfold TakesNone
  infer_instance

theorem perform_accepted (stops : Bool) (requests : List (List (SinkRow V)))
    (h : ∀ i < requests.length, wire.answers (wire.made + i) = .ok) :
    (perform stops requests wire).2 = (requests, none) := by
  induction requests generalizing wire with
  | nil => rfl
  | cons rows rest ih =>
    have hfirst : wire.answers wire.made = .ok := h 0 (by simp)
    have hrest := @ih { wire with made := wire.made + 1 } fun i hi => by
      have hnext := h (i + 1) (by simpa using hi)
      rwa [Nat.add_comm i 1, ← Nat.add_assoc] at hnext
    simp [perform, hfirst, hrest]

theorem Accepts.sent (h : action.Accepts output wire) :
    (sendAction action output wire).2 = (action.requests output, .ok) := by
  obtain ⟨hrefuses, hanswers⟩ := h
  by_cases hlocal : action.isLocal = true
  · simp [sendAction, hrefuses, hlocal]
  · have hall := fun stops => perform_accepted stops _ (hanswers.resolve_left hlocal)
    by_cases hignores : action.ignoresFailures output = true
    · simp [sendAction, hrefuses, hlocal, hignores, hall]
    · simp [sendAction, hrefuses, hlocal, hignores, hall]

theorem failed_ne_ok (action : PreparedAction V) (answer : Answer) : action.failed answer ≠ .ok := by
  unfold failed
  split <;> simp

theorem Rejects.sent (h : action.Rejects output wire) :
    (sendAction action output wire).2.1 = [] ∧ (sendAction action output wire).2.2 ≠ .ok := by
  rcases h with hrefuses | ⟨hlocal, hignores, hrequests, hanswer⟩
  · simp [sendAction, hrefuses]
  · by_cases hrefuses : action.refuses output = true
    · simp [sendAction, hrefuses]
    · cases hrows : action.requests output with
      | nil => exact absurd hrows hrequests
      | cons rows rest =>
        cases hfirst : wire.answers wire.made with
        | ok => exact absurd hfirst hanswer
        | retry | permanent =>
          simp [sendAction, hrefuses, hlocal, hignores, hrows, perform, hfirst, failed_ne_ok]

theorem TakesNone.sent (h : action.TakesNone output wire) :
    (sendAction action output wire).2.1 = [] := by
  rcases h with hrejects | hnothing
  · exact hrejects.sent.1
  · unfold sendAction
    rw [hnothing]
    split <;> try rfl
    split <;> try rfl
    split <;> rfl

-- ---- Several sends

def inTurn (action : PreparedAction V) : List (Output V) → Wire → List (Output V × Wire)
  | [], _ => []
  | output :: others, wire =>
    (output, wire) :: action.inTurn others (sendAction action output wire).1

def carried (action : PreparedAction V) (sends : List (Output V × Wire)) : Nat :=
  (sends.map fun sent => (action.requests sent.1).flatten.length).sum

/-- A count of `n` rows is right for the sends if all go through and carry `n` rows, and a
count of none if one fails and no request of theirs is acknowledged. -/
def CountsRows (action : PreparedAction V) (n : Nat) (sends : List (Output V × Wire)) : Prop :=
  (∀ sent ∈ sends, action.Accepts sent.1 sent.2) ∧ action.carried sends = n ∨
    (∀ sent ∈ sends, action.TakesNone sent.1 sent.2) ∧
      ∃ sent ∈ sends, action.Rejects sent.1 sent.2

instance {n : Nat} {sends : List (Output V × Wire)} : Decidable (action.CountsRows n sends) := by
  unfold CountsRows
  infer_instance

def acknowledges (action : PreparedAction V) (sends : List (Output V × Wire)) : Nat :=
  (sends.map fun sent => (sendAction action sent.1 sent.2).2.1.flatten.length).sum

def Succeeds (action : PreparedAction V) (sends : List (Output V × Wire)) : Prop :=
  ∀ sent ∈ sends, (sendAction action sent.1 sent.2).2.2 = .ok

variable {sends : List (Output V × Wire)}

theorem acknowledges_none (h : ∀ sent ∈ sends, action.TakesNone sent.1 sent.2) :
    action.acknowledges sends = 0 := by
  refine List.sum_eq_zero fun n hn => ?_
  obtain ⟨sent, hsent, rfl⟩ := List.mem_map.mp hn
  simp [(h sent hsent).sent]

theorem acknowledges_all (h : ∀ sent ∈ sends, action.Accepts sent.1 sent.2) :
    action.acknowledges sends = action.carried sends := by
  unfold acknowledges carried
  congr 1
  refine List.map_congr_left fun sent hsent => ?_
  rw [(h sent hsent).sent]

theorem CountsRows.of_succeeds {n : Nat} (h : action.CountsRows n sends)
    (hok : action.Succeeds sends) : action.acknowledges sends = n := by
  rcases h with ⟨haccepts, hcarried⟩ | ⟨-, sent, hsent, hrejects⟩
  · rw [acknowledges_all haccepts, hcarried]
  · exact absurd (hok sent hsent) hrejects.sent.2

theorem CountsRows.of_fails {n : Nat} (h : action.CountsRows n sends)
    (hfails : ¬ action.Succeeds sends) : action.acknowledges sends = 0 := by
  rcases h with ⟨haccepts, -⟩ | ⟨htakes, -⟩
  · refine absurd (fun sent hsent => ?_) hfails
    rw [(haccepts sent hsent).sent]
  · exact acknowledges_none htakes

end PreparedAction

theorem Delivery.max_delivered {first later : Delivery} :
    first.max later = .delivered ↔ first = .delivered ∧ later = .delivered := by
  cases first <;> cases later <;> simp [Delivery.max]

namespace ActionRuntime

variable {rt : ActionRuntime V Line} {output : Output V}

def acknowledged (rt : ActionRuntime V Line) : Nat := (rt.log.flatMap Entry.acked).length

def Queues (rt : ActionRuntime V Line) : Prop :=
  rt.resend.priority = .cacheFirst ∧ rt.pending

instance : Decidable rt.Queues := by
  unfold Queues
  infer_instance

/-- The first `n` full batches in the buffer. -/
def batches (size : Nat) : Nat → List (SinkRow V) → List (Output V)
  | 0, _ => []
  | n + 1, buffer => .batch (buffer.take size) :: batches size n (buffer.drop size)

def liveSends (rt : ActionRuntime V Line) (output : Output V) : List (Output V × Wire) :=
  match rt.commonBatching with
  | some opts =>
    let buffer := rt.batchBuffer ++ output.rows.map (SinkRow.map opts.formatRecord)
    if 0 < opts.batchSize then
      rt.action.inTurn (batches opts.batchSize (buffer.length / opts.batchSize) buffer) rt.wire
    else []
  | none => [(output, rt.wire)]

def flushSends (now : Nat) (rt : ActionRuntime V Line) : List (Output V × Wire) :=
  let linger := (rt.action.commonOpts.map CommonSinkOpts.lingerInterval).getD 0
  if 0 < linger ∧ rt.batchBuffer ≠ [] ∧ linger ≤ now - rt.lastBatchTime then
    [(.batch rt.batchBuffer, rt.wire)]
  else []

/-- What the loop of `resend_cached` sends. -/
def resends (codec : LineCodec (Output V) Line) (clock : Nat → Nat) :
    Nat → Nat → Nat → ActionRuntime V Line → List (Output V × Wire)
  | 0, _, _, _ => []
  | fuel + 1, i, sent, rt =>
    if sent < resendBatchMax ∧ rt.retryAt ≤ clock i then
      match rt.cache.map fun c => c.front codec with
      | none | some (_, none) => []
      | some (c, some record) =>
        let copy := resendCopy rt.resend.indicator record
        (copy, rt.wire) :: match send { rt with cache := some c } .resend copy with
          | (rt, .ok) =>
            resends codec clock fuel (i + 1) (sent + 1) ((rt.popCached codec).paced (clock i))
          | (_, .retry) => []
          | (rt, _) => resends codec clock fuel (i + 1) sent (rt.popCached codec)
    else []

def cachedSends (codec : LineCodec (Output V) Line) (liveRecent : Bool) (clock : Nat → Nat)
    (rt : ActionRuntime V Line) : List (Output V × Wire) :=
  match rt.cache with
  | none => []
  | some c =>
    if c.isEmpty ∨ rt.resend.priority = .liveFirst ∧ liveRecent then []
    else resends codec clock c.len 0 0 rt

def stopSends (rt : ActionRuntime V Line) : List (Output V × Wire) :=
  if rt.batchBuffer = [] then [] else [(.batch rt.batchBuffer, rt.wire)]

-- ---- The rows each part of a turn adds to those acknowledged

theorem send_acknowledged (rt : ActionRuntime V Line) (path : Path) (output : Output V) :
    (rt.send path output).1.acknowledged =
      rt.acknowledged + (sendAction rt.action output rt.wire).2.1.flatten.length := by
  simp [send, acknowledged, Entry.acked]

theorem sendLive_sends (codec : LineCodec (Output V) Line) (path : Path)
    (rt : ActionRuntime V Line) (output : Output V) :
    (rt.sendLive codec path output).1.action = rt.action ∧
      (rt.sendLive codec path output).1.wire = (sendAction rt.action output rt.wire).1 ∧
      (rt.sendLive codec path output).1.batchBuffer = rt.batchBuffer ∧
      (rt.sendLive codec path output).1.acknowledged =
        rt.acknowledged + (sendAction rt.action output rt.wire).2.1.flatten.length ∧
      ((rt.sendLive codec path output).2 = .delivered ↔
        (sendAction rt.action output rt.wire).2.2 = .ok) := by
  have hacked := rt.send_acknowledged path output
  have hresult : (rt.send path output).2 = (sendAction rt.action output rt.wire).2.2 := rfl
  have hwire : (rt.send path output).1.wire = (sendAction rt.action output rt.wire).1 := rfl
  have haction : (rt.send path output).1.action = rt.action := rfl
  have hbuffer : (rt.send path output).1.batchBuffer = rt.batchBuffer := rfl
  rw [← hresult, ← hwire, ← hacked, ← haction, ← hbuffer]
  unfold sendLive
  generalize rt.send path output = sent
  obtain ⟨after, result⟩ := sent
  cases result with
  | ok => simp
  | retry =>
    dsimp only
    split
    · simp [cacheRecord, acknowledged]
    · simp
  | permanent | dropped => simp

theorem sendBatches_sends (codec : LineCodec (Output V) Line) (now size n : Nat)
    (rt : ActionRuntime V Line) :
    (sendBatches codec now size n rt).1.action = rt.action ∧
      (sendBatches codec now size n rt).1.acknowledged = rt.acknowledged +
        rt.action.acknowledges (rt.action.inTurn (batches size n rt.batchBuffer) rt.wire) ∧
      ((sendBatches codec now size n rt).2 = .delivered ↔
        rt.action.Succeeds (rt.action.inTurn (batches size n rt.batchBuffer) rt.wire)) := by
  induction n generalizing rt with
  | zero => simp [sendBatches, batches, PreparedAction.inTurn, PreparedAction.acknowledges,
      PreparedAction.Succeeds]
  | succ n ih =>
    obtain ⟨haction, hwire, hbuffer, hacked, hdelivered⟩ := sendLive_sends codec .batch
      { rt with batchBuffer := rt.batchBuffer.drop size, lastBatchTime := now }
      (.batch (rt.batchBuffer.take size))
    obtain ⟨haction', hacked', hdelivered'⟩ := ih (sendLive codec .batch
      { rt with batchBuffer := rt.batchBuffer.drop size, lastBatchTime := now }
      (.batch (rt.batchBuffer.take size))).1
    rw [haction, hwire, hbuffer] at hacked' hdelivered'
    refine ⟨haction'.trans haction, ?_, ?_⟩
    · refine hacked'.trans ?_
      rw [hacked]
      simp [batches, PreparedAction.inTurn, PreparedAction.acknowledges, acknowledged, Nat.add_assoc]
    · unfold sendBatches
      dsimp only
      rw [Delivery.max_delivered, hdelivered, hdelivered']
      simp [batches, PreparedAction.inTurn, PreparedAction.Succeeds]

theorem deliver_queues (codec : LineCodec (Output V) Line) (now : Nat) (output : Output V)
    (h : rt.Queues) :
    (deliver codec now output rt).1.action = rt.action ∧
      (deliver codec now output rt).1.acknowledged = rt.acknowledged ∧
      (deliver codec now output rt).2 = .cached := by
  unfold Queues at h
  unfold deliver
  rw [if_pos h]
  simp [cacheRecord, acknowledged, Entry.acked]

theorem deliver_sends (codec : LineCodec (Output V) Line) (now : Nat) (output : Output V)
    (h : ¬ rt.Queues) :
    (deliver codec now output rt).1.action = rt.action ∧
      (deliver codec now output rt).1.acknowledged =
        rt.acknowledged + rt.action.acknowledges (rt.liveSends output) ∧
      ((deliver codec now output rt).2 = .delivered ↔
        rt.action.Succeeds (rt.liveSends output)) := by
  unfold Queues at h
  unfold deliver liveSends
  rw [if_neg h]
  cases rt.commonBatching with
  | none =>
    obtain ⟨haction, -, -, hacked, hdelivered⟩ := sendLive_sends codec .live rt output
    refine ⟨haction, ?_, ?_⟩
    · simpa [PreparedAction.acknowledges] using hacked
    · simpa [PreparedAction.Succeeds] using hdelivered
  | some opts =>
    dsimp only
    split
    · exact sendBatches_sends codec now opts.batchSize _ { rt with
        batchBuffer := rt.batchBuffer ++ output.rows.map (SinkRow.map opts.formatRecord) }
    · simp [acknowledged, PreparedAction.acknowledges, PreparedAction.Succeeds]

theorem lingerFlush_sends (now : Nat) (rt : ActionRuntime V Line) :
    (rt.lingerFlush now).action = rt.action ∧
      (rt.lingerFlush now).acknowledged =
        rt.acknowledged + rt.action.acknowledges (rt.flushSends now) := by
  unfold lingerFlush flushSends
  dsimp only
  split
  · refine ⟨rfl, (send_acknowledged _ _ _).trans ?_⟩
    simp [PreparedAction.acknowledges, acknowledged]
  · simp [PreparedAction.acknowledges]

theorem stop_sends (codec : LineCodec (Output V) Line) (rt : ActionRuntime V Line) :
    (rt.stop codec).1.acknowledged = rt.acknowledged + rt.action.acknowledges rt.stopSends := by
  unfold stop stopSends
  dsimp only
  split
  · simp [PreparedAction.acknowledges]
  · refine (send_acknowledged _ _ _).trans ?_
    simp [PreparedAction.acknowledges, acknowledged]

@[simp] theorem popCached_action : (rt.popCached codec).action = rt.action := rfl

@[simp] theorem popCached_acknowledged :
    (rt.popCached codec).acknowledged = rt.acknowledged := rfl

@[simp] theorem paced_action (now : Nat) : (rt.paced now).action = rt.action := by
  unfold paced
  split <;> rfl

@[simp] theorem paced_acknowledged (now : Nat) :
    (rt.paced now).acknowledged = rt.acknowledged := by
  unfold paced
  split <;> rfl

theorem resend_counts {c : SinkCache (Output V) Line} {copy : Output V}
    (h : rt.action.CountsRows 1 [(copy, rt.wire)]) :
    (send { rt with cache := some c } .resend copy).1.action = rt.action ∧
      (send { rt with cache := some c } .resend copy).1.acknowledged = rt.acknowledged +
        if (send { rt with cache := some c } .resend copy).2 = .ok then 1 else 0 := by
  refine ⟨rfl, (send_acknowledged _ _ _).trans ?_⟩
  have hone : rt.action.acknowledges [(copy, rt.wire)] =
      (sendAction rt.action copy rt.wire).2.1.flatten.length := by
    simp [PreparedAction.acknowledges]
  have hsucceeds : rt.action.Succeeds [(copy, rt.wire)] ↔
      (send { rt with cache := some c } .resend copy).2 = .ok := by
    simp [PreparedAction.Succeeds, send]
  change rt.acknowledged + (sendAction rt.action copy rt.wire).2.1.flatten.length = _
  rw [← hone]
  split
  · rw [h.of_succeeds (hsucceeds.mpr ‹_›)]
  · rw [h.of_fails (mt hsucceeds.mp ‹_›)]

theorem resendLoop_counts (clock : Nat → Nat) (fuel i sent : Nat) (rt : ActionRuntime V Line)
    (h : ∀ send ∈ resends codec clock fuel i sent rt, rt.action.CountsRows 1 [send]) :
    (resendLoop codec clock fuel i sent rt).1.action = rt.action ∧
      (resendLoop codec clock fuel i sent rt).1.acknowledged + sent =
        rt.acknowledged + (resendLoop codec clock fuel i sent rt).2 := by
  induction fuel generalizing i sent rt with
  | zero => exact ⟨rfl, rfl⟩
  | succ fuel ih =>
    unfold resendLoop
    unfold resends at h
    split
    · rename_i hdue
      rw [if_pos hdue] at h
      cases hcache : rt.cache.map fun c => c.front codec with
      | none => exact ⟨rfl, rfl⟩
      | some front =>
        rw [hcache] at h
        obtain ⟨c, result⟩ := front
        cases result with
        | none => exact ⟨rfl, rfl⟩
        | some record =>
          dsimp only at h ⊢
          obtain ⟨hfirst, hlater⟩ := List.forall_mem_cons.mp h
          obtain ⟨haction, hacked⟩ := resend_counts (c := c) hfirst
          generalize send { rt with cache := some c } .resend
            (resendCopy rt.resend.indicator record) = after at haction hacked hlater ⊢
          obtain ⟨after, outcome⟩ := after
          dsimp only at haction hacked
          cases outcome with
          | ok =>
            have hrest := ih (i + 1) (sent + 1) ((after.popCached codec).paced (clock i))
            simp only [paced_action, popCached_action, paced_acknowledged, popCached_acknowledged,
              haction] at hrest
            obtain ⟨haction', hacked'⟩ := hrest hlater
            refine ⟨haction', ?_⟩
            simp only [if_true] at hacked
            dsimp only
            omega
          | retry =>
            simp only [reduceCtorEq, if_false] at hacked
            refine ⟨haction, ?_⟩
            rw [← Nat.add_zero rt.acknowledged, ← hacked]
            rfl
          | permanent | dropped =>
            have hrest := ih (i + 1) sent (after.popCached codec)
            simp only [popCached_action, popCached_acknowledged, haction] at hrest
            obtain ⟨haction', hacked'⟩ := hrest hlater
            refine ⟨haction', ?_⟩
            simp only [reduceCtorEq, if_false] at hacked
            dsimp only
            omega
    · exact ⟨rfl, rfl⟩

theorem resendCached_counts (liveRecent : Bool) (clock : Nat → Nat) (rt : ActionRuntime V Line)
    (h : ∀ send ∈ rt.cachedSends codec liveRecent clock, rt.action.CountsRows 1 [send]) :
    (rt.resendCached codec liveRecent clock).1.action = rt.action ∧
      (rt.resendCached codec liveRecent clock).1.acknowledged =
        rt.acknowledged + (rt.resendCached codec liveRecent clock).2 := by
  unfold resendCached
  unfold cachedSends at h
  cases hcache : rt.cache with
  | none => exact ⟨rfl, rfl⟩
  | some c =>
    rw [hcache] at h
    dsimp only at h ⊢
    split
    · exact ⟨rfl, rfl⟩
    · rw [if_neg ‹_›] at h
      exact resendLoop_counts clock _ _ _ rt h

end ActionRuntime

-- ---- Runs

/-- The worker of one action and the `sink_out` counter of its rule. -/
structure CountedWorker (V Line : Type) where
  worker : SinkWorker V Line
  sinkOut : Nat

namespace CountedWorker

variable (codec)

def runtime (w : CountedWorker V Line) : ActionRuntime V Line := w.worker.runtime

def allNop (w : CountedWorker V Line) : Bool := w.runtime.action.isNop && w.runtime.cache.isNone

/-- One turn. What is delivered to a file is counted when the file is flushed, which is left
out here. -/
def step (w : CountedWorker V Line) : WorkerOp V → CountedWorker V Line
  | .record now payload =>
    let numRecords := payload.values.length
    if w.allNop then
      { worker := { w.worker with lastLive := now, produced := w.worker.produced + numRecords }
        sinkOut := w.sinkOut + numRecords }
    else
      let delivery := (w.runtime.deliver codec now (payload.output w.worker.produced)).2
      { worker := w.worker.step codec (.record now payload)
        sinkOut :=
          if delivery = .delivered ∧ w.runtime.action.isFile = false then w.sinkOut + numRecords
          else w.sinkOut }
  | .tick now clock =>
    let liveRecent : Bool := now - w.worker.lastLive < sinkTick * 2
    let resent := ((w.runtime.lingerFlush now).resendCached codec liveRecent clock).2
    { worker := w.worker.step codec (.tick now clock)
      sinkOut := if w.runtime.action.isFile then w.sinkOut else w.sinkOut + resent }

/-- The end of the rule. The flush of the batch is not counted. -/
def stop (w : CountedWorker V Line) : CountedWorker V Line :=
  { w with worker := { w.worker with runtime := (w.runtime.stop codec).1 } }

def run (w : CountedWorker V Line) (ops : List (WorkerOp V)) : CountedWorker V Line :=
  ops.foldl (step codec) w

/-- The worker as `spawn_rule_task` starts it, with whatever cache the action has. -/
def start (action : PreparedAction V) (resend : ResendConfig V)
    (cache : Option (SinkCache (Output V) Line)) (answers : Nat → Answer) (writes : Nat → Bool)
    (now : Nat) : CountedWorker V Line where
  worker :=
    { runtime :=
        { action := action
          resend := resend
          cache := cache
          retryAt := now
          batchBuffer := []
          lastBatchTime := now
          wire := ⟨answers, 0⟩
          writes := writes
          pushed := 0
          log := [] }
      lastLive := now
      produced := 0 }
  sinkOut := 0

/-- The counter is the number of rows the destination has acknowledged. -/
def Exact (w : CountedWorker V Line) : Prop := w.sinkOut = w.runtime.acknowledged

/-- The counter is exact after each turn and after the stop. -/
def CountsAcknowledged (w : CountedWorker V Line) (ops : List (WorkerOp V)) : Prop :=
  (∀ k, (w.run codec (ops.take k)).Exact) ∧ ((w.run codec ops).stop codec).Exact

/-- A record is queued behind the cache, or what is sent at its arrival is counted right for
its rows. A tick has no row acknowledged in a linger flush, and what it resends is counted
right for one row each. -/
def Counts (w : CountedWorker V Line) : WorkerOp V → Prop
  | .record _ payload =>
    w.runtime.Queues ∨ w.runtime.action.CountsRows payload.values.length
      (w.runtime.liveSends (payload.output w.worker.produced))
  | .tick now clock =>
    let liveRecent : Bool := now - w.worker.lastLive < sinkTick * 2
    (∀ sent ∈ w.runtime.flushSends now, w.runtime.action.TakesNone sent.1 sent.2) ∧
      ∀ sent ∈ (w.runtime.lingerFlush now).cachedSends codec liveRecent clock,
        w.runtime.action.CountsRows 1 [sent]

/-- The turns of the run count right, and the stop has no row acknowledged. -/
def CountsRun (w : CountedWorker V Line) : List (WorkerOp V) → Prop
  | [] => ∀ sent ∈ w.runtime.stopSends, w.runtime.action.TakesNone sent.1 sent.2
  | op :: ops => w.Counts codec op ∧ CountsRun (w.step codec op) ops

instance (w : CountedWorker V Line) (op : WorkerOp V) : Decidable (w.Counts codec op) := by
  unfold Counts
  cases op <;> infer_instance

instance decidableCountsRun (w : CountedWorker V Line) (ops : List (WorkerOp V)) :
    Decidable (w.CountsRun codec ops) :=
  match ops with
  | [] => inferInstanceAs (Decidable (∀ sent ∈ w.runtime.stopSends, _))
  | op :: ops =>
    have := decidableCountsRun (w.step codec op) ops
    inferInstanceAs (Decidable (w.Counts codec op ∧ CountsRun codec (w.step codec op) ops))

variable {codec} {w : CountedWorker V Line}

theorem record_exact (now : Nat) (payload : Payload V) (hfile : w.runtime.action.isFile = false)
    (hnop : w.runtime.action.isNop = false) (hexact : w.Exact)
    (h : w.Counts codec (.record now payload)) :
    (w.step codec (.record now payload)).runtime.action = w.runtime.action ∧
      (w.step codec (.record now payload)).Exact := by
  have hstep : (w.step codec (.record now payload)).runtime =
        (w.runtime.deliver codec now (payload.output w.worker.produced)).1 ∧
      (w.step codec (.record now payload)).sinkOut =
        if (w.runtime.deliver codec now (payload.output w.worker.produced)).2 = .delivered then
          w.sinkOut + payload.values.length
        else w.sinkOut := by
    have hdelivers : w.allNop = false := by simp [allNop, hnop]
    simp only [step, hdelivers, hfile, and_true, Bool.false_eq_true, if_false]
    rfl
  unfold Exact at hexact ⊢
  rw [hstep.1, hstep.2]
  by_cases hqueues : w.runtime.Queues
  · obtain ⟨haction, hacked, hcached⟩ := ActionRuntime.deliver_queues codec now
      (payload.output w.worker.produced) hqueues
    simp [haction, hacked, hcached, hexact]
  · obtain ⟨haction, hacked, hdelivered⟩ := ActionRuntime.deliver_sends codec now
      (payload.output w.worker.produced) hqueues
    have hcounts := h.resolve_left hqueues
    refine ⟨haction, ?_⟩
    rw [hacked, hexact]
    split
    · rw [hcounts.of_succeeds (hdelivered.mp ‹_›)]
    · rw [hcounts.of_fails (mt hdelivered.mpr ‹_›), Nat.add_zero]

theorem tick_exact (now : Nat) (clock : Nat → Nat) (hfile : w.runtime.action.isFile = false)
    (hexact : w.Exact) (h : w.Counts codec (.tick now clock)) :
    (w.step codec (.tick now clock)).runtime.action = w.runtime.action ∧
      (w.step codec (.tick now clock)).Exact := by
  obtain ⟨hflush, hresends⟩ := h
  obtain ⟨haction, hacked⟩ := w.runtime.lingerFlush_sends now
  rw [PreparedAction.acknowledges_none hflush, Nat.add_zero] at hacked
  rw [← haction] at hresends
  obtain ⟨haction', hacked'⟩ := ActionRuntime.resendCached_counts _ clock _ hresends
  refine ⟨haction'.trans haction, ?_⟩
  unfold Exact at hexact ⊢
  refine Eq.trans ?_ hacked'.symm
  rw [hacked, ← hexact]
  simp [step, hfile]

theorem step_exact (op : WorkerOp V) (hfile : w.runtime.action.isFile = false)
    (hnop : w.runtime.action.isNop = false) (hexact : w.Exact) (h : w.Counts codec op) :
    (w.step codec op).runtime.action = w.runtime.action ∧ (w.step codec op).Exact := by
  cases op with
  | record now payload => exact record_exact now payload hfile hnop hexact h
  | tick now clock => exact tick_exact now clock hfile hexact h

theorem stop_exact (hexact : w.Exact)
    (h : ∀ sent ∈ w.runtime.stopSends, w.runtime.action.TakesNone sent.1 sent.2) :
    (w.stop codec).Exact := by
  have hacked := ActionRuntime.stop_sends codec w.runtime
  rw [PreparedAction.acknowledges_none h, Nat.add_zero] at hacked
  exact hexact.trans hacked.symm

theorem run_exact (ops : List (WorkerOp V)) (hfile : w.runtime.action.isFile = false)
    (hnop : w.runtime.action.isNop = false) (hexact : w.Exact) (h : w.CountsRun codec ops) :
    w.CountsAcknowledged codec ops := by
  induction ops generalizing w with
  | nil => exact ⟨fun k => by rwa [List.take_nil], stop_exact hexact h⟩
  | cons op ops ih =>
    obtain ⟨hfirst, hlater⟩ := h
    obtain ⟨haction, hexact'⟩ := step_exact op hfile hnop hexact hfirst
    obtain ⟨hturns, hstop⟩ := ih (haction ▸ hfile) (haction ▸ hnop) hexact' hlater
    refine ⟨fun k => ?_, hstop⟩
    cases k with
    | zero => exact hexact
    | succ k => exact hturns k

end CountedWorker

end Rekuiper.Sinks
