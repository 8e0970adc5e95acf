import Mathlib.Data.List.Nodup
import Rekuiper.Lib.Prog

/-!
# One topic of the stream bus

A topic is a list of registered senders, an admission gate and a flag that a
batch is being admitted. A sender is one end of a bounded queue, with an optional
filter that counts the records it keeps out. The operations below are the atomic
steps of the publish functions: loads and stores, lock operations, reservations
and sends.
-/

namespace Rekuiper.Bus

open Lib (Prog Machine Choice Config)

variable {ρ : Type}

/-- A subscriber's pre-filter. `accepts` is what `check_and_account` returns: the
predicate holds, or the record is an error record. The counters are shared cells. -/
structure SubscriberFilter (ρ : Type) where
  accepts : ρ → Bool
  sourceInCounter : Nat
  filteredCounter : Nat

structure Sender (ρ : Type) where
  chan : Nat
  filter : Option (SubscriberFilter ρ)

def Sender.accepts (s : Sender ρ) (record : ρ) : Bool :=
  match s.filter with
  | none => true
  | some f => f.accepts record

inductive PublishError
  | noSubscribers
  | full
  | closed
  deriving DecidableEq, Repr

/-- The answers of `try_reserve` and `try_reserve_many`. -/
inductive TryReserve
  | permit
  | closed
  | full
  deriving DecidableEq, Repr

/-- An atomic step of a publish. The number in front of a reservation says which
chunk of the request it is for; it has no effect. -/
inductive BusOp (ρ : Type)
  | loadBatchActive
  | storeBatchActive (active : Bool)
  | readSenders
  | purgeClosed
  | isClosed (s : Sender ρ)
  | bump (counter : Nat)
  | tryReserve (chunk chan n : Nat)
  | reserve (chunk chan n : Nat)
  | release (chan n : Nat)
  | send (chan : Nat) (record : ρ)
  | tryLockGate
  | lockGate
  | unlockGate
  | addUndelivered (n : Nat)

/-- `reserve` answers whether the permits were granted. -/
abbrev BusOp.Answer : BusOp ρ → Type
  | loadBatchActive | isClosed _ | reserve .. | tryLockGate => Bool
  | readSenders => List (Sender ρ)
  | tryReserve .. => TryReserve
  | storeBatchActive _ | purgeClosed | bump _ | release .. | send .. | lockGate | unlockGate
  | addUndelivered _ => Unit

abbrev BusProg (ρ α : Type) := Prog (BusOp ρ) BusOp.Answer α

/-- One bounded queue. `sent` is everything ever enqueued, with the call that
enqueued it; the receiver has taken the first `received` of it. A subscription
raises a capacity of zero to one. -/
structure Channel (ρ : Type) where
  capacity : Nat
  closed : Bool
  reserved : Nat
  sent : List (Nat × ρ)
  received : Nat
  capacity_pos : 0 < capacity

def Channel.used (ch : Channel ρ) : Nat := ch.sent.length - ch.received + ch.reserved

/-- Queues are numbered in the order of their subscription, so that no two
registered senders share one; those from `nextChan` on are not subscribed yet. -/
structure Topic (ρ : Type) where
  senders : List (Sender ρ)
  chans : Nat → Channel ρ
  nextChan : Nat
  gate : Option Nat
  batchActive : Bool
  counters : Nat → Nat
  undelivered : Nat
  senders_lt : ∀ s ∈ senders, s.chan < nextChan
  senders_nodup : (senders.map Sender.chan).Nodup

namespace Topic

def setChan (topic : Topic ρ) (chan : Nat) (f : Channel ρ → Channel ρ) : Topic ρ :=
  { topic with chans := Function.update topic.chans chan (f (topic.chans chan)) }

@[simp]
theorem setChan_gate (topic : Topic ρ) (chan : Nat) (f : Channel ρ → Channel ρ) :
    (topic.setChan chan f).gate = topic.gate := rfl

@[simp]
theorem setChan_counters (topic : Topic ρ) (chan : Nat) (f : Channel ρ → Channel ρ) :
    (topic.setChan chan f).counters = topic.counters := rfl

/-- Granting `n` permits. -/
def grant (topic : Topic ρ) (chan n : Nat) : Topic ρ :=
  topic.setChan chan fun ch => { ch with reserved := ch.reserved + n }

/-- `purge_closed`: the senders whose queue is open. -/
def purge (topic : Topic ρ) : Topic ρ :=
  { topic with
    senders := topic.senders.filter fun s => !(topic.chans s.chan).closed
    senders_lt := fun s hs => topic.senders_lt s (List.mem_filter.mp hs).1
    senders_nodup := topic.senders_nodup.sublist (List.filter_sublist.map _) }

/-- One operation of call `call`. A queue grants permits when they fit; more than
its capacity never fit, which `try_reserve_many` answers with `full` and
`reserve_many` with an error. A reservation that may still succeed waits, and so
does locking a gate that is held. -/
def exec (call : Nat) (topic : Topic ρ) : (op : BusOp ρ) → Option (op.Answer × Topic ρ)
  | .loadBatchActive => some (topic.batchActive, topic)
  | .storeBatchActive active => some ((), { topic with batchActive := active })
  | .readSenders => some (topic.senders, topic)
  | .purgeClosed => some ((), topic.purge)
  | .isClosed s => some ((topic.chans s.chan).closed, topic)
  | .bump counter =>
    some ((), { topic with
      counters := Function.update topic.counters counter (topic.counters counter + 1) })
  | .tryReserve _ chan n =>
    let ch := topic.chans chan
    if ch.capacity < n then some (.full, topic)
    else if ch.closed then some (.closed, topic)
    else if ch.used + n ≤ ch.capacity then some (.permit, topic.grant chan n)
    else some (.full, topic)
  | .reserve _ chan n =>
    let ch := topic.chans chan
    if ch.capacity < n ∨ ch.closed then some (false, topic)
    else if ch.used + n ≤ ch.capacity then some (true, topic.grant chan n)
    else none
  | .release chan n =>
    some ((), topic.setChan chan fun ch => { ch with reserved := ch.reserved - n })
  | .send chan record =>
    some ((), topic.setChan chan fun ch =>
      { ch with reserved := ch.reserved - 1, sent := ch.sent ++ [(call, record)] })
  | .tryLockGate =>
    match topic.gate with
    | none => some (true, { topic with gate := some call })
    | some _ => some (false, topic)
  | .lockGate =>
    match topic.gate with
    | none => some ((), { topic with gate := some call })
    | some _ => none
  | .unlockGate => some ((), { topic with gate := none })
  | .addUndelivered n => some ((), { topic with undelivered := topic.undelivered + n })

end Topic

/-- What happens to a topic besides publishing. -/
inductive BusEnv (ρ : Type)
  | receive (chan : Nat)
  | close (chan : Nat)
  | subscribe (filter : Option (SubscriberFilter ρ))

/-- A sender for the next queue is registered. -/
def Topic.register (topic : Topic ρ) (filter : Option (SubscriberFilter ρ)) : Topic ρ :=
  { topic with
    senders := topic.senders ++ [⟨topic.nextChan, filter⟩]
    nextChan := topic.nextChan + 1
    senders_lt := by
      intro s hs
      rcases List.mem_append.mp hs with hs | hs
      · exact Nat.lt_succ_of_lt (topic.senders_lt s hs)
      · rw [List.mem_singleton.mp hs]
        exact Nat.lt_succ_self _
    senders_nodup := by
      rw [List.map_append, List.nodup_append]
      refine ⟨topic.senders_nodup, by simp, ?_⟩
      intro a ha b hb
      obtain ⟨s, hs, rfl⟩ := List.mem_map.mp ha
      rw [List.map_singleton, List.mem_singleton] at hb
      exact hb ▸ Nat.ne_of_lt (topic.senders_lt s hs) }

def Topic.react (topic : Topic ρ) : BusEnv ρ → Topic ρ
  | .receive chan =>
    topic.setChan chan fun ch => { ch with received := min ch.sent.length (ch.received + 1) }
  | .close chan => topic.setChan chan fun ch => { ch with closed := true }
  | .subscribe filter => topic.register filter

/-- The topic as a machine for publish programs. -/
def machine (ρ : Type) : Machine (BusOp ρ) BusOp.Answer (Topic ρ) (BusEnv ρ) where
  exec call topic op := topic.exec call op
  react e topic := topic.react e

end Rekuiper.Bus
