import Mathlib.Data.List.Perm.Subperm
import Mathlib.Logic.Relation

/-!
# A store-and-forward sender

What the sink worker is for, without its caches, files and timers. The rows of a record
arrive in the sender's hand, in the buffer where they wait for a batch to fill, or behind
a queue whose records are sent again until the destination takes them. What is in the
hand, a record or a batch from the buffer, is sent at once. A note is made of every send
and of every record that is queued without one.
-/

namespace Rekuiper.Sinks

/-- The code path a send was made from: the record itself, a full batch, a lingering one, that
of the shutdown, or a record from the queue. -/
inductive Path
  | live
  | batch
  | flush
  | shutdown
  | resend
  deriving DecidableEq, Repr

/-- A send that fails leaves its record in the queue, if it may be tried again. -/
def Path.keeps : Path → Bool
  | .live | .batch | .resend => true
  | .flush | .shutdown => false

def Path.batched : Path → Bool
  | .batch | .flush | .shutdown => true
  | .live | .resend => false

inductive SendResult
  | ok
  | retry
  | permanent
  | dropped
  deriving DecidableEq, Repr

/-- What was done with a record: `cached` says whether records were queued when the send
was made, `waiting` whether rows were buffered when the record was queued unsent. -/
inductive Entry (α : Type)
  | sent (path : Path) (cached : Bool) (rows : List α) (acked : List (List α))
      (result : SendResult)
  | queued (waiting : Bool) (rows : List α)
  deriving DecidableEq, Repr

variable {α β : Type} {orderly : Prop}

def Entry.acked : Entry α → List α
  | .sent _ _ _ acked _ => acked.flatten
  | .queued _ _ => []

/-- The rows of a send that returned without an error. -/
def Entry.accepted : Entry α → List α
  | .sent _ _ rows _ .ok => rows
  | _ => []

def Entry.map (f : α → β) : Entry α → Entry β
  | .sent path cached rows acked result =>
    .sent path cached (rows.map f) (acked.map fun rows => rows.map f) result
  | .queued waiting rows => .queued waiting (rows.map f)

theorem Entry.acked_map (f : α → β) (entry : Entry α) :
    (entry.map f).acked = entry.acked.map f := by
  cases entry with
  | queued waiting rows => rfl
  | sent path cached rows acked result => exact List.map_flatten.symm

theorem flatMap_acked_map (f : α → β) (log : List (Entry α)) :
    (log.map (Entry.map f)).flatMap Entry.acked = (log.flatMap Entry.acked).map f := by
  rw [List.flatMap_map, List.map_flatMap]
  exact List.flatMap_congr fun entry _ => entry.acked_map f

/-- With `cacheFirst` a record joins the queue rather than pass it; a `grouped` send may take its
rows in another order. -/
structure Ledger (α : Type) where
  produced : List α
  hand : List α
  buffer : List α
  cached : List (List α)
  dropped : Nat
  log : List (Entry α)
  cacheFirst : Bool
  grouped : Bool

/-- A record joins the queue, which may drop `n` of the oldest to make room; an orderly
queue keeps the order. -/
structure Pushed (orderly : Prop) (old : List (List α)) (rows : List α) (new : List (List α))
    (n : Nat) : Prop where
  subperm : List.Subperm new (old ++ [rows])
  inOrder : orderly → List.Sublist new (old ++ [rows])
  counted : old.length + 1 = new.length + n

namespace Ledger

def pending (L : Ledger α) : Bool := !L.cached.isEmpty

def note (L : Ledger α) (entry : Entry α) : Ledger α :=
  { L with hand := [], log := L.log ++ [entry] }

/-- What is in the hand may be sent on this path. -/
structure Sends (L : Ledger α) (path : Path) : Prop where
  fresh : path ≠ .resend
  waits : L.cacheFirst = true → path = .live → L.pending = false

/-- The destination acknowledges rows of the record, each once. -/
structure Acks (L : Ledger α) (rows : List α) (acked : List (List α)) : Prop where
  subperm : List.Subperm acked.flatten rows
  inOrder : L.grouped = false → List.Sublist acked.flatten rows

inductive Step (orderly : Prop) : Ledger α → Ledger α → Prop
  | arrive (rows : List α) : L.hand = [] → L.buffer = [] →
      Step orderly L { L with hand := rows, produced := L.produced ++ rows }
  | store (rows : List α) : L.hand = [] →
      Step orderly L { L with buffer := L.buffer ++ rows, produced := L.produced ++ rows }
  | batch (n : Nat) : L.hand = [] →
      Step orderly L { L with hand := L.buffer.take n, buffer := L.buffer.drop n }
  | accepted (path : Path) (acked : List (List α)) : L.Sends path →
      L.Acks L.hand acked →
      Step orderly L (L.note (.sent path L.pending L.hand acked .ok))
  | kept (path : Path) (acked : List (List α)) (new : List (List α)) (n : Nat) : L.Sends path →
      path.keeps = true → L.Acks L.hand acked → Pushed orderly L.cached L.hand new n →
      Step orderly L { L.note (.sent path L.pending L.hand acked .retry) with
        cached := new, dropped := L.dropped + n }
  | lost (path : Path) (acked : List (List α)) (result : SendResult) : L.Sends path →
      result ≠ .ok → (path.keeps = true → result ≠ .retry) → L.Acks L.hand acked →
      Step orderly L (L.note (.sent path L.pending L.hand acked result))
  | queued (rows : List α) (new : List (List α)) (n : Nat) : L.hand = [] → L.pending = true →
      Pushed orderly L.cached rows new n →
      Step orderly L { L.note (.queued (!L.buffer.isEmpty) rows) with
        produced := L.produced ++ rows, cached := new, dropped := L.dropped + n }
  | resent (rows : List α) (rest acked : List (List α)) : L.hand = [] →
      L.cached = rows :: rest → L.Acks rows acked →
      Step orderly L { L.note (.sent .resend true rows acked .ok) with cached := rest }
  | deferred (rows : List α) (rest acked : List (List α)) : L.hand = [] →
      L.cached = rows :: rest → L.Acks rows acked →
      Step orderly L (L.note (.sent .resend true rows acked .retry))
  | discarded (rows : List α) (rest acked : List (List α)) (result : SendResult) : L.hand = [] →
      L.cached = rows :: rest → result ≠ .ok → result ≠ .retry →
      L.Acks rows acked →
      Step orderly L { L.note (.sent .resend true rows acked result) with cached := rest }

abbrev Steps (orderly : Prop) : Ledger α → Ledger α → Prop :=
  Relation.ReflTransGen (Step orderly)

theorem Step.log_grows {L L' : Ledger α} (h : Step orderly L L') : L.log <+: L'.log := by
  cases h <;> first | exact List.prefix_rfl | exact List.prefix_append _ _

theorem Steps.log_grows {L L' : Ledger α} (h : Steps orderly L L') : L.log <+: L'.log := by
  induction h with
  | refl => exact List.prefix_rfl
  | tail _ hstep ih => exact ih.trans hstep.log_grows

theorem Step.cacheFirst_eq {L L' : Ledger α} (h : Step orderly L L') :
    L'.cacheFirst = L.cacheFirst := by
  cases h <;> rfl

theorem Step.grouped_eq {L L' : Ledger α} (h : Step orderly L L') : L'.grouped = L.grouped := by
  cases h <;> rfl

theorem Step.dropped_le {L L' : Ledger α} (h : Step orderly L L') : L.dropped ≤ L'.dropped := by
  cases h <;> first | exact Nat.le_refl _ | exact Nat.le_add_right _ _

theorem Steps.dropped_le {L L' : Ledger α} (h : Steps orderly L L') : L.dropped ≤ L'.dropped := by
  induction h with
  | refl => exact Nat.le_refl _
  | tail _ hstep ih => exact Nat.le_trans ih hstep.dropped_le

theorem Steps.invariant {P : Entry α → Prop} {I : Ledger α → Prop} {L L' : Ledger α}
    (hrun : Steps orderly L L') (hlog : ∀ entry ∈ L'.log, P entry) (h : I L)
    (hstep : ∀ {M M'}, Step orderly M M' → (∀ entry ∈ M'.log, P entry) → I M → I M') :
    I L' := by
  induction hrun with
  | refl => exact h
  | tail hbefore hlast ih =>
    exact hstep hlast hlog (ih fun entry hentry => hlog entry (hlast.log_grows.subset hentry))

end Ledger

end Rekuiper.Sinks
