import Mathlib.Algebra.BigOperators.Group.Finset.Piecewise
import Rekuiper.Bus.Refusals

/-!
# Deliveries missed after the commit

A batch goes on when one of its subscribers closes, and what that subscriber misses
is added to `undelivered_after_commit`. The loop adds all the records that are left,
whatever the subscriber's filter says of them, and it adds nothing for a subscriber
that the first chunk finds closed, or for the records sent to a queue that closes
behind its reservation. Where this makes no difference, the counter stands at the number
of deliveries missed.
-/

namespace Rekuiper.Bus

open Lib (Prog ownTrace)

variable {ρ : Type} {k : Nat}

-- ---- Every schedule

/-- The reservations of call `t` that were refused by a closed queue: their chunks and
queues. -/
def closures (t : Nat) (events : List (BusEvent ρ)) : List (Nat × Nat) :=
  events.filterMap fun e =>
    (refusal ⟨e.op, e.answer⟩).filter fun x => e.thread = t && (e.before.chans x.2).closed

def callers (events : List (BusEvent ρ)) : Finset Nat := (events.map (·.thread)).toFinset

/-- The records that call `t` sent to a queue that had closed since their slots were reserved. -/
def lostSends (t : Nat) (events : List (BusEvent ρ)) : Nat :=
  events.countP fun e => e.thread = t && e.op.destination.any fun chan => (e.before.chans chan).closed

/-- The pairs of a subscriber and a record that call `t` has missed: if the call is accepted,
for every subscriber it found open, the records that pass the filter and were not sent to a
queue that refused a reservation because it was closed; and those sent to a closed queue. -/
def missed (batch : List ρ) (t : Nat) (c : BusConfig ρ) (events : List (BusEvent ρ)) : Nat :=
  match c.threads t with
  | .pure result =>
    missedBy (found (ownTrace t events)) (closures t events) batch (ownTrace t events) result +
      lostSends t events
  | .step .. => 0

/-- The chunk, the queue and the number of slots that are waited for. -/
def BusOp.waiting : BusOp ρ → Option (Nat × Nat × Nat)
  | .reserve chunk chan n => some (chunk, chan, n)
  | _ => none

/-- The reservations and sends of call `t` for which the count is right. In the first chunk no
queue is found closed, or none has room. In a later chunk the queue that is found closed is of a
subscriber whose filter lets all records from there on pass, and no open queue is asked for
more slots than it has. No queue is closed when a record is sent to it. -/
structure CountsMissed (t : Nat) (batch : List ρ) (events : List (BusEvent ρ)) : Prop where
  first : (∀ e ∈ events, e.thread = t → ∀ x ∈ e.op.reservation, x.1 = 0 →
      (e.before.chans x.2.1).closed = false) ∨
    ∀ e ∈ events, e.thread = t → ∀ x ∈ e.op.reservation, x.1 = 0 → ¬HasRoom e.before x
  accepts : ∀ e ∈ events, e.thread = t → ∀ x ∈ e.op.reservation, 0 < x.1 →
    (e.before.chans x.2.1).closed = true → ∀ s ∈ found (ownTrace t events), s.chan = x.2.1 →
      ∀ record ∈ batch.drop (x.1 * admissionChunkRecords), s.accepts record = true
  fits : ∀ e ∈ events, e.thread = t → ∀ x ∈ e.op.waiting, 0 < x.1 →
    (e.before.chans x.2.1).closed = false → x.2.2 ≤ (e.before.chans x.2.1).capacity
  sends : ∀ e ∈ events, e.thread = t → ∀ chan ∈ e.op.destination,
    (e.before.chans chan).closed = false

instance (t : Nat) (batch : List ρ) (events : List (BusEvent ρ)) :
    Decidable (CountsMissed t batch events) :=
  decidable_of_iff (_ ∧ _ ∧ _ ∧ _)
    ⟨fun h => ⟨h.1, h.2.1, h.2.2.1, h.2.2.2⟩, fun h => ⟨h.first, h.accepts, h.fits, h.sends⟩⟩

theorem CountsMissed.lostSends_eq {t : Nat} {batch : List ρ} {events : List (BusEvent ρ)}
    (h : CountsMissed t batch events) : lostSends t events = 0 := by
  refine List.countP_eq_zero.mpr fun e he hlost => ?_
  simp only [Bool.and_eq_true, decide_eq_true_eq, Option.any_eq_true] at hlost
  obtain ⟨ht, chan, hchan, hclosed⟩ := hlost
  rw [h.sends e he ht chan hchan] at hclosed
  cases hclosed

theorem mem_closures {t : Nat} {events : List (BusEvent ρ)} {x : Nat × Nat} :
    x ∈ closures t events ↔ ∃ e ∈ events, e.thread = t ∧ refusal ⟨e.op, e.answer⟩ = some x ∧
      (e.before.chans x.2).closed = true := by
  simp only [closures, List.mem_filterMap, Option.filter_eq_some_iff, Bool.and_eq_true,
    decide_eq_true_eq]
  exact exists_congr fun e => and_congr_right fun _ => by tauto

theorem mem_refusals {t : Nat} {events : List (BusEvent ρ)} {x : Nat × Nat} :
    x ∈ refusals (ownTrace t events) ↔
      ∃ e ∈ events, e.thread = t ∧ refusal ⟨e.op, e.answer⟩ = some x := by
  simp only [refusals, List.mem_filterMap, mem_ownTrace]
  constructor
  · rintro ⟨_, ⟨e, he, ht, rfl⟩, hx⟩
    exact ⟨e, he, ht, hx⟩
  · rintro ⟨e, he, ht, hx⟩
    exact ⟨_, ⟨e, he, ht, rfl⟩, hx⟩

theorem exec_refusal {topic topic' : Topic ρ} {u : Nat} {op : BusOp ρ} {answer : op.Answer}
    {x : Nat × Nat} (hexec : topic.exec u op = some (answer, topic'))
    (h : refusal ⟨op, answer⟩ = some x) :
    ∃ n, (x.1, x.2, n) ∈ op.reservation ∧ ((topic.chans x.2).closed = true ∨
      (x.1, x.2, n) ∈ op.waiting ∧ (topic.chans x.2).capacity < n) := by
  cases op with
  | tryReserve chunk chan n =>
    cases answer with
    | closed =>
      obtain rfl := Option.some.inj h
      refine ⟨n, rfl, .inl ?_⟩
      simp only [Topic.exec] at hexec
      split at hexec
      · cases hexec
      split at hexec
      · assumption
      split at hexec <;> cases hexec
    | permit | full => cases h
  | reserve chunk chan n =>
    cases answer with
    | false =>
      obtain rfl := Option.some.inj h
      refine ⟨n, rfl, ?_⟩
      simp only [Topic.exec] at hexec
      split at hexec
      · rename_i hno
        exact hno.symm.imp id fun hcapacity => ⟨rfl, hcapacity⟩
      split at hexec <;> cases hexec
    | true => cases h
  | _ => cases h

theorem exec_room {topic topic' : Topic ρ} {u : Nat} {op : BusOp ρ} {answer : op.Answer}
    (hexec : topic.exec u op = some (answer, topic')) (h : Grants k ⟨op, answer⟩) :
    ∃ x ∈ op.reservation, x.1 = k ∧ HasRoom topic x := by
  cases op with
  | tryReserve chunk chan n =>
    cases answer with
    | permit =>
      refine ⟨(chunk, chan, n), rfl, h, ?_⟩
      simp only [Topic.exec] at hexec
      split at hexec
      · cases hexec
      split at hexec
      · cases hexec
      rename_i hopen
      split at hexec
      · exact ⟨by simpa using hopen, by assumption⟩
      · cases hexec
    | closed | full => exact h.elim
  | reserve chunk chan n =>
    cases answer with
    | true =>
      refine ⟨(chunk, chan, n), rfl, h, ?_⟩
      simp only [Topic.exec] at hexec
      split at hexec
      · cases hexec
      rename_i hopen
      split at hexec
      · exact ⟨by simpa using (not_or.mp hopen).2, by assumption⟩
      · cases hexec
    | false => exact h.elim
  | _ => exact h.elim

theorem exec_undelivered {topic topic' : Topic ρ} {u : Nat} {op : BusOp ρ} {answer : op.Answer}
    (hexec : topic.exec u op = some (answer, topic')) :
    topic'.undelivered = topic.undelivered + op.adds := by
  cases op with
  | tryReserve | reserve => rcases exec_reserves hexec rfl with rfl | ⟨chan, n, rfl⟩ <;> rfl
  | tryLockGate | lockGate =>
    simp only [Topic.exec] at hexec
    split at hexec <;> cases hexec <;> rfl
  | _ =>
    cases hexec
    rfl

theorem run_undelivered (c : BusConfig ρ) (schedule : List (BusChoice ρ)) :
    (c.run (machine ρ) schedule).1.state.undelivered = c.state.undelivered +
      ∑ t ∈ callers (c.run (machine ρ) schedule).2,
        added (ownTrace t (c.run (machine ρ) schedule).2) := by
  have hfold : ∀ (events : List (BusEvent ρ)) (n : Nat),
      events.foldl (fun n e => n + e.op.adds) n = n + (events.map (·.op.adds)).sum := by
    intro events
    induction events with
    | nil => exact fun n => rfl
    | cons e rest ih =>
      intro n
      simp [ih, Nat.add_assoc]
  have hsum : ∀ (events : List (BusEvent ρ)) (ts : Finset Nat), (∀ e ∈ events, e.thread ∈ ts) →
      ∑ t ∈ ts, added (ownTrace t events) = (events.map (·.op.adds)).sum := by
    intro events ts hts
    induction events with
    | nil => simp [ownTrace, added]
    | cons e rest ih =>
      obtain ⟨he, hrest⟩ := List.forall_mem_cons.mp hts
      have hcons : ∀ t, added (ownTrace t (e :: rest)) =
          (if e.thread = t then e.op.adds else 0) + added (ownTrace t rest) := by
        intro t
        by_cases ht : e.thread = t <;> simp [ownTrace, added, ht]
      simp [hcons, Finset.sum_add_distrib, he, ih hrest]
  rw [hsum _ _ fun e he => by simpa [callers] using ⟨e, he, rfl⟩, ← hfold]
  refine Lib.run_foldl (f := fun topic : Topic ρ => topic.undelivered) ?_ ?_ c schedule
  · exact fun _ _ _ _ _ hexec => exec_undelivered hexec
  · intro e topic
    cases e <;> rfl

section Call

variable {c : BusConfig ρ} {schedule : List (BusChoice ρ)} {t : Nat} {batch : List ρ}

theorem nodup_of_read {senders : List (Sender ρ)}
    (h : ⟨.readSenders, senders⟩ ∈ ownTrace t (c.run (machine ρ) schedule).2) :
    (senders.map Sender.chan).Nodup := by
  obtain ⟨e, he, -, heq⟩ := mem_ownTrace.mp h
  obtain ⟨state, hexec⟩ := Lib.run_exec c schedule e he
  obtain ⟨u, before, op, answer⟩ := e
  cases heq
  have hanswer : before.senders = answer := congrArg Prod.fst (Option.some.inj hexec)
  exact hanswer ▸ before.senders_nodup

/-- The refusals of a later chunk are by closed queues, and an accepted call has none of
them in its first chunk. -/
theorem closures_iff {n : Nat} (hprogram : c.threads t = publishBatchTopic batch)
    (hend : (c.run (machine ρ) schedule).1.threads t = .pure (.ok n))
    (hcounts : CountsMissed t batch (c.run (machine ρ) schedule).2) (x : Nat × Nat) :
    x ∈ closures t (c.run (machine ρ) schedule).2 ↔
      x ∈ laterRefusals (ownTrace t (c.run (machine ρ) schedule).2) := by
  have htrace := Lib.run_trace c schedule t hend
  rw [hprogram] at htrace
  rw [mem_closures, mem_laterRefusals, mem_refusals]
  constructor
  · rintro ⟨e, he, ht, hrefusal, hclosed⟩
    refine ⟨⟨e, he, ht, hrefusal⟩, ?_⟩
    obtain ⟨state, hexec⟩ := Lib.run_exec c schedule e he
    obtain ⟨m, hmem, -⟩ := exec_refusal hexec hrefusal
    by_contra hzero
    have hfirst : x.1 = 0 := by omega
    rcases hcounts.first with hopen | hfull
    · rw [hopen e he ht _ hmem hfirst] at hclosed
      cases hclosed
    · have hrefused : (0, x.2) ∈ refusals (ownTrace t (c.run (machine ρ) schedule).2) := by
        rw [← hfirst]
        exact mem_refusals.mpr ⟨e, he, ht, hrefusal⟩
      obtain ⟨_, hmem', hgrants⟩ :=
        publishBatchTopic_grants htrace (fun _ => nodup_of_read) hrefused
      obtain ⟨e', he', ht', rfl⟩ := mem_ownTrace.mp hmem'
      obtain ⟨state', hexec'⟩ := Lib.run_exec c schedule e' he'
      obtain ⟨y, hy, hyzero, hroom⟩ := exec_room hexec' hgrants
      exact hfull e' he' ht' y hy hyzero hroom
  · rintro ⟨⟨e, he, ht, hrefusal⟩, hlater⟩
    obtain ⟨state, hexec⟩ := Lib.run_exec c schedule e he
    obtain ⟨m, hmem, hclosed | ⟨hwait, hcapacity⟩⟩ := exec_refusal hexec hrefusal
    · exact ⟨e, he, ht, hrefusal, hclosed⟩
    · refine ⟨e, he, ht, hrefusal, ?_⟩
      by_contra hopen
      have hfits := hcounts.fits e he ht _ hwait hlater (by simpa using hopen)
      exact Nat.not_lt.mpr hfits hcapacity

theorem added_eq_missed {result : PublishResult} (hprogram : c.threads t = publishBatchTopic batch)
    (hend : (c.run (machine ρ) schedule).1.threads t = .pure result)
    (hcounts : CountsMissed t batch (c.run (machine ρ) schedule).2) :
    added (ownTrace t (c.run (machine ρ) schedule).2) =
      missed batch t (c.run (machine ρ) schedule).1 (c.run (machine ρ) schedule).2 := by
  have htrace := Lib.run_trace c schedule t hend
  rw [hprogram] at htrace
  rw [missed, hend, publishBatchTopic_added htrace (fun _ => nodup_of_read)]
  · simp only [hcounts.lostSends_eq, Nat.add_zero]
    cases result with
    | error e => rfl
    | ok n =>
      have hchans : ∀ chan, chan ∈ (closures t (c.run (machine ρ) schedule).2).map Prod.snd ↔
          chan ∈ (laterRefusals (ownTrace t (c.run (machine ρ) schedule).2)).map Prod.snd := by
        intro chan
        simp only [List.mem_map, closures_iff hprogram hend hcounts]
      refine congrArg List.sum (List.map_congr_left fun s _ => ?_)
      simp only [owed, hchans]
  · intro x hx s hs hchan
    obtain ⟨hrefused, hlater⟩ := mem_laterRefusals.mp hx
    obtain ⟨e, he, ht, hrefusal⟩ := mem_refusals.mp hrefused
    obtain ⟨state, hexec⟩ := Lib.run_exec c schedule e he
    obtain ⟨m, hmem, hclosed⟩ := exec_refusal hexec hrefusal
    refine hcounts.accepts e he ht _ hmem hlater ?_ s hs hchan
    rcases hclosed with hclosed | ⟨hwait, hcapacity⟩
    · exact hclosed
    · by_contra hopen
      have hfits := hcounts.fits e he ht _ hwait hlater (by simpa using hopen)
      exact Nat.not_lt.mpr hfits hcapacity

end Call

/-- A run of calls that each publish a batch. -/
abbrev runBatches (topic : Topic ρ) (batches : Nat → List ρ) (schedule : List (BusChoice ρ)) :
    BusConfig ρ × List (BusEvent ρ) :=
  (start topic fun t => .publishBatch (batches t)).run (machine ρ) schedule

/-- In every schedule of batches that are over, `undelivered_after_commit` has grown by the
number of deliveries missed, if the count is right for the reservations of each batch. -/
theorem undelivered_counts_missed (topic : Topic ρ) (batches : Nat → List ρ)
    (schedule : List (BusChoice ρ))
    (hend : ∀ t ∈ callers (runBatches topic batches schedule).2,
      ∃ result, (runBatches topic batches schedule).1.threads t = .pure result)
    (hcounts : ∀ t ∈ callers (runBatches topic batches schedule).2,
      CountsMissed t (batches t) (runBatches topic batches schedule).2) :
    (runBatches topic batches schedule).1.state.undelivered = topic.undelivered +
      ∑ t ∈ callers (runBatches topic batches schedule).2, missed (batches t) t
        (runBatches topic batches schedule).1 (runBatches topic batches schedule).2 := by
  rw [run_undelivered]
  refine congrArg (topic.undelivered + ·) (Finset.sum_congr rfl fun t ht => ?_)
  obtain ⟨result, hresult⟩ := hend t ht
  exact added_eq_missed rfl hresult (hcounts t ht)

/-- A topic with one subscriber, whose queue has room for one chunk. -/
def oneChunkQueue (accepts : Nat → Bool) : Topic Nat where
  senders := [⟨0, some ⟨accepts, 0, 1⟩⟩]
  chans _ := ⟨512, false, 0, [], 0, by decide⟩
  nextChan := 1
  gate := none
  batchActive := false
  counters _ := 0
  undelivered := 0
  senders_lt := by simp
  senders_nodup := by simp

/-- A batch commits its first chunk, the subscriber closes, and the batch ends. -/
def closeAfterFirstChunk : List (BusChoice Nat) :=
  List.replicate 517 (.thread 0) ++ [.env (.close 0)] ++ List.replicate 7 (.thread 0)

theorem undelivered_counts_missed_two :
    (runBatches (oneChunkQueue fun _ => true) (fun _ => List.range 514)
      closeAfterFirstChunk).1.state.undelivered = 2 := by
  have hcallers : callers (runBatches (oneChunkQueue fun _ => true) (fun _ => List.range 514)
      closeAfterFirstChunk).2 = {0} := by
    decide +kernel
  refine (undelivered_counts_missed (oneChunkQueue fun _ => true) (fun _ => List.range 514)
    closeAfterFirstChunk ?_ ?_).trans (by decide +kernel)
  · rw [hcallers]
    intro t ht
    obtain rfl := Finset.mem_singleton.mp ht
    exact Prog.ended_iff.mp (by decide +kernel)
  · rw [hcallers]
    intro t ht
    obtain rfl := Finset.mem_singleton.mp ht
    decide +kernel

/-- The filter keeps the last of the two records out that are left when the subscriber
closes, and both are counted. -/
theorem filtered_record_counted :
    ¬∀ (topic : Topic Nat) (batches : Nat → List Nat) (schedule : List (BusChoice Nat)),
      (∀ t ∈ callers (runBatches topic batches schedule).2,
        ∃ result, (runBatches topic batches schedule).1.threads t = .pure result) →
      (runBatches topic batches schedule).1.state.undelivered = topic.undelivered +
        ∑ t ∈ callers (runBatches topic batches schedule).2, missed (batches t) t
          (runBatches topic batches schedule).1 (runBatches topic batches schedule).2 := by
  intro h
  have hcallers : callers (runBatches (oneChunkQueue (· < 513)) (fun _ => List.range 514)
      closeAfterFirstChunk).2 = {0} := by
    decide +kernel
  have hcount := h (oneChunkQueue (· < 513)) (fun _ => List.range 514) closeAfterFirstChunk ?_
  · revert hcount
    decide +kernel
  · rw [hcallers]
    intro t ht
    obtain rfl := Finset.mem_singleton.mp ht
    exact Prog.ended_iff.mp (by decide +kernel)

end Rekuiper.Bus
