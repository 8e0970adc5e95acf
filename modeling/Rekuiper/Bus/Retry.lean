import Rekuiper.Bus.Failure

/-!
# What a failed publish leaves behind

A publish that returns an error has sent nothing. Its filters have counted, though,
where they ran before the reservation that failed: the counters are as before
exactly when every subscriber that was asked accepts the records.
-/

namespace Rekuiper.Bus

open Lib (Prog ownTrace)
open Lib.Prog

variable {ρ : Type} {trace : List (BusDone ρ)}

-- ---- A call counts once

def CountedOnce (records : List ρ) (trace : List (BusDone ρ)) : Prop :=
  ∃ senders, (senders = [] ∨ ⟨.readSenders, senders⟩ ∈ trace) ∧ ∀ counter,
    (bumps trace).count counter ≤
      (senders.flatMap fun s => records.flatMap s.rejections).count counter

theorem countedOnce_of_bumps_eq_nil {records : List ρ} (h : bumps trace = []) :
    CountedOnce records trace :=
  ⟨[], .inl rfl, fun counter => by simp [h]⟩

theorem CountedOnce.append {records : List ρ} {first second : List (BusDone ρ)}
    (h : CountedOnce records first) (hsecond : bumps second = []) :
    CountedOnce records (first ++ second) := by
  obtain ⟨senders, hread, hcount⟩ := h
  refine ⟨senders, hread.imp_right fun hmem => List.mem_append_left _ hmem, ?_⟩
  rw [bumps_append, hsecond, List.append_nil]
  exact hcount

theorem CountedOnce.prepend {records : List ρ} {first second : List (BusDone ρ)}
    (h : CountedOnce records second) (hfirst : bumps first = []) :
    CountedOnce records (first ++ second) := by
  obtain ⟨senders, hread, hcount⟩ := h
  refine ⟨senders, hread.imp_right fun hmem => List.mem_append_right _ hmem, ?_⟩
  rw [bumps_append, hfirst, List.nil_append]
  exact hcount

theorem countedOnce_of_snapshot {records : List ρ} {result : Nat × List (Sender ρ)}
    {looking asking : List (BusDone ρ)} (h : snapshot.Trace looking result)
    (hcount : ∀ counter, (bumps asking).count counter ≤
      (result.2.flatMap fun s => records.flatMap s.rejections).count counter) :
    CountedOnce records (looking ++ asking) := by
  have hnone := (snapshot_found h).1
  simp only [snapshot, trace_bind, trace_perform, trace_pure] at h
  obtain ⟨_, senders, _, rfl, rfl, second, live, _, rfl, hlive, rfl, rfl⟩ := h
  have hsub := ((liveSenders_uses senders).of_trace hlive).2
  refine ⟨senders, .inr (by simp), fun counter => ?_⟩
  rw [bumps_append, hnone, List.nil_append]
  refine Nat.le_trans (hcount counter) ?_
  exact (hsub.flatMap fun s => records.flatMap s.rejections).count_le counter

def BusOp.Uncounted : BusOp ρ → Prop
  | .bump _ => False
  | _ => True

theorem bumps_uncounted (h : ∀ x ∈ trace, x.1.Uncounted) : bumps trace = [] := by
  refine List.filterMap_eq_nil_iff.mpr fun x hx => ?_
  have huncounted := h x hx
  obtain ⟨op, answer⟩ := x
  cases op <;> first | rfl | exact huncounted.elim

theorem sendEach_bumps {record : ρ} {permits : List (Sender ρ)} {result : Unit}
    (h : (sendEach record permits).Trace trace result) : bumps trace = [] := by
  have huses : (sendEach record permits).Uses BusOp.Uncounted fun _ => True := by
    clear h
    induction permits with
    | nil => exact uses_pure trivial
    | cons s rest ih => exact uses_perform trivial fun _ => ih
  exact bumps_uncounted (huses.of_trace h).1

theorem single_countedOnce {absent : PublishResult}
    {onFull : Sender ρ → BusProg ρ (Option PublishResult)} {record : ρ}
    {result : Option PublishResult} (h : (single absent onFull record).Trace trace result)
    (hfull : ∀ s, (onFull s).Uses BusOp.Uncounted fun _ => True) : CountedOnce [record] trace := by
  simp only [single, trace_bind, trace_perform] at h
  obtain ⟨_, senders, trace, rfl, rfl, h⟩ := h
  rcases senders with _ | ⟨s, _ | _⟩
  case nil | cons.cons =>
    obtain ⟨rfl, -⟩ := trace_pure.mp h
    exact countedOnce_of_bumps_eq_nil rfl
  case cons.nil =>
    simp only [trace_bind] at h
    obtain ⟨checking, pass, rest, rfl, hcheck, h⟩ := h
    have hrest : bumps rest = [] := by
      refine bumps_uncounted (Uses.of_trace (R := fun _ => True) ?_ h).1
      refine Uses.ite (fun _ => ?_) fun _ => uses_pure trivial
      refine uses_perform trivial fun answer => ?_
      cases answer with
      | permit => exact uses_perform trivial fun _ => uses_pure trivial
      | closed => exact uses_perform trivial fun _ => uses_pure trivial
      | full => exact hfull s
    refine ⟨[s], .inr (by simp), fun counter => ?_⟩
    rw [bumps_append, bumps_append, hrest, check_bumps hcheck]
    simp [bumps]

theorem publishSingle_countedOnce {record : ρ} {result : Option PublishResult}
    (h : (publishSingle record).Trace trace result) : CountedOnce [record] trace :=
  single_countedOnce h fun _ => waitAndSend_uses trivial trivial trivial

theorem tryPublishSingle_countedOnce {record : ρ} {result : Option PublishResult}
    (h : (tryPublishSingle record).Trace trace result) : CountedOnce [record] trace :=
  single_countedOnce h fun _ => uses_pure trivial

theorem opening_countedOnce (absent : PublishResult) {result : PublishResult} {records : List ρ}
    (rest : List (Sender ρ) → BusProg ρ PublishResult) (h : (opening absent rest).Trace trace result)
    (hrest : ∀ {selected tail}, (rest selected).Trace tail result → ∀ counter,
      (bumps tail).count counter ≤
        (selected.flatMap fun s => records.flatMap s.rejections).count counter) :
    CountedOnce records trace := by
  obtain ⟨looking, registered, selected, purging, tail, rfl, hlooking, hpurging, htail⟩ :=
    opening_cases absent rest h
  refine countedOnce_of_snapshot hlooking fun counter => ?_
  rw [bumps_append, (untouched_of_purge hpurging).bumps, List.nil_append]
  rcases htail with ⟨rfl, rfl⟩ | htail
  · exact Nat.le_refl _
  · exact hrest htail counter

theorem publishSelected_bumps {record : ρ} {selected : List (Sender ρ)} {result : PublishResult}
    (h : (publishSelected record selected).Trace trace result) :
    bumps trace = selected.flatMap (·.rejections record) := by
  simp only [publishSelected, trace_bind] at h
  obtain ⟨reserving, result, trace, rfl, hreserving, purging, _, trace, rfl, hpurging, h⟩ := h
  have hlast : bumps trace = [] := by
    split at h
    · obtain ⟨rfl, -⟩ := trace_pure.mp h
      rfl
    · simp only [trace_bind, trace_pure] at h
      obtain ⟨sending, _, _, rfl, hsending, rfl, -⟩ := h
      rw [List.append_nil]
      exact sendEach_bumps hsending
  simp [(reserveEach_bumps hreserving).1, (onlyIf_purge_untouched hpurging).bumps, hlast]

theorem publishAdmitted_countedOnce {record : ρ} {result : PublishResult}
    (h : (publishAdmitted record).Trace trace result) : CountedOnce [record] trace := by
  simp only [publishAdmitted, trace_bind] at h
  obtain ⟨single, first, trace, rfl, hsingle, h⟩ := h
  cases first with
  | some result =>
    obtain ⟨rfl, rfl⟩ := trace_pure.mp h
    exact (publishSingle_countedOnce hsingle).append rfl
  | none =>
    refine CountedOnce.prepend ?_ (publishSingle_untouched hsingle (by simp)).bumps
    refine opening_countedOnce (.ok 0) (publishSelected record) h fun h counter => ?_
    simp [publishSelected_bumps h]

theorem tryPublishSelected_bumps {record : ρ} {selected : List (Sender ρ)} {result : PublishResult}
    (h : (tryPublishSelected record selected).Trace trace result) :
    bumps trace = selected.flatMap (·.rejections record) := by
  simp only [tryPublishSelected, trace_bind] at h
  obtain ⟨asking, active, trace, rfl, hasking, h⟩ := h
  have hlast : bumps trace = [] := by
    split at h
    · obtain ⟨rfl, -⟩ := trace_pure.mp h
      rfl
    simp only [trace_bind] at h
    obtain ⟨reserving, permits, trace, rfl, hreserving, h⟩ := h
    have hslots := ((tryReserveEach_uses [] active).of_trace hreserving).1
    rw [bumps_append, bumps_mute fun x hx => (hslots x hx).mute]
    cases permits with
    | none =>
      obtain ⟨rfl, -⟩ := trace_pure.mp h
      rfl
    | some permits =>
      simp only at h
      split at h
      · simp only [trace_bind, trace_perform, trace_pure] at h
        obtain ⟨_, _, _, rfl, rfl, rfl, -⟩ := h
        rfl
      · simp only [trace_bind, trace_pure] at h
        obtain ⟨sending, _, _, rfl, hsending, rfl, -⟩ := h
        rw [List.append_nil, List.nil_append]
        exact sendEach_bumps hsending
  simp [activeSenders_bumps hasking, hlast]

theorem tryPublishAdmitted_countedOnce {record : ρ} {result : PublishResult}
    (h : (tryPublishAdmitted record).Trace trace result) : CountedOnce [record] trace := by
  refine opening_countedOnce (.error .noSubscribers) (tryPublishSelected record) h fun h counter => ?_
  simp [tryPublishSelected_bumps h]

theorem admitChunks_cons_bumps {chunk : List ρ} {rest : List (List ρ)} {k : Nat}
    {selected : List (Sender ρ)} {committed : Bool} {result : PublishResult}
    (h : (admitChunks (chunk :: rest) k selected committed).Trace trace result) :
    ∃ tail, bumps trace = (selected.flatMap fun s => chunk.flatMap s.rejections) ++ bumps tail ∧
      (tail = [] ∨ ∃ selected', selected'.Sublist selected ∧
        (admitChunks rest (k + 1) selected' true).Trace tail result) := by
  simp only [admitChunks, trace_bind] at h
  obtain ⟨matching, subMatches, trace, rfl, hmatching, h⟩ := h
  have hbumps := matchChunk_bumps hmatching
  rw [List.zipIdx_map_fst] at hbumps
  rw [bumps_append, hbumps]
  split at h
  · exact ⟨trace, rfl, .inr ⟨selected, List.Sublist.refl _, h⟩⟩
  simp only [trace_bind] at h
  obtain ⟨reserving, result, trace, rfl, hreserving, accounting, _, trace, rfl, haccounting, h⟩ := h
  have hreserves := ((reserveChunk_uses k selected subMatches).of_trace hreserving).1
  rw [bumps_append, bumps_append, bumps_mute fun x hx => (hreserves x hx).mute,
    (onlyIf_account_untouched haccounting).bumps]
  split at h
  · simp only [trace_bind, trace_perform, trace_pure] at h
    obtain ⟨_, _, _, rfl, rfl, rfl, -⟩ := h
    exact ⟨[], rfl, .inl rfl⟩
  · simp only [trace_bind] at h
    obtain ⟨sending, _, trace, rfl, hsending, purging, _, tail, rfl, hpurging, h⟩ := h
    have hsends : ∀ x ∈ sending, x.1.Uncounted := by
      intro x hx
      obtain ⟨chan, record, hop⟩ := ((sendChunk_uses result.1).of_trace hsending).1 x hx
      rw [hop]
      trivial
    rw [bumps_append, bumps_append, bumps_uncounted hsends, (onlyIf_purge_untouched hpurging).bumps]
    exact ⟨tail, rfl, .inr ⟨_, removeIndices_sublist _ _, h⟩⟩

theorem count_rejections_append (selected : List (Sender ρ)) (first second : List ρ)
    (counter : Nat) :
    (selected.flatMap fun s => (first ++ second).flatMap s.rejections).count counter =
      (selected.flatMap fun s => first.flatMap s.rejections).count counter +
        (selected.flatMap fun s => second.flatMap s.rejections).count counter := by
  induction selected with
  | nil => rfl
  | cons s rest ih =>
    simp only [List.flatMap_cons, List.flatMap_append, List.count_append] at ih ⊢
    omega

theorem admitChunks_count_le {chunks : List (List ρ)} {k : Nat} {selected : List (Sender ρ)}
    {committed : Bool} {result : PublishResult}
    (h : (admitChunks chunks k selected committed).Trace trace result) (counter : Nat) :
    (bumps trace).count counter ≤
      (selected.flatMap fun s => chunks.flatten.flatMap s.rejections).count counter := by
  induction chunks generalizing trace k selected committed with
  | nil =>
    obtain ⟨rfl, -⟩ := trace_pure.mp h
    exact Nat.zero_le _
  | cons chunk rest ih =>
    obtain ⟨tail, hbumps, htail⟩ := admitChunks_cons_bumps h
    have hrest : (bumps tail).count counter ≤
        (selected.flatMap fun s => rest.flatten.flatMap s.rejections).count counter := by
      rcases htail with rfl | ⟨selected', hsub, htail⟩
      · exact Nat.zero_le _
      · refine Nat.le_trans (ih htail) ?_
        exact (hsub.flatMap fun s => rest.flatten.flatMap s.rejections).count_le counter
    rw [hbumps, List.count_append, List.flatten_cons, count_rejections_append]
    omega

theorem admitBatch_countedOnce {records : List ρ} {result : PublishResult}
    (h : (admitBatch records).Trace trace result) : CountedOnce records trace := by
  refine opening_countedOnce (.ok 0)
    (admitChunks (Lib.chunks admissionChunkRecords records) 0 · false) h fun h counter => ?_
  have hcount := admitChunks_count_le h counter
  rwa [Lib.flatten_chunks (by decide)] at hcount

theorem publishGated_countedOnce {record : ρ} {result : PublishResult}
    (h : (publishGated record).Trace trace result) : CountedOnce [record] trace := by
  simp only [publishGated, trace_bind, trace_perform, trace_pure] at h
  obtain ⟨entering, _, _, rfl, hentering, admitted, _, _, rfl, hadmitted, _, _, _, rfl, rfl, rfl,
    rfl⟩ := h
  exact ((publishAdmitted_countedOnce hadmitted).append rfl).prepend
    (admission_acquires hentering).1.bumps

theorem tryPublishGated_countedOnce {record : ρ} {result : PublishResult}
    (h : (tryPublishGated record).Trace trace result) : CountedOnce [record] trace := by
  simp only [tryPublishGated, trace_bind, trace_perform] at h
  obtain ⟨_, locked, trace, rfl, rfl, h⟩ := h
  refine CountedOnce.prepend ?_ rfl
  cases locked with
  | true =>
    simp only [if_true, trace_bind, trace_perform, trace_pure] at h
    obtain ⟨admitted, _, _, rfl, hadmitted, _, _, _, rfl, rfl, rfl, rfl⟩ := h
    exact (tryPublishAdmitted_countedOnce hadmitted).append rfl
  | false =>
    simp only [Bool.false_eq_true, if_false, trace_bind, trace_pure] at h
    obtain ⟨looking, _, _, rfl, hlooking, rfl, -⟩ := h
    rw [List.append_nil]
    exact countedOnce_of_bumps_eq_nil (snapshot_found hlooking).1

theorem ungatedFirst_countedOnce {direct : BusProg ρ (Option PublishResult)}
    {gated : BusProg ρ PublishResult} {records : List ρ} {result : PublishResult}
    (h : (ungatedFirst direct gated).Trace trace result)
    (hcounted : ∀ trace result, direct.Trace trace result → CountedOnce records trace)
    (hnone : ∀ trace, direct.Trace trace none → Untouched trace)
    (hgated : ∀ trace, gated.Trace trace result → CountedOnce records trace) :
    CountedOnce records trace := by
  simp only [ungatedFirst, trace_bind, trace_perform] at h
  obtain ⟨_, flag, trace, rfl, rfl, h⟩ := h
  refine CountedOnce.prepend ?_ rfl
  cases flag with
  | true => exact hgated _ h
  | false =>
    simp only [Bool.false_eq_true, if_false, trace_bind] at h
    obtain ⟨first, result, trace, rfl, hfirst, h⟩ := h
    cases result with
    | some result =>
      obtain ⟨rfl, -⟩ := trace_pure.mp h
      exact (hcounted _ _ hfirst).append rfl
    | none => exact (hgated _ h).prepend (hnone _ hfirst).bumps

theorem publishBatchTopic_countedOnce {records : List ρ} {result : PublishResult}
    (h : (publishBatchTopic records).Trace trace result) : CountedOnce records trace := by
  simp only [publishBatchTopic] at h
  split at h
  · obtain ⟨rfl, -⟩ := trace_pure.mp h
    exact countedOnce_of_bumps_eq_nil rfl
  simp only [trace_bind, trace_perform, trace_pure] at h
  obtain ⟨entering, _, _, rfl, hentering, _, _, _, rfl, rfl, admitting, _, _, rfl, hadmitting, _,
    _, _, rfl, rfl, _, _, _, rfl, rfl, rfl, rfl⟩ := h
  exact (((admitBatch_countedOnce hadmitting).append rfl).prepend rfl).prepend
    (admission_acquires hentering).1.bumps

theorem call_countedOnce {call : Call ρ} {result : PublishResult}
    (h : call.program.Trace trace result) : CountedOnce call.records trace := by
  cases call with
  | publishAsync record =>
    exact ungatedFirst_countedOnce h (fun _ _ => publishSingle_countedOnce)
      (fun _ h => publishSingle_untouched h (by simp)) fun _ => publishGated_countedOnce
  | tryPublish record =>
    exact ungatedFirst_countedOnce h (fun _ _ => tryPublishSingle_countedOnce)
      (fun _ h => tryPublishSingle_untouched h (by simp)) fun _ => tryPublishGated_countedOnce
  | publishBatch records => exact publishBatchTopic_countedOnce h

-- ---- Every schedule

/-- What the calls other than `t` have done along a run. -/
def othersTrace (t : Nat) (events : List (BusEvent ρ)) : List (BusDone ρ) :=
  (events.filter (·.thread ≠ t)).map fun e => ⟨e.op, e.answer⟩

theorem run_counters (c : BusConfig ρ) (schedule : List (BusChoice ρ)) (t counter : Nat) :
    (c.run (machine ρ) schedule).1.state.counters counter =
      c.state.counters counter +
        ((bumps (othersTrace t (c.run (machine ρ) schedule).2)).count counter +
          (bumps (ownTrace t (c.run (machine ρ) schedule).2)).count counter) := by
  have hfold : ∀ (events : List (BusEvent ρ)) (n : Nat),
      events.foldl (fun n e => n + (bumps [⟨e.op, e.answer⟩]).count counter) n =
        n + ((bumps (othersTrace t events)).count counter +
          (bumps (ownTrace t events)).count counter) := by
    intro events
    induction events with
    | nil => simp [ownTrace, othersTrace, bumps]
    | cons e rest ih =>
      intro n
      rw [List.foldl_cons, ih]
      by_cases ht : e.thread = t
      · have hown : ownTrace t (e :: rest) = [⟨e.op, e.answer⟩] ++ ownTrace t rest := by
          simp [ownTrace, ht]
        have hothers : othersTrace t (e :: rest) = othersTrace t rest := by
          simp [othersTrace, ht]
        rw [hown, hothers, bumps_append, List.count_append]
        omega
      · have hown : ownTrace t (e :: rest) = ownTrace t rest := by
          simp [ownTrace, ht]
        have hothers : othersTrace t (e :: rest) = [⟨e.op, e.answer⟩] ++ othersTrace t rest := by
          simp [othersTrace, ht]
        rw [hown, hothers, bumps_append, List.count_append]
        omega
  rw [← hfold]
  refine Lib.run_foldl (f := fun topic : Topic ρ => topic.counters counter) ?_ ?_ c schedule
  · intro u topic op answer topic' hexec
    rw [exec_counters hexec]
    cases op with
    | bump c => by_cases hc : c = counter <;> simp [bumps, hc]
    | _ => rfl
  · intro e topic
    cases e <;> rfl

/-- The call is over and has changed nothing: none of its records is in a queue,
and the counters stand where the other calls have left them. -/
def NothingChanged (t : Nat) (before after : Topic ρ) (events : List (BusEvent ρ)) : Prop :=
  (∀ chan, recordsOf t (after.chans chan).sent = []) ∧
    ∀ counter, after.counters counter =
      before.counters counter + (bumps (othersTrace t events)).count counter

def BusOp.locks : BusOp ρ → Option Nat → Bool
  | .tryLockGate, holder => holder.isNone
  | .lockGate, _ => true
  | _, _ => false

def GetsGate (e : BusEvent ρ) : Prop := e.op.locks e.before.gate = true

instance (e : BusEvent ρ) : Decidable (GetsGate e) :=
  inferInstanceAs (Decidable (_ = _))

/-- The call gets the gate and finds a subscriber open that keeps a record of its
first chunk out. -/
def FiltersOut (t : Nat) (records : List ρ) (events : List (BusEvent ρ)) : Prop :=
  (∃ e ∈ events, e.thread = t ∧ GetsGate e) ∧
    ∃ e ∈ events, e.thread = t ∧ ∃ s, e.op = .isClosed s ∧
      (e.before.chans s.chan).closed = false ∧
      ∃ record ∈ records.take admissionChunkRecords, s.accepts record = false

theorem exec_acquires {topic topic' : Topic ρ} {u : Nat} {op : BusOp ρ} {answer : op.Answer}
    (hexec : topic.exec u op = some (answer, topic')) :
    Acquires ⟨op, answer⟩ ↔ GetsGate ⟨u, topic, op, answer⟩ := by
  cases op with
  | tryLockGate =>
    simp only [Topic.exec] at hexec
    split at hexec
    · rename_i hgate
      cases hexec
      simp [Acquires, GetsGate, BusOp.locks, hgate]
    · rename_i hgate
      cases hexec
      simp [Acquires, GetsGate, BusOp.locks, hgate]
  | _ => simp [Acquires, GetsGate, BusOp.locks]

theorem mem_found {s : Sender ρ} : s ∈ found trace ↔ ⟨.isClosed s, false⟩ ∈ trace := by
  simp only [found, List.mem_filterMap]
  constructor
  · rintro ⟨x, hx, heq⟩
    split at heq
    · cases heq
      exact hx
    · cases heq
  · exact fun h => ⟨_, h, rfl⟩

theorem filtersOut_iff (c : BusConfig ρ) (schedule : List (BusChoice ρ)) (t : Nat)
    (records : List ρ) :
    FiltersOut t records (c.run (machine ρ) schedule).2 ↔
      (∃ x ∈ ownTrace t (c.run (machine ρ) schedule).2, Acquires x) ∧
        ∃ s ∈ found (ownTrace t (c.run (machine ρ) schedule).2),
          ∃ record ∈ records.take admissionChunkRecords, s.accepts record = false := by
  refine and_congr ?_ ?_
  · constructor
    · rintro ⟨e, he, ht, hgate⟩
      obtain ⟨state, hexec⟩ := Lib.run_exec c schedule e he
      exact ⟨⟨e.op, e.answer⟩, mem_ownTrace.mpr ⟨e, he, ht, rfl⟩, (exec_acquires hexec).mpr hgate⟩
    · rintro ⟨_, hx, hacquires⟩
      obtain ⟨e, he, ht, rfl⟩ := mem_ownTrace.mp hx
      obtain ⟨state, hexec⟩ := Lib.run_exec c schedule e he
      exact ⟨e, he, ht, (exec_acquires hexec).mp hacquires⟩
  · constructor
    · rintro ⟨e, he, ht, s, hop, hopen, hrecord⟩
      refine ⟨s, mem_found.mpr (mem_ownTrace.mpr ⟨e, he, ht, ?_⟩), hrecord⟩
      obtain ⟨state, hexec⟩ := Lib.run_exec c schedule e he
      obtain ⟨u, before, op, answer⟩ := e
      obtain rfl : op = .isClosed s := hop
      have hanswer : (before.chans s.chan).closed = answer :=
        congrArg Prod.fst (Option.some.inj hexec)
      rw [← hanswer, hopen]
    · rintro ⟨s, hs, hrecord⟩
      obtain ⟨e, he, ht, heq⟩ := mem_ownTrace.mp (mem_found.mp hs)
      obtain ⟨state, hexec⟩ := Lib.run_exec c schedule e he
      obtain ⟨u, before, op, answer⟩ := e
      cases heq
      have hanswer : (before.chans s.chan).closed = false :=
        congrArg Prod.fst (Option.some.inj hexec)
      exact ⟨_, he, ht, s, rfl, hanswer, hrecord⟩

theorem nothingChanged_iff {topic : Topic ρ} {calls : Nat → Call ρ}
    {schedule : List (BusChoice ρ)} {t : Nat} (hfresh : topic.Fresh)
    (hsent : ∀ chan, sentTo chan (ownTrace t ((start topic calls).run (machine ρ) schedule).2) = []) :
    NothingChanged t topic ((start topic calls).run (machine ρ) schedule).1.state
        ((start topic calls).run (machine ρ) schedule).2 ↔
      bumps (ownTrace t ((start topic calls).run (machine ρ) schedule).2) = [] := by
  have hrecords : ∀ chan,
      recordsOf t (((start topic calls).run (machine ρ) schedule).1.state.chans chan).sent = [] := by
    intro chan
    rw [run_recordsOf, hsent, show (start topic calls).state = topic from rfl, hfresh.2.2]
    rfl
  have hcounters := run_counters (start topic calls) schedule t
  constructor
  · rintro ⟨-, hsame⟩
    refine List.eq_nil_iff_forall_not_mem.mpr fun counter => List.count_eq_zero.mp ?_
    have hcounter := hcounters counter
    rw [hsame counter, show (start topic calls).state = topic from rfl] at hcounter
    omega
  · intro hnil
    refine ⟨hrecords, fun counter => ?_⟩
    rw [hcounters counter, hnil]
    rfl

theorem failed_call_iff {topic : Topic ρ} {calls : Nat → Call ρ}
    {schedule : List (BusChoice ρ)} (hfresh : topic.Fresh) {t : Nat} {error : PublishError}
    (hend : ((start topic calls).run (machine ρ) schedule).1.threads t = .pure (.error error)) :
    NothingChanged t topic ((start topic calls).run (machine ρ) schedule).1.state
        ((start topic calls).run (machine ρ) schedule).2 ↔
      ¬FiltersOut t (calls t).records ((start topic calls).run (machine ρ) schedule).2 := by
  have hfailed : CallFailed ((calls t).records.take admissionChunkRecords) _ :=
    call_failed (Lib.run_trace (start topic calls) schedule t hend)
  rw [nothingChanged_iff hfresh hfailed.sent, filtersOut_iff]
  by_cases hgate : ∃ x ∈ ownTrace t ((start topic calls).run (machine ρ) schedule).2, Acquires x
  · rw [hfailed.gated hgate]
    simp only [hgate, true_and, List.flatMap_eq_nil_iff, rejections_eq_nil]
    push Not
    simp
  · rw [hfailed.ungated fun x hx hacquires => hgate ⟨x, hx, hacquires⟩]
    simp [hgate]

/-- How often call `t` has bumped a counter. -/
def countsOf (t counter : Nat) (events : List (BusEvent ρ)) : Nat :=
  (bumps (ownTrace t events)).count counter

theorem registered_of_read {c : BusConfig ρ} {schedule : List (BusChoice ρ)} {t : Nat}
    {senders : List (Sender ρ)}
    (h : ⟨.readSenders, senders⟩ ∈ ownTrace t (c.run (machine ρ) schedule).2) :
    ∀ s ∈ senders, Registered t (c.run (machine ρ) schedule).2 s := by
  intro s hs
  obtain ⟨e, he, ht, heq⟩ := mem_ownTrace.mp h
  obtain ⟨state, hexec⟩ := Lib.run_exec c schedule e he
  obtain ⟨u, before, op, answer⟩ := e
  cases heq
  have hanswer : before.senders = answer := congrArg Prod.fst (Option.some.inj hexec)
  rw [← hanswer] at hs
  exact ⟨_, he, ht, rfl, hs⟩

/-- In every schedule, a call that fails has changed nothing exactly when nobody it
asked kept a record out; and a request that failed any number of times without
that and succeeds at last is counted at most once for each record and subscriber. -/
theorem failed_publish_changes_nothing_iff (topic : Topic ρ) (calls : Nat → Call ρ)
    (schedule : List (BusChoice ρ)) (hfresh : topic.Fresh) :
    (∀ t error,
      ((start topic calls).run (machine ρ) schedule).1.threads t = .pure (.error error) →
      (NothingChanged t topic ((start topic calls).run (machine ρ) schedule).1.state
          ((start topic calls).run (machine ρ) schedule).2 ↔
        ¬FiltersOut t (calls t).records ((start topic calls).run (machine ρ) schedule).2)) ∧
      ∀ (attempts : List Nat) (last n : Nat),
        (∀ t ∈ attempts, ∃ error,
          ((start topic calls).run (machine ρ) schedule).1.threads t = .pure (.error error) ∧
          ¬FiltersOut t (calls t).records ((start topic calls).run (machine ρ) schedule).2) →
        ((start topic calls).run (machine ρ) schedule).1.threads last = .pure (.ok n) →
        ∃ senders : List (Sender ρ), (∀ s ∈ senders,
            Registered last ((start topic calls).run (machine ρ) schedule).2 s) ∧
          ∀ counter, ((attempts ++ [last]).map fun t =>
              countsOf t counter ((start topic calls).run (machine ρ) schedule).2).sum ≤
            (senders.flatMap fun s => (calls last).records.flatMap s.rejections).count counter := by
  refine ⟨fun t error hend => failed_call_iff hfresh hend, fun attempts last n hattempts hend => ?_⟩
  have hnone : ∀ t ∈ attempts,
      bumps (ownTrace t ((start topic calls).run (machine ρ) schedule).2) = [] := by
    intro t ht
    obtain ⟨error, hend, hfilters⟩ := hattempts t ht
    have hfailed := call_failed (Lib.run_trace (start topic calls) schedule t hend)
    exact (nothingChanged_iff hfresh hfailed.sent).mp ((failed_call_iff hfresh hend).mpr hfilters)
  have hzero : ∀ counter, (attempts.map fun t =>
      countsOf t counter ((start topic calls).run (machine ρ) schedule).2).sum = 0 := by
    intro counter
    rw [List.map_congr_left (g := fun _ => 0) fun t ht => by simp [countsOf, hnone t ht]]
    simp
  obtain ⟨senders, hread, hcount⟩ :=
    call_countedOnce (Lib.run_trace (start topic calls) schedule last hend)
  refine ⟨senders, ?_, fun counter => ?_⟩
  · rcases hread with rfl | hread
    · exact nofun
    · exact registered_of_read hread
  · rw [List.map_append, List.sum_append, hzero, Nat.zero_add, List.map_singleton,
      List.sum_singleton]
    exact hcount counter

/-- Two subscribers: one keeps large records out, the other's queue has one slot. -/
def filteredAndSmall : Topic Nat where
  senders := [⟨0, some ⟨(· < 5), 0, 1⟩⟩, ⟨1, none⟩]
  chans _ := ⟨1, false, 0, [], 0, by decide⟩
  nextChan := 2
  gate := none
  batchActive := false
  counters _ := 0
  undelivered := 0
  senders_lt := by decide
  senders_nodup := by decide

theorem failed_publish_changes_nothing_closed :
    NothingChanged 0 oneSubscriber
      ((start oneSubscriber fun _ => .publishAsync 9).run (machine Nat)
        [.env (.close 0), .thread 0, .thread 0, .thread 0, .thread 0]).1.state
      ((start oneSubscriber fun _ => .publishAsync 9).run (machine Nat)
        [.env (.close 0), .thread 0, .thread 0, .thread 0, .thread 0]).2 := by
  refine ((failed_publish_changes_nothing_iff oneSubscriber (fun _ => .publishAsync 9)
    [.env (.close 0), .thread 0, .thread 0, .thread 0, .thread 0] ⟨rfl, rfl, fun _ => rfl⟩).1 0
    .closed rfl).mpr ?_
  have hgate : ∀ e ∈ ((start oneSubscriber fun _ => .publishAsync 9).run (machine Nat)
      [.env (.close 0), .thread 0, .thread 0, .thread 0, .thread 0]).2, ¬GetsGate e := by
    decide
  rintro ⟨⟨e, he, -, hgets⟩, -⟩
  exact hgate e he hgets

/-- The second of two publishes finds one queue full, after the other subscriber's
filter has counted the record. -/
theorem failed_publish_counts :
    ¬∀ (topic : Topic Nat) (calls : Nat → Call Nat) (schedule : List (BusChoice Nat)),
      topic.Fresh → ∀ t error,
        ((start topic calls).run (machine Nat) schedule).1.threads t = .pure (.error error) →
        NothingChanged t topic ((start topic calls).run (machine Nat) schedule).1.state
          ((start topic calls).run (machine Nat) schedule).2 := by
  intro h
  have hcounter := (h filteredAndSmall (fun _ => .tryPublish 7)
    (List.replicate 11 (.thread 0) ++ List.replicate 10 (.thread 1)) ⟨rfl, rfl, fun _ => rfl⟩ 1
    .full rfl).2 0
  revert hcounter
  decide

end Rekuiper.Bus
