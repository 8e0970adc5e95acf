import Mathlib.Algebra.GroupWithZero.Nat
import Mathlib.Data.List.Flatten
import Rekuiper.Bus.Admission

/-!
# What a failed call has done

The trace of a call that returns an error: nothing is sent, and the filters of the
subscribers found open behind the gate have counted the records of the first chunk.
-/

namespace Rekuiper.Bus

open Lib (Prog ownTrace)
open Lib.Prog

variable {ρ : Type} {trace : List (BusDone ρ)}

-- ---- Counting

def bumps (trace : List (BusDone ρ)) : List Nat :=
  trace.filterMap fun x =>
    match x.1 with
    | .bump counter => some counter
    | _ => none

def found (trace : List (BusDone ρ)) : List (Sender ρ) :=
  trace.filterMap fun x =>
    match x with
    | ⟨.isClosed s, false⟩ => some s
    | _ => none

def Acquires : BusDone ρ → Prop
  | ⟨.tryLockGate, true⟩ => True
  | ⟨.lockGate, _⟩ => True
  | _ => False

@[simp]
theorem bumps_append (first second : List (BusDone ρ)) :
    bumps (first ++ second) = bumps first ++ bumps second :=
  List.filterMap_append

@[simp]
theorem found_append (first second : List (BusDone ρ)) :
    found (first ++ second) = found first ++ found second :=
  List.filterMap_append

/-- The counters that a record kept out by `s` is counted in. -/
def Sender.rejections (s : Sender ρ) (record : ρ) : List Nat :=
  match s.filter with
  | none => []
  | some f => if f.accepts record then [] else [f.sourceInCounter, f.filteredCounter]

theorem rejections_eq_nil {s : Sender ρ} {record : ρ} :
    s.rejections record = [] ↔ s.accepts record = true := by
  unfold Sender.rejections Sender.accepts
  cases s.filter with
  | none => simp
  | some f => cases hf : f.accepts record <;> simp [hf]

theorem check_bumps {s : Sender ρ} {record : ρ} {pass : Bool}
    (h : (s.check record).Trace trace pass) : bumps trace = s.rejections record := by
  unfold Sender.check at h
  unfold Sender.rejections
  cases hfilter : s.filter with
  | none =>
    rw [hfilter] at h
    obtain ⟨rfl, -⟩ := trace_pure.mp h
    rfl
  | some f =>
    rw [hfilter] at h
    simp only [SubscriberFilter.checkAndAccount] at h
    split at h
    · rename_i haccepts
      obtain ⟨rfl, -⟩ := trace_pure.mp h
      simp [haccepts, bumps]
    · rename_i haccepts
      simp only [trace_bind, trace_perform, trace_pure] at h
      obtain ⟨_, _, _, rfl, rfl, _, _, _, rfl, rfl, rfl, rfl⟩ := h
      simp [haccepts, bumps]

theorem check_pass {s : Sender ρ} {record : ρ} (h : (s.check record).Trace trace true) :
    trace = [] := by
  have haccepts := ((check_uses s record).of_trace h).2
  unfold Sender.check at h
  unfold Sender.accepts at haccepts
  cases hfilter : s.filter with
  | none =>
    rw [hfilter] at h
    exact (trace_pure.mp h).1
  | some f =>
    simp only [hfilter] at haccepts h
    rw [SubscriberFilter.checkAndAccount, if_pos haccepts.symm] at h
    exact (trace_pure.mp h).1

def BusOp.Mute : BusOp ρ → Prop
  | .bump _ | .isClosed _ | .send .. => False
  | _ => True

theorem BusOp.Reserves.mute {k : Nat} {op : BusOp ρ} (h : op.Reserves k) : op.Mute := by
  cases op <;> trivial

theorem BusOp.Slots.mute {op : BusOp ρ} (h : op.Slots) : op.Mute := by
  cases op <;> trivial

theorem bumps_mute (h : ∀ x ∈ trace, x.1.Mute) : bumps trace = [] := by
  refine List.filterMap_eq_nil_iff.mpr fun x hx => ?_
  have hmute := h x hx
  obtain ⟨op, answer⟩ := x
  cases op <;> first | rfl | exact hmute.elim

theorem found_mute (h : ∀ x ∈ trace, x.1.Mute) : found trace = [] := by
  refine List.filterMap_eq_nil_iff.mpr fun x hx => ?_
  have hmute := h x hx
  obtain ⟨op, answer⟩ := x
  cases op <;> first | rfl | exact hmute.elim

theorem found_bookkeeping (h : ∀ x ∈ trace, x.1.Bookkeeping) : found trace = [] := by
  refine List.filterMap_eq_nil_iff.mpr fun x hx => ?_
  have hbook := h x hx
  obtain ⟨op, answer⟩ := x
  cases op <;> first | rfl | exact hbook.elim

-- ---- The parts

theorem activeSenders_bumps {record : ρ} {selected active : List (Sender ρ)}
    (h : (activeSenders record selected).Trace trace active) :
    bumps trace = selected.flatMap (·.rejections record) := by
  induction selected generalizing trace active with
  | nil =>
    obtain ⟨rfl, -⟩ := trace_pure.mp h
    rfl
  | cons s rest ih =>
    simp only [activeSenders, trace_bind, trace_pure] at h
    obtain ⟨first, _, _, rfl, hcheck, second, _, _, rfl, hrest, rfl, -⟩ := h
    simp [check_bumps hcheck, ih hrest]

theorem matchRecords_bumps {s : Sender ρ} {records matched : List ρ}
    (h : (matchRecords s records).Trace trace matched) :
    bumps trace = records.flatMap s.rejections := by
  induction records generalizing trace matched with
  | nil =>
    obtain ⟨rfl, -⟩ := trace_pure.mp h
    rfl
  | cons record rest ih =>
    simp only [matchRecords, trace_bind, trace_pure] at h
    obtain ⟨first, _, _, rfl, hcheck, second, _, _, rfl, hrest, rfl, -⟩ := h
    simp [check_bumps hcheck, ih hrest]

theorem matchChunk_bumps {chunk : List ρ} {indexed : List (Sender ρ × Nat)}
    {subMatches : List (Nat × List ρ)} (h : (matchChunk chunk indexed).Trace trace subMatches) :
    bumps trace = (indexed.map Prod.fst).flatMap fun s => chunk.flatMap s.rejections := by
  induction indexed generalizing trace subMatches with
  | nil =>
    obtain ⟨rfl, -⟩ := trace_pure.mp h
    rfl
  | cons x rest ih =>
    obtain ⟨s, idx⟩ := x
    simp only [matchChunk, trace_bind, trace_pure] at h
    obtain ⟨first, _, _, rfl, hrecords, second, _, _, rfl, hrest, rfl, -⟩ := h
    simp [matchRecords_bumps hrecords, ih hrest]

theorem reserveEach_bumps {record : ρ} {selected : List (Sender ρ)}
    {result : List (Sender ρ) × Bool × Bool}
    (h : (reserveEach record selected).Trace trace result) :
    bumps trace = selected.flatMap (·.rejections record) ∧ found trace = [] := by
  induction selected generalizing trace result with
  | nil =>
    obtain ⟨rfl, -⟩ := trace_pure.mp h
    exact ⟨rfl, rfl⟩
  | cons s rest ih =>
    simp only [reserveEach, trace_bind] at h
    obtain ⟨first, pass, trace, rfl, hcheck, h⟩ := h
    have hfirst := found_bookkeeping ((check_uses s record).of_trace hcheck).1
    cases pass with
    | false =>
      obtain ⟨hbumps, hfound⟩ := ih h
      simp [check_bumps hcheck, hbumps, hfirst, hfound]
    | true =>
      simp only [if_true, trace_bind, trace_pure] at h
      obtain ⟨slots, _, _, rfl, hslots, second, _, _, rfl, hrest, rfl, -⟩ := h
      have hmute : ∀ x ∈ slots, x.1.Mute := fun x hx =>
        (((reserveSlots_uses 0 s.chan 1).of_trace hslots).1 x hx).mute
      obtain ⟨hbumps, hfound⟩ := ih hrest
      simp [check_bumps hcheck, bumps_mute hmute, hbumps, hfirst, found_mute hmute, hfound]

theorem liveSenders_found {senders live : List (Sender ρ)}
    (h : (liveSenders senders).Trace trace live) : bumps trace = [] ∧ found trace = live := by
  induction senders generalizing trace live with
  | nil =>
    obtain ⟨rfl, rfl⟩ := trace_pure.mp h
    exact ⟨rfl, rfl⟩
  | cons s rest ih =>
    simp only [liveSenders, trace_bind, trace_perform, trace_pure] at h
    obtain ⟨_, closed, _, rfl, rfl, second, live, _, rfl, hrest, rfl, rfl⟩ := h
    obtain ⟨hbumps, hfound⟩ := ih hrest
    rw [List.append_nil, bumps_append, found_append, hbumps, hfound]
    cases closed <;> exact ⟨rfl, rfl⟩

theorem snapshot_found {result : Nat × List (Sender ρ)} (h : snapshot.Trace trace result) :
    bumps trace = [] ∧ found trace = result.2 := by
  simp only [snapshot, trace_bind, trace_perform, trace_pure] at h
  obtain ⟨_, _, _, rfl, rfl, second, live, _, rfl, hlive, rfl, rfl⟩ := h
  obtain ⟨hbumps, hfound⟩ := liveSenders_found hlive
  rw [List.append_nil, bumps_append, found_append, hbumps, hfound]
  exact ⟨rfl, rfl⟩

-- ---- Failed calls

structure Untouched (trace : List (BusDone ρ)) : Prop where
  sent : ∀ chan, sentTo chan trace = []
  bumps : bumps trace = []
  found : found trace = []

/-- What is left of a failed publish behind the gate: nothing is sent, and the
filters of those found open have counted. -/
structure Failed (records : List ρ) (trace : List (BusDone ρ)) : Prop where
  sent : ∀ chan, sentTo chan trace = []
  bumps : bumps trace = (found trace).flatMap fun s => records.flatMap s.rejections

theorem untouched_of_mute (h : ∀ x ∈ trace, x.1.Mute) : Untouched trace := by
  refine ⟨fun chan => ?_, bumps_mute h, found_mute h⟩
  refine List.filterMap_eq_nil_iff.mpr fun x hx => ?_
  have hmute := h x hx
  obtain ⟨op, answer⟩ := x
  cases op <;> first | rfl | exact hmute.elim

theorem Untouched.failed (h : Untouched trace) (records : List ρ) : Failed records trace :=
  ⟨h.sent, by rw [h.bumps, h.found]; rfl⟩

theorem Untouched.append {first second : List (BusDone ρ)} (h : Untouched first)
    (h' : Untouched second) : Untouched (first ++ second) :=
  ⟨fun chan => by rw [sentTo_append, h.sent, h'.sent]; rfl,
    by rw [bumps_append, h.bumps, h'.bumps]; rfl, by rw [found_append, h.found, h'.found]; rfl⟩

theorem Failed.append {records : List ρ} {first second : List (BusDone ρ)}
    (h : Failed records first) (h' : Untouched second) : Failed records (first ++ second) :=
  ⟨fun chan => by rw [sentTo_append, h.sent, h'.sent]; rfl,
    by rw [bumps_append, found_append, h.bumps, h'.bumps, h'.found, List.append_nil,
      List.append_nil]⟩

theorem Untouched.append_failed {records : List ρ} {first second : List (BusDone ρ)}
    (h : Untouched first) (h' : Failed records second) : Failed records (first ++ second) :=
  ⟨fun chan => by rw [sentTo_append, h.sent, h'.sent]; rfl,
    by rw [bumps_append, found_append, h.bumps, h.found, h'.bumps]; rfl⟩

theorem single_untouched {absent : PublishResult}
    {onFull : Sender ρ → BusProg ρ (Option PublishResult)} {record : ρ}
    {result : Option PublishResult} (h : (single absent onFull record).Trace trace result)
    (hres : ∀ n, result ≠ some (.ok n))
    (hfull : ∀ s rest, (onFull s).Trace rest result → Untouched rest) : Untouched trace := by
  simp only [single, trace_bind, trace_perform] at h
  obtain ⟨_, senders, trace, rfl, rfl, h⟩ := h
  rcases senders with _ | ⟨s, _ | _⟩
  case nil | cons.cons =>
    obtain ⟨rfl, -⟩ := trace_pure.mp h
    exact ⟨fun _ => rfl, rfl, rfl⟩
  case cons.nil =>
    simp only [trace_bind] at h
    obtain ⟨first, pass, trace, rfl, hcheck, h⟩ := h
    cases pass with
    | false => exact absurd (trace_pure.mp h).2 (hres 0)
    | true =>
      obtain rfl := check_pass hcheck
      simp only [if_true, trace_bind, trace_perform] at h
      obtain ⟨_, answer, trace, rfl, rfl, h⟩ := h
      cases answer with
      | permit =>
        simp only [trace_bind, trace_perform, trace_pure] at h
        obtain ⟨_, _, _, -, -, -, heq⟩ := h
        exact absurd heq (hres 1)
      | closed =>
        simp only [trace_bind, trace_perform, trace_pure] at h
        obtain ⟨_, _, _, rfl, rfl, rfl, -⟩ := h
        exact ⟨fun _ => rfl, rfl, rfl⟩
      | full =>
        have hfirst : Untouched [(⟨.readSenders, [s]⟩ : BusDone ρ), ⟨.tryReserve 0 s.chan 1, .full⟩] :=
          ⟨fun _ => rfl, rfl, rfl⟩
        exact hfirst.append (hfull s trace h)

theorem publishSingle_untouched {record : ρ} {result : Option PublishResult}
    (h : (publishSingle record).Trace trace result) (hres : ∀ n, result ≠ some (.ok n)) :
    Untouched trace := by
  rw [publishSingle_eq] at h
  refine single_untouched h hres fun s rest h => ?_
  simp only [waitAndSend, trace_bind, trace_perform] at h
  obtain ⟨_, reserved, rest, rfl, rfl, h⟩ := h
  cases reserved with
  | true =>
    simp only [if_true, trace_bind, trace_perform, trace_pure] at h
    obtain ⟨_, _, _, -, -, -, heq⟩ := h
    exact absurd heq (hres 1)
  | false =>
    simp only [Bool.false_eq_true, if_false, trace_bind, trace_perform, trace_pure] at h
    obtain ⟨_, _, _, rfl, rfl, rfl, -⟩ := h
    exact ⟨fun _ => rfl, rfl, rfl⟩

theorem tryPublishSingle_untouched {record : ρ} {result : Option PublishResult}
    (h : (tryPublishSingle record).Trace trace result) (hres : ∀ n, result ≠ some (.ok n)) :
    Untouched trace := by
  rw [tryPublishSingle_eq] at h
  refine single_untouched h hres fun s rest h => ?_
  obtain ⟨rfl, -⟩ := trace_pure.mp h
  exact ⟨fun _ => rfl, rfl, rfl⟩

/-- The filters of `selected` have counted; nothing was sent. -/
structure Asked (records : List ρ) (selected : List (Sender ρ)) (trace : List (BusDone ρ)) :
    Prop where
  sent : ∀ chan, sentTo chan trace = []
  bumps : bumps trace = selected.flatMap fun s => records.flatMap s.rejections
  found : found trace = []

theorem Asked.append {records : List ρ} {selected : List (Sender ρ)}
    {first second : List (BusDone ρ)} (h : Asked records selected first)
    (h' : Untouched second) : Asked records selected (first ++ second) :=
  ⟨fun chan => by rw [sentTo_append, h.sent, h'.sent]; rfl,
    by rw [bumps_append, h.bumps, h'.bumps, List.append_nil],
    by rw [found_append, h.found, h'.found]; rfl⟩

theorem Untouched.append_asked {records : List ρ} {selected : List (Sender ρ)}
    {first second : List (BusDone ρ)} (h : Untouched first)
    (h' : Asked records selected second) : Asked records selected (first ++ second) :=
  ⟨fun chan => by rw [sentTo_append, h.sent, h'.sent]; rfl,
    by rw [bumps_append, h.bumps, h'.bumps]; rfl, by rw [found_append, h.found, h'.found]; rfl⟩

theorem Asked.failed {records : List ρ} {result : Nat × List (Sender ρ)}
    {looking asking : List (BusDone ρ)} (h : Asked records result.2 asking)
    (hsnapshot : snapshot.Trace looking result) : Failed records (looking ++ asking) := by
  obtain ⟨hnone, hlive⟩ := snapshot_found hsnapshot
  refine ⟨fun chan => ?_, ?_⟩
  · rw [sentTo_append, h.sent, sentTo_quiet chan (snapshot_uses.of_trace hsnapshot).1]
    rfl
  · rw [bumps_append, found_append, hnone, h.bumps, hlive, h.found, List.append_nil,
      List.nil_append]

theorem untouched_of_purge (h : ∀ x ∈ trace, x.1 = .purgeClosed) : Untouched trace := by
  refine untouched_of_mute fun x hx => ?_
  rw [h x hx]
  trivial

theorem onlyIf_purge_untouched {condition : Bool} {result : Unit}
    (h : (onlyIf condition purgeClosed).Trace trace result) : Untouched trace :=
  untouched_of_purge (onlyIf_purge h)

theorem asked_none (records : List ρ) : Asked records [] [] :=
  ⟨fun _ => rfl, rfl, rfl⟩

theorem opening_failed (absent : PublishResult) {result : PublishResult} {records : List ρ}
    (rest : List (Sender ρ) → BusProg ρ PublishResult) (h : (opening absent rest).Trace trace result)
    (hrest : ∀ {selected tail}, (rest selected).Trace tail result → Asked records selected tail) :
    Failed records trace := by
  obtain ⟨looking, registered, selected, purging, tail, rfl, hlooking, hpurging, htail⟩ :=
    opening_cases absent rest h
  refine Asked.failed ((untouched_of_purge hpurging).append_asked ?_) hlooking
  rcases htail with ⟨rfl, rfl⟩ | htail
  · exact asked_none records
  · exact hrest htail

/-- `publishAdmitted` for those found open. -/
def publishSelected (record : ρ) (selected : List (Sender ρ)) : BusProg ρ PublishResult := do
  let (permits, closed, passed) ← reserveEach record selected
  onlyIf closed purgeClosed
  if permits.isEmpty then Pure.pure (if passed then .error .closed else .ok 0)
  else
    sendEach record permits
    Pure.pure (.ok permits.length)

theorem publishSelected_asked {record : ρ} {selected : List (Sender ρ)} {error : PublishError}
    (h : (publishSelected record selected).Trace trace (.error error)) :
    Asked [record] selected trace := by
  simp only [publishSelected, trace_bind] at h
  obtain ⟨reserving, result, trace, rfl, hreserving, purging, _, trace, rfl, hpurging, h⟩ := h
  split at h
  · obtain ⟨rfl, -⟩ := trace_pure.mp h
    obtain ⟨hbumps, hfound⟩ := reserveEach_bumps hreserving
    refine Asked.append ⟨fun chan => ?_, by simpa using hbumps, hfound⟩ ?_
    · exact sentTo_quiet chan ((reserveEach_uses record selected).of_trace hreserving).1
    · rw [List.append_nil]
      exact onlyIf_purge_untouched hpurging
  · simp only [trace_bind, trace_pure] at h
    obtain ⟨_, _, _, -, -, -, heq⟩ := h
    cases heq

theorem publishAdmitted_failed {record : ρ} {error : PublishError}
    (h : (publishAdmitted record).Trace trace (.error error)) : Failed [record] trace := by
  simp only [publishAdmitted, trace_bind] at h
  obtain ⟨single, result, trace, rfl, hsingle, h⟩ := h
  cases result with
  | some result =>
    obtain ⟨rfl, rfl⟩ := trace_pure.mp h
    have huntouched := publishSingle_untouched hsingle (by simp)
    rw [List.append_nil]
    exact huntouched.failed [record]
  | none =>
    refine (publishSingle_untouched hsingle (by simp)).append_failed ?_
    exact opening_failed (.ok 0) (publishSelected record) h publishSelected_asked

/-- `tryPublishAdmitted` for those found open. -/
def tryPublishSelected (record : ρ) (selected : List (Sender ρ)) : BusProg ρ PublishResult := do
  let active ← activeSenders record selected
  if active.isEmpty then Pure.pure (.ok 0)
  else
    match ← tryReserveEach [] active with
    | none => Pure.pure (.error .full)
    | some permits =>
      if permits.isEmpty then
        purgeClosed
        Pure.pure (.error .closed)
      else
        sendEach record permits
        Pure.pure (.ok permits.length)

theorem tryPublishSelected_asked {record : ρ} {selected : List (Sender ρ)} {error : PublishError}
    (h : (tryPublishSelected record selected).Trace trace (.error error)) :
    Asked [record] selected trace := by
  simp only [tryPublishSelected, trace_bind] at h
  obtain ⟨asking, active, trace, rfl, hasking, h⟩ := h
  have hasked : Asked [record] selected asking := by
    have hbook := ((activeSenders_uses record selected).of_trace hasking).1
    refine ⟨fun chan => sentTo_quiet chan fun x hx => (hbook x hx).quiet, ?_,
      found_bookkeeping hbook⟩
    simpa using activeSenders_bumps hasking
  refine hasked.append ?_
  split at h
  · cases (trace_pure.mp h).2
  simp only [trace_bind] at h
  obtain ⟨reserving, permits, trace, rfl, hreserving, h⟩ := h
  have hslots := ((tryReserveEach_uses [] active).of_trace hreserving).1
  refine (untouched_of_mute fun x hx => (hslots x hx).mute).append ?_
  cases permits with
  | none =>
    obtain ⟨rfl, -⟩ := trace_pure.mp h
    exact ⟨fun _ => rfl, rfl, rfl⟩
  | some permits =>
    simp only at h
    split at h
    · simp only [trace_bind, trace_perform, trace_pure] at h
      obtain ⟨_, _, _, rfl, rfl, rfl, -⟩ := h
      exact ⟨fun _ => rfl, rfl, rfl⟩
    · simp only [trace_bind, trace_pure] at h
      obtain ⟨_, _, _, -, -, -, heq⟩ := h
      cases heq

theorem tryPublishAdmitted_failed {record : ρ} {error : PublishError}
    (h : (tryPublishAdmitted record).Trace trace (.error error)) : Failed [record] trace :=
  opening_failed (.error .noSubscribers) (tryPublishSelected record) h tryPublishSelected_asked

theorem onlyIf_account_untouched {condition : Bool} {n : Nat} {result : Unit}
    (h : (onlyIf condition (addUndelivered n)).Trace trace result) : Untouched trace := by
  cases condition with
  | true =>
    obtain rfl := trace_perform.mp h
    exact ⟨fun _ => rfl, rfl, rfl⟩
  | false =>
    obtain ⟨rfl, -⟩ := trace_pure.mp h
    exact ⟨fun _ => rfl, rfl, rfl⟩

theorem admitChunks_failed {chunk : List ρ} {rest : List (List ρ)} {k : Nat}
    {selected : List (Sender ρ)} {committed : Bool} {error : PublishError}
    (h : (admitChunks (chunk :: rest) k selected committed).Trace trace (.error error)) :
    Asked chunk selected trace := by
  have hcommitted : ∀ {tail selected'},
      ¬(admitChunks rest (k + 1) selected' true).Trace tail (.error error) := by
    intro tail selected' htail
    obtain ⟨n, hn⟩ := ((admitChunks_uses rest (k + 1) selected' true).of_trace htail).2 rfl
    cases hn
  simp only [admitChunks, trace_bind] at h
  obtain ⟨matching, subMatches, trace, rfl, hmatching, h⟩ := h
  have hbook := ((matchChunk_uses chunk selected.zipIdx).of_trace hmatching).1
  have hasked : Asked chunk selected matching := by
    refine ⟨fun chan => sentTo_quiet chan fun x hx => (hbook x hx).quiet, ?_,
      found_bookkeeping hbook⟩
    have hbumps := matchChunk_bumps hmatching
    rwa [List.zipIdx_map_fst] at hbumps
  refine hasked.append ?_
  split at h
  · exact absurd h hcommitted
  simp only [trace_bind] at h
  obtain ⟨reserving, result, trace, rfl, hreserving, accounting, _, trace, rfl, haccounting, h⟩ := h
  have hreserves := ((reserveChunk_uses k selected subMatches).of_trace hreserving).1
  refine (untouched_of_mute fun x hx => (hreserves x hx).mute).append ?_
  refine (onlyIf_account_untouched haccounting).append ?_
  split at h
  · simp only [trace_bind, trace_perform, trace_pure] at h
    obtain ⟨_, _, _, rfl, rfl, rfl, -⟩ := h
    exact ⟨fun _ => rfl, rfl, rfl⟩
  · simp only [trace_bind] at h
    obtain ⟨_, _, _, -, -, _, _, _, -, -, htail⟩ := h
    exact absurd htail hcommitted

theorem admitBatch_failed {records : List ρ} {error : PublishError} (hne : records ≠ [])
    (h : (admitBatch records).Trace trace (.error error)) :
    Failed (records.take admissionChunkRecords) trace := by
  refine opening_failed (.ok 0)
    (admitChunks (Lib.chunks admissionChunkRecords records) 0 · false) h fun h => ?_
  rw [Lib.chunks_eq (by decide) hne] at h
  exact admitChunks_failed h

/-- What is left of a failed call: it never held the gate and has counted nothing,
or it has counted for those it found open. -/
structure CallFailed (records : List ρ) (trace : List (BusDone ρ)) : Prop where
  sent : ∀ chan, sentTo chan trace = []
  ungated : (∀ x ∈ trace, ¬Acquires x) → bumps trace = []
  gated : (∃ x ∈ trace, Acquires x) →
    bumps trace = (found trace).flatMap fun s => records.flatMap s.rejections

theorem Untouched.callFailed (h : Untouched trace) (records : List ρ) :
    CallFailed records trace :=
  ⟨h.sent, fun _ => h.bumps, fun _ => (h.failed records).bumps⟩

theorem Failed.callFailed {records : List ρ} (h : Failed records trace)
    (hacquires : ∃ x ∈ trace, Acquires x) : CallFailed records trace :=
  ⟨h.sent, fun hnone => hacquires.elim fun x hx => absurd hx.2 (hnone x hx.1), fun _ => h.bumps⟩

theorem Untouched.append_callFailed {records : List ρ} {first second : List (BusDone ρ)}
    (h : Untouched first) (hnone : ∀ x ∈ first, ¬Acquires x) (h' : CallFailed records second) :
    CallFailed records (first ++ second) where
  sent chan := by rw [sentTo_append, h.sent, h'.sent]; rfl
  ungated hall := by
    rw [bumps_append, h.bumps, h'.ungated fun x hx => hall x (List.mem_append_right _ hx)]
    rfl
  gated := by
    rintro ⟨x, hx, hacquires⟩
    rcases List.mem_append.mp hx with hx | hx
    · exact absurd hacquires (hnone x hx)
    · rw [bumps_append, found_append, h.bumps, h.found, h'.gated ⟨x, hx, hacquires⟩]
      rfl

theorem not_acquires_of_ungated {x : BusDone ρ} (h : x.1.Ungated) : ¬Acquires x := by
  obtain ⟨op, answer⟩ := x
  cases op <;> first | exact id | exact h.elim

theorem admission_acquires {result : Unit} (h : admission.Trace trace result) :
    Untouched trace ∧ ∃ x ∈ trace, Acquires x := by
  simp only [admission, trace_bind, trace_perform] at h
  obtain ⟨_, locked, trace, rfl, rfl, h⟩ := h
  cases locked with
  | true =>
    obtain ⟨rfl, -⟩ := trace_pure.mp h
    exact ⟨⟨fun _ => rfl, rfl, rfl⟩, ⟨.tryLockGate, true⟩, by simp, trivial⟩
  | false =>
    obtain rfl := trace_perform.mp h
    exact ⟨⟨fun _ => rfl, rfl, rfl⟩, ⟨.lockGate, ()⟩, by simp, trivial⟩

theorem publishGated_failed {record : ρ} {error : PublishError}
    (h : (publishGated record).Trace trace (.error error)) : CallFailed [record] trace := by
  simp only [publishGated, trace_bind, trace_perform, trace_pure] at h
  obtain ⟨entering, _, _, rfl, hentering, admitted, _, _, rfl, hadmitted, _, _, _, rfl, rfl, rfl,
    rfl⟩ := h
  obtain ⟨huntouched, x, hx, hacquires⟩ := admission_acquires hentering
  have hunlock : Untouched ([⟨.unlockGate, ()⟩] ++ [] : List (BusDone ρ)) := ⟨fun _ => rfl, rfl, rfl⟩
  have hfailed := (publishAdmitted_failed hadmitted).append hunlock
  exact (huntouched.append_failed hfailed).callFailed ⟨x, List.mem_append_left _ hx, hacquires⟩

theorem ungatedFirst_failed {direct : BusProg ρ (Option PublishResult)}
    {gated : BusProg ρ PublishResult} {records : List ρ} {error : PublishError}
    (h : (ungatedFirst direct gated).Trace trace (.error error))
    (huses : direct.Uses BusOp.Ungated fun _ => True)
    (hdirect : ∀ trace result, direct.Trace trace result → (∀ n, result ≠ some (.ok n)) →
      Untouched trace)
    (hgated : ∀ trace, gated.Trace trace (.error error) → CallFailed records trace) :
    CallFailed records trace := by
  simp only [ungatedFirst, trace_bind, trace_perform] at h
  obtain ⟨_, flag, trace, rfl, rfl, h⟩ := h
  refine Untouched.append_callFailed ⟨fun _ => rfl, rfl, rfl⟩ (by simp [Acquires]) ?_
  cases flag with
  | true => exact hgated _ h
  | false =>
    simp only [Bool.false_eq_true, if_false, trace_bind] at h
    obtain ⟨first, result, trace, rfl, hfirst, h⟩ := h
    have hungated := (huses.of_trace hfirst).1
    cases result with
    | some result =>
      obtain ⟨rfl, rfl⟩ := trace_pure.mp h
      rw [List.append_nil]
      exact (hdirect _ _ hfirst (by simp)).callFailed records
    | none =>
      exact (hdirect _ _ hfirst (by simp)).append_callFailed
        (fun x hx => not_acquires_of_ungated (hungated x hx)) (hgated _ h)

theorem tryPublishGated_failed {record : ρ} {error : PublishError}
    (h : (tryPublishGated record).Trace trace (.error error)) : CallFailed [record] trace := by
  simp only [tryPublishGated, trace_bind, trace_perform] at h
  obtain ⟨_, locked, trace, rfl, rfl, h⟩ := h
  cases locked with
  | true =>
    simp only [if_true, trace_bind, trace_perform, trace_pure] at h
    obtain ⟨admitted, _, _, rfl, hadmitted, _, _, _, rfl, rfl, rfl, rfl⟩ := h
    have hunlock : Untouched ([⟨.unlockGate, ()⟩] ++ [] : List (BusDone ρ)) :=
      ⟨fun _ => rfl, rfl, rfl⟩
    have hfailed := (tryPublishAdmitted_failed hadmitted).append hunlock
    have hfirst : Untouched [(⟨.tryLockGate, true⟩ : BusDone ρ)] := ⟨fun _ => rfl, rfl, rfl⟩
    exact (hfirst.append_failed hfailed).callFailed ⟨⟨.tryLockGate, true⟩, by simp, trivial⟩
  | false =>
    simp only [Bool.false_eq_true, if_false, trace_bind, trace_pure] at h
    obtain ⟨looking, _, _, rfl, hlooking, rfl, -⟩ := h
    have hquiet := (snapshot_uses.of_trace hlooking).1
    refine Untouched.append_callFailed ⟨fun _ => rfl, rfl, rfl⟩ (by simp [Acquires]) ?_
    rw [List.append_nil]
    refine ⟨fun chan => sentTo_quiet chan hquiet, fun _ => (snapshot_found hlooking).1, ?_⟩
    rintro ⟨x, hx, hacquires⟩
    exact absurd hacquires (not_acquires_of_ungated (hquiet x hx).ungated)

theorem publishBatchTopic_failed {records : List ρ} {error : PublishError}
    (h : (publishBatchTopic records).Trace trace (.error error)) :
    CallFailed (records.take admissionChunkRecords) trace := by
  unfold publishBatchTopic at h
  split at h
  · cases (trace_pure.mp h).2
  rename_i hne
  simp only [trace_bind, trace_perform, trace_pure] at h
  obtain ⟨entering, _, _, rfl, hentering, _, _, _, rfl, rfl, admitting, _, _, rfl, hadmitting, _, _,
    _, rfl, rfl, _, _, _, rfl, rfl, rfl, rfl⟩ := h
  obtain ⟨huntouched, x, hx, hacquires⟩ := admission_acquires hentering
  have hlast : Untouched ([⟨.storeBatchActive false, ()⟩] ++ ([⟨.unlockGate, ()⟩] ++ []) :
      List (BusDone ρ)) := ⟨fun _ => rfl, rfl, rfl⟩
  have hfailed := (admitBatch_failed (by simpa using hne) hadmitting).append hlast
  have hstore : Untouched [(⟨.storeBatchActive true, ()⟩ : BusDone ρ)] := ⟨fun _ => rfl, rfl, rfl⟩
  exact (huntouched.append_failed (hstore.append_failed hfailed)).callFailed
    ⟨x, List.mem_append_left _ hx, hacquires⟩

theorem call_failed {call : Call ρ} {error : PublishError}
    (h : call.program.Trace trace (.error error)) :
    CallFailed (call.records.take admissionChunkRecords) trace := by
  cases call with
  | publishAsync record =>
    exact ungatedFirst_failed h (publishSingle_uses record) (fun _ _ => publishSingle_untouched)
      fun _ => publishGated_failed
  | tryPublish record =>
    exact ungatedFirst_failed h (tryPublishSingle_uses record)
      (fun _ _ => tryPublishSingle_untouched) fun _ => tryPublishGated_failed
  | publishBatch records => exact publishBatchTopic_failed h

end Rekuiper.Bus
