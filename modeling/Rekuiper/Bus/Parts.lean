import Rekuiper.Bus.Publish

/-!
# What the parts of a publish do

For each part of the publish functions: the operations it performs, whatever the
answers, and its result as far as it does not depend on them.
-/

namespace Rekuiper.Bus

open Lib (Prog)
open Lib.Prog

variable {ρ : Type}

def BusOp.Bookkeeping : BusOp ρ → Prop
  | .bump _ | .purgeClosed | .addUndelivered _ => True
  | _ => False

def BusOp.Quiet : BusOp ρ → Prop
  | .loadBatchActive | .send .. | .storeBatchActive _ | .tryLockGate | .lockGate | .unlockGate => False
  | _ => True

def BusOp.Ungated : BusOp ρ → Prop
  | .loadBatchActive | .storeBatchActive _ | .tryLockGate | .lockGate | .unlockGate => False
  | _ => True

/-- The operation reserves slots for chunk `k`. -/
def BusOp.Reserves (k : Nat) : BusOp ρ → Prop
  | .tryReserve chunk .. | .reserve chunk .. => chunk = k
  | _ => False

def BusOp.Slots : BusOp ρ → Prop
  | .tryReserve .. | .reserve .. | .release .. => True
  | _ => False

def BusOp.destination : BusOp ρ → Option Nat
  | .send chan _ => some chan
  | _ => none

theorem BusOp.Bookkeeping.quiet {op : BusOp ρ} (h : op.Bookkeeping) : op.Quiet := by
  cases op <;> trivial

theorem BusOp.Bookkeeping.not_reserves {k : Nat} {op : BusOp ρ}
    (h : op.Bookkeeping) : ¬op.Reserves k := by
  cases op <;> first | exact id | exact h.elim

theorem BusOp.Reserves.eq_of_reserves {k j : Nat} {op : BusOp ρ} (h : op.Reserves k)
    (hj : op.Reserves j) : j = k := by
  cases op <;> first | exact h.elim | exact hj.symm.trans h

theorem BusOp.Reserves.quiet {k : Nat} {op : BusOp ρ} (h : op.Reserves k) : op.Quiet := by
  cases op <;> trivial

theorem BusOp.Slots.quiet {op : BusOp ρ} (h : op.Slots) : op.Quiet := by
  cases op <;> trivial

theorem BusOp.Quiet.ungated {op : BusOp ρ} (h : op.Quiet) : op.Ungated := by
  cases op <;> trivial

-- ---- What operations change

theorem setChan_keeps {α : Type} (g : Channel ρ → α) (topic : Topic ρ) (chan : Nat)
    {f : Channel ρ → Channel ρ} (hf : ∀ ch, g (f ch) = g ch) (c : Nat) :
    g ((topic.setChan chan f).chans c) = g (topic.chans c) := by
  by_cases hc : c = chan
  · subst hc
    simp [Topic.setChan, hf]
  · simp [Topic.setChan, Function.update_of_ne hc]

theorem exec_reserves {topic topic' : Topic ρ} {u k : Nat} {op : BusOp ρ} {answer : op.Answer}
    (hexec : topic.exec u op = some (answer, topic')) (hop : op.Reserves k) :
    topic' = topic ∨ ∃ chan n, topic' = topic.grant chan n := by
  cases op with
  | tryReserve k chan n =>
    simp only [Topic.exec] at hexec
    split at hexec
    · cases hexec
      exact .inl rfl
    split at hexec
    · cases hexec
      exact .inl rfl
    split at hexec
    · cases hexec
      exact .inr ⟨chan, n, rfl⟩
    · cases hexec
      exact .inl rfl
  | reserve k chan n =>
    simp only [Topic.exec] at hexec
    split at hexec
    · cases hexec
      exact .inl rfl
    split at hexec
    · cases hexec
      exact .inr ⟨chan, n, rfl⟩
    · cases hexec
  | _ => exact hop.elim

theorem exec_quiet {topic topic' : Topic ρ} {u : Nat} {op : BusOp ρ} {answer : op.Answer}
    (hop : op.Quiet) (hexec : topic.exec u op = some (answer, topic')) :
    topic'.gate = topic.gate ∧ topic'.batchActive = topic.batchActive ∧
      ∀ chan, (topic'.chans chan).sent = (topic.chans chan).sent := by
  cases op with
  | loadBatchActive | send | storeBatchActive | tryLockGate | lockGate | unlockGate =>
    exact hop.elim
  | readSenders | purgeClosed | isClosed | bump | addUndelivered =>
    cases hexec
    exact ⟨rfl, rfl, fun _ => rfl⟩
  | release chan n =>
    cases hexec
    exact ⟨rfl, rfl, setChan_keeps Channel.sent topic chan fun _ => by rfl⟩
  | tryReserve | reserve =>
    rcases exec_reserves hexec rfl with rfl | ⟨chan, n, rfl⟩
    · exact ⟨rfl, rfl, fun _ => rfl⟩
    · exact ⟨rfl, rfl, setChan_keeps Channel.sent topic chan fun _ => by rfl⟩

theorem exec_sent {topic topic' : Topic ρ} {u : Nat} {op : BusOp ρ} {answer : op.Answer}
    (hexec : topic.exec u op = some (answer, topic')) (c : Nat) :
    (topic'.chans c).sent = (topic.chans c).sent ++
      match op with
      | .send chan record => if chan = c then [(u, record)] else []
      | _ => [] := by
  cases op with
  | send chan record =>
    cases hexec
    by_cases hc : chan = c
    · subst hc
      simp [Topic.setChan]
    · simp [Topic.setChan, Function.update_of_ne (Ne.symm hc), hc]
  | loadBatchActive | storeBatchActive | unlockGate =>
    cases hexec
    simp
  | tryLockGate | lockGate =>
    simp only [Topic.exec] at hexec
    split at hexec <;> cases hexec <;> simp
  | _ => rw [List.append_nil, (exec_quiet (by trivial) hexec).2.2 c]

theorem exec_closed {topic topic' : Topic ρ} {u : Nat} {op : BusOp ρ} {answer : op.Answer}
    (hexec : topic.exec u op = some (answer, topic')) (c : Nat) :
    (topic'.chans c).closed = (topic.chans c).closed := by
  cases op with
  | loadBatchActive | storeBatchActive | readSenders | purgeClosed | isClosed | bump | unlockGate
  | addUndelivered =>
    cases hexec
    rfl
  | tryReserve | reserve =>
    rcases exec_reserves hexec rfl with rfl | ⟨chan, n, rfl⟩
    · rfl
    · exact setChan_keeps Channel.closed topic chan (fun _ => by rfl) c
  | release chan | send chan =>
    cases hexec
    exact setChan_keeps Channel.closed topic chan (fun _ => by rfl) c
  | tryLockGate | lockGate =>
    simp only [Topic.exec] at hexec
    split at hexec <;> cases hexec <;> rfl

theorem exec_counters {topic topic' : Topic ρ} {u : Nat} {op : BusOp ρ} {answer : op.Answer}
    (hexec : topic.exec u op = some (answer, topic')) (c : Nat) :
    topic'.counters c = topic.counters c +
      match op with
      | .bump counter => if counter = c then 1 else 0
      | _ => 0 := by
  cases op with
  | bump counter =>
    cases hexec
    by_cases hc : counter = c
    · subst hc
      simp
    · simp [Function.update_of_ne (Ne.symm hc), hc]
  | tryReserve | reserve =>
    rcases exec_reserves hexec rfl with rfl | ⟨chan, n, rfl⟩ <;> rfl
  | tryLockGate | lockGate =>
    simp only [Topic.exec] at hexec
    split at hexec <;> cases hexec <;> rfl
  | _ =>
    cases hexec
    rfl

theorem react_closed (topic : Topic ρ) (e : BusEnv ρ) (c : Nat)
    (h : (topic.chans c).closed = true) : ((topic.react e).chans c).closed = true := by
  cases e with
  | receive chan =>
    rw [Topic.react]
    exact (setChan_keeps Channel.closed topic chan (fun _ => by rfl) c).trans h
  | close chan =>
    by_cases hc : c = chan
    · subst hc
      simp [Topic.react, Topic.setChan]
    · simpa [Topic.react, Topic.setChan, Function.update_of_ne hc] using h
  | subscribe filter => exact h

theorem react_sent (topic : Topic ρ) (e : BusEnv ρ) (c : Nat) :
    ((topic.react e).chans c).sent = (topic.chans c).sent := by
  cases e with
  | receive chan =>
    rw [Topic.react]
    exact setChan_keeps Channel.sent topic chan (fun _ => by rfl) c
  | close chan =>
    rw [Topic.react]
    exact setChan_keeps Channel.sent topic chan (fun _ => by rfl) c
  | subscribe filter => rfl

-- ---- Filters

theorem onlyIf_uses {S : BusOp ρ → Prop} (condition : Bool) {p : BusProg ρ Unit}
    (h : p.Uses S fun _ => True) : (onlyIf condition p).Uses S fun _ => True := by
  cases condition with
  | true => exact h
  | false => exact uses_pure trivial

theorem check_uses_of {S : BusOp ρ → Prop} (hS : ∀ counter, S (.bump counter)) (s : Sender ρ)
    (record : ρ) : (s.check record).Uses S (· = s.accepts record) := by
  unfold Sender.check Sender.accepts
  cases s.filter with
  | none => exact rfl
  | some f =>
    simp only [SubscriberFilter.checkAndAccount]
    split
    · rename_i h
      exact h.symm
    · rename_i h
      exact uses_perform (hS _) fun _ => uses_perform (hS _) fun _ => uses_pure (by simpa using h)

theorem check_uses (s : Sender ρ) (record : ρ) :
    (s.check record).Uses BusOp.Bookkeeping (· = s.accepts record) :=
  check_uses_of (fun _ => trivial) s record

theorem matchRecords_uses_of {S : BusOp ρ → Prop} (hS : ∀ counter, S (.bump counter))
    (s : Sender ρ) (records : List ρ) :
    (matchRecords s records).Uses S (· = records.filter s.accepts) := by
  induction records with
  | nil => exact rfl
  | cons record rest ih =>
    refine (check_uses_of hS s record).bind fun keep hkeep => ih.bind fun matched hmatched => ?_
    subst hkeep hmatched
    exact uses_pure (by rw [List.filter_cons])

def targets (chunk : List ρ) (selected : List (Sender ρ)) : List (Sender ρ × List ρ) :=
  selected.filterMap fun s =>
    if (chunk.filter s.accepts).isEmpty then none else some (s, chunk.filter s.accepts)

/-- `targets` as `sub_matches` holds them: by index. -/
def indexedTargets (chunk : List ρ) (indexed : List (Sender ρ × Nat)) : List (Nat × List ρ) :=
  indexed.filterMap fun x =>
    if (chunk.filter x.1.accepts).isEmpty then none else some (x.2, chunk.filter x.1.accepts)

theorem matchChunk_uses_of {S : BusOp ρ → Prop} (hS : ∀ counter, S (.bump counter))
    (chunk : List ρ) (indexed : List (Sender ρ × Nat)) :
    (matchChunk chunk indexed).Uses S (· = indexedTargets chunk indexed) := by
  induction indexed with
  | nil => exact rfl
  | cons x rest ih =>
    obtain ⟨s, idx⟩ := x
    refine (matchRecords_uses_of hS s chunk).bind fun matched hmatched =>
      ih.bind fun others hothers => ?_
    subst hmatched hothers
    refine uses_pure ?_
    simp only [indexedTargets, List.filterMap_cons]
    cases (chunk.filter s.accepts).isEmpty <;> rfl

theorem matchChunk_uses (chunk : List ρ) (indexed : List (Sender ρ × Nat)) :
    (matchChunk chunk indexed).Uses BusOp.Bookkeeping (· = indexedTargets chunk indexed) :=
  matchChunk_uses_of (fun _ => trivial) chunk indexed

theorem filterMap_indexedTargets (chunk : List ρ) (selected : List (Sender ρ)) :
    (indexedTargets chunk selected.zipIdx).filterMap
        (fun x => selected[x.1]?.map fun s => (s, x.2)) =
      targets chunk selected := by
  have hmem : ∀ x ∈ selected.zipIdx, selected[x.2]? = some x.1 := fun x hx =>
    List.mem_zipIdx_iff_getElem?.mp hx
  unfold indexedTargets targets
  rw [List.filterMap_filterMap]
  conv_rhs => rw [← List.zipIdx_map_fst 0 selected, List.filterMap_map]
  refine List.filterMap_congr fun x hx => ?_
  simp only [Function.comp_apply]
  split
  · rfl
  · simp [hmem x hx]

theorem mem_targets {chunk : List ρ} {selected : List (Sender ρ)} {x : Sender ρ × List ρ} :
    x ∈ targets chunk selected ↔
      x.1 ∈ selected ∧ x.2 = chunk.filter x.1.accepts ∧ x.2 ≠ [] := by
  obtain ⟨s, matched⟩ := x
  simp only [targets, List.mem_filterMap, Option.ite_none_left_eq_some, Option.some.injEq,
    Prod.mk.injEq, List.isEmpty_iff]
  constructor
  · rintro ⟨s', hs', hne, rfl, rfl⟩
    exact ⟨hs', rfl, hne⟩
  · rintro ⟨hs, rfl, hne⟩
    exact ⟨s, hs, hne, rfl, rfl⟩

theorem map_fst_targets_sublist (chunk : List ρ) (selected : List (Sender ρ)) :
    ((targets chunk selected).map Prod.fst).Sublist selected := by
  induction selected with
  | nil => exact .slnil
  | cons s rest ih =>
    simp only [targets, List.filterMap_cons]
    cases (chunk.filter s.accepts).isEmpty with
    | true => exact ih.cons s
    | false => exact ih.cons_cons s

theorem nodup_permits {chunk : List ρ} {selected : List (Sender ρ)}
    {permits : List (Sender ρ × List ρ)} (hnodup : (selected.map Sender.chan).Nodup)
    (hpermits : permits.Sublist (targets chunk selected)) :
    (permits.map (·.1.chan)).Nodup := by
  have hfst := (hpermits.map Prod.fst).trans (map_fst_targets_sublist chunk selected)
  exact hnodup.sublist (by simpa [Function.comp_def] using hfst.map Sender.chan)

-- ---- Reservations

theorem reserveSlots_uses (k chan n : Nat) :
    (reserveSlots k chan n : BusProg ρ Bool).Uses (BusOp.Reserves k) fun _ => True := by
  refine uses_perform rfl fun answer => ?_
  cases answer with
  | permit | closed => exact uses_pure trivial
  | full => exact uses_op rfl

theorem reserveChunk_uses (k : Nat) (selected : List (Sender ρ))
    (subMatches : List (Nat × List ρ)) :
    (reserveChunk k selected subMatches).Uses (BusOp.Reserves k) fun result =>
      result.1.Sublist (subMatches.filterMap fun x => selected[x.1]?.map fun s => (s, x.2)) := by
  induction subMatches with
  | nil => exact uses_pure .slnil
  | cons x rest ih =>
    obtain ⟨idx, matched⟩ := x
    simp only [reserveChunk, List.filterMap_cons]
    cases selected[idx]? with
    | none => exact ih
    | some s =>
      refine (reserveSlots_uses k s.chan matched.length).bind fun reserved _ =>
        ih.bind fun result hresult => uses_pure ?_
      cases reserved with
      | true => exact hresult.cons_cons (s, matched)
      | false => exact hresult.cons (s, matched)

theorem removeIndices_sublist (closed : List Nat) (selected : List (Sender ρ)) :
    (removeIndices closed selected).Sublist selected := by
  induction closed with
  | nil => exact List.Sublist.refl _
  | cons idx rest ih => exact (List.eraseIdx_sublist _ idx).trans ih

theorem sendChunk_uses (permits : List (Sender ρ × List ρ)) :
    (sendChunk permits).Uses (fun op => ∃ chan record, op = .send chan record) fun _ => True := by
  have hrecords : ∀ (s : Sender ρ) (matched : List ρ), (sendRecords s matched).Uses
      (fun op => ∃ chan record, op = .send chan record) fun _ => True := by
    intro s matched
    induction matched with
    | nil => exact uses_pure trivial
    | cons record rest ih => exact uses_perform ⟨_, _, rfl⟩ fun _ => ih
  induction permits with
  | nil => exact uses_pure trivial
  | cons x rest ih => exact (hrecords x.1 x.2).bind fun _ _ => ih

/-- What the admission loop does from chunk `k` on. -/
def BusOp.Admits (k : Nat) : BusOp ρ → Prop
  | .bump _ | .purgeClosed | .addUndelivered _ | .send .. => True
  | .tryReserve chunk .. | .reserve chunk .. => k ≤ chunk
  | _ => False

theorem BusOp.Bookkeeping.admits {k : Nat} {op : BusOp ρ} (h : op.Bookkeeping) : op.Admits k := by
  cases op <;> trivial

theorem BusOp.Reserves.admits {k : Nat} {op : BusOp ρ} (h : op.Reserves k) : op.Admits k := by
  cases op <;> first | exact h.elim | exact Nat.le_of_eq h.symm

theorem BusOp.Reserves.le_of_admits {k j : Nat} {op : BusOp ρ} (h : op.Reserves j)
    (hadmits : op.Admits k) : k ≤ j := by
  cases op <;> first | exact h.elim | exact Nat.le_trans hadmits (Nat.le_of_eq h)

theorem admitChunks_uses (chunks : List (List ρ)) (k : Nat) (selected : List (Sender ρ))
    (committed : Bool) :
    (admitChunks chunks k selected committed).Uses (BusOp.Admits k) fun result =>
      committed = true → ∃ n, result = .ok n := by
  induction chunks generalizing k selected committed with
  | nil => exact uses_pure fun _ => ⟨_, rfl⟩
  | cons chunk rest ih =>
    have hrest : ∀ selected', (admitChunks rest (k + 1) selected' true).Uses (BusOp.Admits k)
        fun result => committed = true → ∃ n, result = .ok n := by
      intro selected'
      refine (ih (k + 1) selected' true).mono (fun op hop => ?_) fun _ h _ => h rfl
      cases op <;> first | exact hop | exact Nat.le_of_succ_le hop
    refine ((matchChunk_uses chunk selected.zipIdx).mono (fun _ h => h.admits) fun _ h => h).bind
      fun subMatches _ => ?_
    refine Uses.ite (fun _ => hrest _) fun _ => ?_
    refine ((reserveChunk_uses k selected subMatches).mono (fun _ h => h.admits) fun _ h => h).bind
      fun result _ => ?_
    refine (onlyIf_uses _ (uses_op trivial)).bind fun _ _ => ?_
    refine Uses.ite (fun _ => uses_perform trivial fun _ => uses_pure ?_) fun _ => ?_
    · rintro rfl
      exact ⟨0, rfl⟩
    refine ((sendChunk_uses result.1).mono ?_ fun _ h => h).bind fun _ _ => ?_
    · rintro _ ⟨chan, record, rfl⟩
      trivial
    · exact (onlyIf_uses _ (uses_op trivial)).bind fun _ _ => hrest _

-- ---- Single records

theorem liveSenders_uses (senders : List (Sender ρ)) :
    (liveSenders senders).Uses (fun op => ∃ s, op = .isClosed s) (·.Sublist senders) := by
  induction senders with
  | nil => exact uses_pure .slnil
  | cons s rest ih =>
    refine uses_perform ⟨s, rfl⟩ fun closed => ih.bind fun live hlive => uses_pure ?_
    cases closed with
    | true => exact hlive.cons s
    | false => exact hlive.cons_cons s

/-- The path for at most one subscriber, given the answer without one and what is done when its
queue is full. -/
def single (absent : PublishResult) (onFull : Sender ρ → BusProg ρ (Option PublishResult))
    (record : ρ) : BusProg ρ (Option PublishResult) := do
  match ← readSenders with
  | [] => return some absent
  | [s] =>
    if ← s.check record then
      match ← tryReserve 0 s.chan 1 with
      | .permit =>
        send s.chan record
        return some (.ok 1)
      | .closed =>
        purgeClosed
        return some (.error .closed)
      | .full => onFull s
    else return some (.ok 0)
  | _ => return none

def waitAndSend (record : ρ) (s : Sender ρ) : BusProg ρ (Option PublishResult) := do
  if ← reserve 0 s.chan 1 then
    send s.chan record
    return some (.ok 1)
  else
    purgeClosed
    return some (.error .closed)

theorem publishSingle_eq (record : ρ) :
    publishSingle record = single (.ok 0) (waitAndSend record) record := rfl

theorem tryPublishSingle_eq (record : ρ) : tryPublishSingle record =
    single (.error .noSubscribers) (fun _ => return some (.error .full)) record := rfl

theorem single_uses {absent : PublishResult}
    {onFull : Sender ρ → BusProg ρ (Option PublishResult)} (record : ρ)
    (hfull : ∀ s, (onFull s).Uses BusOp.Ungated fun _ => True) :
    (single absent onFull record).Uses BusOp.Ungated fun _ => True := by
  refine uses_perform trivial fun senders => ?_
  match senders with
  | [] => exact uses_pure trivial
  | [s] =>
    refine ((check_uses s record).mono (fun _ h => h.quiet.ungated) fun _ _ => trivial).bind
      fun pass _ => ?_
    cases pass with
    | false => exact uses_pure trivial
    | true =>
      refine uses_perform trivial fun answer => ?_
      cases answer with
      | permit => exact uses_perform trivial fun _ => uses_pure trivial
      | closed => exact uses_perform trivial fun _ => uses_pure trivial
      | full => exact hfull s
  | _ :: _ :: _ => exact uses_pure trivial

theorem waitAndSend_uses {Q : BusOp ρ → Prop} {record : ρ} {s : Sender ρ}
    (hreserve : Q (.reserve 0 s.chan 1)) (hsend : Q (.send s.chan record)) (hpurge : Q .purgeClosed) :
    (waitAndSend record s).Uses Q fun _ => True := by
  refine uses_perform hreserve fun reserved => ?_
  cases reserved with
  | false => exact uses_perform hpurge fun _ => uses_pure trivial
  | true => exact uses_perform hsend fun _ => uses_pure trivial

theorem publishSingle_uses (record : ρ) :
    (publishSingle record).Uses BusOp.Ungated fun _ => True :=
  single_uses record fun _ => waitAndSend_uses trivial trivial trivial

theorem tryPublishSingle_uses (record : ρ) :
    (tryPublishSingle record).Uses BusOp.Ungated fun _ => True :=
  single_uses record fun _ => uses_pure trivial

/-- A publish that takes the gate only while a batch is active, or if `direct` gives no result. -/
def ungatedFirst (direct : BusProg ρ (Option PublishResult)) (gated : BusProg ρ PublishResult) :
    BusProg ρ PublishResult := do
  if ← loadBatchActive then gated
  else
    match ← direct with
    | some result => return result
    | none => gated

theorem liveSenders_quiet (senders : List (Sender ρ)) :
    (liveSenders senders).Uses BusOp.Quiet (·.Sublist senders) := by
  refine (liveSenders_uses senders).mono ?_ fun _ h => h
  rintro _ ⟨s, rfl⟩
  trivial

theorem snapshot_uses : (snapshot : BusProg ρ _).Uses BusOp.Quiet fun _ => True :=
  uses_perform trivial fun senders =>
    (liveSenders_quiet senders).bind fun _ _ => uses_pure trivial

theorem admission_uses :
    (admission : BusProg ρ Unit).Uses (fun op => op = .tryLockGate ∨ op = .lockGate)
      fun _ => True := by
  refine uses_perform (.inl rfl) fun locked => ?_
  cases locked with
  | true => exact uses_pure trivial
  | false => exact ⟨.inr rfl, fun _ => trivial⟩

theorem reserveEach_uses (record : ρ) (selected : List (Sender ρ)) :
    (reserveEach record selected).Uses BusOp.Quiet fun _ => True := by
  induction selected with
  | nil => exact uses_pure trivial
  | cons s rest ih =>
    refine ((check_uses s record).mono (fun _ h => h.quiet) fun _ h => h).bind fun pass _ => ?_
    cases pass with
    | false => exact ih
    | true =>
      exact ((reserveSlots_uses 0 s.chan 1).mono (fun _ h => h.quiet) fun _ h => h).bind
        fun _ _ => ih.bind fun _ _ => uses_pure trivial

theorem sendEach_uses (record : ρ) (permits : List (Sender ρ)) :
    (sendEach record permits).Uses BusOp.Ungated fun _ => True := by
  induction permits with
  | nil => exact uses_pure trivial
  | cons s rest ih => exact uses_perform trivial fun _ => ih

theorem publishAdmitted_uses (record : ρ) :
    (publishAdmitted record).Uses BusOp.Ungated fun _ => True := by
  refine (publishSingle_uses record).bind fun result _ => ?_
  cases result with
  | some result => exact uses_pure trivial
  | none =>
    refine (snapshot_uses.mono (fun _ h => h.ungated) fun _ h => h).bind fun result _ => ?_
    refine Uses.ite (fun _ => uses_pure trivial) fun _ => ?_
    refine (onlyIf_uses _ (uses_op trivial)).bind fun _ _ => ?_
    refine Uses.ite (fun _ => uses_pure trivial) fun _ => ?_
    refine ((reserveEach_uses record result.2).mono (fun _ h => h.ungated) fun _ h => h).bind
      fun result _ => ?_
    refine (onlyIf_uses _ (uses_op trivial)).bind fun _ _ => ?_
    refine Uses.ite (fun _ => uses_pure trivial) fun _ => ?_
    exact (sendEach_uses record _).bind fun _ _ => uses_pure trivial

theorem activeSenders_uses (record : ρ) (selected : List (Sender ρ)) :
    (activeSenders record selected).Uses BusOp.Bookkeeping (· = selected.filter (·.accepts record)) := by
  induction selected with
  | nil => exact rfl
  | cons s rest ih =>
    refine (check_uses s record).bind fun pass hpass => ih.bind fun active hactive => ?_
    subst hpass hactive
    exact uses_pure (by rw [List.filter_cons])

theorem releaseEach_uses (permits : List (Sender ρ)) :
    (releaseEach permits).Uses BusOp.Slots fun _ => True := by
  induction permits with
  | nil => exact uses_pure trivial
  | cons s rest ih => exact uses_perform trivial fun _ => ih

theorem tryReserveEach_uses (permits active : List (Sender ρ)) :
    (tryReserveEach permits active).Uses BusOp.Slots fun _ => True := by
  induction active generalizing permits with
  | nil => exact uses_pure trivial
  | cons s rest ih =>
    refine uses_perform trivial fun answer => ?_
    cases answer with
    | permit => exact ih _
    | closed => exact ih _
    | full => exact (releaseEach_uses permits).bind fun _ _ => uses_pure trivial

theorem tryPublishAdmitted_uses (record : ρ) :
    (tryPublishAdmitted record).Uses BusOp.Ungated fun _ => True := by
  refine (snapshot_uses.mono (fun _ h => h.ungated) fun _ h => h).bind fun result _ => ?_
  refine Uses.ite (fun _ => uses_pure trivial) fun _ => ?_
  refine (onlyIf_uses _ (uses_op trivial)).bind fun _ _ => ?_
  refine Uses.ite (fun _ => uses_pure trivial) fun _ => ?_
  refine ((activeSenders_uses record result.2).mono (fun _ h => h.quiet.ungated) fun _ h => h).bind
    fun active _ => ?_
  refine Uses.ite (fun _ => uses_pure trivial) fun _ => ?_
  refine ((tryReserveEach_uses [] active).mono (fun _ h => h.quiet.ungated) fun _ h => h).bind
    fun permits _ => ?_
  cases permits with
  | none => exact uses_pure trivial
  | some permits =>
    refine Uses.ite (fun _ => uses_perform trivial fun _ => uses_pure trivial) fun _ => ?_
    exact (sendEach_uses record _).bind fun _ _ => uses_pure trivial

end Rekuiper.Bus
