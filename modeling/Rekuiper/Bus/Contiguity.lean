import Rekuiper.Bus.Parts

/-!
# Batches stay contiguous

The admission gate keeps two batches apart, and single records that take it out of
them. A single record that goes past the gate is kept out of a batch only by the
batch flag, which it loads before it reserves and sends. Where no record whose call
loaded the flag before a batch set it is sent into that batch, the records of every
batch stand together in every queue.
-/

namespace Rekuiper.Bus

open Lib (Prog Protocol)
open Lib.Prog

variable {ρ : Type}

-- ---- The phases of a call

/-- Where a call stands. A single publish is `free`, `fast` once it has loaded the
batch flag as not set, or `holding` the gate. A batch is `waiting` for the gate,
`admitted`, `active` once the flag is set, with what it has sent to each queue,
`leaving` when the flag is cleared, and `finished`. -/
inductive Phase (ρ : Type)
  | free
  | fast
  | holding
  | waiting
  | admitted
  | active (sent : Nat → List ρ)
  | leaving
  | finished

namespace Phase

def holds : Phase ρ → Bool
  | .holding | .admitted | .active _ | .leaving => true
  | .free | .fast | .waiting | .finished => false

def isBatch : Phase ρ → Bool
  | .free | .fast | .holding => false
  | .waiting | .admitted | .active _ | .leaving | .finished => true

/-- What a call may do for a batch of `records`: what it sends to one queue are
records of the batch, in order. -/
def allows (records : List ρ) : Phase ρ → BusOp ρ → Prop
  | .fast, .send .. | .holding, .send .. => True
  | .active sent, .send chan record => (sent chan ++ [record]).Sublist records
  | _, .send .. => False
  | .admitted, .storeBatchActive flag => flag = true
  | .active _, .storeBatchActive flag => flag = false
  | _, .storeBatchActive _ => False
  | .free, .loadBatchActive => True
  | _, .loadBatchActive => False
  | .free, .tryLockGate | .free, .lockGate => True
  | .fast, .tryLockGate | .fast, .lockGate => True
  | .waiting, .tryLockGate | .waiting, .lockGate => True
  | _, .tryLockGate | _, .lockGate => False
  | .holding, .unlockGate | .leaving, .unlockGate => True
  | _, .unlockGate => False
  | _, _ => True

def next : Phase ρ → (op : BusOp ρ) → op.Answer → Phase ρ
  | .free, .loadBatchActive, false => .fast
  | .free, .tryLockGate, true => .holding
  | .free, .lockGate, _ => .holding
  | .fast, .tryLockGate, true => .holding
  | .fast, .lockGate, _ => .holding
  | .holding, .unlockGate, _ => .free
  | .waiting, .tryLockGate, true => .admitted
  | .waiting, .lockGate, _ => .admitted
  | .admitted, .storeBatchActive true, _ => .active fun _ => []
  | .active sent, .send chan record, _ =>
    .active (Function.update sent chan (sent chan ++ [record]))
  | .active _, .storeBatchActive false, _ => .leaving
  | .leaving, .unlockGate, _ => .finished
  | phase, _, _ => phase

end Phase

def answersOk : (op : BusOp ρ) → op.Answer → Prop
  | .readSenders, senders => (senders.map Sender.chan).Nodup
  | _, _ => True

def protocol (records : List ρ) : Protocol (BusOp ρ) BusOp.Answer (Phase ρ) where
  allows := Phase.allows records
  answers := answersOk
  next := Phase.next

variable {records : List ρ} {phase : Phase ρ}

theorem quiet_follows {α : Type} {R : α → Prop} {p : BusProg ρ α} (h : p.Uses BusOp.Quiet R) :
    p.Follows (protocol records) (fun phase' result => phase' = phase ∧ R result) phase := by
  refine h.follows fun op hop => ?_
  cases op <;> cases phase <;>
    first
      | exact hop.elim
      | exact ⟨trivial, fun _ => rfl⟩

theorem ungated_follows {α : Type} {R : α → Prop} {p : BusProg ρ α} (h : p.Uses BusOp.Ungated R)
    (hphase : phase = .fast ∨ phase = .holding) :
    p.Follows (protocol records) (fun phase' result => phase' = phase ∧ R result) phase := by
  refine h.follows fun op hop => ?_
  rcases hphase with rfl | rfl <;> cases op <;>
    first
      | exact hop.elim
      | exact ⟨trivial, fun _ => rfl⟩

-- ---- Single publishes

theorem admission_follows (hphase : phase = .free ∨ phase = .fast ∨ phase = .waiting) :
    admission.Follows (protocol records) (fun phase' _ => phase' = phase.next .lockGate ())
      phase := by
  have hlock : lockGate.Follows (protocol records)
      (fun phase' _ => phase' = phase.next .lockGate ()) phase := by
    rcases hphase with rfl | rfl | rfl <;> exact ⟨trivial, fun _ _ => rfl⟩
  rcases hphase with rfl | rfl | rfl
  all_goals
    refine follows_perform trivial fun answer _ => ?_
    cases answer with
    | true => exact follows_pure rfl
    | false => exact hlock

theorem publishGated_follows (record : ρ) (hphase : phase = .free ∨ phase = .fast) :
    (publishGated record).Follows (protocol records) (fun _ _ => True) phase := by
  refine (admission_follows (hphase.imp_right .inl)).bind fun phase' _ hphase' => ?_
  have hholding : phase' = .holding := by
    rcases hphase with rfl | rfl <;> exact hphase'
  subst hholding
  refine (ungated_follows (publishAdmitted_uses record) (.inr rfl)).bind fun _ _ hphase => ?_
  rw [hphase.1]
  exact follows_perform trivial fun _ _ => follows_pure trivial

theorem ungatedFirst_follows {direct : BusProg ρ (Option PublishResult)}
    {gated : BusProg ρ PublishResult} (huses : direct.Uses BusOp.Ungated fun _ => True)
    (hgated : ∀ phase, phase = .free ∨ phase = .fast →
      gated.Follows (protocol records) (fun _ _ => True) phase) :
    (ungatedFirst direct gated).Follows (protocol records) (fun _ _ => True) .free := by
  refine follows_perform trivial fun flag _ => ?_
  cases flag with
  | true => exact hgated _ (.inl rfl)
  | false =>
    refine (ungated_follows huses (.inl rfl)).bind fun phase result hphase => ?_
    rw [hphase.1]
    cases result with
    | some result => exact follows_pure trivial
    | none => exact hgated _ (.inr rfl)

theorem tryPublishGated_follows (record : ρ) (hphase : phase = .free ∨ phase = .fast) :
    (tryPublishGated record).Follows (protocol records) (fun _ _ => True) phase := by
  rcases hphase with rfl | rfl
  all_goals
    refine follows_perform trivial fun locked _ => ?_
    cases locked with
    | true =>
      have hadmitted : (tryPublishAdmitted record).Follows (protocol records)
          (fun phase' _ => phase' = .holding ∧ True) .holding :=
        ungated_follows (tryPublishAdmitted_uses record) (.inr rfl)
      refine hadmitted.bind fun _ _ hphase => ?_
      rw [hphase.1]
      exact follows_perform trivial fun _ _ => follows_pure trivial
    | false => exact (quiet_follows snapshot_uses).bind fun _ _ _ => follows_pure trivial

-- ---- Batches

theorem sendRecords_follows (s : Sender ρ) (matched : List ρ) (sent : Nat → List ρ)
    (h : (sent s.chan ++ matched).Sublist records) :
    (sendRecords s matched).Follows (protocol records)
      (fun phase' _ => phase' = .active (Function.update sent s.chan (sent s.chan ++ matched)))
      (.active sent) := by
  induction matched generalizing sent with
  | nil => exact follows_pure (by simp)
  | cons record rest ih =>
    have hsent : ∀ sent', sent' = Function.update sent s.chan (sent s.chan ++ [record]) →
        sent' s.chan ++ rest = sent s.chan ++ record :: rest := by
      rintro _ rfl
      simp
    refine follows_perform ?_ fun _ _ => ?_
    · exact List.Sublist.trans (by simp) h
    · refine (ih _ ?_).mono fun phase' _ hphase => ?_
      · rwa [hsent _ rfl]
      · rw [hphase, hsent _ rfl, Function.update_idem]

theorem sendChunk_follows (permits : List (Sender ρ × List ρ)) (sent : Nat → List ρ)
    (hnodup : (permits.map (·.1.chan)).Nodup)
    (h : ∀ x ∈ permits, (sent x.1.chan ++ x.2).Sublist records) :
    (sendChunk permits).Follows (protocol records)
      (fun phase' _ => ∃ sent', phase' = .active sent' ∧
        ∀ chan, sent' chan = sent chan ∨
          ∃ x ∈ permits, x.1.chan = chan ∧ sent' chan = sent chan ++ x.2)
      (.active sent) := by
  induction permits generalizing sent with
  | nil => exact follows_pure ⟨sent, rfl, fun _ => .inl rfl⟩
  | cons x rest ih =>
    obtain ⟨s, matched⟩ := x
    rw [List.map_cons, List.nodup_cons] at hnodup
    obtain ⟨hs, hrest⟩ := List.forall_mem_cons.mp h
    -- the other queues of this chunk are untouched by the records for `s`
    have hne : ∀ y ∈ rest, y.1.chan ≠ s.chan := fun y hy heq =>
      hnodup.1 (heq ▸ List.mem_map_of_mem hy)
    refine (sendRecords_follows s matched sent hs).bind fun phase _ hphase => ?_
    subst hphase
    refine (ih _ hnodup.2 fun y hy => ?_).mono ?_
    · rw [Function.update_of_ne (hne y hy)]
      exact hrest y hy
    · rintro phase' _ ⟨sent', rfl, hsent'⟩
      refine ⟨sent', rfl, fun chan => ?_⟩
      by_cases hchan : chan = s.chan
      · subst hchan
        refine .inr ⟨(s, matched), List.mem_cons_self, rfl, ?_⟩
        rcases hsent' s.chan with heq | ⟨y, hy, hchan, -⟩
        · simpa using heq
        · exact absurd hchan (hne y hy)
      · rcases hsent' chan with heq | ⟨y, hy, rfl, heq⟩
        · exact .inl (by simpa [Function.update_of_ne hchan] using heq)
        · refine .inr ⟨y, List.mem_cons_of_mem _ hy, rfl, ?_⟩
          simpa [Function.update_of_ne hchan] using heq

theorem admitChunks_follows (chunks : List (List ρ)) (k : Nat) (selected : List (Sender ρ))
    (committed : Bool) (sent : Nat → List ρ) (sofar : List ρ)
    (hrecords : records = sofar ++ chunks.flatten) (hnodup : (selected.map Sender.chan).Nodup)
    (hsent : ∀ chan, (sent chan).Sublist sofar) :
    (admitChunks chunks k selected committed).Follows (protocol records)
      (fun phase' _ => ∃ sent', phase' = .active sent') (.active sent) := by
  induction chunks generalizing k selected committed sent sofar with
  | nil => exact follows_pure ⟨sent, rfl⟩
  | cons chunk rest ih =>
    rw [List.flatten_cons, ← List.append_assoc] at hrecords
    refine (quiet_follows ((matchChunk_uses chunk selected.zipIdx).mono (fun _ h => h.quiet)
      fun _ h => h)).bind fun phase subMatches hphase => ?_
    obtain ⟨rfl, rfl⟩ := hphase
    refine Follows.ite (fun _ => ?_) fun _ => ?_
    · exact ih _ _ _ _ (sofar ++ chunk) hrecords hnodup fun chan =>
        (hsent chan).trans (List.sublist_append_left _ _)
    refine (quiet_follows ((reserveChunk_uses k selected _).mono (fun _ h => h.quiet)
      fun _ h => h)).bind fun phase result hphase => ?_
    obtain ⟨rfl, hpermits⟩ := hphase
    obtain ⟨permits, closed⟩ := result
    rw [filterMap_indexedTargets] at hpermits
    have hmatched : ∀ x ∈ permits, x.2.Sublist chunk := fun x hx =>
      (mem_targets.mp (hpermits.subset hx)).2.1 ▸ List.filter_sublist
    refine (quiet_follows (onlyIf_uses _ (uses_op trivial))).bind fun phase _ hphase => ?_
    obtain ⟨rfl, -⟩ := hphase
    refine Follows.ite (fun _ => ?_) fun _ => ?_
    · exact follows_perform trivial fun _ _ => follows_pure ⟨sent, rfl⟩
    refine (sendChunk_follows permits sent (nodup_permits hnodup hpermits) fun x hx => ?_).bind
      fun phase _ hphase => ?_
    · rw [hrecords]
      exact ((hsent _).append (hmatched x hx)).trans (List.sublist_append_left _ _)
    · obtain ⟨sent', rfl, hsent'⟩ := hphase
      refine (quiet_follows (onlyIf_uses _ (uses_op trivial))).bind fun phase _ hphase => ?_
      obtain ⟨rfl, -⟩ := hphase
      refine ih _ _ _ _ (sofar ++ chunk) hrecords
        (hnodup.sublist ((removeIndices_sublist closed selected).map _)) fun chan => ?_
      rcases hsent' chan with heq | ⟨x, hx, -, heq⟩
      · exact heq ▸ (hsent chan).trans (List.sublist_append_left _ _)
      · exact heq ▸ (hsent chan).append (hmatched x hx)

theorem admitBatch_follows :
    (admitBatch records).Follows (protocol records)
      (fun phase' _ => ∃ sent', phase' = .active sent') (.active fun _ => []) := by
  refine Follows.bind (Q := fun phase result =>
    phase = .active (fun _ => []) ∧ (result.2.map Sender.chan).Nodup) ?_ fun phase result h => ?_
  · refine follows_perform trivial fun senders hsenders => ?_
    refine (quiet_follows (liveSenders_quiet senders)).bind fun phase live hlive => ?_
    exact follows_pure ⟨hlive.1, hsenders.sublist (hlive.2.map _)⟩
  obtain ⟨rfl, hnodup⟩ := h
  obtain ⟨registered, selected⟩ := result
  refine Follows.ite (fun _ => follows_pure ⟨_, rfl⟩) fun _ => ?_
  refine (quiet_follows (onlyIf_uses _ (uses_op trivial))).bind fun phase _ hphase => ?_
  obtain ⟨rfl, -⟩ := hphase
  refine Follows.ite (fun _ => follows_pure ⟨_, rfl⟩) fun _ => ?_
  refine admitChunks_follows _ _ _ _ _ [] ?_ hnodup fun _ => List.nil_sublist _
  exact (Lib.flatten_chunks (by decide) records).symm

theorem publishBatchTopic_follows :
    (publishBatchTopic records).Follows (protocol records) (fun _ _ => True) .waiting := by
  refine Follows.ite (fun _ => follows_pure trivial) fun _ => ?_
  refine (admission_follows (.inr (.inr rfl))).bind fun phase _ hphase => ?_
  subst hphase
  refine follows_perform rfl fun _ _ => ?_
  refine admitBatch_follows.bind fun phase result hphase => ?_
  obtain ⟨sent, rfl⟩ := hphase
  exact follows_perform rfl fun _ _ => follows_perform trivial fun _ _ => follows_pure trivial

def Call.firstPhase : Call ρ → Phase ρ
  | .publishBatch _ => .waiting
  | .publishAsync _ | .tryPublish _ => .free

theorem Call.firstPhase_ne_fast (call : Call ρ) : call.firstPhase ≠ .fast := by
  cases call <;> exact nofun

theorem call_follows (call : Call ρ) :
    call.program.Follows (protocol call.records) (fun _ _ => True) call.firstPhase := by
  cases call with
  | publishAsync record =>
    exact ungatedFirst_follows (publishSingle_uses record) fun _ => publishGated_follows record
  | tryPublish record =>
    exact ungatedFirst_follows (tryPublishSingle_uses record) fun _ => tryPublishGated_follows record
  | publishBatch records => exact publishBatchTopic_follows

-- ---- What holds across the calls

/-- In the queue the records of call `t` are records of the batch, in order, with
no record of another call between them. -/
def Contiguous (t : Nat) (batch : List ρ) (queue : List (Nat × ρ)) : Prop :=
  ∃ (before : List (Nat × ρ)) (block : List ρ) (after : List (Nat × ρ)),
    queue = before ++ block.map (Prod.mk t) ++ after ∧ block.Sublist batch ∧
      ∀ x ∈ before ++ after, x.1 ≠ t

/-- What a queue holds of call `t` in each phase. An active batch is at the end of
the queue. -/
def Placed (t : Nat) (batch : List ρ) (phase : Phase ρ) (chan : Nat) (queue : List (Nat × ρ)) :
    Prop :=
  match phase with
  | .free | .fast | .holding => True
  | .waiting | .admitted => ∀ x ∈ queue, x.1 ≠ t
  | .active sent => ∃ before, queue = before ++ (sent chan).map (Prod.mk t) ∧
      (sent chan).Sublist batch ∧ ∀ x ∈ before, x.1 ≠ t
  | .leaving | .finished => Contiguous t batch queue

structure Inv (calls : Nat → Call ρ) (phase : Nat → Phase ρ) (topic : Topic ρ) : Prop where
  kind : ∀ t, (phase t).isBatch = (calls t).firstPhase.isBatch
  gate : ∀ t, (phase t).holds = true ↔ topic.gate = some t
  flag : ∀ t sent, phase t = .active sent → topic.batchActive = true
  placed : ∀ t chan, Placed t (calls t).records (phase t) chan (topic.chans chan).sent

theorem contiguous_of_notMem {t : Nat} {batch : List ρ} {queue : List (Nat × ρ)}
    (h : ∀ x ∈ queue, x.1 ≠ t) : Contiguous t batch queue :=
  ⟨queue, [], [], by simp, List.nil_sublist _, by simpa using h⟩

theorem Placed.contiguous {t : Nat} {batch : List ρ} {chan : Nat} {queue : List (Nat × ρ)}
    (h : Placed t batch phase chan queue) (hphase : phase.isBatch = true) :
    Contiguous t batch queue := by
  cases phase with
  | free | fast | holding => cases hphase
  | waiting | admitted => exact contiguous_of_notMem h
  | active sent =>
    obtain ⟨before, rfl, hsub, hbefore⟩ := h
    exact ⟨before, sent chan, [], by simp, hsub, by simpa using hbefore⟩
  | leaving | finished => exact h

/-- Another call's record goes behind what a queue holds of call `t`, unless `t`
is a batch that is arriving there. -/
theorem Placed.append {t u : Nat} {batch : List ρ} {chan : Nat} {queue : List (Nat × ρ)}
    {record : ρ} (h : Placed t batch phase chan queue) (hut : u ≠ t)
    (hactive : ∀ sent, phase = .active sent → ∀ x ∈ queue, x.1 ≠ t) :
    Placed t batch phase chan (queue ++ [(u, record)]) := by
  have hnot : ∀ l : List (Nat × ρ), (∀ x ∈ l, x.1 ≠ t) → ∀ x ∈ l ++ [(u, record)], x.1 ≠ t := by
    intro l hl x hx
    rcases List.mem_append.mp hx with hx | hx
    · exact hl x hx
    · rw [List.mem_singleton.mp hx]
      exact hut
  cases phase with
  | free | fast | holding => trivial
  | waiting | admitted => exact hnot _ h
  | active sent =>
    have hq := hactive sent rfl
    obtain ⟨before, rfl, hsub, -⟩ := h
    have hnil : sent chan = [] := by
      refine List.eq_nil_iff_forall_not_mem.mpr fun r hr => ?_
      exact hq (t, r) (List.mem_append_right _ (List.mem_map_of_mem hr)) rfl
    refine ⟨before ++ [(u, record)], by simp [hnil], hsub, hnot _ ?_⟩
    simpa [hnil] using hq
  | leaving | finished =>
    obtain ⟨before, block, after, rfl, hsub, hne⟩ := h
    refine ⟨before, block, after ++ [(u, record)], by simp, hsub, ?_⟩
    rw [← List.append_assoc]
    exact hnot _ hne

/-- While a batch that holds the gate is active, no other call sends to a queue that the
batch has begun to send to. -/
def Undisturbing (e : BusEvent ρ) : Prop :=
  ∀ chan ∈ e.op.destination, ∀ t ∈ e.before.gate, e.before.batchActive = true → t ≠ e.thread →
    ∀ x ∈ (e.before.chans chan).sent, x.1 ≠ t

instance (e : BusEvent ρ) : Decidable (Undisturbing e) :=
  inferInstanceAs (Decidable (∀ chan ∈ e.op.destination, ∀ t ∈ e.before.gate,
    e.before.batchActive = true → t ≠ e.thread → ∀ x ∈ (e.before.chans chan).sent, x.1 ≠ t))

/-- After these events call `u` goes past the gate: it has loaded the batch flag as not set
and has not taken the gate since. -/
def loadedClear (u : Nat) (past : List (BusEvent ρ)) : Bool :=
  past.foldl (fun clear e =>
    if e.thread = u then
      match e.op, e.answer with
      | .loadBatchActive, flag => !flag
      | .tryLockGate, locked => clear && !locked
      | .lockGate, _ => false
      | _, _ => clear
    else clear) false

/-- The assumption on an event: no call that loaded the flag before a batch set it, and goes
past the gate, sends into that batch. -/
def InTime (past : List (BusEvent ρ)) (e : BusEvent ρ) : Prop :=
  loadedClear e.thread past = true → Undisturbing e

instance (past : List (BusEvent ρ)) (e : BusEvent ρ) : Decidable (InTime past e) :=
  inferInstanceAs (Decidable (_ → _))

theorem next_isBatch (phase : Phase ρ) (op : BusOp ρ) (answer : op.Answer) :
    (phase.next op answer).isBatch = phase.isBatch := by
  unfold Phase.next
  split <;> rfl

theorem Inv.congr {calls : Nat → Call ρ} {phase : Nat → Phase ρ} {topic topic' : Topic ρ}
    (h : Inv calls phase topic) (hgate : topic'.gate = topic.gate)
    (hflag : topic'.batchActive = topic.batchActive)
    (hqueue : ∀ chan, (topic'.chans chan).sent = (topic.chans chan).sent) :
    Inv calls phase topic' where
  kind := h.kind
  gate t := hgate ▸ h.gate t
  flag t sent ht := hflag ▸ h.flag t sent ht
  placed t chan := hqueue chan ▸ h.placed t chan

theorem next_quiet {op : BusOp ρ} (hop : op.Quiet) (answer : op.Answer) :
    phase.next op answer = phase := by
  cases op <;> cases phase <;> first | exact hop.elim | rfl

section Step

variable {calls : Nat → Call ρ} {phases : Nat → Phase ρ} {topic : Topic ρ} {u : Nat}

theorem Inv.quiet {topic' : Topic ρ} {op : BusOp ρ} {answer : op.Answer}
    (h : Inv calls phases topic) (hop : op.Quiet)
    (hexec : topic.exec u op = some (answer, topic')) :
    Inv calls (Function.update phases u ((phases u).next op answer)) topic' := by
  obtain ⟨hgate, hflag, hqueue⟩ := exec_quiet hop hexec
  rw [next_quiet hop, Function.update_eq_self]
  exact h.congr hgate hflag hqueue

theorem Inv.move {topic' : Topic ρ} {phase' : Phase ρ} (h : Inv calls phases topic)
    (hkind : phase'.isBatch = (phases u).isBatch)
    (hgate : topic'.gate = if phase'.holds then some u else none)
    (hothers : ∀ t, t ≠ u → (phases t).holds = false)
    (hflag : ∀ sent, phase' = .active sent → topic'.batchActive = true)
    (hqueue : ∀ chan, (topic'.chans chan).sent = (topic.chans chan).sent)
    (hplaced : ∀ chan, Placed u (calls u).records (phases u) chan (topic.chans chan).sent →
      Placed u (calls u).records phase' chan (topic.chans chan).sent) :
    Inv calls (Function.update phases u phase') topic' where
  kind t := by
    by_cases ht : t = u
    · subst ht
      simpa [hkind] using h.kind t
    · simpa [Function.update_of_ne ht] using h.kind t
  gate t := by
    rw [hgate]
    by_cases ht : t = u
    · subst ht
      simp
    · have hne : ¬u = t := fun heq => ht heq.symm
      rw [Function.update_of_ne ht, hothers t ht]
      split <;> simp [hne]
  flag t sent := by
    by_cases ht : t = u
    · subst ht
      simpa using hflag sent
    · rw [Function.update_of_ne ht]
      intro heq
      have := hothers t ht
      simp [heq, Phase.holds] at this
  placed t chan := by
    rw [hqueue]
    by_cases ht : t = u
    · subst ht
      simpa using hplaced chan (h.placed t chan)
    · simpa [Function.update_of_ne ht] using h.placed t chan

theorem Inv.others_of_gate (h : Inv calls phases topic)
    (hgate : topic.gate = none ∨ topic.gate = some u) :
    ∀ t, t ≠ u → (phases t).holds = false := by
  intro t ht
  by_contra hholds
  have heq := (h.gate t).mp (by simpa using hholds)
  rcases hgate with hgate | hgate
  · rw [hgate] at heq
    cases heq
  · rw [hgate] at heq
    exact ht (Option.some.inj heq).symm

theorem Inv.lock (h : Inv calls phases topic) (hgate : topic.gate = none)
    (hallow : (phases u).allows (calls u).records .lockGate) :
    Inv calls (Function.update phases u ((phases u).next .lockGate ()))
      { topic with gate := some u } := by
  have hothers := h.others_of_gate (u := u) (.inl hgate)
  cases hphase : phases u with
  | free | fast =>
    exact h.move (by rw [hphase]; rfl) rfl hothers nofun (fun _ => rfl) fun _ _ => trivial
  | waiting =>
    refine h.move (by rw [hphase]; rfl) rfl hothers nofun (fun _ => rfl) fun chan hp => ?_
    rw [hphase] at hp
    exact hp
  | holding | admitted | active | leaving | finished =>
    rw [hphase] at hallow
    exact hallow.elim

theorem Inv.unlock (h : Inv calls phases topic)
    (hallow : (phases u).allows (calls u).records .unlockGate) :
    Inv calls (Function.update phases u ((phases u).next .unlockGate ()))
      { topic with gate := none } := by
  have hothers := fun hholds => h.others_of_gate (u := u) (.inr ((h.gate u).mp hholds))
  cases hphase : phases u with
  | holding =>
    refine h.move (by rw [hphase]; rfl) rfl (hothers (by rw [hphase]; rfl)) nofun (fun _ => rfl) ?_
    exact fun _ _ => trivial
  | leaving =>
    refine h.move (by rw [hphase]; rfl) rfl (hothers (by rw [hphase]; rfl)) nofun (fun _ => rfl) ?_
    intro chan hp
    rw [hphase] at hp
    exact hp
  | free | fast | waiting | admitted | active | finished =>
    rw [hphase] at hallow
    exact hallow.elim

theorem Inv.store (h : Inv calls phases topic) {flag : Bool}
    (hallow : (phases u).allows (calls u).records (.storeBatchActive flag)) :
    Inv calls (Function.update phases u ((phases u).next (.storeBatchActive flag) ()))
      { topic with batchActive := flag } := by
  have hgate := fun hholds => (h.gate u).mp hholds
  have hothers := fun hholds => h.others_of_gate (u := u) (.inr (hgate hholds))
  cases hphase : phases u with
  | admitted =>
    rw [hphase] at hallow hgate hothers
    subst hallow
    refine h.move (by rw [hphase]; rfl) (hgate rfl) (hothers rfl) (fun _ _ => rfl) (fun _ => rfl) ?_
    intro chan hp
    rw [hphase] at hp
    exact ⟨_, by simp, List.nil_sublist _, hp⟩
  | active sent =>
    rw [hphase] at hallow hgate hothers
    subst hallow
    refine h.move (by rw [hphase]; rfl) (hgate rfl) (hothers rfl) nofun (fun _ => rfl) ?_
    intro chan hp
    rw [hphase] at hp
    exact hp.contiguous rfl
  | free | fast | holding | waiting | leaving | finished =>
    rw [hphase] at hallow
    exact hallow.elim

theorem Placed.sent {batch : List ρ} {chan : Nat} {record : ρ} {queue : List (Nat × ρ)}
    (h : Placed u batch phase chan queue) (hallow : phase.allows batch (.send chan record)) :
    Placed u batch (phase.next (.send chan record) ()) chan (queue ++ [(u, record)]) := by
  cases phase with
  | free | fast | holding => trivial
  | active sent =>
    obtain ⟨before, rfl, -, hbefore⟩ := h
    have hsub : (sent chan ++ [record]).Sublist batch := hallow
    exact ⟨before, by simp, by simpa using hsub, hbefore⟩
  | waiting | admitted | leaving | finished => exact hallow.elim

theorem Placed.sent_of_ne {batch : List ρ} {chan other : Nat} {record : ρ}
    {queue : List (Nat × ρ)} (h : Placed u batch phase other queue) (hne : other ≠ chan) :
    Placed u batch (phase.next (.send chan record) ()) other queue := by
  cases phase with
  | active sent =>
    obtain ⟨before, rfl, hsub, hbefore⟩ := h
    refine ⟨before, by simp [hne], ?_, hbefore⟩
    simpa [hne] using hsub
  | free | fast | holding | waiting | admitted | leaving | finished => exact h

theorem next_send_holds (phase : Phase ρ) (chan : Nat) (record : ρ) :
    (phase.next (.send chan record) ()).holds = phase.holds := by
  cases phase <;> rfl

theorem Inv.send (h : Inv calls phases topic) {chan : Nat} {record : ρ} {topic' : Topic ρ}
    (hallow : (phases u).allows (calls u).records (.send chan record))
    (hexec : topic.exec u (.send chan record) = some ((), topic'))
    (hgood : phases u = .fast → Undisturbing ⟨u, topic, .send chan record, ()⟩) :
    Inv calls (Function.update phases u ((phases u).next (.send chan record) ())) topic' where
  kind t := by
    cases hexec
    by_cases ht : t = u
    · subst ht
      simpa [next_isBatch] using h.kind t
    · simpa [Function.update_of_ne ht] using h.kind t
  gate t := by
    cases hexec
    by_cases ht : t = u
    · subst ht
      simpa [next_send_holds] using h.gate t
    · simpa [Function.update_of_ne ht] using h.gate t
  flag t sent := by
    cases hexec
    by_cases ht : t = u
    · subst ht
      rw [Function.update_self]
      intro heq
      cases hphase : phases t with
      | active sent' => exact h.flag t sent' hphase
      | free | fast | holding | waiting | admitted | leaving | finished =>
        rw [hphase] at heq
        cases heq
    · rw [Function.update_of_ne ht]
      exact h.flag t sent
  placed t other := by
    cases hexec
    by_cases hother : other = chan
    · subst hother
      simp only [Topic.setChan, Function.update_self]
      by_cases ht : t = u
      · subst ht
        simpa using (h.placed t other).sent hallow
      · rw [Function.update_of_ne ht]
        refine (h.placed t other).append (Ne.symm ht) fun sent hsent => ?_
        have hgate : topic.gate = some t := (h.gate t).mp (by rw [hsent]; rfl)
        cases hphase : phases u with
        | fast => exact hgood hphase other rfl t hgate (h.flag t sent hsent) ht
        | holding | active =>
          -- the gate has one holder
          have hu := (h.gate u).mp (by rw [hphase]; rfl)
          exact absurd (Option.some.inj (hgate.symm.trans hu)) ht
        | free | waiting | admitted | leaving | finished =>
          rw [hphase] at hallow
          exact hallow.elim
    · simp only [Topic.setChan, Function.update_of_ne hother]
      by_cases ht : t = u
      · subst ht
        simpa using (h.placed t other).sent_of_ne hother
      · simpa [Function.update_of_ne ht] using h.placed t other

theorem Inv.load (h : Inv calls phases topic) {flag : Bool} :
    Inv calls (Function.update phases u ((phases u).next .loadBatchActive flag)) topic := by
  by_cases hphase : phases u = .free ∧ flag = false
  · obtain ⟨hfree, rfl⟩ := hphase
    -- the invariant asks the same of both phases
    have hsame : ∀ {α : Type} (g : Phase ρ → α), g .fast = g .free → ∀ t,
        g (Function.update phases u ((phases u).next .loadBatchActive false) t) = g (phases t) := by
      intro α g hg t
      rw [hfree]
      by_cases ht : t = u
      · subst ht
        rw [Function.update_self, hfree]
        exact hg
      · rw [Function.update_of_ne ht]
    refine ⟨fun t => (hsame Phase.isBatch rfl t).trans (h.kind t), fun t => ?_,
      fun t sent ht => ?_, fun t chan => ?_⟩
    · rw [hsame Phase.holds rfl t]
      exact h.gate t
    · exact h.flag t sent ((hsame (· = Phase.active sent) (by simp) t).mp ht)
    · exact (hsame (Placed t _ · chan _) rfl t).mpr (h.placed t chan)
  · have hnext : (phases u).next .loadBatchActive flag = phases u := by
      cases hu : phases u <;> cases flag <;> first | rfl | exact absurd ⟨hu, rfl⟩ hphase
    rwa [hnext, Function.update_eq_self]

theorem Inv.step {op : BusOp ρ} {answer : op.Answer} {topic' : Topic ρ}
    (h : Inv calls phases topic) (hallow : (phases u).allows (calls u).records op)
    (hexec : topic.exec u op = some (answer, topic'))
    (hgood : phases u = .fast → Undisturbing ⟨u, topic, op, answer⟩) :
    Inv calls (Function.update phases u ((phases u).next op answer)) topic' := by
  cases op with
  | send chan record => exact h.send hallow hexec hgood
  | storeBatchActive flag =>
    cases hexec
    exact h.store hallow
  | unlockGate =>
    cases hexec
    exact h.unlock hallow
  | lockGate =>
    simp only [Topic.exec] at hexec
    split at hexec
    · rename_i hgate
      cases hexec
      exact h.lock hgate hallow
    · cases hexec
  | tryLockGate =>
    have hlock : (phases u).allows (calls u).records .lockGate := by
      cases hphase : phases u <;> rw [hphase] at hallow <;> exact hallow
    simp only [Topic.exec] at hexec
    split at hexec
    · rename_i hgate
      cases hexec
      have hnext : (phases u).next .tryLockGate true = (phases u).next .lockGate () := by
        cases phases u <;> rfl
      rw [hnext]
      exact h.lock hgate hlock
    · cases hexec
      have hnext : (phases u).next .tryLockGate false = phases u := by
        cases phases u <;> rfl
      rw [hnext, Function.update_eq_self]
      exact h
  | loadBatchActive =>
    cases hexec
    exact h.load
  | readSenders | purgeClosed | isClosed | bump | tryReserve | reserve | release
  | addUndelivered => exact h.quiet trivial hexec

theorem Inv.react (h : Inv calls phases topic) (e : BusEnv ρ) :
    Inv calls phases (topic.react e) := by
  refine h.congr ?_ ?_ fun c => ?_
  · cases e <;> rfl
  · cases e <;> rfl
  · exact react_sent topic e c

end Step

-- ---- Every schedule

theorem Inv.start {topic : Topic ρ} (h : topic.Fresh) (calls : Nat → Call ρ) :
    Inv calls (fun t => (calls t).firstPhase) topic := by
  have hfree : ∀ t, (calls t).firstPhase = .free ∨ (calls t).firstPhase = .waiting := by
    intro t
    cases calls t with
    | publishAsync | tryPublish => exact .inl rfl
    | publishBatch => exact .inr rfl
  refine ⟨fun _ => rfl, fun t => ?_, fun t sent ht => ?_, fun t chan => ?_⟩
  · rw [h.1]
    rcases hfree t with ht | ht <;> rw [ht] <;> exact ⟨nofun, nofun⟩
  · rcases hfree t with ht' | ht' <;> rw [ht'] at ht <;> cases ht
  · rw [h.2.2 chan]
    rcases hfree t with ht | ht <;> rw [ht]
    · exact trivial
    · exact nofun

/-- The calls in phase `fast` are those that go past the gate. -/
def FastClear (phases : Nat → Phase ρ) (past : List (BusEvent ρ)) : Prop :=
  ∀ u, phases u = .fast → loadedClear u past = true

theorem FastClear.step {phases : Nat → Phase ρ} {past : List (BusEvent ρ)} {u : Nat}
    {topic : Topic ρ} {op : BusOp ρ} {answer : op.Answer} {batch : List ρ}
    (h : FastClear phases past) (hallow : (phases u).allows batch op) :
    FastClear (Function.update phases u ((phases u).next op answer))
      (past ++ [⟨u, topic, op, answer⟩]) := by
  intro t ht
  simp only [loadedClear, List.foldl_append, List.foldl_cons, List.foldl_nil]
  by_cases htu : u = t
  · subst htu
    rw [Function.update_self] at ht
    rw [if_pos rfl]
    cases op with
    | loadBatchActive =>
      cases answer with
      | false => rfl
      | true =>
        cases hphase : phases u <;> rw [hphase] at ht hallow <;>
          first | exact hallow.elim | cases ht
    | tryLockGate =>
      cases answer with
      | false =>
        cases hphase : phases u <;> rw [hphase] at ht <;>
          first | (simpa [loadedClear] using h u hphase) | cases ht
      | true => cases hphase : phases u <;> rw [hphase] at ht <;> cases ht
    | lockGate => cases hphase : phases u <;> rw [hphase] at ht <;> cases ht
    | storeBatchActive flag =>
      cases hphase : phases u <;> rw [hphase] at hallow <;>
        first
          | exact h u hphase
          | exact hallow.elim
          | (subst hallow; rw [hphase] at ht; cases ht)
    | _ => cases hphase : phases u <;> rw [hphase] at ht <;> first | exact h u hphase | cases ht
  · rw [if_neg htu]
    rw [Function.update_of_ne (Ne.symm htu)] at ht
    exact h t ht

/-- Every schedule of publish calls and of what subscribers do keeps every batch
contiguous, as long as no record whose call loaded the flag before a batch set it
goes past the gate into that batch. -/
theorem batches_stay_contiguous (topic : Topic ρ) (calls : Nat → Call ρ)
    (schedule : List (BusChoice ρ)) (hfresh : topic.Fresh)
    (hgood : Lib.Along InTime [] ((start topic calls).run (machine ρ) schedule).2)
    (t : Nat) (batch : List ρ) (hcall : calls t = .publishBatch batch) (chan : Nat) :
    Contiguous t batch
      ((((start topic calls).run (machine ρ) schedule).1.state.chans chan).sent) := by
  have hanswer : ∀ (topic : Topic ρ) u (op : BusOp ρ) answer topic',
      topic.exec u op = some (answer, topic') → answersOk op answer := by
    intro topic u op answer topic' hexec
    cases op with
    | readSenders =>
      cases hexec
      exact topic.senders_nodup
    | _ => trivial
  obtain ⟨phases, past, ⟨hinv, -⟩, -⟩ := Lib.run_invariant_along (M := machine ρ)
    (fun t => protocol (calls t).records) (fun _ _ _ => True)
    (fun phases past topic => Inv calls phases topic ∧ FastClear phases past) InTime
    (fun _ _ _ u _ _ _ h hallow hexec he => ⟨hanswer _ _ _ _ _ hexec,
      h.1.step hallow hexec fun hfast => he (h.2 u hfast), h.2.step hallow⟩)
    (fun _ _ _ e h => ⟨h.1.react e, h.2⟩) (start topic calls) schedule
    (fun t => (calls t).firstPhase) []
    ⟨Inv.start hfresh calls, fun u hu => absurd hu (calls u).firstPhase_ne_fast⟩
    (fun t => call_follows (calls t)) hgood
  have hbatch : (phases t).isBatch = true := by
    rw [hinv.kind t, hcall]
    rfl
  have hplaced := hinv.placed t chan
  rw [hcall] at hplaced
  exact hplaced.contiguous hbatch

def recordAndBatch : Nat → Call Nat
  | 0 => .publishAsync 9
  | 1 => .publishBatch [1, 2]
  | _ => .publishBatch []

/-- The record's call loads the flag when the batch has sent its first record, and waits. -/
theorem batches_stay_contiguous_before_record :
    let schedule := List.replicate 6 (.thread 1) ++ List.replicate 3 (.thread 0) ++
      List.replicate 4 (.thread 1) ++ List.replicate 6 (.thread 0)
    (((start oneSubscriber recordAndBatch).run (machine Nat) schedule).1.state.chans 0).sent =
        [(1, 1), (1, 2), (0, 9)] ∧
      Contiguous 1 [1, 2] [(1, 1), (1, 2), (0, 9)] := by
  intro schedule
  refine ⟨rfl, ?_⟩
  exact batches_stay_contiguous oneSubscriber recordAndBatch schedule ⟨rfl, rfl, fun _ => rfl⟩
    (by decide) 1 [1, 2] rfl 0

/-- A single publish loads the flag, the batch begins to arrive, and the single
record goes between its records. -/
theorem fast_path_splits_batch :
    ¬∀ (topic : Topic Nat) (calls : Nat → Call Nat) (schedule : List (BusChoice Nat)),
      topic.Fresh → ∀ t batch, calls t = .publishBatch batch → ∀ chan, Contiguous t batch
        ((((start topic calls).run (machine Nat) schedule).1.state.chans chan).sent) := by
  intro h
  have hqueue := h oneSubscriber recordAndBatch
    ([.thread 0] ++ List.replicate 6 (.thread 1) ++ List.replicate 3 (.thread 0) ++ [.thread 1])
    ⟨rfl, rfl, fun _ => rfl⟩ 1 [1, 2] rfl 0
  have hrun : (((start oneSubscriber recordAndBatch).run (machine Nat)
    ([.thread 0] ++ List.replicate 6 (.thread 1) ++ List.replicate 3 (.thread 0) ++
      [.thread 1])).1.state.chans 0).sent = [(1, 1), (0, 9), (1, 2)] := rfl
  rw [hrun] at hqueue
  obtain ⟨before, block, after, heq, -, hne⟩ := hqueue
  -- the block would have to begin with the first record and to end with the last
  cases before with
  | cons x before =>
    have hx : x = (1, 1) := by simp_all
    exact hne x (by simp) (by rw [hx])
  | nil =>
    match block with
    | [] =>
      have hafter : [(1, 1), (0, 9), (1, 2)] = after := heq
      exact hne (1, 1) (by simp [← hafter]) rfl
    | [_] =>
      have hafter : [(0, 9), (1, 2)] = after := (List.cons.inj heq).2
      exact hne (1, 2) (by simp [← hafter]) rfl
    | _ :: _ :: _ => simp at heq

end Rekuiper.Bus
