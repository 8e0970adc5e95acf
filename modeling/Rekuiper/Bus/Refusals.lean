import Mathlib.Algebra.BigOperators.Group.List.Basic
import Rekuiper.Bus.Retry

/-!
# What a batch adds to the undelivered records

The trace of a batch: each chunk divides the selection into those that stay in it and
those whose reservation was refused, and adds the records that are left once for each
of the latter. From the second chunk on this is what they are owed, if their filters
let those records pass.
-/

namespace Rekuiper.Bus

open Lib (Prog ownTrace)
open Lib.Prog

variable {ρ : Type} {trace head tail : List (BusDone ρ)} {k : Nat}

-- ---- What a trace adds and what it is refused

def BusOp.adds : BusOp ρ → Nat
  | .addUndelivered n => n
  | _ => 0

/-- What is added to `undelivered_after_commit`. -/
def added (trace : List (BusDone ρ)) : Nat := (trace.map (·.1.adds)).sum

def refusal : BusDone ρ → Option (Nat × Nat)
  | ⟨.tryReserve chunk chan _, .closed⟩ => some (chunk, chan)
  | ⟨.reserve chunk chan _, false⟩ => some (chunk, chan)
  | _ => none

def refusals (trace : List (BusDone ρ)) : List (Nat × Nat) := trace.filterMap refusal

@[simp]
theorem added_append (first second : List (BusDone ρ)) :
    added (first ++ second) = added first + added second := by
  simp [added]

@[simp]
theorem refusals_append (first second : List (BusDone ρ)) :
    refusals (first ++ second) = refusals first ++ refusals second :=
  List.filterMap_append

def BusOp.Aside : BusOp ρ → Prop
  | .addUndelivered _ | .tryReserve .. | .reserve .. | .send .. => False
  | _ => True

theorem added_eq_zero (h : ∀ x ∈ trace, x.1.adds = 0) : added trace = 0 := by
  refine List.sum_eq_zero fun n hn => ?_
  obtain ⟨x, hx, rfl⟩ := List.mem_map.mp hn
  exact h x hx

theorem BusOp.Reserves.adds {op : BusOp ρ} (h : op.Reserves k) : op.adds = 0 := by
  cases op <;> first | rfl | exact h.elim

theorem added_aside (h : ∀ x ∈ trace, x.1.Aside) : added trace = 0 := by
  refine added_eq_zero fun x hx => ?_
  have haside := h x hx
  cases hop : x.1 <;> rw [hop] at haside <;> first | rfl | exact haside.elim

theorem refusals_aside (h : ∀ x ∈ trace, x.1.Aside) : refusals trace = [] := by
  refine List.filterMap_eq_nil_iff.mpr fun x hx => ?_
  have haside := h x hx
  obtain ⟨op, answer⟩ := x
  cases op <;> first | rfl | exact haside.elim

theorem sentTo_aside (chan : Nat) (h : ∀ x ∈ trace, x.1.Aside) : sentTo chan trace = [] := by
  refine List.filterMap_eq_nil_iff.mpr fun x hx => ?_
  have haside := h x hx
  obtain ⟨op, answer⟩ := x
  cases op <;> first | rfl | exact haside.elim

/-- How many of the records for `s` were not sent, if one of its reservations was
refused. -/
def owed (refused : List (Nat × Nat)) (records : List ρ) (trace : List (BusDone ρ))
    (s : Sender ρ) : Nat :=
  if s.chan ∈ refused.map Prod.snd then
    (records.filter s.accepts).length - (sentTo s.chan trace).length
  else 0

theorem owed_of_notMem {refused : List (Nat × Nat)} {records : List ρ} {s : Sender ρ}
    (h : s.chan ∉ refused.map Prod.snd) : owed refused records trace s = 0 := if_neg h

def missedBy (selected : List (Sender ρ)) (refused : List (Nat × Nat)) (records : List ρ)
    (trace : List (BusDone ρ)) : PublishResult → Nat
  | .ok _ => (selected.map (owed refused records trace)).sum
  | .error _ => 0

theorem owed_append (first : List (Nat × Nat)) {later : List (Nat × Nat)} {chunk records : List ρ}
    {s : Sender ρ}
    (hfirst : s.chan ∉ first.map Prod.snd) (hsent : sentTo s.chan head = chunk.filter s.accepts) :
    owed (first ++ later) (chunk ++ records) (head ++ tail) s = owed later records tail s := by
  unfold owed
  simp only [List.map_append, List.mem_append, hfirst, false_or, sentTo_append, hsent,
    List.filter_append, List.length_append, Nat.add_sub_add_left]

-- ---- One chunk

theorem reserveSlots_refusals {chan n : Nat} {reserved : Bool}
    (h : (reserveSlots k chan n).Trace trace reserved) :
    refusals trace = if reserved then [] else [(k, chan)] := by
  simp only [reserveSlots, trace_bind, trace_perform] at h
  obtain ⟨_, answer, second, rfl, rfl, h⟩ := h
  cases answer with
  | permit | closed =>
    obtain ⟨rfl, rfl⟩ := trace_pure.mp h
    rfl
  | full =>
    obtain rfl := trace_perform.mp h
    cases reserved <;> rfl

theorem reserveChunk_divides {chunk : List ρ} (front : List (Sender ρ)) {selected : List (Sender ρ)}
    {result : List (Sender ρ × List ρ) × List Nat}
    (h : (reserveChunk k (front ++ selected)
      (indexedTargets chunk (selected.zipIdx front.length))).Trace trace result) :
    ∃ live gone, (live ++ gone).Perm selected ∧ result.1 = targets chunk live ∧
      removeIndices result.2 (front ++ selected) = front ++ live ∧
      result.2.length = gone.length ∧ refusals trace = gone.map fun s => (k, s.chan) := by
  induction selected generalizing front trace result with
  | nil =>
    obtain ⟨rfl, rfl⟩ := trace_pure.mp h
    exact ⟨[], [], .nil, rfl, rfl, rfl, rfl⟩
  | cons s rest ih =>
    have hnext : front ++ s :: rest = (front ++ [s]) ++ rest := by simp
    have hlength : front.length + 1 = (front ++ [s]).length := by simp
    simp only [List.zipIdx_cons, indexedTargets, List.filterMap_cons] at h
    rw [hlength] at h
    cases hnone : (chunk.filter s.accepts).isEmpty with
    | true =>
      simp only [hnone, if_true] at h
      rw [hnext] at h ⊢
      obtain ⟨live, gone, hperm, hpermits, hremove, hcount, hrefused⟩ := ih _ h
      refine ⟨s :: live, gone, hperm.cons s, ?_, hremove.trans (by simp), hcount, hrefused⟩
      rw [hpermits]
      simp only [targets, List.filterMap_cons, hnone, if_true]
    | false =>
      have hlookup : (front ++ s :: rest)[front.length]? = some s := by simp
      simp only [hnone, Bool.false_eq_true, if_false, reserveChunk, hlookup, trace_bind,
        trace_pure] at h
      obtain ⟨slots, reserved, _, rfl, hslots, others, ⟨permits, closed⟩, _, rfl, hothers, rfl,
        rfl⟩ := h
      rw [hnext] at hothers ⊢
      obtain ⟨live, gone, hperm, rfl, hremove, hcount, hrefused⟩ := ih _ hothers
      have hslots := reserveSlots_refusals hslots
      cases reserved with
      | true =>
        refine ⟨s :: live, gone, hperm.cons s, ?_, hremove.trans (by simp), hcount, ?_⟩
        · simp only [targets, List.filterMap_cons, hnone, Bool.false_eq_true, if_false, if_true]
        · simp [hslots, hrefused]
      | false =>
        refine ⟨live, s :: gone, List.perm_middle.trans (hperm.cons s), rfl, ?_, by simp [hcount], ?_⟩
        · show (removeIndices closed _).eraseIdx front.length = _
          rw [hremove]
          simp [List.eraseIdx_append_of_length_le]
        · simp [hslots, hrefused]

section Division

variable {live gone selected : List (Sender ρ)}

theorem sum_divides (hperm : (live ++ gone).Perm selected) (f : Sender ρ → Nat) :
    (selected.map f).sum = (live.map f).sum + (gone.map f).sum := by
  rw [← (hperm.map f).sum_eq, List.map_append, List.sum_append]

theorem nodup_divides (hperm : (live ++ gone).Perm selected)
    (hnodup : (selected.map Sender.chan).Nodup) :
    (live.map Sender.chan).Nodup ∧ (∀ s ∈ live, s.chan ∉ gone.map Sender.chan) ∧
      ∀ s ∈ gone, s.chan ∉ live.map Sender.chan := by
  have hchans : ((live ++ gone).map Sender.chan).Nodup := (hperm.map _).nodup_iff.mpr hnodup
  rw [List.map_append, List.nodup_append] at hchans
  obtain ⟨hlive, -, hdisjoint⟩ := hchans
  exact ⟨hlive, fun s hs hmem => hdisjoint _ (List.mem_map_of_mem hs) _ hmem rfl,
    fun s hs hmem => hdisjoint _ hmem _ (List.mem_map_of_mem hs) rfl⟩

end Division

theorem onlyIf_added {condition : Bool} {n : Nat}
    (h : (onlyIf condition (addUndelivered n)).Trace trace ()) :
    added trace = (if condition then n else 0) ∧ refusals trace = [] ∧
      ∀ chan, sentTo chan trace = [] := by
  cases condition with
  | true =>
    obtain rfl := trace_perform.mp h
    exact ⟨Nat.add_zero n, rfl, fun _ => rfl⟩
  | false =>
    obtain ⟨rfl, -⟩ := trace_pure.mp h
    exact ⟨rfl, rfl, fun _ => rfl⟩

theorem sendChunk_aside {permits : List (Sender ρ × List ρ)}
    (h : (sendChunk permits).Trace trace ()) : added trace = 0 ∧ refusals trace = [] := by
  have hsends := ((sendChunk_uses permits).of_trace h).1
  constructor
  · refine added_eq_zero fun x hx => ?_
    obtain ⟨chan, record, hop⟩ := hsends x hx
    rw [hop]
    rfl
  · refine List.filterMap_eq_nil_iff.mpr fun x hx => ?_
    obtain ⟨chan, record, hop⟩ := hsends x hx
    obtain ⟨op, answer⟩ := x
    obtain rfl : op = .send chan record := hop
    rfl

theorem chunk_divides {chunk : List ρ} {selected : List (Sender ρ)} {committed : Bool}
    {remaining : Nat} {permits : List (Sender ρ × List ρ)} {closed : List Nat}
    {matching reserving accounting : List (BusDone ρ)} (haside : ∀ x ∈ matching, x.1.Aside)
    (hreserving : (reserveChunk k selected (indexedTargets chunk selected.zipIdx)).Trace
      reserving (permits, closed))
    (haccounting : (onlyIf (committed && !closed.isEmpty)
      (addUndelivered (closed.length * remaining))).Trace accounting ()) :
    ∃ live gone, (live ++ gone).Perm selected ∧ permits = targets chunk live ∧
      removeIndices closed selected = live ∧
      refusals (matching ++ reserving ++ accounting) = gone.map (fun s => (k, s.chan)) ∧
      added (matching ++ reserving ++ accounting) =
        (if committed then gone.length * remaining else 0) ∧
      ∀ chan, sentTo chan (matching ++ reserving ++ accounting) = [] := by
  obtain ⟨live, gone, hperm, hpermits, hremove, hcount, hrefused⟩ :=
    reserveChunk_divides [] hreserving
  have hreserves := ((reserveChunk_uses k selected _).of_trace hreserving).1
  obtain ⟨hadded, hrefusals, hsent⟩ := onlyIf_added haccounting
  refine ⟨live, gone, hperm, hpermits, hremove, ?_, ?_, fun chan => ?_⟩
  · rw [refusals_append, refusals_append, refusals_aside haside, hrefusals, hrefused]
    simp
  · rw [added_append, added_append, added_aside haside, hadded,
      added_eq_zero fun x hx => (hreserves x hx).adds, ← hcount]
    cases committed <;> cases closed <;> simp
  · rw [sentTo_append, sentTo_append, sentTo_aside chan haside, hsent,
      sentTo_quiet chan fun x hx => (hreserves x hx).quiet]
    rfl

/-- One chunk of the loop. The records left are added once for each subscriber that was
refused. The loop ends if nobody is left that had records in the chunk; otherwise those
that are left have got them, and slots were granted if somebody was refused. -/
theorem admitChunks_divides {chunk : List ρ} {rest : List (List ρ)} {selected : List (Sender ρ)}
    {committed : Bool} {result : PublishResult}
    (h : (admitChunks (chunk :: rest) k selected committed).Trace trace result)
    (hnodup : (selected.map Sender.chan).Nodup) :
    ∃ live gone head tail, trace = head ++ tail ∧ (live ++ gone).Perm selected ∧
      refusals head = gone.map (fun s => (k, s.chan)) ∧
      added head = (if committed then gone.length * (chunk :: rest).flatten.length else 0) ∧
      ((tail = [] ∧ result = (if committed then .ok 0 else .error .closed) ∧
          ∀ chan, sentTo chan head = []) ∨
        ((admitChunks rest (k + 1) live true).Trace tail result ∧
          (gone = [] ∨ ∃ x ∈ head, Grants k x) ∧
          (∀ s ∈ live, sentTo s.chan head = chunk.filter s.accepts) ∧
          ∀ chan ∉ live.map Sender.chan, sentTo chan head = [])) := by
  simp only [admitChunks, trace_bind] at h
  obtain ⟨matching, _, trace, rfl, hmatching, h⟩ := h
  obtain ⟨haside, rfl⟩ := (matchChunk_uses_of (S := BusOp.Aside) (fun _ => trivial) chunk
    selected.zipIdx).of_trace hmatching
  split at h
  · rename_i hempty
    refine ⟨selected, [], matching, trace, rfl, by simp, refusals_aside haside, ?_, .inr ⟨h, .inl rfl,
      fun s hs => ?_, fun chan _ => sentTo_aside chan haside⟩⟩
    · simp [added_aside haside]
    · rw [sentTo_aside _ haside, targets_eq_nil (List.isEmpty_iff.mp hempty) hs]
  simp only [trace_bind] at h
  obtain ⟨reserving, ⟨permits, closed⟩, trace, rfl, hreserving, accounting, _, trace, rfl,
    haccounting, h⟩ := h
  obtain ⟨live, gone, hperm, hpermits, hremove, hrefused, hadded, hbefore⟩ :=
    chunk_divides haside hreserving haccounting
  rw [show chunk.length + rest.flatten.length = (chunk :: rest).flatten.length by simp] at hadded
  split at h
  · simp only [trace_bind, trace_perform, trace_pure] at h
    obtain ⟨_, _, _, rfl, rfl, rfl, rfl⟩ := h
    refine ⟨live, gone, matching ++ reserving ++ accounting ++ [⟨.purgeClosed, ()⟩], [], by simp,
      hperm, ?_, ?_, .inl ⟨rfl, rfl, fun chan => ?_⟩⟩
    · rw [refusals_append, hrefused]
      simp [refusals, refusal]
    · rw [added_append, hadded]
      rfl
    · rw [sentTo_append, hbefore]
      rfl
  · rename_i hsome
    simp only [trace_bind] at h
    obtain ⟨sending, _, trace, rfl, hsending, purging, _, tail, rfl, hpurging, h⟩ := h
    have hpurge := ((onlyIf_uses _ (uses_op (show BusOp.Aside .purgeClosed from trivial))).of_trace
      hpurging).1
    obtain ⟨hsendadded, hsendrefused⟩ := sendChunk_aside hsending
    rw [hremove] at h
    obtain ⟨hlive, -, -⟩ := nodup_divides hperm hnodup
    have hsent : ∀ chan, sentTo chan (matching ++ reserving ++ accounting ++ sending ++ purging) =
        (targets chunk live).flatMap fun x => if x.1.chan = chan then x.2 else [] := by
      intro chan
      rw [sentTo_append, sentTo_append, hbefore, sentTo_aside chan hpurge,
        sendChunk_sentTo hsending chan, hpermits]
      simp
    refine ⟨live, gone, matching ++ reserving ++ accounting ++ sending ++ purging, tail, by simp,
      hperm, ?_, ?_, .inr ⟨h, ?_, fun s hs => ?_, fun chan hchan => ?_⟩⟩
    · rw [refusals_append, refusals_append, hrefused, hsendrefused, refusals_aside hpurge]
      simp
    · rw [added_append, added_append, hadded, hsendadded, added_aside hpurge, Nat.add_zero]
    · have htruth : ∀ x ∈ reserving, Truthful (fun _ => False) x := by
        intro x hx
        have hres := ((reserveChunk_uses k selected _).of_trace hreserving).1 x hx
        obtain ⟨op, answer⟩ := x
        cases op with
        | tryReserve | reserve => cases answer <;> simp [Truthful]
        | _ => exact hres.elim
      have hne : permits ≠ [] := fun hnil => hsome (by rw [hnil]; rfl)
      obtain ⟨x, hx, hgrant⟩ := (reserveChunk_trace hreserving htruth).1.mp hne
      exact .inr ⟨x, by simp [hx], hgrant⟩
    · rw [hsent, flatMap_permits hlive (.refl _) hs id]
    · rw [hsent]
      refine List.flatMap_eq_nil_iff.mpr fun x hx => if_neg fun heq => hchan ?_
      exact heq ▸ List.mem_map_of_mem (mem_targets.mp hx).1

-- ---- The admission loop

theorem admitChunks_within {chunks : List (List ρ)} {selected : List (Sender ρ)}
    {committed : Bool} {result : PublishResult}
    (h : (admitChunks chunks k selected committed).Trace trace result)
    (hnodup : (selected.map Sender.chan).Nodup) :
    (∀ x ∈ refusals trace, k ≤ x.1 ∧ x.2 ∈ selected.map Sender.chan) ∧
      ∀ chan ∉ selected.map Sender.chan, sentTo chan trace = [] := by
  induction chunks generalizing trace k selected committed with
  | nil =>
    obtain ⟨rfl, -⟩ := trace_pure.mp h
    exact ⟨nofun, fun _ _ => rfl⟩
  | cons chunk rest ih =>
    obtain ⟨live, gone, head, tail, rfl, hperm, hrefused, -, hrest⟩ := admitChunks_divides h hnodup
    have hchans := hperm.map Sender.chan
    have hgone : ∀ x ∈ refusals head, k ≤ x.1 ∧ x.2 ∈ selected.map Sender.chan := by
      rw [hrefused]
      intro x hx
      obtain ⟨s, hs, rfl⟩ := List.mem_map.mp hx
      exact ⟨Nat.le_refl k, List.mem_map_of_mem (hperm.subset (List.mem_append_right _ hs))⟩
    rcases hrest with ⟨rfl, -, hsent⟩ | ⟨htail, -, -, hsent⟩
    · rw [List.append_nil]
      exact ⟨hgone, fun chan _ => hsent chan⟩
    · obtain ⟨hlive, -, -⟩ := nodup_divides hperm hnodup
      have hsub : ∀ chan ∈ live.map Sender.chan, chan ∈ selected.map Sender.chan := fun chan hchan =>
        hchans.subset (by simpa using .inl (by simpa using hchan))
      obtain ⟨hwithin, hothers⟩ := ih htail hlive
      constructor
      · rw [refusals_append, List.forall_mem_append]
        refine ⟨hgone, fun x hx => ?_⟩
        obtain ⟨hk, hchan⟩ := hwithin x hx
        exact ⟨by omega, hsub _ hchan⟩
      · intro chan hchan
        have hnot : chan ∉ live.map Sender.chan := fun hlive => hchan (hsub chan hlive)
        rw [sentTo_append, hsent chan hnot, hothers chan hnot]
        rfl

theorem admitChunks_added {chunks : List (List ρ)} {selected : List (Sender ρ)}
    {result : PublishResult} (h : (admitChunks chunks k selected true).Trace trace result)
    (hnodup : (selected.map Sender.chan).Nodup)
    (haccepts : ∀ j chan, (k + j, chan) ∈ refusals trace → ∀ s ∈ selected, s.chan = chan →
      ∀ record ∈ (chunks.drop j).flatten, s.accepts record = true) :
    added trace = (selected.map (owed (refusals trace) chunks.flatten trace)).sum := by
  induction chunks generalizing trace k selected with
  | nil =>
    obtain ⟨rfl, -⟩ := trace_pure.mp h
    have hzero : ∀ s ∈ selected, owed (refusals ([] : List (BusDone ρ))) [] [] s = 0 :=
      fun s _ => owed_of_notMem (by simp [refusals])
    rw [List.flatten_nil, List.map_congr_left hzero]
    simp [added]
  | cons chunk rest ih =>
    obtain ⟨live, gone, head, tail, rfl, hperm, hrefused, hadded, hrest⟩ :=
      admitChunks_divides h hnodup
    obtain ⟨hlive, hkept, hlost⟩ := nodup_divides hperm hnodup
    have hheadchans : (refusals head).map Prod.snd = gone.map Sender.chan := by
      rw [hrefused, List.map_map]
      rfl
    -- whoever is refused here gets nothing any more and would have got everything
    have howed : ∀ s ∈ gone, sentTo s.chan (head ++ tail) = [] →
        owed (refusals (head ++ tail)) (chunk :: rest).flatten (head ++ tail) s =
          (chunk :: rest).flatten.length := by
      intro s hs hnil
      have hmem : (k, s.chan) ∈ refusals (head ++ tail) := by
        rw [refusals_append, hrefused]
        exact List.mem_append_left _ (List.mem_map_of_mem hs)
      have hall : ∀ record ∈ (chunk :: rest).flatten, s.accepts record = true :=
        haccepts 0 s.chan hmem s (hperm.subset (List.mem_append_right _ hs)) rfl
      rw [owed, if_pos (List.mem_map_of_mem (f := Prod.snd) hmem), hnil, List.filter_eq_self.mpr hall]
      rfl
    rw [sum_divides hperm, added_append, hadded, if_pos rfl]
    rcases hrest with ⟨rfl, -, hsent⟩ | ⟨htail, -, hsentlive, hsent⟩
    · have hlivezero : ∀ s ∈ live, owed (refusals (head ++ [])) (chunk :: rest).flatten
          (head ++ []) s = 0 := by
        refine fun s hs => owed_of_notMem ?_
        rw [List.append_nil, hheadchans]
        exact hkept s hs
      rw [List.map_congr_left hlivezero,
        List.map_congr_left fun s hs => howed s hs (by simpa using hsent s.chan)]
      simp [added]
    · obtain ⟨hwithin, hothers⟩ := admitChunks_within htail hlive
      have hgoneadded : ∀ s ∈ gone, owed (refusals (head ++ tail)) (chunk :: rest).flatten
          (head ++ tail) s = (chunk :: rest).flatten.length := by
        intro s hs
        have hnot := hlost s hs
        exact howed s hs (by rw [sentTo_append, hsent _ hnot, hothers _ hnot]; rfl)
      have hliveadded : ∀ s ∈ live, owed (refusals (head ++ tail)) (chunk :: rest).flatten
          (head ++ tail) s = owed (refusals tail) rest.flatten tail s := by
        intro s hs
        rw [refusals_append, List.flatten_cons]
        refine owed_append _ ?_ (hsentlive s hs)
        rw [hheadchans]
        exact hkept s hs
      have haccepts' : ∀ j chan, (k + 1 + j, chan) ∈ refusals tail → ∀ s ∈ live, s.chan = chan →
          ∀ record ∈ (rest.drop j).flatten, s.accepts record = true := by
        intro j chan hmem s hs hchan
        refine haccepts (j + 1) chan ?_ s (hperm.subset (List.mem_append_left _ hs)) hchan
        rw [refusals_append]
        exact List.mem_append_right _ (by rwa [show k + (j + 1) = k + 1 + j by omega])
      rw [ih htail hlive haccepts', List.map_congr_left hliveadded, List.map_congr_left hgoneadded]
      simp [Nat.add_comm]

/-- The refusals after the first chunk. -/
def laterRefusals (trace : List (BusDone ρ)) : List (Nat × Nat) :=
  (refusals trace).filter fun x => 0 < x.1

theorem mem_laterRefusals {x : Nat × Nat} :
    x ∈ laterRefusals trace ↔ x ∈ refusals trace ∧ 0 < x.1 := by
  simp [laterRefusals]

theorem admitChunks_first_added {chunks : List (List ρ)} {selected : List (Sender ρ)}
    {result : PublishResult} (h : (admitChunks chunks 0 selected false).Trace trace result)
    (hnodup : (selected.map Sender.chan).Nodup)
    (haccepts : ∀ j chan, (j + 1, chan) ∈ refusals trace → ∀ s ∈ selected, s.chan = chan →
      ∀ record ∈ (chunks.drop (j + 1)).flatten, s.accepts record = true) :
    added trace = missedBy selected (laterRefusals trace) chunks.flatten trace result := by
  cases chunks with
  | nil =>
    obtain ⟨rfl, rfl⟩ := trace_pure.mp h
    have hzero : ∀ s ∈ selected, owed (laterRefusals ([] : List (BusDone ρ))) [] [] s = 0 :=
      fun s _ => owed_of_notMem (by simp [laterRefusals, refusals])
    rw [missedBy, List.flatten_nil, List.map_congr_left hzero]
    simp [added]
  | cons chunk rest =>
    obtain ⟨live, gone, head, tail, rfl, hperm, hrefused, hadded, hrest⟩ :=
      admitChunks_divides h hnodup
    rw [if_neg Bool.false_ne_true] at hadded
    rcases hrest with ⟨rfl, rfl, -⟩ | ⟨htail, -, hsentlive, -⟩
    · rw [List.append_nil, hadded]
      rfl
    obtain ⟨hlive, -, hlost⟩ := nodup_divides hperm hnodup
    obtain ⟨hwithin, -⟩ := admitChunks_within htail hlive
    obtain ⟨n, rfl⟩ := ((admitChunks_uses rest 1 live true).of_trace htail).2 rfl
    -- the first chunk's refusals are left out, the others are all later ones
    have hlater : laterRefusals (head ++ tail) = refusals tail := by
      rw [laterRefusals, refusals_append, List.filter_append, hrefused]
      have hnone : (gone.map fun s : Sender ρ => (0, s.chan)).filter (fun x => 0 < x.1) = [] := by
        simp
      have hall : (refusals tail).filter (fun x => 0 < x.1) = refusals tail :=
        List.filter_eq_self.mpr fun x hx => decide_eq_true (hwithin x hx).1
      rw [hnone, hall, List.nil_append]
    have hgonezero : ∀ s ∈ gone, owed (laterRefusals (head ++ tail)) (chunk :: rest).flatten
        (head ++ tail) s = 0 := by
      refine fun s hs => owed_of_notMem fun hmem => ?_
      rw [hlater] at hmem
      obtain ⟨x, hx, heq⟩ := List.mem_map.mp hmem
      exact hlost s hs (heq ▸ (hwithin x hx).2)
    have hliveadded : ∀ s ∈ live, owed (laterRefusals (head ++ tail)) (chunk :: rest).flatten
        (head ++ tail) s = owed (refusals tail) rest.flatten tail s := by
      intro s hs
      rw [hlater, List.flatten_cons]
      exact owed_append [] (by simp) (hsentlive s hs)
    have haccepts' : ∀ j chan, (0 + 1 + j, chan) ∈ refusals tail → ∀ s ∈ live, s.chan = chan →
        ∀ record ∈ (rest.drop j).flatten, s.accepts record = true := by
      intro j chan hmem s hs hchan
      refine haccepts j chan ?_ s (hperm.subset (List.mem_append_left _ hs)) hchan
      rw [refusals_append]
      exact List.mem_append_right _ (by rwa [show j + 1 = 0 + 1 + j by omega])
    rw [missedBy, sum_divides hperm, added_append, hadded, admitChunks_added htail hlive haccepts',
      List.map_congr_left hliveadded, List.map_congr_left hgonezero]
    simp

theorem admitChunks_first_grants {chunks : List (List ρ)} {selected : List (Sender ρ)} {n chan : Nat}
    (h : (admitChunks chunks 0 selected false).Trace trace (.ok n))
    (hnodup : (selected.map Sender.chan).Nodup) (hrefused : (0, chan) ∈ refusals trace) :
    ∃ x ∈ trace, Grants 0 x := by
  cases chunks with
  | nil =>
    obtain ⟨rfl, -⟩ := trace_pure.mp h
    cases hrefused
  | cons chunk rest =>
    obtain ⟨live, gone, head, tail, rfl, hperm, hhead, -, hrest⟩ := admitChunks_divides h hnodup
    rcases hrest with ⟨-, hresult, -⟩ | ⟨htail, hgrants, -⟩
    · cases hresult
    obtain ⟨hlive, -, -⟩ := nodup_divides hperm hnodup
    rcases hgrants with rfl | ⟨x, hx, hgrant⟩
    · rw [refusals_append, hhead, List.map_nil, List.nil_append] at hrefused
      have hlater := ((admitChunks_within htail hlive).1 _ hrefused).1
      omega
    · exact ⟨x, List.mem_append_left _ hx, hgrant⟩

-- ---- The whole call

theorem found_admits (h : ∀ x ∈ trace, x.1.Admits k) : found trace = [] := by
  refine List.filterMap_eq_nil_iff.mpr fun x hx => ?_
  have hadmits := h x hx
  obtain ⟨op, answer⟩ := x
  cases op <;> first | rfl | exact hadmits.elim

theorem snapshot_aside {result : Nat × List (Sender ρ)} (h : snapshot.Trace trace result)
    (hread : ∀ senders, ⟨.readSenders, senders⟩ ∈ trace → (senders.map Sender.chan).Nodup) :
    (∀ x ∈ trace, x.1.Aside) ∧ (result.2.map Sender.chan).Nodup := by
  simp only [snapshot, trace_bind, trace_perform, trace_pure] at h
  obtain ⟨_, senders, _, rfl, rfl, looking, live, _, rfl, hlive, rfl, rfl⟩ := h
  obtain ⟨hlooks, hsub⟩ := (liveSenders_uses senders).of_trace hlive
  constructor
  · intro x hx
    simp only [List.append_nil, List.singleton_append, List.mem_cons] at hx
    rcases hx with rfl | hx
    · trivial
    · obtain ⟨s, hop⟩ := hlooks x hx
      rw [hop]
      trivial
  · exact (hread senders (by simp)).sublist (hsub.map _)

theorem admitBatch_loop {records : List ρ} {result : PublishResult}
    (h : (admitBatch records).Trace trace result)
    (hread : ∀ senders, ⟨.readSenders, senders⟩ ∈ trace → (senders.map Sender.chan).Nodup) :
    ∃ before loop, trace = before ++ loop ∧ (∀ x ∈ before, x.1.Aside) ∧
      ((found trace).map Sender.chan).Nodup ∧
      (loop = [] ∧ found trace = [] ∨
        (admitChunks (Lib.chunks admissionChunkRecords records) 0 (found trace) false).Trace
          loop result) := by
  obtain ⟨looking, registered, selected, purging, loop, rfl, hlooking, hpurging, hloop⟩ :=
    opening_cases (.ok 0) (admitChunks (Lib.chunks admissionChunkRecords records) 0 · false) h
  obtain ⟨hlooks, hnodup⟩ := snapshot_aside hlooking fun senders hmem =>
    hread senders (List.mem_append_left _ hmem)
  have hbefore : ∀ x ∈ looking ++ purging, x.1.Aside := by
    intro x hx
    rcases List.mem_append.mp hx with hx | hx
    · exact hlooks x hx
    · rw [hpurging x hx]
      trivial
  have hfound : found (looking ++ (purging ++ loop)) = selected ++ found loop := by
    rw [found_append, found_append, (snapshot_found hlooking).2,
      (untouched_of_purge hpurging).found, List.nil_append]
  rcases hloop with ⟨rfl, rfl⟩ | hloop
  · rw [hfound]
    exact ⟨looking ++ purging, [], by simp, hbefore, .nil, .inl ⟨rfl, rfl⟩⟩
  · rw [hfound, found_admits ((admitChunks_uses _ 0 selected false).of_trace hloop).1,
      List.append_nil]
    exact ⟨looking ++ purging, loop, by simp, hbefore, hnodup, .inr hloop⟩

theorem publishBatchTopic_loop {records : List ρ} {result : PublishResult}
    (h : (publishBatchTopic records).Trace trace result)
    (hread : ∀ senders, ⟨.readSenders, senders⟩ ∈ trace → (senders.map Sender.chan).Nodup) :
    ∃ before loop after, trace = before ++ loop ++ after ∧ (∀ x ∈ before, x.1.Aside) ∧
      (∀ x ∈ after, x.1.Aside) ∧ ((found trace).map Sender.chan).Nodup ∧
      (loop = [] ∧ found trace = [] ∨
        (admitChunks (Lib.chunks admissionChunkRecords records) 0 (found trace) false).Trace
          loop result) := by
  unfold publishBatchTopic at h
  split at h
  · obtain ⟨rfl, -⟩ := trace_pure.mp h
    exact ⟨[], [], [], rfl, nofun, nofun, .nil, .inl ⟨rfl, rfl⟩⟩
  simp only [trace_bind, trace_perform, trace_pure] at h
  obtain ⟨entering, _, _, rfl, hentering, _, _, _, rfl, rfl, admitting, _, _, rfl, hadmitting, _,
    _, _, rfl, rfl, _, _, _, rfl, rfl, rfl, rfl⟩ := h
  obtain ⟨before, loop, rfl, hbefore, hnodup, hloop⟩ := admitBatch_loop hadmitting
    fun senders hmem => hread senders (by simp only [List.mem_append]; exact .inr (.inr (.inl hmem)))
  have hfound : found (entering ++ ([⟨.storeBatchActive true, ()⟩] ++ (before ++ loop ++
      ([⟨.storeBatchActive false, ()⟩] ++ ([⟨.unlockGate, ()⟩] ++ []))))) = found (before ++ loop) := by
    rw [found_append, (admission_acquires hentering).1.found]
    simp [found]
  rw [hfound]
  refine ⟨entering ++ [⟨.storeBatchActive true, ()⟩] ++ before, loop,
    [⟨.storeBatchActive false, ()⟩, ⟨.unlockGate, ()⟩], by simp, ?_, ?_, hnodup, hloop⟩
  · intro x hx
    simp only [List.mem_append, List.mem_singleton] at hx
    rcases hx with (hx | rfl) | hx
    · rcases (admission_uses.of_trace hentering).1 x hx with hop | hop <;> rw [hop] <;> trivial
    · trivial
    · exact hbefore x hx
  · intro x hx
    simp only [List.mem_cons, List.not_mem_nil, or_false] at hx
    rcases hx with rfl | rfl <;> trivial

theorem publishBatchTopic_added {records : List ρ} {result : PublishResult}
    (h : (publishBatchTopic records).Trace trace result)
    (hread : ∀ senders, ⟨.readSenders, senders⟩ ∈ trace → (senders.map Sender.chan).Nodup)
    (haccepts : ∀ x ∈ laterRefusals trace, ∀ s ∈ found trace, s.chan = x.2 →
      ∀ record ∈ records.drop (x.1 * admissionChunkRecords), s.accepts record = true) :
    added trace = missedBy (found trace) (laterRefusals trace) records trace result := by
  obtain ⟨before, loop, after, htrace, hbefore, hafter, hnodup, hloop⟩ :=
    publishBatchTopic_loop h hread
  have hrefusals : refusals trace = refusals loop := by
    rw [htrace, refusals_append, refusals_append, refusals_aside hbefore, refusals_aside hafter]
    simp
  have hadded : added trace = added loop := by
    rw [htrace, added_append, added_append, added_aside hbefore, added_aside hafter]
    simp
  have hsent : ∀ chan, sentTo chan trace = sentTo chan loop := by
    intro chan
    rw [htrace, sentTo_append, sentTo_append, sentTo_aside chan hbefore, sentTo_aside chan hafter]
    simp
  have hlater : laterRefusals trace = laterRefusals loop := congrArg (List.filter _) hrefusals
  rcases hloop with ⟨rfl, hnone⟩ | hloop
  · rw [hnone, hadded]
    cases result <;> rfl
  · have howed : owed (laterRefusals trace) records trace =
        owed (laterRefusals loop) (Lib.chunks admissionChunkRecords records).flatten loop := by
      funext s
      rw [owed, owed, hlater, hsent, Lib.flatten_chunks (by decide)]
    rw [hadded, admitChunks_first_added hloop hnodup ?_]
    · cases result with
      | ok n => rw [missedBy, missedBy, howed]
      | error e => rfl
    · intro j chan hmem s hs hchan
      rw [Lib.flatten_drop_chunks (n := admissionChunkRecords) (by decide)]
      rw [← hrefusals] at hmem
      exact haccepts (j + 1, chan) (mem_laterRefusals.mpr ⟨hmem, Nat.succ_pos j⟩) s hs hchan

theorem publishBatchTopic_grants {records : List ρ} {n chan : Nat}
    (h : (publishBatchTopic records).Trace trace (.ok n))
    (hread : ∀ senders, ⟨.readSenders, senders⟩ ∈ trace → (senders.map Sender.chan).Nodup)
    (hrefused : (0, chan) ∈ refusals trace) : ∃ x ∈ trace, Grants 0 x := by
  obtain ⟨before, loop, after, rfl, hbefore, hafter, hnodup, hloop⟩ :=
    publishBatchTopic_loop h hread
  rw [refusals_append, refusals_append, refusals_aside hbefore, refusals_aside hafter,
    List.append_nil, List.nil_append] at hrefused
  rcases hloop with ⟨rfl, -⟩ | hloop
  · cases hrefused
  · obtain ⟨x, hx, hgrant⟩ := admitChunks_first_grants hloop hnodup hrefused
    exact ⟨x, by simp [hx], hgrant⟩

end Rekuiper.Bus
