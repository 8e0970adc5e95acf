import Rekuiper.Bus.Parts

/-!
# What a batch delivers

A batch is admitted chunk by chunk. A subscriber whose slots cannot be reserved is
taken for closed, also when it asked for more slots than its queue has; and when
nobody in a chunk could be reserved the whole call returns, also when subscribers
without records in this chunk are still open. Apart from these two, a subscriber
that stays open gets exactly the records its filter accepts.
-/

namespace Rekuiper.Bus

open Lib (Prog ownTrace)
open Lib.Prog

variable {ρ : Type}

abbrev BusDone (ρ : Type) := Lib.Done (BusOp ρ) BusOp.Answer

-- ---- Traces of the parts

def sentTo (chan : Nat) (trace : List (BusDone ρ)) : List ρ :=
  trace.filterMap fun x =>
    match x.1 with
    | .send c record => if c = chan then some record else none
    | _ => none

@[simp]
theorem sentTo_append (chan : Nat) (first second : List (BusDone ρ)) :
    sentTo chan (first ++ second) = sentTo chan first ++ sentTo chan second :=
  List.filterMap_append

theorem sentTo_quiet (chan : Nat) {trace : List (BusDone ρ)} (h : ∀ x ∈ trace, x.1.Quiet) :
    sentTo chan trace = [] := by
  refine List.filterMap_eq_nil_iff.mpr fun x hx => ?_
  have hquiet := h x hx
  obtain ⟨op, answer⟩ := x
  cases op <;> first | rfl | exact hquiet.elim

/-- The answer grants slots for chunk `k`. -/
def Grants (k : Nat) : BusDone ρ → Prop
  | ⟨.tryReserve chunk _ _, .permit⟩ => chunk = k
  | ⟨.reserve chunk _ _, true⟩ => chunk = k
  | _ => False

/-- The answers to rely on: a queue found closed, or without the slots asked for,
does not stay open. -/
def Truthful (open_ : Nat → Prop) : BusDone ρ → Prop
  | ⟨.isClosed s, true⟩ => ¬open_ s.chan
  | ⟨.tryReserve _ chan _, .closed⟩ => ¬open_ chan
  | ⟨.reserve _ chan _, false⟩ => ¬open_ chan
  | ⟨.readSenders, senders⟩ => (senders.map Sender.chan).Nodup
  | _ => True

theorem Grants.reserves {k : Nat} {x : BusDone ρ} (h : Grants k x) : x.1.Reserves k := by
  unfold Grants at h
  split at h
  · exact h
  · exact h
  · exact h.elim

variable {open_ : Nat → Prop} {trace : List (BusDone ρ)} {k : Nat}

theorem reserveSlots_trace {chan n : Nat} {reserved : Bool}
    (h : (reserveSlots k chan n).Trace trace reserved) (htruth : ∀ x ∈ trace, Truthful open_ x) :
    (reserved = true ↔ ∃ x ∈ trace, Grants k x) ∧ (reserved = false → ¬open_ chan) := by
  simp only [reserveSlots, trace_bind, trace_perform] at h
  obtain ⟨_, answer, second, rfl, rfl, h⟩ := h
  cases answer with
  | permit =>
    simp only [trace_pure] at h
    obtain ⟨rfl, rfl⟩ := h
    exact ⟨by simp [Grants], by simp⟩
  | closed =>
    simp only [trace_pure] at h
    obtain ⟨rfl, rfl⟩ := h
    exact ⟨by simp [Grants], fun _ => htruth ⟨.tryReserve k chan n, .closed⟩ (by simp)⟩
  | full =>
    simp only [trace_perform] at h
    subst h
    cases reserved with
    | true => exact ⟨by simp [Grants], by simp⟩
    | false => exact ⟨by simp [Grants], fun _ => htruth ⟨.reserve k chan n, false⟩ (by simp)⟩

theorem reserveChunk_trace {selected : List (Sender ρ)} {subMatches : List (Nat × List ρ)}
    {result : List (Sender ρ × List ρ) × List Nat}
    (h : (reserveChunk k selected subMatches).Trace trace result)
    (htruth : ∀ x ∈ trace, Truthful open_ x) :
    (result.1 ≠ [] ↔ ∃ x ∈ trace, Grants k x) ∧
      (∀ x ∈ subMatches, ∀ s, selected[x.1]? = some s → open_ s.chan → (s, x.2) ∈ result.1) ∧
      result.2.Sublist (subMatches.map Prod.fst) ∧
      ∀ idx ∈ result.2, ∀ s, selected[idx]? = some s → ¬open_ s.chan := by
  induction subMatches generalizing trace result with
  | nil =>
    simp only [reserveChunk, trace_pure] at h
    obtain ⟨rfl, rfl⟩ := h
    simp
  | cons x rest ih =>
    obtain ⟨idx, matched⟩ := x
    simp only [reserveChunk] at h
    cases hs : selected[idx]? with
    | none =>
      rw [hs] at h
      obtain ⟨hgrant, hkept, hclosed, hlost⟩ := ih h htruth
      refine ⟨hgrant, ?_, hclosed.cons _, hlost⟩
      refine List.forall_mem_cons.mpr ⟨fun s hs' => ?_, hkept⟩
      rw [hs] at hs'
      cases hs'
    | some s =>
      rw [hs] at h
      simp only [trace_bind, trace_pure] at h
      obtain ⟨first, reserved, _, rfl, hslots, second, result', _, rfl, hrest, rfl, rfl⟩ := h
      obtain ⟨hfirst, hdead⟩ := reserveSlots_trace hslots fun x hx => htruth x (by simp [hx])
      obtain ⟨hgrant, hkept, hclosed, hlost⟩ := ih hrest fun x hx => htruth x (by simp [hx])
      cases reserved with
      | true =>
        obtain ⟨y, hy, hgrants⟩ := hfirst.mp rfl
        refine ⟨?_, ?_, hclosed.cons _, hlost⟩
        · exact ⟨fun _ => ⟨y, by simp [hy], hgrants⟩, fun _ => by simp⟩
        · refine List.forall_mem_cons.mpr ⟨fun s' hs' _ => ?_, fun x hx s' hs' ho => ?_⟩
          · rw [hs] at hs'
            cases hs'
            exact List.mem_cons_self
          · exact List.mem_cons_of_mem _ (hkept x hx s' hs' ho)
      | false =>
        have hnone : ∀ y ∈ first, ¬Grants k y :=
          fun y hy hgrants => Bool.noConfusion (hfirst.mpr ⟨y, hy, hgrants⟩)
        refine ⟨?_, ?_, hclosed.cons_cons _, ?_⟩
        · constructor
          · intro hne
            obtain ⟨y, hy, hgrants⟩ := hgrant.mp hne
            exact ⟨y, by simp [hy], hgrants⟩
          · rintro ⟨y, hy, hgrants⟩
            rcases List.mem_append.mp hy with hy | hy
            · exact absurd hgrants (hnone y hy)
            · exact hgrant.mpr ⟨y, by simpa using hy, hgrants⟩
        · refine List.forall_mem_cons.mpr ⟨fun s' hs' ho => ?_, hkept⟩
          rw [hs] at hs'
          cases hs'
          exact absurd ho (hdead rfl)
        · refine List.forall_mem_cons.mpr ⟨fun s' hs' => ?_, hlost⟩
          rw [hs] at hs'
          cases hs'
          exact hdead rfl

theorem sendRecords_sentTo {s : Sender ρ} {matched : List ρ} {result : Unit}
    (h : (sendRecords s matched).Trace trace result) (chan : Nat) :
    sentTo chan trace = if s.chan = chan then matched else [] := by
  induction matched generalizing trace with
  | nil =>
    simp only [sendRecords, trace_pure] at h
    rw [h.1]
    split <;> rfl
  | cons record rest ih =>
    simp only [sendRecords, trace_bind, trace_perform] at h
    obtain ⟨_, _, second, rfl, rfl, hrest⟩ := h
    rw [sentTo_append, ih hrest]
    by_cases hchan : s.chan = chan
    · simp [sentTo, hchan]
    · simp [sentTo, hchan]

theorem sendChunk_sentTo {permits : List (Sender ρ × List ρ)} {result : Unit}
    (h : (sendChunk permits).Trace trace result) (chan : Nat) :
    sentTo chan trace = permits.flatMap fun x => if x.1.chan = chan then x.2 else [] := by
  induction permits generalizing trace with
  | nil =>
    simp only [sendChunk, trace_pure] at h
    rw [h.1]
    rfl
  | cons x rest ih =>
    simp only [sendChunk, trace_bind] at h
    obtain ⟨first, _, second, rfl, hfirst, hrest⟩ := h
    rw [sentTo_append, sendRecords_sentTo hfirst, ih hrest, List.flatMap_cons]

-- ---- The selection

theorem eq_of_chan_eq {selected : List (Sender ρ)} (hnodup : (selected.map Sender.chan).Nodup)
    {s s' : Sender ρ} (hs : s ∈ selected) (hs' : s' ∈ selected) (h : s.chan = s'.chan) : s = s' :=
  List.inj_on_of_nodup_map hnodup hs hs' h

theorem flatMap_permits {chunk : List ρ} {selected : List (Sender ρ)}
    {permits : List (Sender ρ × List ρ)} (hnodup : (selected.map Sender.chan).Nodup)
    (hpermits : permits.Sublist (targets chunk selected)) {s : Sender ρ} (hs : s ∈ selected)
    (hkept : (s, chunk.filter s.accepts) ∈ targets chunk selected →
      (s, chunk.filter s.accepts) ∈ permits) :
    (permits.flatMap fun x => if x.1.chan = s.chan then x.2 else []) = chunk.filter s.accepts := by
  have hskip : ∀ l : List (Sender ρ × List ρ), (∀ x ∈ l, x.1.chan ≠ s.chan) →
      (l.flatMap fun x => if x.1.chan = s.chan then x.2 else []) = [] := fun l hl =>
    List.flatMap_eq_nil_iff.mpr fun x hx => if_neg (hl x hx)
  by_cases htarget : (s, chunk.filter s.accepts) ∈ targets chunk selected
  · have hchans := nodup_permits hnodup hpermits
    obtain ⟨pre, post, rfl⟩ := List.append_of_mem (hkept htarget)
    simp only [List.map_append, List.map_cons, List.nodup_append, List.nodup_cons] at hchans
    obtain ⟨-, ⟨hpost, -⟩, hpre⟩ := hchans
    rw [List.flatMap_append, List.flatMap_cons, if_pos rfl, hskip pre, hskip post]
    · simp
    · exact fun x hx heq => hpost (heq ▸ List.mem_map_of_mem hx)
    · exact fun x hx => hpre _ (List.mem_map_of_mem hx) _ List.mem_cons_self
  · have hnil : chunk.filter s.accepts = [] := by
      by_contra hne
      exact htarget (mem_targets.mpr ⟨hs, rfl, hne⟩)
    rw [hnil]
    refine hskip permits fun x hx hchan => ?_
    obtain ⟨hmem, hrecords, hne⟩ := mem_targets.mp (hpermits.subset hx)
    rw [hrecords, eq_of_chan_eq hnodup hmem hs hchan, hnil] at hne
    exact hne rfl

theorem getElem?_removeIndices {closed : List Nat} {selected : List (Sender ρ)} {i : Nat}
    (h : ∀ idx ∈ closed, i < idx) : (removeIndices closed selected)[i]? = selected[i]? := by
  induction closed with
  | nil => rfl
  | cons idx rest ih =>
    obtain ⟨hidx, hrest⟩ := List.forall_mem_cons.mp h
    show ((removeIndices rest selected).eraseIdx idx)[i]? = _
    rw [List.getElem?_eraseIdx_of_lt hidx, ih hrest]

theorem mem_removeIndices {closed : List Nat} {selected : List (Sender ρ)} {s : Sender ρ}
    (hsorted : closed.Pairwise (· < ·)) (hs : s ∈ selected)
    (hkeep : ∀ idx ∈ closed, selected[idx]? ≠ some s) : s ∈ removeIndices closed selected := by
  induction closed with
  | nil => exact hs
  | cons idx rest ih =>
    obtain ⟨hlt, hsorted⟩ := List.pairwise_cons.mp hsorted
    obtain ⟨hidx, hrest⟩ := List.forall_mem_cons.mp hkeep
    obtain ⟨i, hi⟩ := List.mem_iff_getElem?.mp (ih hsorted hrest)
    refine List.mem_eraseIdx_iff_getElem?.mpr ⟨i, fun heq => ?_, hi⟩
    subst heq
    rw [getElem?_removeIndices hlt] at hi
    exact hidx hi

theorem lt_of_mem_indexedTargets {chunk : List ρ} {selected : List (Sender ρ)}
    {x : Nat × List ρ} (h : x ∈ indexedTargets chunk selected.zipIdx) :
    x.1 < selected.length := by
  obtain ⟨y, hy, heq⟩ := List.mem_filterMap.mp h
  simp only [Option.ite_none_left_eq_some, Option.some.injEq] at heq
  rw [← heq.2]
  have hlookup := List.mem_zipIdx_iff_getElem?.mp hy
  exact (List.getElem?_eq_some_iff.mp hlookup).1

theorem pairwise_indexedTargets (chunk : List ρ) (selected : List (Sender ρ)) :
    ((indexedTargets chunk selected.zipIdx).map Prod.fst).Pairwise (· < ·) := by
  have hsub : ∀ indexed : List (Sender ρ × Nat),
      ((indexedTargets chunk indexed).map Prod.fst).Sublist (indexed.map Prod.snd) := by
    intro indexed
    induction indexed with
    | nil => exact .slnil
    | cons x rest ih =>
      simp only [indexedTargets, List.filterMap_cons]
      cases (chunk.filter x.1.accepts).isEmpty with
      | true => exact ih.cons _
      | false => exact ih.cons_cons _
  refine List.Pairwise.sublist (hsub selected.zipIdx) ?_
  rw [List.zipIdx_map_snd]
  exact List.pairwise_lt_range'

-- ---- The admission loop

theorem reserveChunk_reserves {selected : List (Sender ρ)} {x : Nat × List ρ}
    {rest : List (Nat × List ρ)} {result : List (Sender ρ × List ρ) × List Nat}
    (hx : x.1 < selected.length)
    (h : (reserveChunk k selected (x :: rest)).Trace trace result) :
    ∃ y ∈ trace, y.1.Reserves k := by
  obtain ⟨idx, matched⟩ := x
  simp only [reserveChunk, List.getElem?_eq_getElem hx, reserveSlots, trace_bind,
    trace_perform] at h
  obtain ⟨_, _, _, rfl, ⟨_, answer, _, rfl, rfl, -⟩, -⟩ := h
  refine ⟨_, List.mem_append_left _ (List.mem_append_left _ List.mem_cons_self), rfl⟩

theorem targets_eq_nil {chunk : List ρ} {selected : List (Sender ρ)} {s : Sender ρ}
    (hempty : indexedTargets chunk selected.zipIdx = []) (hs : s ∈ selected) :
    chunk.filter s.accepts = [] := by
  by_contra hne
  have hmem : (s, chunk.filter s.accepts) ∈ targets chunk selected := mem_targets.mpr ⟨hs, rfl, hne⟩
  rw [← filterMap_indexedTargets, hempty] at hmem
  cases hmem

theorem reserveChunk_asks {chunk : List ρ} {selected : List (Sender ρ)}
    {result : List (Sender ρ × List ρ) × List Nat}
    (hne : indexedTargets chunk selected.zipIdx ≠ [])
    (h : (reserveChunk k selected (indexedTargets chunk selected.zipIdx)).Trace trace result) :
    ∃ y ∈ trace, y.1.Reserves k := by
  cases htargets : indexedTargets chunk selected.zipIdx with
  | nil => exact absurd htargets hne
  | cons x rest =>
    have hx := lt_of_mem_indexedTargets (htargets ▸ List.mem_cons_self)
    rw [htargets] at h
    exact reserveChunk_reserves hx h

theorem mem_permits {chunk : List ρ} {selected : List (Sender ρ)}
    {permits : List (Sender ρ × List ρ)} {s : Sender ρ} {records : List ρ}
    (hkept : ∀ x ∈ indexedTargets chunk selected.zipIdx, ∀ s, selected[x.1]? = some s →
      open_ s.chan → (s, x.2) ∈ permits)
    (ho : open_ s.chan) (hmem : (s, records) ∈ targets chunk selected) : (s, records) ∈ permits := by
  rw [← filterMap_indexedTargets] at hmem
  obtain ⟨x, hx, heq⟩ := List.mem_filterMap.mp hmem
  obtain ⟨s', hs', heq⟩ := Option.map_eq_some_iff.mp heq
  obtain ⟨rfl, rfl⟩ := Prod.mk.inj heq
  exact hkept x hx s' hs' ho

/-- One chunk: it is stuck, with slots asked for and none granted, or every selected
subscriber that stays open gets its records and stays selected. -/
theorem admitChunks_cons_trace {chunk : List ρ} {rest : List (List ρ)}
    {selected : List (Sender ρ)} {committed : Bool} {result : PublishResult}
    (h : (admitChunks (chunk :: rest) k selected committed).Trace trace result)
    (htruth : ∀ x ∈ trace, Truthful open_ x) (hnodup : (selected.map Sender.chan).Nodup) :
    ((∃ x ∈ trace, x.1.Reserves k) ∧ (∀ x ∈ trace, ¬Grants k x) ∧
        (∀ chan, sentTo chan trace = []) ∧
        result = if committed then .ok 0 else .error .closed) ∨
      ∃ head tail selected', trace = head ++ tail ∧
        (admitChunks rest (k + 1) selected' true).Trace tail result ∧
        selected'.Sublist selected ∧ (∀ x ∈ head, ∀ j, x.1.Reserves j → j = k) ∧
        ∀ s ∈ selected, open_ s.chan →
          s ∈ selected' ∧ sentTo s.chan head = chunk.filter s.accepts := by
  simp only [admitChunks, trace_bind] at h
  obtain ⟨matching, _, trace, rfl, hmatching, h⟩ := h
  obtain ⟨hcounts, rfl⟩ := (matchChunk_uses chunk selected.zipIdx).of_trace hmatching
  have hmatching_quiet : ∀ chan, sentTo chan matching = [] := fun chan =>
    sentTo_quiet chan fun x hx => (hcounts x hx).quiet
  split at h
  · rename_i hempty
    refine .inr ⟨matching, trace, selected, rfl, h, List.Sublist.refl _, ?_, fun s hs _ => ⟨hs, ?_⟩⟩
    · exact fun x hx j hj => absurd hj (hcounts x hx).not_reserves
    · rw [hmatching_quiet, targets_eq_nil (List.isEmpty_iff.mp hempty) hs]
  rename_i hempty
  simp only [trace_bind] at h
  obtain ⟨reserving, ⟨permits, closed⟩, trace, rfl, hreserving, accounting, _, trace, rfl,
    haccounting, h⟩ := h
  obtain ⟨hreserves, hpermits⟩ := (reserveChunk_uses k selected _).of_trace hreserving
  rw [filterMap_indexedTargets] at hpermits
  have haccount := ((onlyIf_uses _ (uses_op (show BusOp.Bookkeeping
    (.addUndelivered _) from trivial))).of_trace haccounting).1
  obtain ⟨hgrant, hkept, hclosed, hlost⟩ := reserveChunk_trace hreserving fun x hx =>
    htruth x (by simp [hx])
  have hhead_quiet : ∀ chan, sentTo chan (matching ++ reserving ++ accounting) = [] := by
    intro chan
    refine sentTo_quiet chan fun x hx => ?_
    simp only [List.mem_append] at hx
    rcases hx with (hx | hx) | hx
    · exact (hcounts x hx).quiet
    · exact (hreserves x hx).quiet
    · exact (haccount x hx).quiet
  split at h
  · rename_i hstuck
    have hnone : permits = [] := List.isEmpty_iff.mp hstuck
    simp only [trace_bind, trace_perform, trace_pure] at h
    obtain ⟨_, _, _, rfl, rfl, rfl, rfl⟩ := h
    refine .inl ⟨?_, ?_, fun chan => ?_, rfl⟩
    · have hne : indexedTargets chunk selected.zipIdx ≠ [] := fun h => hempty (by rw [h]; rfl)
      obtain ⟨y, hy, hres⟩ := reserveChunk_asks hne hreserving
      exact ⟨y, by simp [hy], hres⟩
    · intro x hx hgrants
      simp only [List.mem_append, List.mem_singleton, List.not_mem_nil, or_false] at hx
      rcases hx with hx | hx | hx | rfl
      · exact (hcounts x hx).not_reserves hgrants.reserves
      · exact hgrant.mpr ⟨x, hx, hgrants⟩ hnone
      · exact (haccount x hx).not_reserves hgrants.reserves
      · exact hgrants.reserves
    · simpa [sentTo] using hhead_quiet chan
  · simp only [trace_bind] at h
    obtain ⟨sending, _, trace, rfl, hsending, purging, _, tail, rfl, hpurging, h⟩ := h
    have hpurge := ((onlyIf_uses _ (uses_op (show BusOp.Bookkeeping
      .purgeClosed from trivial))).of_trace hpurging).1
    have hsends := ((sendChunk_uses permits).of_trace hsending).1
    refine .inr ⟨(matching ++ reserving ++ accounting) ++ sending ++ purging, tail,
      removeIndices closed selected, by simp, h, removeIndices_sublist closed selected, ?_, ?_⟩
    · intro x hx j hj
      simp only [List.mem_append] at hx
      rcases hx with (((hx | hx) | hx) | hx) | hx
      · exact absurd hj (hcounts x hx).not_reserves
      · exact (hreserves x hx).eq_of_reserves hj
      · exact absurd hj (haccount x hx).not_reserves
      · obtain ⟨chan, record, hsend⟩ := hsends x hx
        rw [hsend] at hj
        exact hj.elim
      · exact absurd hj (hpurge x hx).not_reserves
    · intro s hs ho
      constructor
      · refine mem_removeIndices ((pairwise_indexedTargets chunk selected).sublist hclosed) hs ?_
        exact fun idx hidx heq => hlost idx hidx s heq ho
      · rw [sentTo_append, sentTo_append, hhead_quiet,
          sentTo_quiet _ fun x hx => (hpurge x hx).quiet, sendChunk_sentTo hsending,
          flatMap_permits hnodup hpermits hs]
        · simp
        · exact mem_permits hkept ho

/-- Where no chunk is stuck, every selected subscriber that stays open gets the
records it accepts, and the call succeeds. A stuck chunk does no harm to
subscribers without records in the rest of the batch, once something is
committed. -/
theorem admitChunks_trace {chunks : List (List ρ)} {selected : List (Sender ρ)}
    {committed : Bool} {result : PublishResult}
    (h : (admitChunks chunks k selected committed).Trace trace result)
    (htruth : ∀ x ∈ trace, Truthful open_ x) (hnodup : (selected.map Sender.chan).Nodup)
    (hcommitted : 0 < k → committed = true)
    (hstuck : ∀ j, (∃ x ∈ trace, x.1.Reserves j) → (∃ x ∈ trace, Grants j x) ∨
      ∀ s ∈ selected, open_ s.chan →
        0 < j ∧ (chunks.drop (j - k)).flatten.filter s.accepts = []) :
    ∀ s ∈ selected, open_ s.chan →
      (∃ n, result = .ok n) ∧ sentTo s.chan trace = chunks.flatten.filter s.accepts := by
  induction chunks generalizing trace k selected committed with
  | nil =>
    simp only [admitChunks, trace_pure] at h
    obtain ⟨rfl, rfl⟩ := h
    exact fun s _ _ => ⟨⟨_, rfl⟩, rfl⟩
  | cons chunk rest ih =>
    rcases admitChunks_cons_trace h htruth hnodup with
      ⟨hasked, hnone, hsent, rfl⟩ | ⟨head, tail, selected', rfl, htail, hsub, hhead, hkept⟩
    · intro s hs ho
      rcases hstuck k hasked with ⟨x, hx, hgrants⟩ | hharmless
      · exact absurd hgrants (hnone x hx)
      · obtain ⟨hk, hnil⟩ := hharmless s hs ho
        rw [Nat.sub_self, List.drop_zero] at hnil
        rw [hcommitted hk, hsent, hnil]
        exact ⟨⟨0, rfl⟩, rfl⟩
    · -- chunk numbers in the rest of the loop are larger, so the rest is not stuck either
      have hrest : ∀ x ∈ tail, ∀ j, x.1.Reserves j → k < j := by
        intro x hx j hj
        have hadmits := ((admitChunks_uses rest (k + 1) selected' true).of_trace htail).1 x hx
        exact hj.le_of_admits hadmits
      have hstuck' : ∀ j, (∃ x ∈ tail, x.1.Reserves j) → (∃ x ∈ tail, Grants j x) ∨
          ∀ s ∈ selected', open_ s.chan →
            0 < j ∧ (rest.drop (j - (k + 1))).flatten.filter s.accepts = [] := by
        rintro j ⟨x, hx, hj⟩
        have hkj := hrest x hx j hj
        rcases hstuck j ⟨x, by simp [hx], hj⟩ with ⟨y, hy, hgrants⟩ | hharmless
        · rcases List.mem_append.mp hy with hy | hy
          · have := hhead y hy j hgrants.reserves
            omega
          · exact .inl ⟨y, hy, hgrants⟩
        · refine .inr fun s hs ho => ⟨by omega, ?_⟩
          obtain ⟨m, rfl⟩ : ∃ m, j = k + 1 + m := ⟨j - (k + 1), by omega⟩
          have hnil := (hharmless s (hsub.subset hs) ho).2
          rwa [show k + 1 + m - k = m + 1 by omega, List.drop_succ_cons,
            ← show k + 1 + m - (k + 1) = m by omega] at hnil
      intro s hs ho
      obtain ⟨hs', hsent⟩ := hkept s hs ho
      obtain ⟨hok, htailsent⟩ := ih htail (fun x hx => htruth x (by simp [hx]))
        (hnodup.sublist (hsub.map _)) (fun _ => rfl) hstuck' s hs' ho
      exact ⟨hok, by rw [sentTo_append, hsent, htailsent, List.flatten_cons, List.filter_append]⟩

-- ---- The whole call

def BusOp.Idle : BusOp ρ → Prop
  | .readSenders | .tryReserve .. | .reserve .. | .send .. => False
  | _ => True

theorem BusOp.Idle.not_reserves {op : BusOp ρ} (h : op.Idle) : ¬op.Reserves k := by
  cases op <;> first | exact id | exact h.elim

theorem sentTo_idle (chan : Nat) {trace : List (BusDone ρ)} (h : ∀ x ∈ trace, x.1.Idle) :
    sentTo chan trace = [] := by
  refine List.filterMap_eq_nil_iff.mpr fun x hx => ?_
  have hidle := h x hx
  obtain ⟨op, answer⟩ := x
  cases op <;> first | rfl | exact hidle.elim

theorem liveSenders_trace {senders live : List (Sender ρ)}
    (h : (liveSenders senders).Trace trace live) (htruth : ∀ x ∈ trace, Truthful open_ x) :
    ∀ s ∈ senders, open_ s.chan → s ∈ live := by
  induction senders generalizing trace live with
  | nil => exact nofun
  | cons s rest ih =>
    simp only [liveSenders, trace_bind, trace_perform, trace_pure] at h
    obtain ⟨_, closed, _, rfl, rfl, second, live, _, rfl, hrest, rfl, rfl⟩ := h
    have hlive := ih hrest fun x hx => htruth x (by simp [hx])
    cases closed with
    | true =>
      refine List.forall_mem_cons.mpr ⟨fun ho => ?_, hlive⟩
      exact absurd ho (htruth ⟨.isClosed s, true⟩ (by simp))
    | false =>
      refine List.forall_mem_cons.mpr ⟨fun _ => List.mem_cons_self, fun s' hs' ho => ?_⟩
      exact List.mem_cons_of_mem _ (hlive s' hs' ho)

theorem snapshot_registered {trace : List (BusDone ρ)} {result : Nat × List (Sender ρ)}
    (h : snapshot.Trace trace result) (hzero : result.1 = 0) : result.2 = [] := by
  simp only [snapshot, trace_bind, trace_perform, trace_pure] at h
  obtain ⟨_, senders, _, rfl, rfl, second, live, _, rfl, hlive, rfl, rfl⟩ := h
  obtain rfl : senders = [] := List.length_eq_zero_iff.mp hzero
  exact (trace_pure.mp hlive).2

theorem onlyIf_purge {trace : List (BusDone ρ)} {condition : Bool} {result : Unit}
    (h : (onlyIf condition purgeClosed).Trace trace result) :
    ∀ x ∈ trace, x.1 = .purgeClosed := by
  cases condition with
  | true =>
    obtain rfl := trace_perform.mp h
    simp
  | false =>
    obtain ⟨rfl, -⟩ := trace_pure.mp h
    exact nofun

def opening (absent : PublishResult) (rest : List (Sender ρ) → BusProg ρ PublishResult) :
    BusProg ρ PublishResult := do
  let (registered, selected) ← snapshot
  if registered = 0 then Pure.pure absent
  else
    onlyIf (selected.length < registered) purgeClosed
    if selected.isEmpty then Pure.pure (.error .closed) else rest selected

theorem opening_cases (absent : PublishResult) {result : PublishResult}
    (rest : List (Sender ρ) → BusProg ρ PublishResult) {trace : List (BusDone ρ)}
    (h : (opening absent rest).Trace trace result) :
    ∃ looking registered selected purging tail, trace = looking ++ (purging ++ tail) ∧
      snapshot.Trace looking (registered, selected) ∧ (∀ x ∈ purging, x.1 = .purgeClosed) ∧
      (tail = [] ∧ selected = [] ∨ (rest selected).Trace tail result) := by
  simp only [opening, trace_bind] at h
  obtain ⟨looking, ⟨registered, selected⟩, trace, rfl, hlooking, h⟩ := h
  split at h
  · rename_i hzero
    obtain ⟨rfl, -⟩ := trace_pure.mp h
    exact ⟨looking, _, _, [], [], rfl, hlooking, by simp,
      .inl ⟨rfl, snapshot_registered hlooking hzero⟩⟩
  simp only [trace_bind] at h
  obtain ⟨purging, _, trace, rfl, hpurging, h⟩ := h
  refine ⟨looking, _, _, purging, trace, rfl, hlooking, onlyIf_purge hpurging, ?_⟩
  split at h
  · rename_i hempty
    obtain ⟨rfl, -⟩ := trace_pure.mp h
    exact .inl ⟨rfl, List.isEmpty_iff.mp hempty⟩
  · exact .inr h

theorem admitBatch_snapshot {records : List ρ} {result : PublishResult}
    (h : (admitBatch records).Trace trace result) (htruth : ∀ x ∈ trace, Truthful open_ x) :
    ∃ senders looking rest, trace = ⟨.readSenders, senders⟩ :: (looking ++ rest) ∧
      (∀ x ∈ looking, x.1.Idle) ∧
      ((rest = [] ∧ ∀ s ∈ senders, ¬open_ s.chan) ∨
        ∃ selected, (selected.map Sender.chan).Nodup ∧ selected ⊆ senders ∧
          (∀ s ∈ senders, open_ s.chan → s ∈ selected) ∧
          (admitChunks (Lib.chunks admissionChunkRecords records) 0 selected false).Trace
            rest result) := by
  obtain ⟨looking, registered, selected, purging, rest, rfl, hlooking, hpurging, hrest⟩ :=
    opening_cases (.ok 0) (admitChunks (Lib.chunks admissionChunkRecords records) 0 · false) h
  simp only [snapshot, trace_bind, trace_perform, trace_pure] at hlooking
  obtain ⟨_, senders, _, rfl, rfl, looking, live, _, rfl, hlive, rfl, heq⟩ := hlooking
  obtain rfl : selected = live := congrArg Prod.snd heq
  obtain ⟨hlooks, hsub⟩ := (liveSenders_uses senders).of_trace hlive
  have hidle : ∀ x ∈ looking, x.1.Idle := by
    intro x hx
    obtain ⟨s, hs⟩ := hlooks x hx
    rw [hs]
    trivial
  have hnodup : (senders.map Sender.chan).Nodup := htruth ⟨.readSenders, senders⟩ (by simp)
  have hkept := liveSenders_trace hlive fun x hx => htruth x (by simp [hx])
  have hidle' : ∀ x ∈ looking ++ purging, x.1.Idle := by
    intro x hx
    rcases List.mem_append.mp hx with hx | hx
    · exact hidle x hx
    · rw [hpurging x hx]
      trivial
  refine ⟨senders, looking ++ purging, rest, by simp, hidle', ?_⟩
  rcases hrest with ⟨rfl, rfl⟩ | hrest
  · exact .inl ⟨rfl, by simpa using hkept⟩
  · exact .inr ⟨selected, hnodup.sublist (hsub.map _), hsub.subset, hkept, hrest⟩

theorem publishBatchTopic_trace {records : List ρ} {result : PublishResult}
    (h : (publishBatchTopic records).Trace trace result)
    (htruth : ∀ x ∈ trace, Truthful open_ x) {senders : List (Sender ρ)}
    (hread : ⟨.readSenders, senders⟩ ∈ trace)
    (hstuck : ∀ j, (∃ x ∈ trace, x.1.Reserves j) → (∃ x ∈ trace, Grants j x) ∨
      ∀ s ∈ senders, open_ s.chan →
        0 < j ∧ (records.drop (j * admissionChunkRecords)).filter s.accepts = []) :
    ∀ s ∈ senders, open_ s.chan →
      (∃ n, result = .ok n) ∧ sentTo s.chan trace = records.filter s.accepts := by
  unfold publishBatchTopic at h
  split at h
  · obtain ⟨rfl, -⟩ := trace_pure.mp h
    cases hread
  simp only [trace_bind, trace_perform, trace_pure] at h
  obtain ⟨entering, _, _, rfl, hentering, _, _, _, rfl, rfl, admitting, _, _, rfl, hadmitting, _, _,
    _, rfl, rfl, _, _, _, rfl, rfl, rfl, rfl⟩ := h
  obtain ⟨senders', looking, rest, rfl, hlooking, hrest⟩ := admitBatch_snapshot hadmitting
    fun x hx => htruth x (by simp only [List.mem_append]; exact .inr (.inr (.inl hx)))
  have hentering_idle : ∀ x ∈ entering, x.1.Idle := by
    intro x hx
    rcases (admission_uses.of_trace hentering).1 x hx with hop | hop <;> rw [hop] <;> trivial
  -- apart from the snapshot, only the loop reads, reserves or sends
  have hloop : ∀ x ∈ entering ++ ([⟨.storeBatchActive true, ()⟩] ++
      (⟨.readSenders, senders'⟩ :: (looking ++ rest) ++ ([⟨.storeBatchActive false, ()⟩] ++
        ([⟨.unlockGate, ()⟩] ++ [])))), ¬x.1.Idle → x = ⟨.readSenders, senders'⟩ ∨ x ∈ rest := by
    intro x hx hnot
    simp only [List.mem_append, List.mem_cons, List.not_mem_nil, or_false] at hx
    rcases hx with hx | rfl | (hx | hx | hx) | rfl | rfl
    · exact absurd (hentering_idle x hx) hnot
    · exact absurd trivial hnot
    · exact .inl hx
    · exact absurd (hlooking x hx) hnot
    · exact .inr hx
    · exact absurd trivial hnot
    · exact absurd trivial hnot
  rcases hrest with ⟨rfl, hnone⟩ | ⟨selected, hnodup, hsub, hkept, hadmit⟩
  · rcases hloop _ hread id with heq | hmem
    · cases heq
      exact fun s hs ho => absurd ho (hnone s hs)
    · cases hmem
  have hadmits := ((admitChunks_uses _ 0 selected false).of_trace hadmit).1
  have hsenders : senders = senders' := by
    rcases hloop _ hread id with heq | hmem
    · cases heq
      rfl
    · exact (hadmits _ hmem).elim
  subst hsenders
  intro s hs ho
  have hmain := admitChunks_trace hadmit (fun x hx => htruth x (by simp [hx])) hnodup (by simp) ?_ s
    (hkept s hs ho) ho
  · refine ⟨hmain.1, ?_⟩
    rw [sentTo_append, sentTo_idle _ hentering_idle]
    have hrest := hmain.2
    have hquiet := sentTo_idle s.chan hlooking
    rw [Lib.flatten_chunks (by decide)] at hrest
    simp only [sentTo] at hrest hquiet
    simp [sentTo, hrest, hquiet]
  · rintro j ⟨x, hx, hj⟩
    rcases hstuck j ⟨x, by simp [hx], hj⟩ with ⟨y, hy, hgrants⟩ | hharmless
    · rcases hloop y hy fun hidle => hidle.not_reserves hgrants.reserves with rfl | hmem
      · exact hgrants.elim
      · exact .inl ⟨y, hmem, hgrants⟩
    · refine .inr fun s hs ho => ?_
      rw [Nat.sub_zero, Lib.flatten_drop_chunks (by decide)]
      exact hharmless s (hsub hs) ho

-- ---- Every schedule

/-- The records of call `t` in a queue. -/
def recordsOf (t : Nat) (queue : List (Nat × ρ)) : List ρ :=
  (queue.filter (·.1 = t)).map Prod.snd

theorem run_recordsOf (c : BusConfig ρ) (schedule : List (BusChoice ρ)) (t chan : Nat) :
    recordsOf t ((c.run (machine ρ) schedule).1.state.chans chan).sent =
      recordsOf t (c.state.chans chan).sent ++
        sentTo chan (ownTrace t (c.run (machine ρ) schedule).2) := by
  have hfold : ∀ (events : List (BusEvent ρ)) (l : List ρ),
      events.foldl (fun l e => l ++ sentTo chan (ownTrace t [e])) l =
        l ++ sentTo chan (ownTrace t events) := by
    intro events
    induction events with
    | nil => simp [ownTrace, sentTo]
    | cons e rest ih =>
      intro l
      have hcons : ownTrace t (e :: rest) = ownTrace t [e] ++ ownTrace t rest := by
        simp only [ownTrace, ← List.map_append, ← List.filter_append, List.singleton_append]
      rw [List.foldl_cons, ih, hcons, sentTo_append, List.append_assoc]
  rw [← hfold]
  refine Lib.run_foldl (f := fun topic : Topic ρ => recordsOf t (topic.chans chan).sent) ?_ ?_ c
    schedule
  · intro u topic op answer topic' hexec
    simp only [exec_sent hexec chan, recordsOf, List.filter_append, List.map_append,
      List.append_cancel_left_eq]
    by_cases hut : u = t
    · cases op with
      | send c record => by_cases hc : c = chan <;> simp [ownTrace, sentTo, hut, hc]
      | _ => simp [ownTrace, sentTo, hut]
    · cases op with
      | send c record => by_cases hc : c = chan <;> simp [ownTrace, sentTo, hut, hc]
      | _ => simp [ownTrace, sentTo, hut]
  · intro e topic
    simp only [machine, react_sent]

def BusOp.reservation : BusOp ρ → Option (Nat × Nat × Nat)
  | .tryReserve chunk chan n | .reserve chunk chan n => some (chunk, chan, n)
  | _ => none

/-- The subscribers call `t` found registered when its admission started. -/
def Registered (t : Nat) (events : List (BusEvent ρ)) (s : Sender ρ) : Prop :=
  ∃ e ∈ events, e.thread = t ∧ e.op = .readSenders ∧ s ∈ e.before.senders

/-- The call asks no queue that stays open for more slots than the queue has. -/
def Fits (t : Nat) (final : Topic ρ) (events : List (BusEvent ρ)) : Prop :=
  ∀ e ∈ events, e.thread = t → ∀ x ∈ e.op.reservation, (final.chans x.2.1).closed = false →
    x.2.2 ≤ (e.before.chans x.2.1).capacity

def HasRoom (topic : Topic ρ) (x : Nat × Nat × Nat) : Prop :=
  (topic.chans x.2.1).closed = false ∧
    (topic.chans x.2.1).used + x.2.2 ≤ (topic.chans x.2.1).capacity

instance (topic : Topic ρ) (x : Nat × Nat × Nat) : Decidable (HasRoom topic x) :=
  inferInstanceAs (Decidable (_ ∧ _))

/-- For every chunk for which slots are asked for, one queue has them; or whoever
stays open misses nothing, because something is committed and no record of the
chunk or behind it is for it. -/
def Progresses (t : Nat) (batch : List ρ) (final : Topic ρ) (events : List (BusEvent ρ)) : Prop :=
  ∀ e ∈ events, e.thread = t → ∀ x ∈ e.op.reservation,
    (∃ e' ∈ events, e'.thread = t ∧ ∃ y ∈ e'.op.reservation, y.1 = x.1 ∧ HasRoom e'.before y) ∨
      ∀ s, Registered t events s → (final.chans s.chan).closed = false →
        0 < x.1 ∧ (batch.drop (x.1 * admissionChunkRecords)).filter s.accepts = []

/-- What a batch is to achieve: accepted, it reaches every subscriber that was
registered and stays open, with exactly the records its filter accepts, in order;
it is refused only if everybody has closed. -/
def BatchDelivered (t : Nat) (batch : List ρ) (final : Topic ρ) (events : List (BusEvent ρ))
    (result : PublishResult) : Prop :=
  (∀ n, result = .ok n → ∀ s, Registered t events s → (final.chans s.chan).closed = false →
      recordsOf t (final.chans s.chan).sent = batch.filter s.accepts) ∧
    (result = .error .closed → ∀ s, Registered t events s → (final.chans s.chan).closed = true)

theorem exec_truthful {topic topic' : Topic ρ} {u : Nat} {op : BusOp ρ} {answer : op.Answer}
    (hexec : topic.exec u op = some (answer, topic'))
    (hclosed : ∀ chan, (topic.chans chan).closed = true → ¬open_ chan)
    (hfit : ∀ x ∈ op.reservation, open_ x.2.1 → x.2.2 ≤ (topic.chans x.2.1).capacity) :
    Truthful open_ ⟨op, answer⟩ := by
  cases op with
  | readSenders =>
    cases hexec
    exact topic.senders_nodup
  | isClosed s =>
    cases hexec
    cases hs : (topic.chans s.chan).closed with
    | true => exact hclosed s.chan hs
    | false => trivial
  | tryReserve k chan n =>
    simp only [Topic.exec] at hexec
    split at hexec
    · cases hexec
      trivial
    split at hexec
    · rename_i hs
      cases hexec
      exact hclosed chan hs
    split at hexec <;> cases hexec <;> trivial
  | reserve k chan n =>
    simp only [Topic.exec] at hexec
    split at hexec
    · rename_i hs
      cases hexec
      rcases hs with hs | hs
      · exact fun ho => Nat.not_lt.mpr (hfit (k, chan, n) rfl ho) hs
      · exact hclosed chan hs
    split at hexec
    · cases hexec
      trivial
    · cases hexec
  | _ => trivial

theorem exec_grants {topic topic' : Topic ρ} {u : Nat} {op : BusOp ρ} {answer : op.Answer}
    {x : Nat × Nat × Nat} (hexec : topic.exec u op = some (answer, topic'))
    (hx : x ∈ op.reservation) (hroom : HasRoom topic x) : Grants x.1 ⟨op, answer⟩ := by
  cases op with
  | tryReserve k chan n | reserve k chan n =>
    obtain rfl := Option.mem_some_iff.mp hx
    obtain ⟨hopen, hroom⟩ := hroom
    simp only at hopen hroom
    have hcap : ¬(topic.chans chan).capacity < n := by omega
    simp only [Topic.exec, hopen, hcap, hroom, Bool.false_eq_true, or_self, if_false, if_true]
      at hexec
    cases hexec
    rfl
  | _ => cases hx

theorem run_closed {c : BusConfig ρ} {schedule : List (BusChoice ρ)} {e : BusEvent ρ}
    (he : e ∈ (c.run (machine ρ) schedule).2) {chan : Nat}
    (h : (e.before.chans chan).closed = true) :
    ((c.run (machine ρ) schedule).1.state.chans chan).closed = true :=
  (Lib.run_stable (M := machine ρ) (Q := fun topic => (topic.chans chan).closed = true)
    (fun _ _ _ _ _ hexec hq => (exec_closed hexec chan).trans hq)
    (fun e topic => react_closed topic e chan) c schedule).2 e he h

theorem run_truthful {c : BusConfig ρ} {schedule : List (BusChoice ρ)} {t : Nat}
    (hfits : Fits t (c.run (machine ρ) schedule).1.state (c.run (machine ρ) schedule).2) :
    ∀ x ∈ ownTrace t (c.run (machine ρ) schedule).2,
      Truthful (fun chan => ((c.run (machine ρ) schedule).1.state.chans chan).closed = false) x := by
  intro x hx
  simp only [ownTrace, List.mem_map, List.mem_filter] at hx
  obtain ⟨e, ⟨he, ht⟩, rfl⟩ := hx
  obtain ⟨state, hexec⟩ := Lib.run_exec (M := machine ρ) c schedule e he
  refine exec_truthful hexec (fun chan h => ?_) (hfits e he (by simpa using ht))
  simp [run_closed he h]

theorem mem_ownTrace {events : List (BusEvent ρ)} {t : Nat} {x : BusDone ρ} :
    x ∈ ownTrace t events ↔ ∃ e ∈ events, e.thread = t ∧ x = ⟨e.op, e.answer⟩ := by
  simp only [ownTrace, List.mem_map, List.mem_filter, decide_eq_true_eq, and_assoc]
  exact exists_congr fun e => and_congr_right fun _ => and_congr_right fun _ => eq_comm

theorem reserves_iff {op : BusOp ρ} : op.Reserves k ↔ ∃ x ∈ op.reservation, x.1 = k := by
  cases op <;> simp [BusOp.Reserves, BusOp.reservation]

/-- In every schedule in which the call's reservations fit and every chunk makes
progress, a batch that is accepted reaches each subscriber that stays open, and one
that is refused had nobody open to reach. -/
theorem publish_batch_delivers (topic : Topic ρ) (calls : Nat → Call ρ)
    (schedule : List (BusChoice ρ)) (hfresh : topic.Fresh) (t : Nat) (batch : List ρ)
    (hcall : calls t = .publishBatch batch) (result : PublishResult)
    (hend : ((start topic calls).run (machine ρ) schedule).1.threads t = .pure result)
    (hfits : Fits t ((start topic calls).run (machine ρ) schedule).1.state
      ((start topic calls).run (machine ρ) schedule).2)
    (hprogress : Progresses t batch ((start topic calls).run (machine ρ) schedule).1.state
      ((start topic calls).run (machine ρ) schedule).2) :
    BatchDelivered t batch ((start topic calls).run (machine ρ) schedule).1.state
      ((start topic calls).run (machine ρ) schedule).2 result := by
  have htrace := Lib.run_trace (start topic calls) schedule t hend
  have hprogram : (start topic calls).threads t = publishBatchTopic batch := by
    show (calls t).program = _
    rw [hcall]
    rfl
  rw [hprogram] at htrace
  have hmain : ∀ s, Registered t ((start topic calls).run (machine ρ) schedule).2 s →
      (((start topic calls).run (machine ρ) schedule).1.state.chans s.chan).closed = false →
      (∃ n, result = .ok n) ∧
        recordsOf t (((start topic calls).run (machine ρ) schedule).1.state.chans s.chan).sent =
          batch.filter s.accepts := by
    rintro s ⟨e, he, ht, hop, hs⟩ ho
    have hread : (⟨.readSenders, e.before.senders⟩ : BusDone ρ) ∈
        ownTrace t ((start topic calls).run (machine ρ) schedule).2 := by
      obtain ⟨state, hexec⟩ := Lib.run_exec (start topic calls) schedule e he
      refine mem_ownTrace.mpr ⟨e, he, ht, ?_⟩
      obtain ⟨u, before, op, answer⟩ := e
      obtain rfl : op = .readSenders := hop
      have hanswer : before.senders = answer := congrArg Prod.fst (Option.some.inj hexec)
      rw [← hanswer]
    rw [run_recordsOf, show (start topic calls).state = topic from rfl, hfresh.2.2]
    refine publishBatchTopic_trace htrace (run_truthful hfits) hread (fun j hasked => ?_) s hs ho
    obtain ⟨_, hx, hj⟩ := hasked
    obtain ⟨e₁, he₁, ht₁, rfl⟩ := mem_ownTrace.mp hx
    obtain ⟨x, hx, rfl⟩ := reserves_iff.mp hj
    rcases hprogress e₁ he₁ ht₁ x hx with ⟨e₂, he₂, ht₂, y, hy, hxy, hroom⟩ | hharmless
    · obtain ⟨state, hexec⟩ := Lib.run_exec (start topic calls) schedule e₂ he₂
      refine .inl ⟨⟨e₂.op, e₂.answer⟩, mem_ownTrace.mpr ⟨e₂, he₂, ht₂, rfl⟩, ?_⟩
      exact hxy ▸ exec_grants hexec hy hroom
    · exact .inr fun s hs ho => hharmless s ⟨e, he, ht, hop, hs⟩ ho
  constructor
  · exact fun n _ s hs ho => (hmain s hs ho).2
  · intro hresult s hs
    by_contra ho
    obtain ⟨⟨n, hn⟩, -⟩ := hmain s hs (by simpa using ho)
    rw [hresult] at hn
    cases hn

def batchOnly (batch : List Nat) : Nat → Call Nat
  | 0 => .publishBatch batch
  | _ => .publishBatch []

theorem publish_batch_delivers_four :
    recordsOf 0 (((start oneSubscriber (batchOnly [1, 2, 3, 4])).run (machine Nat)
      (List.replicate 11 (.thread 0))).1.state.chans 0).sent = [1, 2, 3, 4] := by
  have hroom : ∀ e ∈ ((start oneSubscriber (batchOnly [1, 2, 3, 4])).run (machine Nat)
      (List.replicate 11 (.thread 0))).2, ∀ x ∈ e.op.reservation, HasRoom e.before x := by
    decide
  refine (publish_batch_delivers oneSubscriber (batchOnly [1, 2, 3, 4])
    (List.replicate 11 (.thread 0)) ⟨rfl, rfl, fun _ => rfl⟩ 0 [1, 2, 3, 4] rfl (.ok 1) rfl ?_ ?_).1
    1 rfl ⟨0, none⟩ ?_ rfl
  · intro e he _ x hx _
    have := (hroom e he x hx).2
    omega
  · exact fun e he ht x hx => .inl ⟨e, he, ht, x, hx, rfl, hroom e he x hx⟩
  · exact ⟨_, List.getElem_mem (n := 2) (by decide), rfl, rfl, List.mem_cons_self⟩

/-- A queue of four slots is asked for five at once: the batch is refused, though
its only subscriber is open. -/
theorem large_batch_refused :
    ¬∀ (topic : Topic Nat) (calls : Nat → Call Nat) (schedule : List (BusChoice Nat)),
      topic.Fresh → ∀ t batch, calls t = .publishBatch batch → ∀ result,
        ((start topic calls).run (machine Nat) schedule).1.threads t = .pure result →
        BatchDelivered t batch ((start topic calls).run (machine Nat) schedule).1.state
          ((start topic calls).run (machine Nat) schedule).2 result := by
  intro h
  have hclosed := (h oneSubscriber (batchOnly [1, 2, 3, 4, 5]) (List.replicate 9 (.thread 0))
    ⟨rfl, rfl, fun _ => rfl⟩ 0 [1, 2, 3, 4, 5] rfl (.error .closed) rfl).2 rfl ⟨0, none⟩ ?_
  · cases hclosed
  · exact ⟨_, List.getElem_mem (n := 2) (by decide), rfl, rfl, List.mem_cons_self⟩

end Rekuiper.Bus
