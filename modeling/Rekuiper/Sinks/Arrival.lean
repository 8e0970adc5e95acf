import Rekuiper.Sinks.Refinement

/-!
# Strict arrival order

With the cache first, live records queue behind the cache, and what is not batched reaches the
destination in order. Rows overtake each other where the batch buffer comes in: a record is
queued behind the cache while older rows wait in the buffer, and a full batch or a linger flush
is sent while older records are cached. A send that fails part-way repeats rows, and one that
groups the rows of a batch may reorder them. In every run in which none of this happens, the
rows are acknowledged in the order in which the rule produced them.
-/

namespace Rekuiper.Sinks

variable {V Line : Type} {codec : LineCodec (Output V) Line} {cfg : CacheConfig} {α : Type}

/-- A record is queued behind the cache only while no rows wait in the buffer; no batch is
acknowledged past cached records; if a send fails and its record stays, at most its first row
was acknowledged; and a send that groups its rows has them acknowledged in their order. -/
def Entry.InOrder (grouped : Bool) : Entry α → Prop
  | .queued waiting _ => waiting = false
  | .sent path cached rows acked result =>
    (path.batched = true → cached = true → acked.flatten = []) ∧
      (path.keeps = true → result = .retry → List.Sublist acked.flatten (rows.take 1)) ∧
      (grouped = true → List.Sublist acked.flatten rows)

instance [DecidableEq α] (grouped : Bool) (entry : Entry α) : Decidable (entry.InOrder grouped) := by
  unfold Entry.InOrder
  split <;> infer_instance

namespace Ledger

variable [Preorder α]

def line (L : Ledger α) : List α :=
  L.log.flatMap Entry.acked ++ (L.cached.flatten ++ (L.hand ++ L.buffer))

def InLine (L : Ledger α) : Prop :=
  L.produced.Pairwise (· ≤ ·) → L.line.Pairwise (· ≤ ·) ∧ ∀ a ∈ L.line, a ∈ L.produced

theorem InLine.of_sublist {L L' : Ledger α} (h : L.InLine) (hproduced : L'.produced = L.produced)
    (hline : List.Sublist L'.line L.line) : L'.InLine := by
  intro hordered
  obtain ⟨hpairs, hmem⟩ := h (hproduced ▸ hordered)
  exact ⟨hpairs.sublist hline, fun a ha => hproduced ▸ hmem a (hline.subset ha)⟩

theorem InLine.of_arrival {L L' : Ledger α} {rows : List α} (h : L.InLine)
    (hproduced : L'.produced = L.produced ++ rows)
    (hline : List.Sublist L'.line (L.line ++ rows)) : L'.InLine := by
  intro hordered
  rw [hproduced, List.pairwise_append] at hordered
  obtain ⟨hbefore, hrows, hafter⟩ := hordered
  obtain ⟨hpairs, hmem⟩ := h hbefore
  refine ⟨List.Pairwise.sublist hline (List.pairwise_append.mpr
    ⟨hpairs, hrows, fun a ha b hb => hafter a (hmem a ha) b hb⟩), fun a ha => ?_⟩
  rw [hproduced]
  rcases List.mem_append.mp (hline.subset ha) with ha | ha
  · exact List.mem_append_left _ (hmem a ha)
  · exact List.mem_append_right _ ha

theorem pairwise_repeat {before rows after : List α} {acked : List α}
    (h : (before ++ (rows ++ after)).Pairwise (· ≤ ·))
    (hacked : List.Sublist acked (rows.take 1)) :
    (before ++ (acked ++ (rows ++ after))).Pairwise (· ≤ ·) := by
  cases rows with
  | nil =>
    rw [List.take_nil, List.sublist_nil] at hacked
    rwa [hacked]
  | cons row rows =>
    rcases List.sublist_singleton.mp hacked with rfl | rfl
    · exact h
    · rw [List.pairwise_append] at h ⊢
      refine ⟨h.1, ?_, fun a ha b hb => h.2.2 a ha b ?_⟩
      · refine List.pairwise_cons.mpr ⟨fun b hb => ?_, h.2.1⟩
        rcases List.mem_cons.mp hb with rfl | hb
        · exact le_refl b
        · exact (List.pairwise_cons.mp h.2.1).1 b hb
      · simpa using hb

theorem InLine.of_repeat {L L' : Ledger α} (before rows after : List α) {acked : List α} (h : L.InLine)
    (hproduced : L'.produced = L.produced) (hold : L.line = before ++ (rows ++ after))
    (hacked : List.Sublist acked (rows.take 1))
    (hnew : List.Sublist L'.line (before ++ (acked ++ (rows ++ after)))) : L'.InLine := by
  intro hordered
  obtain ⟨hpairs, hmem⟩ := h (hproduced ▸ hordered)
  rw [hold] at hpairs hmem
  refine ⟨(pairwise_repeat hpairs hacked).sublist hnew, fun a ha => hproduced ▸ hmem a ?_⟩
  rcases List.mem_append.mp (hnew.subset ha) with ha | ha
  · exact List.mem_append_left _ ha
  · refine List.mem_append_right _ ?_
    rcases List.mem_append.mp ha with ha | ha
    · exact List.mem_append_left _ (List.mem_of_mem_take (hacked.subset ha))
    · exact ha

end Ledger

namespace Ledger

theorem not_pending {L : Ledger α} (h : ¬ L.pending = true) : L.cached = [] := by
  simpa [pending] using h

/-- What is sent is not acknowledged past queued records: the record itself waits for them. -/
theorem Sends.past {L : Ledger α} {path : Path} {acked : List (List α)} {result : SendResult}
    (hsends : L.Sends path) (hfirst : L.cacheFirst = true)
    (h : (Entry.sent path L.pending L.hand acked result).InOrder L.grouped)
    (hpending : L.pending = true) : acked.flatten = [] := by
  cases path with
  | live =>
    rw [hsends.waits hfirst rfl] at hpending
    cases hpending
  | resend => exact absurd rfl hsends.fresh
  | batch | flush | shutdown => exact h.1 rfl hpending

theorem Acks.sublist {L : Ledger α} {path : Path} {cached : Bool} {rows : List α}
    {acked : List (List α)} {result : SendResult} (h : L.Acks rows acked)
    (hentry : (Entry.sent path cached rows acked result).InOrder L.grouped) :
    List.Sublist acked.flatten rows := by
  cases hgrouped : L.grouped with
  | false => exact h.inOrder hgrouped
  | true => exact hentry.2.2 hgrouped

variable [Preorder α]

theorem Step.inLine {L L' : Ledger α} (h : Step True L L') (hfirst : L.cacheFirst = true)
    (hlog : ∀ entry ∈ L'.log, entry.InOrder L.grouped) (hL : L.InLine) : L'.InLine := by
  cases h with
  | arrive rows hhand hbuffer =>
    refine hL.of_arrival rfl ?_
    simp [line, hhand, hbuffer]
  | store rows hhand =>
    refine hL.of_arrival rfl ?_
    simp [line]
  | batch n hhand =>
    refine hL.of_sublist rfl ?_
    simp [line, hhand]
  | accepted path acked hsends hacked =>
    have hentry := hlog (.sent path L.pending L.hand acked .ok) (by simp [note])
    refine hL.of_sublist rfl ?_
    by_cases hpending : L.pending = true
    · simp [line, note, Entry.acked, hsends.past hfirst hentry hpending]
    · simp [line, note, Entry.acked, not_pending hpending, hacked.sublist hentry]
  | kept path acked new n hsends hkeeps hacked hpushed =>
    have hentry := hlog (.sent path L.pending L.hand acked .retry) (by simp [note])
    have hqueue := (hpushed.inOrder trivial).flatten
    rw [List.flatten_append, List.flatten_singleton] at hqueue
    by_cases hpending : L.pending = true
    · refine hL.of_sublist rfl ?_
      simp only [line, note, List.flatMap_append, List.flatMap_singleton, Entry.acked,
        hsends.past hfirst hentry hpending, List.append_nil, List.nil_append]
      rw [← List.append_assoc L.cached.flatten]
      exact (hqueue.append_right _).append_left _
    · have hempty := not_pending hpending
      rw [hempty] at hqueue
      refine hL.of_repeat (L.log.flatMap Entry.acked) L.hand L.buffer rfl (by simp [line, hempty])
        (hentry.2.1 hkeeps rfl) ?_
      simp only [line, note, List.flatMap_append, List.flatMap_singleton, Entry.acked,
        List.nil_append, List.append_assoc]
      exact ((hqueue.append_right _).append_left _).append_left _
  | lost path acked result hsends hfailed hkeeps hacked =>
    have hentry := hlog (.sent path L.pending L.hand acked result) (by simp [note])
    refine hL.of_sublist rfl ?_
    by_cases hpending : L.pending = true
    · simp [line, note, Entry.acked, hsends.past hfirst hentry hpending]
    · simp [line, note, Entry.acked, not_pending hpending, hacked.sublist hentry]
  | queued rows new n hhand hpending hpushed =>
    have hwaiting : (!L.buffer.isEmpty) = false := hlog (.queued (!L.buffer.isEmpty) rows) (by simp [note])
    have hbuffer : L.buffer = [] := by simpa using hwaiting
    have hqueue := (hpushed.inOrder trivial).flatten
    rw [List.flatten_append, List.flatten_singleton] at hqueue
    refine hL.of_arrival rfl ?_
    simp only [line, note, List.flatMap_append, List.flatMap_singleton, Entry.acked, hhand,
      hbuffer, List.append_nil, List.append_assoc]
    exact hqueue.append_left _
  | resent rows rest acked hhand hcached hacked =>
    have hsub := hacked.sublist (hlog (.sent .resend true rows acked .ok) (by simp [note]))
    refine hL.of_sublist rfl ?_
    simp [line, note, Entry.acked, hcached, hhand, hsub]
  | deferred rows rest acked hhand hcached hacked =>
    have hentry := hlog (.sent .resend true rows acked .retry) (by simp [note])
    refine hL.of_repeat (L.log.flatMap Entry.acked) rows
      (rest.flatten ++ L.buffer) rfl (by simp [line, hcached, hhand]) (hentry.2.1 rfl rfl) ?_
    simp [line, note, Entry.acked, hcached]
  | discarded rows rest acked result hhand hcached hfailed hretry hacked =>
    have hsub := hacked.sublist (hlog (.sent .resend true rows acked result) (by simp [note]))
    refine hL.of_sublist rfl ?_
    simp [line, note, Entry.acked, hcached, hhand, hsub]

theorem Steps.inLine {L L' : Ledger α} (h : Steps True L L') (hfirst : L.cacheFirst = true)
    (hlog : ∀ entry ∈ L'.log, entry.InOrder L.grouped) (hL : L.InLine) : L'.InLine := by
  refine (h.invariant (I := fun M => M.cacheFirst = true ∧ M.grouped = L.grouped ∧ M.InLine) hlog
    ⟨hfirst, rfl, hL⟩ ?_).2.2
  rintro M M' hstep hentries ⟨hfirst, hgrouped, hM⟩
  exact ⟨hstep.cacheFirst_eq.trans hfirst, hstep.grouped_eq.trans hgrouped,
    hstep.inLine hfirst (hgrouped ▸ hentries) hM⟩

end Ledger

theorem Entry.InOrder.map {β : Type} {f : α → β} {grouped : Bool} {entry : Entry α}
    (h : entry.InOrder grouped) : (entry.map f).InOrder grouped := by
  cases entry with
  | queued waiting rows => exact h
  | sent path cached rows acked result =>
    refine ⟨fun hbatched hcached => ?_, fun hkeeps hretry => ?_, fun hgrouped => ?_⟩
    · rw [← List.map_flatten, h.1 hbatched hcached, List.map_nil]
    · rw [← List.map_flatten, ← List.map_take]
      exact (h.2.1 hkeeps hretry).map f
    · rw [← List.map_flatten]
      exact (h.2.2 hgrouped).map f

-- ---- Runs of the worker

namespace SinkWorker

/-- The rows acknowledged, by their place among the rows the rule produced. -/
def ackedSeqs (w : SinkWorker V Line) : List Nat :=
  (w.runtime.log.flatMap Entry.acked).map SinkRow.seq

/-- With the cache first the rows are acknowledged in the order in which the rule produced
them, in every run in which no row in the batch buffer passes an older one and no send repeats
or groups the rows of its record. -/
theorem cacheFirst_keeps_order (codec : LineCodec (Output V) Line) (action : PreparedAction V)
    (resendInterval : Nat) (indicator : Option (V → V)) (cfg : CacheConfig)
    (answers : Nat → Answer) (now : Nat) (ops : List (WorkerOp V))
    (horder : ∀ entry ∈ ((start action ⟨.cacheFirst, resendInterval, indicator⟩ cfg answers
      (fun _ => true) now).run codec ops).runtime.log, entry.InOrder action.grouped) :
    ((start action ⟨.cacheFirst, resendInterval, indicator⟩ cfg answers (fun _ => true) now).run
      codec ops).ackedSeqs.Pairwise (· ≤ ·) := by
  have hstart := start_sound codec True action
    ⟨.cacheFirst, resendInterval, indicator⟩ cfg answers (fun _ => true) now fun _ _ => rfl
  obtain ⟨-, hsteps⟩ := run_refines hstart ops
  rw [ledger_start] at hsteps
  have hline := Ledger.Steps.inLine hsteps rfl (by
    intro entry hentry
    obtain ⟨made, hmade, rfl⟩ := List.mem_map.mp hentry
    exact (horder made hmade).map) (fun _ => ⟨.nil, nofun⟩)
  have hproduced : (List.range ((start action ⟨.cacheFirst, resendInterval, indicator⟩ cfg answers
      (fun _ => true) now).run codec ops).produced).Pairwise (· ≤ ·) := List.pairwise_le_range
  have hpairs := (List.pairwise_append.mp (hline hproduced).1).1
  rwa [ledger, ActionRuntime.ledger, flatMap_acked_map] at hpairs

def pairsRest : PreparedAction Nat := .rest "POST" "json" none ⟨false, none, 2, 0, id⟩

/-- The first batch fails, the next records queue behind it, and all go out in order. -/
theorem cacheFirst_keeps_order_small :
    let w := start pairsRest ⟨.cacheFirst, 0, none⟩ roomyConfig
      (fun n => if n = 0 then .retry else .ok) (fun _ => true) 0
    let ops := [.record 0 (.batch [5, 6]), .record 10 (.single 7), .tick 2000 fun _ => 2000]
    (w.run outputCodec ops).ackedSeqs = [0, 1, 2] ∧
      (w.run outputCodec ops).ackedSeqs.Pairwise (· ≤ ·) := by
  intro w ops
  exact ⟨by decide, cacheFirst_keeps_order outputCodec _ _ _ _ _ _ ops (by decide)⟩

/-- One record fills two batches. The first fails and is cached, the second is sent at once
and passes it. -/
theorem batch_passes_cached_rows :
    let w := start pairsRest ⟨.cacheFirst, 0, none⟩ roomyConfig
      (fun n => if n = 0 then .retry else .ok) (fun _ => true) 0
    let ops := [.record 0 (.batch [5, 6, 7, 8]), .tick 2000 fun _ => 2000]
    (w.run outputCodec ops).ackedSeqs = [2, 3, 0, 1] ∧
      ¬ (w.run outputCodec ops).ackedSeqs.Pairwise (· ≤ ·) := by
  decide

end SinkWorker

end Rekuiper.Sinks
