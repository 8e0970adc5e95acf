import Rekuiper.Lib.StableSort
import Rekuiper.Windows.EventTime

/-!
# Sliding windows

`run_sliding_window_rule` in event time. A row that triggers emits the rows of the last
`windowMillis`. After each row the rows that are older than its window are dropped, also those
that a row which arrives later, but is older, would still need.
-/

namespace Rekuiper.Windows

open Lib Sql
open Pipeline (TaggedRow)

variable {F : Type}

/-- `windowMillis` and `delayMs` are `i64`; `triggers` is the trigger condition. -/
structure SlidingRule (F : Type) extends EventRule F where
  windowMillis : Int
  delayMs : Int
  triggers : TaggedRow F → Bool

structure Sliding (F : Type) where
  clock : Clock
  etBuffer : List (Int × TaggedRow F)
  pendingTriggers : List (Int × Int)

/-- The buffered rows with timestamps in `[start, stop]`. -/
def rowsBetween (start stop : Int) (etBuffer : List (Int × TaggedRow F)) : List (TaggedRow F) :=
  (etBuffer.filter fun r => start ≤ r.1 && r.1 ≤ stop).map Prod.snd

def firePending (windowMillis watermark : Int) (etBuffer : List (Int × TaggedRow F)) :
    List (Int × Int) → List (Int × Int) × List (Batch F)
  | [] => ([], [])
  | (triggerTs, deadline) :: pending =>
    if deadline ≤ watermark then
      let start := saturate (triggerTs - windowMillis)
      let (pending, batches) := firePending windowMillis watermark etBuffer pending
      (pending, emitWindowBatch start watermark (rowsBetween start watermark etBuffer) ++ batches)
    else ((triggerTs, deadline) :: pending, [])

namespace Sliding

def start : Sliding F := ⟨.start, [], []⟩

/-- The `ingest_slide!` macro. -/
def ingest (rule : SlidingRule F) (s : Sliding F) (ts : Int) (tagged : TaggedRow F) :
    Sliding F × List (Batch F) :=
  if !rule.passes tagged || s.clock.isLate ts then (s, [])
  else
    let clock := s.clock.advance rule.toEventRule tagged.source ts
    let etBuffer := sortByKey Prod.fst (s.etBuffer ++ [(ts, tagged)])
    let shouldTrigger := rule.triggers tagged
    let pending :=
      if shouldTrigger && rule.delayMs > 0 then
        sortByKey Prod.snd (s.pendingTriggers ++ [(ts, saturate (ts + rule.delayMs))])
      else s.pendingTriggers
    let startTs := saturate (ts - rule.windowMillis)
    let now :=
      if shouldTrigger && !(rule.delayMs > 0) then
        emitWindowBatch startTs ts (rowsBetween startTs ts etBuffer)
      else []
    let (pending, delayed) := firePending rule.windowMillis clock.watermark etBuffer pending
    let minPending := (pending.head?.map Prod.fst).getD ts
    let retainTs := saturate (min minPending ts - rule.windowMillis)
    (⟨clock, etBuffer.filter (retainTs ≤ ·.1), pending⟩, now ++ delayed)

def step (rule : SlidingRule F) (s : Sliding F) : Event F → Sliding F × List (Batch F)
  | .row ts tagged => s.ingest rule ts tagged
  | .joinsClosed => ({ s with clock := s.clock.step rule.toEventRule .joinsClosed }, [])

def run (rule : SlidingRule F) (events : List (Event F)) : Sliding F × List (Batch F) :=
  runEvents (step rule) start events

end Sliding

def SlidingRule.passing (rule : SlidingRule F) (events : List (Event F)) : List (Event F) :=
  events.filter fun
    | .row _ tagged => rule.passes tagged
    | .joinsClosed => true

def SlidingRule.taken (rule : SlidingRule F) (events : List (Event F)) :
    List (Int × TaggedRow F) :=
  rule.accepted (rule.passing events)

-- ---- What the buffer holds

variable {length : Int}

def unpruned (length : Int) : List (Int × TaggedRow F) → List (Int × TaggedRow F)
  | [] => []
  | r :: later =>
    if later.all fun m => m.1 - length ≤ r.1 then r :: unpruned length later
    else unpruned length later

theorem unpruned_sublist (rows : List (Int × TaggedRow F)) :
    (unpruned length rows).Sublist rows := by
  induction rows with
  | nil => exact .slnil
  | cons r later ih =>
    simp only [unpruned]
    split
    · exact ih.cons_cons r
    · exact ih.cons r

theorem unpruned_snoc (hlength : 0 ≤ length) (rows : List (Int × TaggedRow F))
    (x : Int × TaggedRow F) :
    unpruned length (rows ++ [x]) = (unpruned length rows ++ [x]).filter (x.1 - length ≤ ·.1) := by
  induction rows with
  | nil =>
    have hself : x.1 - length ≤ x.1 := by omega
    simp only [List.nil_append, unpruned, List.all_nil, if_true, List.filter_cons, hself,
      decide_true, List.filter_nil]
  | cons r later ih =>
    simp only [List.cons_append, unpruned, List.all_append, List.all_cons, List.all_nil,
      Bool.and_true]
    cases later.all fun m => m.1 - length ≤ r.1 with
    | false => simpa only [Bool.false_and, Bool.false_eq_true, if_false] using ih
    | true =>
      simp only [Bool.true_and, if_true, List.cons_append, List.filter_cons]
      split
      · rw [ih]
      · exact ih

theorem filter_unpruned_iff (q : Int × TaggedRow F → Bool) (rows : List (Int × TaggedRow F)) :
    (unpruned length rows).filter q = rows.filter q ↔
      ∀ earlier r later, rows = earlier ++ r :: later → q r = true →
        ∀ m ∈ later, m.1 - length ≤ r.1 := by
  induction rows with
  | nil => simp [unpruned]
  | cons r later ih =>
    have hsub : ((unpruned length later).filter q).Sublist (later.filter q) :=
      (unpruned_sublist later).filter q
    have hsplit : (∀ earlier r' later', r :: later = earlier ++ r' :: later' → q r' = true →
        ∀ m ∈ later', m.1 - length ≤ r'.1) ↔
        (q r = true → ∀ m ∈ later, m.1 - length ≤ r.1) ∧
          ∀ earlier r' later', later = earlier ++ r' :: later' → q r' = true →
            ∀ m ∈ later', m.1 - length ≤ r'.1 := by
      constructor
      · intro h
        refine ⟨h [] r later rfl, fun earlier r' later' heq => h (r :: earlier) r' later' ?_⟩
        rw [heq]
        rfl
      · rintro ⟨hr, hlater⟩ earlier r' later' heq
        cases earlier with
        | nil =>
          obtain ⟨rfl, rfl⟩ := List.cons.inj heq
          exact hr
        | cons first earlier => exact hlater earlier r' later' (List.cons.inj heq).2
    rw [hsplit, ← ih]
    simp only [unpruned]
    by_cases hall : ∀ m ∈ later, m.1 - length ≤ r.1
    · rw [if_pos (by simpa using hall), and_iff_right fun _ => hall]
      simp only [List.filter_cons]
      split <;> simp
    · rw [if_neg (by simpa using hall)]
      cases hq : q r with
      | false => simp [hq]
      | true =>
        -- a row is missing, so the lists differ in length
        simp only [hall, imp_false, not_true_eq_false, false_and, iff_false]
        intro heq
        have := congrArg List.length heq
        rw [List.filter_cons_of_pos hq, List.length_cons] at this
        have := hsub.length_le
        omega

-- ---- Runs

variable {rule : SlidingRule F} {events : List (Event F)}

theorem passing_row (ts : Int) (tagged : TaggedRow F) :
    rule.passing (events ++ [.row ts tagged]) =
      rule.passing events ++ if rule.passes tagged then [.row ts tagged] else [] := by
  simp only [SlidingRule.passing, List.filter_append, List.filter_cons, List.filter_nil]

theorem passing_joinsClosed :
    rule.passing (events ++ [.joinsClosed]) = rule.passing events ++ [.joinsClosed] := by
  simp [SlidingRule.passing]

theorem mem_of_mem_taken {r : Int × TaggedRow F} (h : r ∈ rule.taken events) :
    Event.row r.1 r.2 ∈ events :=
  (List.mem_filter.mp (mem_of_mem_acceptedFrom h)).1

theorem saturate_le_iff {n ts : Int} (hn : n ≤ maxI64) (hts : minI64 ≤ ts) :
    saturate n ≤ ts ↔ n ≤ ts := by
  have hrange : minI64 ≤ maxI64 := by decide
  simp only [saturate]
  omega

/-- Every row is an `i64`, and there is no trigger delay. -/
structure Undelayed (rule : SlidingRule F) (events : List (Event F)) : Prop where
  length : 0 ≤ rule.windowMillis
  delay : rule.delayMs ≤ 0
  range : ∀ ts tagged, Event.row ts tagged ∈ events → minI64 ≤ ts ∧ ts ≤ maxI64

theorem Undelayed.mono {events' : List (Event F)} (h : Undelayed rule events)
    (hsub : events' ⊆ events) : Undelayed rule events' :=
  ⟨h.length, h.delay, fun ts tagged hrow => h.range ts tagged (hsub hrow)⟩

structure Sliding.Inv (rule : SlidingRule F) (events : List (Event F)) (s : Sliding F) :
    Prop where
  clock : s.clock = rule.clock (rule.passing events)
  pending : s.pendingTriggers = []
  buffer : s.etBuffer = sortByKey Prod.fst (unpruned rule.windowMillis (rule.taken events))

theorem ingest_eq {s : Sliding F} (hpending : s.pendingTriggers = []) (hdelay : rule.delayMs ≤ 0)
    {ts : Int} {tagged : TaggedRow F} (hpasses : rule.passes tagged = true)
    (hlate : s.clock.isLate ts = false) :
    s.ingest rule ts tagged =
      (⟨s.clock.advance rule.toEventRule tagged.source ts,
        (sortByKey Prod.fst (s.etBuffer ++ [(ts, tagged)])).filter
          (saturate (ts - rule.windowMillis) ≤ ·.1), []⟩,
        if rule.triggers tagged then
          emitWindowBatch (saturate (ts - rule.windowMillis)) ts
            (rowsBetween (saturate (ts - rule.windowMillis)) ts
              (sortByKey Prod.fst (s.etBuffer ++ [(ts, tagged)])))
        else []) := by
  have hnone : ¬rule.delayMs > 0 := by omega
  simp [Sliding.ingest, hpasses, hlate, hpending, hnone, firePending]

theorem taken_onTime {ts : Int} {tagged : TaggedRow F} (hpasses : rule.passes tagged = true)
    (hlate : (rule.clock (rule.passing events)).isLate ts = false) :
    rule.taken (events ++ [.row ts tagged]) = rule.taken events ++ [(ts, tagged)] := by
  rw [SlidingRule.taken, passing_row, if_pos hpasses, accepted_onTime tagged hlate, if_pos hpasses]
  rfl

theorem Sliding.Inv.row {s : Sliding F} (h : s.Inv rule events) {ts : Int} {tagged : TaggedRow F}
    (hrule : Undelayed rule (events ++ [.row ts tagged])) :
    (s.ingest rule ts tagged).1.Inv rule (events ++ [.row ts tagged]) := by
  cases hpasses : rule.passes tagged with
  | false =>
    have hsame : rule.passing (events ++ [.row ts tagged]) = rule.passing events := by
      simp [passing_row, hpasses]
    simp only [Sliding.ingest, hpasses, Bool.not_false, Bool.true_or, if_true]
    refine ⟨?_, h.pending, ?_⟩
    · rw [hsame, h.clock]
    · rw [SlidingRule.taken, hsame, h.buffer]
      rfl
  | true =>
    have hmore : rule.passing (events ++ [.row ts tagged]) =
        rule.passing events ++ [.row ts tagged] := by
      simp [passing_row, hpasses]
    cases hlate : s.clock.isLate ts with
    | true =>
      simp only [Sliding.ingest, hlate, Bool.or_true, if_true]
      rw [h.clock] at hlate
      refine ⟨?_, h.pending, ?_⟩
      · rw [hmore, clock_late tagged hlate, h.clock]
      · rw [SlidingRule.taken, hmore, accepted_late tagged hlate, h.buffer]
        rfl
    | false =>
      rw [ingest_eq h.pending hrule.delay hpasses hlate]
      rw [h.clock] at hlate
      refine ⟨?_, rfl, ?_⟩
      · rw [hmore, clock_onTime tagged hlate, h.clock]
      · rw [taken_onTime hpasses hlate, unpruned_snoc hrule.length, h.buffer, sortByKey_append,
          filter_sortByKey]
        refine congrArg _ (filter_iff fun r hr => ?_)
        have hlength := hrule.length
        have hts := hrule.range ts tagged (by simp)
        have hr' : minI64 ≤ r.1 := by
          rcases List.mem_append.mp hr with hr | hr
          · have hmem := mem_of_mem_taken ((unpruned_sublist _).subset hr)
            exact (hrule.range r.1 r.2 (List.mem_append_left _ hmem)).1
          · rw [List.mem_singleton.mp hr]
            exact hts.1
        simp only [decide_eq_true_eq]
        exact saturate_le_iff (by omega) hr'

theorem sliding_inv (hrule : Undelayed rule events) :
    (Sliding.run rule events).1.Inv rule events := by
  induction events using List.reverseRecOn with
  | nil => exact ⟨rfl, rfl, rfl⟩
  | append_singleton events event ih =>
    have hinv := ih (hrule.mono (List.subset_append_left _ _))
    rw [Sliding.run, runEvents_snoc]
    cases event with
    | row ts tagged => exact hinv.row hrule
    | joinsClosed =>
      refine ⟨?_, hinv.pending, ?_⟩
      · rw [passing_joinsClosed, clock_snoc, ← hinv.clock]
        rfl
      · rw [SlidingRule.taken, passing_joinsClosed, accepted_joinsClosed]
        exact hinv.buffer

theorem rowsBetween_sorted_inj {start stop : Int} {part rows : List (Int × TaggedRow F)}
    (hsub : part.Sublist rows) (x : Int × TaggedRow F) :
    rowsBetween start stop (sortByKey Prod.fst (part ++ [x])) =
        rowsBetween start stop (sortByKey Prod.fst (rows ++ [x])) ↔
      part.filter (fun r => start ≤ r.1 && r.1 ≤ stop) =
        rows.filter fun r => start ≤ r.1 && r.1 ≤ stop := by
  simp only [rowsBetween, filter_sortByKey, List.filter_append]
  constructor
  · intro heq
    refine (hsub.filter _).eq_of_length ?_
    simpa [length_sortByKey] using congrArg List.length heq
  · intro heq
    rw [heq]

structure Triggered (rule : SlidingRule F) (events before : List (Event F)) (ts : Int)
    (tagged : TaggedRow F) : Prop where
  sent : (before ++ [.row ts tagged]) <+: events
  passes : rule.passes tagged = true
  onTime : (Sliding.run rule before).1.clock.isLate ts = false
  triggers : rule.triggers tagged = true

/-- A row that triggers emits the accepted rows of its window, in the order of their
timestamps. -/
def SlidingComplete (rule : SlidingRule F) (events : List (Event F)) : Prop :=
  ∀ before ts tagged, Triggered rule events before ts tagged →
    ((Sliding.run rule before).1.ingest rule ts tagged).2 =
      [⟨saturate (ts - rule.windowMillis), ts, rowsBetween (ts - rule.windowMillis) ts
        (sortByKey Prod.fst (rule.taken (before ++ [.row ts tagged])))⟩]

/-- The batches are complete if and only if no accepted row in the window of a row that
triggers was followed, before that row arrived, by an accepted row that is newer than it by
more than the length. -/
theorem sliding_complete_iff (rule : SlidingRule F) (events : List (Event F))
    (hrule : Undelayed rule events) :
    SlidingComplete rule events ↔
      ∀ before ts tagged, Triggered rule events before ts tagged →
        ∀ earlier r later, rule.taken before = earlier ++ r :: later →
          ts - rule.windowMillis ≤ r.1 → r.1 ≤ ts → ∀ m ∈ later, m.1 - rule.windowMillis ≤ r.1 := by
  refine forall_congr' fun before => forall₂_congr fun ts tagged => imp_congr_right fun h => ?_
  have hrule' : Undelayed rule (before ++ [.row ts tagged]) := hrule.mono h.sent.subset
  have hinv := sliding_inv (hrule'.mono (List.subset_append_left _ _))
  have hlate := h.onTime
  rw [hinv.clock] at hlate
  rw [ingest_eq hinv.pending hrule.delay h.passes h.onTime, if_pos h.triggers,
    taken_onTime h.passes hlate, hinv.buffer, sortByKey_append]
  have hlength := hrule.length
  have hts := hrule'.range ts tagged (by simp)
  have hstart : rowsBetween (saturate (ts - rule.windowMillis)) ts (sortByKey Prod.fst
      (unpruned rule.windowMillis (rule.taken before) ++ [(ts, tagged)])) =
      rowsBetween (ts - rule.windowMillis) ts (sortByKey Prod.fst
        (unpruned rule.windowMillis (rule.taken before) ++ [(ts, tagged)])) := by
    refine congrArg _ (filter_iff fun r hr => ?_)
    have hr' : minI64 ≤ r.1 := by
      rcases List.mem_append.mp (mem_sortByKey.mp hr) with hr | hr
      · have hmem := mem_of_mem_taken ((unpruned_sublist _).subset hr)
        exact (hrule'.range r.1 r.2 (List.mem_append_left _ hmem)).1
      · rw [List.mem_singleton.mp hr]
        exact hts.1
    simp only [Bool.and_eq_true, decide_eq_true_eq,
      saturate_le_iff (show ts - rule.windowMillis ≤ maxI64 by omega) hr']
  have hself : rowsBetween (ts - rule.windowMillis) ts (sortByKey Prod.fst
      (unpruned rule.windowMillis (rule.taken before) ++ [(ts, tagged)])) ≠ [] := by
    refine List.ne_nil_of_mem (List.mem_map_of_mem (List.mem_filter.mpr
      ⟨mem_sortByKey.mpr (List.mem_append_right _ (List.mem_singleton_self _)), ?_⟩))
    simp only [Bool.and_eq_true, decide_eq_true_eq]
    omega
  rw [hstart, emitWindowBatch, if_neg (by simpa using hself)]
  calc
    _ ↔ rowsBetween (ts - rule.windowMillis) ts (sortByKey Prod.fst
          (unpruned rule.windowMillis (rule.taken before) ++ [(ts, tagged)])) =
        rowsBetween (ts - rule.windowMillis) ts
          (sortByKey Prod.fst (rule.taken before ++ [(ts, tagged)])) := by simp
    _ ↔ _ := rowsBetween_sorted_inj (unpruned_sublist _) _
    _ ↔ _ := filter_unpruned_iff _ _
    _ ↔ _ := by simp only [Bool.and_eq_true, decide_eq_true_eq, and_imp]

def slidingStream (lateTolerance windowMillis : Int) : SlidingRule Unit :=
  { oneStream lateTolerance with windowMillis, delayMs := 0, triggers := fun _ => true }

theorem undelayed_arrivals {lateTolerance windowMillis : Int} {timestamps : List Int}
    (hlength : 0 ≤ windowMillis) (hrange : ∀ ts ∈ timestamps, minI64 ≤ ts ∧ ts ≤ maxI64) :
    Undelayed (slidingStream lateTolerance windowMillis) (arrivals timestamps) :=
  ⟨hlength, le_refl _, fun ts _ hrow => hrange ts (mem_arrivals hrow)⟩

theorem close_rows_complete : SlidingComplete (slidingStream 5 10) (arrivals [0, 4, 2]) := by
  refine (sliding_complete_iff _ _ (undelayed_arrivals (by decide) (by decide))).mpr ?_
  intro before ts tagged h earlier r later htaken _ _ m hm
  -- no two rows are more than the length apart
  have hrange : ∀ r ∈ (slidingStream 5 10).taken before, 0 ≤ r.1 ∧ r.1 ≤ 4 := by
    intro r hr
    have hmem := h.sent.subset (List.mem_append_left _ (mem_of_mem_taken hr))
    have hall : ∀ ts ∈ [(0 : Int), 4, 2], 0 ≤ ts ∧ ts ≤ 4 := by decide
    exact hall r.1 (mem_arrivals hmem)
  have hr := hrange r (by simp [htaken])
  have hm := hrange m (by simp [htaken, hm])
  show m.1 - 10 ≤ r.1
  omega

/-- The row at 20 drops the row at 0, which the row at 5 needs. -/
theorem older_row_incomplete : ¬SlidingComplete (slidingStream 100 10) (arrivals [0, 20, 5]) := by
  intro h
  have hbatch := h (arrivals [0, 20]) 5 ⟨"s", ∅⟩ ⟨List.prefix_refl _, rfl, by decide, rfl⟩
  have hlengths := congrArg (List.map fun b => b.rows.length) hbatch
  revert hlengths
  decide

end Rekuiper.Windows
