import Rekuiper.Lib.Segments
import Rekuiper.Windows.EventTime

/-!
# Session windows

`run_session_window_rule` in event time. A session ends with the first row that is too far from
the row before it or from the first row of the session, or as soon as the watermark is `timeout`
past its last row. Rows are taken in the order in which they arrive.
-/

namespace Rekuiper.Windows

open Lib Sql
open Pipeline (TaggedRow)

variable {F : Type}

/-- The lengths are the ones of the window in milliseconds, cast to `i64`. -/
structure SessionRule (F : Type) extends EventRule F where
  timeout : Int
  maxDuration : Int

namespace SessionRule

def timeoutMs (rule : SessionRule F) : Int := max rule.timeout 1

def maxDurationMs (rule : SessionRule F) : Int := max rule.maxDuration 1

end SessionRule

structure SessionState (F : Type) where
  clock : Clock
  sessionBuffer : List (Int × TaggedRow F)
  sessionStart : Option Int
  lastEventTs : Option Int

namespace SessionState

def put (rule : SessionRule F) (s : SessionState F) (ts : Int) (tagged : TaggedRow F) :
    SessionState F × List (Batch F) :=
  match s.lastEventTs with
  | some lastTs =>
    if saturate (ts - lastTs) > rule.timeoutMs ∨
        saturate (ts - s.sessionStart.getD ts) ≥ rule.maxDurationMs then
      ({ s with sessionBuffer := [(ts, tagged)], sessionStart := some ts, lastEventTs := some ts },
        emitWindowBatch (s.sessionStart.getD lastTs) (saturate (lastTs + rule.timeoutMs))
          (s.sessionBuffer.map Prod.snd))
    else
      ({ s with sessionBuffer := s.sessionBuffer ++ [(ts, tagged)], lastEventTs := some ts }, [])
  | none =>
    ({ s with
        sessionBuffer := s.sessionBuffer ++ [(ts, tagged)]
        sessionStart := some ts
        lastEventTs := some ts }, [])

def closeIdle (rule : SessionRule F) (s : SessionState F) : SessionState F × List (Batch F) :=
  match s.lastEventTs with
  | some lastTs =>
    if saturate (lastTs + rule.timeoutMs) ≤ s.clock.watermark then
      ({ s with sessionBuffer := [], sessionStart := none, lastEventTs := none },
        emitWindowBatch (s.sessionStart.getD lastTs) (saturate (lastTs + rule.timeoutMs))
          (s.sessionBuffer.map Prod.snd))
    else (s, [])
  | none => (s, [])

/-- `ingest_session!` -/
def ingest (rule : SessionRule F) (s : SessionState F) (ts : Int) (tagged : TaggedRow F) :
    SessionState F × List (Batch F) :=
  if s.clock.isLate ts then (s, [])
  else
    let s := { s with clock := s.clock.advance rule.toEventRule tagged.source ts }
    let (s, cut) := if rule.passes tagged then s.put rule ts tagged else (s, [])
    let (s, idle) := s.closeIdle rule
    (s, cut ++ idle)

def step (rule : SessionRule F) (s : SessionState F) : Event F → SessionState F × List (Batch F)
  | .row ts tagged => s.ingest rule ts tagged
  | .joinsClosed => ({ s with clock := s.clock.step rule.toEventRule .joinsClosed }, [])

def finish (rule : SessionRule F) (s : SessionState F) : List (Batch F) :=
  emitWindowBatch (s.sessionStart.getD 0) (saturate (s.lastEventTs.getD 0 + rule.timeoutMs))
    (s.sessionBuffer.map Prod.snd)

end SessionState

namespace SessionRule

def run (rule : SessionRule F) (events : List (Event F)) : SessionState F × List (Batch F) :=
  runEvents (SessionState.step rule) ⟨.start, [], none, none⟩ events

def sessions (rule : SessionRule F) (events : List (Event F)) : List (Batch F) :=
  (rule.run events).2 ++ (rule.run events).1.finish rule

end SessionRule

-- ---- Accepted rows with the watermark before them

structure Stamped (F : Type) where
  watermark : Int
  ts : Int
  tagged : TaggedRow F

def Stamped.row (r : Stamped F) : Int × TaggedRow F := (r.ts, r.tagged)

namespace EventRule

def stampedFrom (rule : EventRule F) : Clock → List (Event F) → List (Stamped F)
  | _, [] => []
  | c, event :: events =>
    (match event with
      | .row ts tagged =>
        if !c.isLate ts && rule.passes tagged then [⟨c.watermark, ts, tagged⟩] else []
      | .joinsClosed => []) ++ rule.stampedFrom (c.step rule event) events

def stamped (rule : EventRule F) (events : List (Event F)) : List (Stamped F) :=
  rule.stampedFrom .start events

end EventRule

section
variable {rule : EventRule F} {events : List (Event F)}

theorem stampedFrom_append (c : Clock) (more : List (Event F)) :
    rule.stampedFrom c (events ++ more) =
      rule.stampedFrom c events ++ rule.stampedFrom (events.foldl (Clock.step rule) c) more := by
  induction events generalizing c with
  | nil => rfl
  | cons event events ih => simp [EventRule.stampedFrom, ih]

theorem stamped_row (ts : Int) (tagged : TaggedRow F) :
    rule.stamped (events ++ [.row ts tagged]) = rule.stamped events ++
      if !(rule.clock events).isLate ts && rule.passes tagged then
        [⟨rule.watermark events, ts, tagged⟩]
      else [] := by
  simp [EventRule.stamped, stampedFrom_append, EventRule.stampedFrom, EventRule.clock,
    EventRule.watermark]

theorem stamped_joinsClosed :
    rule.stamped (events ++ [.joinsClosed]) = rule.stamped events := by
  simp [EventRule.stamped, stampedFrom_append, EventRule.stampedFrom]

theorem map_row_stampedFrom (c : Clock) :
    (rule.stampedFrom c events).map Stamped.row = rule.acceptedFrom c events := by
  induction events generalizing c with
  | nil => rfl
  | cons event events ih =>
    simp only [EventRule.stampedFrom, EventRule.acceptedFrom, List.map_append, ih]
    congr 1
    cases event with
    | row ts tagged =>
      dsimp only
      split <;> rfl
    | joinsClosed => rfl

end

-- ---- The batches are segments

namespace SessionRule

/-- Whether a session with these first and last rows ends before a row. -/
def ends (rule : SessionRule F) (first last r : Stamped F) : Bool :=
  saturate (last.ts + rule.timeoutMs) ≤ r.watermark || saturate (r.ts - last.ts) > rule.timeoutMs ||
    saturate (r.ts - first.ts) ≥ rule.maxDurationMs

def toBatch (rule : SessionRule F) (seg : List (Stamped F)) : Batch F :=
  ⟨(seg.head?.map Stamped.ts).getD 0,
    saturate ((seg.getLast?.map Stamped.ts).getD 0 + rule.timeoutMs), seg.map Stamped.tagged⟩

/-- A session is open: the state holds its rows, and the sessions before it are emitted. -/
structure Opened (rule : SessionRule F) (sg : Segmented (Stamped F)) (s : SessionState F)
    (batches : List (Batch F)) (first last : Stamped F) : Prop where
  hfirst : sg.current.head? = some first
  hlast : sg.current.getLast? = some last
  buffer : s.sessionBuffer = sg.current.map Stamped.row
  start : s.sessionStart = some first.ts
  lastTs : s.lastEventTs = some last.ts
  emitted : batches = sg.closed.map rule.toBatch

/-- No session is open: all are emitted, and the watermark is past the last one. -/
structure Idle (rule : SessionRule F) (sg : Segmented (Stamped F)) (s : SessionState F)
    (batches : List (Batch F)) : Prop where
  passed : ∀ last, sg.current.getLast? = some last →
    saturate (last.ts + rule.timeoutMs) ≤ s.clock.watermark
  buffer : s.sessionBuffer = []
  start : s.sessionStart = none
  lastTs : s.lastEventTs = none
  emitted : batches = sg.segments.map rule.toBatch

def Tracks (rule : SessionRule F) (sg : Segmented (Stamped F)) (s : SessionState F)
    (batches : List (Batch F)) : Prop :=
  (∃ first last, rule.Opened sg s batches first last ∧
    ¬saturate (last.ts + rule.timeoutMs) ≤ s.clock.watermark) ∨ rule.Idle sg s batches

end SessionRule

variable {rule : SessionRule F} {sg : Segmented (Stamped F)} {s : SessionState F}
  {batches : List (Batch F)} {first last : Stamped F}

open SessionRule

namespace SessionRule.Opened

theorem ne_nil (h : rule.Opened sg s batches first last) : sg.current ≠ [] := by
  intro hnil
  have := h.hfirst
  rw [hnil] at this
  cases this

theorem emit (h : rule.Opened sg s batches first last) :
    emitWindowBatch first.ts (saturate (last.ts + rule.timeoutMs)) (s.sessionBuffer.map Prod.snd) =
      [rule.toBatch sg.current] := by
  have htagged : Prod.snd ∘ Stamped.row = (Stamped.tagged : Stamped F → TaggedRow F) := rfl
  simp [emitWindowBatch, toBatch, h.buffer, h.hfirst, h.hlast, h.ne_nil, htagged]

theorem segments_eq (h : rule.Opened sg s batches first last) :
    sg.segments = sg.closed ++ [sg.current] := by
  simp [Segmented.segments, h.ne_nil]

theorem withClock (h : rule.Opened sg s batches first last) (c : Clock) :
    rule.Opened sg { s with clock := c } batches first last :=
  ⟨h.hfirst, h.hlast, h.buffer, h.start, h.lastTs, h.emitted⟩

theorem closeIdle (h : rule.Opened sg s batches first last) :
    rule.Tracks sg (s.closeIdle rule).1 (batches ++ (s.closeIdle rule).2) := by
  simp only [SessionState.closeIdle, h.lastTs, h.start, Option.getD_some, h.emit]
  split
  · rename_i hpassed
    refine .inr ⟨fun last' hlast' => ?_, rfl, rfl, rfl, ?_⟩
    · cases h.hlast.symm.trans hlast'
      exact hpassed
    · simp [h.emitted, h.segments_eq]
  · rename_i hwaiting
    rw [List.append_nil]
    exact .inl ⟨first, last, h, hwaiting⟩

theorem put (h : rule.Opened sg s batches first last) (r : Stamped F)
    (hwaiting : ¬saturate (last.ts + rule.timeoutMs) ≤ r.watermark) :
    ∃ first', rule.Opened (sg.push rule.ends r) (s.put rule r.ts r.tagged).1
      (batches ++ (s.put rule r.ts r.tagged).2) first' r := by
  have hends : isCut rule.ends sg.current r =
      (saturate (r.ts - last.ts) > rule.timeoutMs ||
        saturate (r.ts - first.ts) ≥ rule.maxDurationMs : Bool) := by
    simp [isCut, h.hfirst, h.hlast, SessionRule.ends, hwaiting]
  simp only [SessionState.put, h.lastTs, h.start, Option.getD_some, h.emit]
  split
  · rename_i hcut
    rw [push_cut (by simpa [hends] using hcut)]
    exact ⟨r, rfl, rfl, rfl, rfl, rfl, by simp [h.emitted]⟩
  · rename_i hcut
    rw [push_joined (by simpa [hends] using hcut)]
    exact ⟨first, by simp [h.hfirst], by simp, by simp [h.buffer, Stamped.row], rfl, rfl,
      by simp [h.emitted]⟩

end SessionRule.Opened

namespace SessionRule.Idle

theorem withClock (h : rule.Idle sg s batches) {c : Clock}
    (hle : s.clock.watermark ≤ c.watermark) : rule.Idle sg { s with clock := c } batches :=
  ⟨fun last hlast => (h.passed last hlast).trans hle, h.buffer, h.start, h.lastTs, h.emitted⟩

theorem closeIdle (h : rule.Idle sg s batches) : s.closeIdle rule = (s, []) := by
  simp only [SessionState.closeIdle, h.lastTs]

theorem put (h : rule.Idle sg s batches) (r : Stamped F)
    (hpassed : ∀ last, sg.current.getLast? = some last →
      saturate (last.ts + rule.timeoutMs) ≤ r.watermark) :
    rule.Opened (sg.push rule.ends r) (s.put rule r.ts r.tagged).1
      (batches ++ (s.put rule r.ts r.tagged).2) r r := by
  have hpush : sg.push rule.ends r = ⟨sg.segments, [r]⟩ := by
    cases hcurrent : sg.current with
    | nil =>
      rw [push_joined (by rw [hcurrent]; rfl), hcurrent]
      simp [Segmented.segments, hcurrent]
    | cons first rest =>
      have hlast := List.getLast?_eq_some_getLast (List.cons_ne_nil first rest)
      have hcut : isCut rule.ends sg.current r = true := by
        have hmark := hpassed _ (by rw [hcurrent, hlast])
        rw [hcurrent, isCut, List.head?_cons, hlast]
        simp only [SessionRule.ends, hmark, decide_true, Bool.true_or]
      rw [push_cut hcut]
      simp [Segmented.segments, hcurrent]
  simp only [SessionState.put, h.lastTs]
  rw [hpush]
  exact ⟨rfl, rfl, by simp [h.buffer, Stamped.row], rfl, rfl, by simp [h.emitted]⟩

end SessionRule.Idle

theorem SessionRule.ingest_tracks {events : List (Event F)}
    (h : rule.Tracks (segmented rule.ends (rule.stamped events)) s batches)
    (hclock : s.clock = rule.clock events) (ts : Int) (tagged : TaggedRow F) :
    rule.Tracks (segmented rule.ends (rule.stamped (events ++ [.row ts tagged])))
      (s.ingest rule ts tagged).1 (batches ++ (s.ingest rule ts tagged).2) := by
  rw [stamped_row, ← hclock]
  have hmark : rule.watermark events = s.clock.watermark := by rw [hclock]; rfl
  cases hlate : s.clock.isLate ts with
  | true => simpa [SessionState.ingest, hlate] using h
  | false =>
    have hle := @watermark_le_advance F rule.toEventRule s.clock tagged.source ts
    simp only [SessionState.ingest, hlate, Bool.not_false, Bool.true_and, Bool.false_eq_true,
      if_false]
    cases hpass : rule.passes tagged with
    | false =>
      simp only [Bool.false_eq_true, if_false, List.append_nil, List.nil_append]
      rcases h with ⟨first, last, hopened, -⟩ | hidle
      · exact (hopened.withClock _).closeIdle
      · have hidle := hidle.withClock hle
        rw [hidle.closeIdle, List.append_nil]
        exact .inr hidle
    | true =>
      simp only [if_true]
      rw [segmented_snoc, ← List.append_assoc]
      rcases h with ⟨first, last, hopened, hwaiting⟩ | hidle
      · rw [← hmark] at hwaiting
        obtain ⟨first', hput⟩ := (hopened.withClock _).put
          ⟨rule.watermark events, ts, tagged⟩ hwaiting
        exact hput.closeIdle
      · have hpassed := hidle.passed
        rw [← hmark] at hpassed
        exact ((hidle.withClock hle).put ⟨rule.watermark events, ts, tagged⟩ hpassed).closeIdle

theorem SessionState.put_clock (ts : Int) (tagged : TaggedRow F) :
    (s.put rule ts tagged).1.clock = s.clock := by
  unfold SessionState.put
  split
  · split <;> rfl
  · rfl

theorem SessionState.closeIdle_clock : (s.closeIdle rule).1.clock = s.clock := by
  unfold SessionState.closeIdle
  split
  · split <;> rfl
  · rfl

theorem SessionState.step_clock (event : Event F) :
    (s.step rule event).1.clock = s.clock.step rule.toEventRule event := by
  cases event with
  | row ts tagged =>
    simp only [SessionState.step, SessionState.ingest, Clock.step]
    split
    · rfl
    · rw [SessionState.closeIdle_clock]
      split
      · rw [SessionState.put_clock]
      · rfl
  | joinsClosed => rfl

theorem SessionRule.run_clock (events : List (Event F)) :
    (rule.run events).1.clock = rule.clock events := by
  induction events using List.reverseRecOn with
  | nil => rfl
  | append_singleton events event ih =>
    rw [SessionRule.run, runEvents_snoc, ← SessionRule.run, SessionState.step_clock, ih, clock_snoc]

theorem SessionRule.run_tracks (events : List (Event F)) :
    rule.Tracks (segmented rule.ends (rule.stamped events)) (rule.run events).1
      (rule.run events).2 := by
  induction events using List.reverseRecOn with
  | nil => exact .inr ⟨nofun, rfl, rfl, rfl, rfl⟩
  | append_singleton events event ih =>
    rw [SessionRule.run, runEvents_snoc, ← SessionRule.run]
    cases event with
    | row ts tagged => exact ingest_tracks ih (run_clock events) ts tagged
    | joinsClosed =>
      rw [stamped_joinsClosed]
      simp only [SessionState.step, List.append_nil]
      rcases ih with ⟨first, last, hopened, hwaiting⟩ | hidle
      · exact .inl ⟨first, last, hopened.withClock _, hwaiting⟩
      · exact .inr (hidle.withClock (le_refl _))

theorem SessionRule.sessions_eq (events : List (Event F)) :
    rule.sessions events = (segments rule.ends (rule.stamped events)).map rule.toBatch := by
  rw [SessionRule.sessions, SessionState.finish]
  rcases @SessionRule.run_tracks F rule events with ⟨first, last, hopened, -⟩ | hidle
  · rw [hopened.start, hopened.lastTs, Option.getD_some, Option.getD_some, hopened.emit,
      hopened.emitted, segments, hopened.segments_eq, List.map_append]
    rfl
  · rw [hidle.buffer, hidle.emitted]
    simp [emitWindowBatch, segments]

end Rekuiper.Windows
