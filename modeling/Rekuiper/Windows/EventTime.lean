import Rekuiper.Pipeline.WindowRows

/-!
# Event time

Window rules in event time share their clock: the greatest timestamp of each stream, and a
watermark behind the slowest of the streams that are still open. A row older than the watermark
is late and is dropped. Rows that `WHERE` rejects move the clock as well.
-/

namespace Rekuiper.Windows

open Lib Sql
open Pipeline (TaggedRow)

variable {F : Type}

/-- What a window rule in event time reads of its statement and its options. `passes` is
`window_ingest_passes`. -/
structure EventRule (F : Type) where
  fromSource : String
  fromIsTable : Bool
  joinSources : List String
  lateTolerance : Int
  passes : TaggedRow F → Bool

/-- What the rule receives: a row, with the timestamp that `extract_event_timestamp` finds in it
or takes from the clock, or the end of all joined streams. -/
inductive Event (F : Type)
  | row (ts : Int) (tagged : TaggedRow F)
  | joinsClosed

/-- What `emit_window_batch` gets. -/
structure Batch (F : Type) where
  start : Int
  stop : Int
  rows : List (TaggedRow F)

def emitWindowBatch (start stop : Int) (rows : List (TaggedRow F)) : List (Batch F) :=
  if rows.isEmpty then [] else [⟨start, stop, rows⟩]

def pushNew (names : List String) (name : String) : List String :=
  if names.contains name then names else names ++ [name]

namespace EventRule

def inputStreams (rule : EventRule F) : List String :=
  rule.joinSources.foldl pushNew (if rule.fromIsTable then [] else [rule.fromSource])

def joinStreamNames (rule : EventRule F) : List String := rule.joinSources.foldl pushNew []

end EventRule

theorem saturate_mono {m n : Int} (h : m ≤ n) : saturate m ≤ saturate n := by
  simp only [saturate]
  omega

-- ---- The clock

structure Clock where
  streamMaxTs : HashMap String Int
  closedStreams : List String
  watermark : Int

namespace Clock

def start : Clock := ⟨∅, [], minI64⟩

def isLate (c : Clock) (ts : Int) : Bool := ts < c.watermark

def advance (rule : EventRule F) (c : Clock) (source : String) (ts : Int) : Clock :=
  let streamMaxTs := c.streamMaxTs.upsert source ts (max · ts)
  let active := rule.inputStreams.filter fun s => !c.closedStreams.contains s
  let allActiveSeen := active.all fun s => (streamMaxTs.lookup s).isSome
  let minSourceTs := (active.filterMap streamMaxTs.lookup).min?.getD ts
  { c with
    streamMaxTs
    watermark :=
      if allActiveSeen then max c.watermark (saturate (minSourceTs - rule.lateTolerance))
      else c.watermark }

def step (rule : EventRule F) (c : Clock) : Event F → Clock
  | .row ts tagged => if c.isLate ts then c else c.advance rule tagged.source ts
  | .joinsClosed => { c with closedStreams := c.closedStreams ++ rule.joinStreamNames }

end Clock

namespace EventRule

def clock (rule : EventRule F) (events : List (Event F)) : Clock :=
  events.foldl (Clock.step rule) .start

def watermark (rule : EventRule F) (events : List (Event F)) : Int := (rule.clock events).watermark

def acceptedFrom (rule : EventRule F) : Clock → List (Event F) → List (Int × TaggedRow F)
  | _, [] => []
  | c, event :: events =>
    (match event with
      | .row ts tagged => if !c.isLate ts && rule.passes tagged then [(ts, tagged)] else []
      | .joinsClosed => []) ++ rule.acceptedFrom (c.step rule event) events

def accepted (rule : EventRule F) (events : List (Event F)) : List (Int × TaggedRow F) :=
  rule.acceptedFrom .start events

end EventRule

variable {rule : EventRule F} {c : Clock} {events : List (Event F)}

theorem clock_snoc (event : Event F) :
    rule.clock (events ++ [event]) = (rule.clock events).step rule event := by
  simp [EventRule.clock]

theorem acceptedFrom_append (more : List (Event F)) :
    rule.acceptedFrom c (events ++ more) =
      rule.acceptedFrom c events ++ rule.acceptedFrom (events.foldl (Clock.step rule) c) more := by
  induction events generalizing c with
  | nil => rfl
  | cons event events ih => simp [EventRule.acceptedFrom, ih]

theorem accepted_row (ts : Int) (tagged : TaggedRow F) :
    rule.accepted (events ++ [.row ts tagged]) = rule.accepted events ++
      if !(rule.clock events).isLate ts && rule.passes tagged then [(ts, tagged)] else [] := by
  simp [EventRule.accepted, acceptedFrom_append, EventRule.acceptedFrom, EventRule.clock]

theorem accepted_joinsClosed :
    rule.accepted (events ++ [.joinsClosed]) = rule.accepted events := by
  simp [EventRule.accepted, acceptedFrom_append, EventRule.acceptedFrom]

theorem mem_of_mem_acceptedFrom {r : Int × TaggedRow F} (h : r ∈ rule.acceptedFrom c events) :
    Event.row r.1 r.2 ∈ events := by
  induction events generalizing c with
  | nil => cases h
  | cons event events ih =>
    rcases List.mem_append.mp h with h | h
    · cases event with
      | row ts tagged =>
        dsimp only at h
        split at h
        · cases List.mem_singleton.mp h
          exact List.mem_cons_self
        · cases h
      | joinsClosed => cases h
    · exact List.mem_cons_of_mem _ (ih h)

section
variable {ts : Int} (tagged : TaggedRow F)

theorem clock_late (h : (rule.clock events).isLate ts = true) :
    rule.clock (events ++ [.row ts tagged]) = rule.clock events := by
  rw [clock_snoc, Clock.step, if_pos h]

theorem accepted_late (h : (rule.clock events).isLate ts = true) :
    rule.accepted (events ++ [.row ts tagged]) = rule.accepted events := by
  simp [accepted_row, h]

theorem clock_onTime (h : (rule.clock events).isLate ts = false) :
    rule.clock (events ++ [.row ts tagged]) =
      (rule.clock events).advance rule tagged.source ts := by
  rw [clock_snoc, Clock.step, h]
  rfl

theorem accepted_onTime (h : (rule.clock events).isLate ts = false) :
    rule.accepted (events ++ [.row ts tagged]) =
      rule.accepted events ++ if rule.passes tagged then [(ts, tagged)] else [] := by
  simp [accepted_row, h]

theorem watermark_le_of_onTime (h : (rule.clock events).isLate ts = false) :
    rule.watermark events ≤ ts := by
  rw [Clock.isLate, decide_eq_false_iff_not, not_lt] at h
  exact h

end

-- ---- The watermark

theorem watermark_le_advance (source : String) (ts : Int) :
    c.watermark ≤ (c.advance rule source ts).watermark := by
  simp only [Clock.advance]
  split
  · exact le_max_left _ _
  · exact le_refl _

theorem watermark_le_step (event : Event F) : c.watermark ≤ (c.step rule event).watermark := by
  cases event with
  | row ts tagged =>
    simp only [Clock.step]
    split
    · exact le_refl _
    · exact watermark_le_advance _ _
  | joinsClosed => exact le_refl _

theorem watermark_mono (more : List (Event F)) :
    rule.watermark events ≤ rule.watermark (events ++ more) := by
  induction more using List.reverseRecOn with
  | nil => simp
  | append_singleton more event ih =>
    rw [← List.append_assoc, EventRule.watermark, EventRule.watermark, clock_snoc]
    exact ih.trans (watermark_le_step event)

theorem minI64_le_watermark : minI64 ≤ rule.watermark events :=
  @watermark_mono F rule [] events

/-- Every timestamp that the clock knows is at most `T`. -/
structure Clock.AtMost (c : Clock) (T : Int) : Prop where
  watermark : c.watermark ≤ T
  streams : ∀ s ts, c.streamMaxTs.lookup s = some ts → ts ≤ T

theorem Clock.AtMost.advance {T : Int} (h : c.AtMost T) (htolerance : 0 ≤ rule.lateTolerance)
    (hT : minI64 ≤ T) (source : String) {ts : Int} (hts : ts ≤ T) :
    (c.advance rule source ts).AtMost T := by
  have hstreams : ∀ s seen, (c.streamMaxTs.upsert source ts (max · ts)).lookup s = some seen →
      seen ≤ T := by
    intro s seen hseen
    by_cases hs : s = source
    · subst hs
      rw [HashMap.lookup_upsert, Option.some.injEq] at hseen
      subst hseen
      cases hold : c.streamMaxTs.lookup s with
      | none => simpa using hts
      | some old => exact max_le (h.streams s old hold) hts
    · rw [HashMap.lookup_upsert_ne _ _ _ hs] at hseen
      exact h.streams s seen hseen
  refine ⟨?_, hstreams⟩
  simp only [Clock.advance]
  split
  · refine max_le h.watermark ?_
    -- the slowest stream is behind `T` as all are
    have hmin : (((rule.inputStreams.filter fun s => !c.closedStreams.contains s).filterMap
        (c.streamMaxTs.upsert source ts (max · ts)).lookup).min?.getD ts) ≤ T := by
      cases hmin : ((rule.inputStreams.filter fun s => !c.closedStreams.contains s).filterMap
        (c.streamMaxTs.upsert source ts (max · ts)).lookup).min? with
      | none => exact hts
      | some least =>
        obtain ⟨s, -, hs⟩ := List.mem_filterMap.mp (List.min?_mem hmin)
        exact hstreams s least hs
    simp only [saturate]
    omega
  · exact h.watermark

theorem Clock.AtMost.step {T : Int} (h : c.AtMost T) (htolerance : 0 ≤ rule.lateTolerance)
    (hT : minI64 ≤ T) {event : Event F} (hevent : ∀ ts tagged, event = .row ts tagged → ts ≤ T) :
    (c.step rule event).AtMost T := by
  cases event with
  | row ts tagged =>
    simp only [Clock.step]
    split
    · exact h
    · exact h.advance htolerance hT _ (hevent ts tagged rfl)
  | joinsClosed => exact ⟨h.watermark, h.streams⟩

theorem start_atMost {T : Int} (hT : minI64 ≤ T) : Clock.start.AtMost T :=
  ⟨hT, fun s ts h => by cases h⟩

theorem clock_atMost {T : Int} (htolerance : 0 ≤ rule.lateTolerance) (hT : minI64 ≤ T)
    (hevents : ∀ ts tagged, Event.row ts tagged ∈ events → ts ≤ T) :
    (rule.clock events).AtMost T := by
  induction events using List.reverseRecOn with
  | nil => exact start_atMost hT
  | append_singleton events event ih =>
    rw [clock_snoc]
    refine (ih fun ts tagged h => hevents ts tagged (by simp [h])).step htolerance hT ?_
    rintro ts tagged rfl
    exact hevents ts tagged (by simp)

-- ---- Runs

theorem lt_fuel_mul {w : Int} (hw : 1 ≤ w) (x : Int) : x < ((x / w + 1).toNat : Int) * w := by
  calc
    x < (x / w + 1) * w := Int.lt_ediv_add_one_mul_self x (by omega)
    _ ≤ _ := mul_le_mul_of_nonneg_right (Int.self_le_toNat _) (by omega)

theorem filter_iff {α : Type} {p q : α → Bool} {xs : List α}
    (h : ∀ x ∈ xs, p x = true ↔ q x = true) : xs.filter p = xs.filter q :=
  List.filter_congr fun x hx => Bool.eq_iff_iff.mpr (h x hx)

theorem filter_agree {α : Type} {p q : α → Bool} {xs ys : List α} (h : xs.filter p = ys.filter p)
    (hpq : ∀ x, q x = true → p x = true) : xs.filter q = ys.filter q := by
  have hfilter : ∀ zs : List α, (zs.filter p).filter q = zs.filter q := by
    intro zs
    rw [List.filter_filter]
    refine filter_iff fun x _ => ?_
    rw [Bool.and_eq_true, and_iff_left_of_imp (hpq x)]
  rw [← hfilter xs, h, hfilter ys]

/-- The rows with timestamps in `[start, start + w)`. -/
def rowsIn (w start : Int) (rows : List (Int × TaggedRow F)) : List (TaggedRow F) :=
  (rows.filter fun r => start ≤ r.1 && r.1 < start + w).map Prod.snd

variable {w : Int}

theorem mem_emitWindowBatch {b : Batch F} {start stop : Int} {rows : List (TaggedRow F)} :
    b ∈ emitWindowBatch start stop rows ↔ rows ≠ [] ∧ b = ⟨start, stop, rows⟩ := by
  simp only [emitWindowBatch]
  split <;> simp_all

theorem emitWindowBatch_rows (start stop : Int) (rows : List (TaggedRow F)) :
    (emitWindowBatch start stop rows).flatMap Batch.rows = rows := by
  simp only [emitWindowBatch]
  split <;> simp_all

theorem le_of_lt_add_of_aligned (hw : 1 ≤ w) {a b : Int} (ha : a % w = 0) (hb : b % w = 0)
    (h : a < b + w) : a ≤ b := by
  obtain ⟨i, rfl⟩ := Int.dvd_of_emod_eq_zero ha
  obtain ⟨j, rfl⟩ := Int.dvd_of_emod_eq_zero hb
  have hij : w * i < w * (j + 1) := by linarith
  have : i < j + 1 := lt_of_mul_lt_mul_left hij (by omega)
  exact mul_le_mul_of_nonneg_left (by omega) (by omega)

def runEvents {σ : Type} (step : σ → Event F → σ × List (Batch F)) (s : σ)
    (events : List (Event F)) : σ × List (Batch F) :=
  events.foldl (fun run event => ((step run.1 event).1, run.2 ++ (step run.1 event).2)) (s, [])

theorem runEvents_snoc {σ : Type} (step : σ → Event F → σ × List (Batch F)) (s : σ)
    (event : Event F) :
    runEvents step s (events ++ [event]) =
      ((step (runEvents step s events).1 event).1,
        (runEvents step s events).2 ++ (step (runEvents step s events).1 event).2) := by
  simp [runEvents]

def oneStream (lateTolerance : Int) : EventRule Unit :=
    ⟨"s", false, [], lateTolerance, fun _ => true⟩

def arrivals (timestamps : List Int) : List (Event Unit) :=
  timestamps.map fun ts => .row ts ⟨"s", ∅⟩

theorem mem_arrivals {timestamps : List Int} {ts : Int} {tagged : TaggedRow Unit}
    (h : Event.row ts tagged ∈ arrivals timestamps) : ts ∈ timestamps := by
  obtain ⟨ts', hts, heq⟩ := List.mem_map.mp h
  cases heq
  exact hts

end Rekuiper.Windows
