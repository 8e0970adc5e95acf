import Rekuiper.Windows.EventTime

/-!
# Tumbling windows

`run_tumbling_window_rule` in event time. The open window starts at or before every buffered
row, and the watermark has not reached its end. So a row that is not late belongs to a window
that has not been closed, even if it moves the open window back.
-/

namespace Rekuiper.Windows

open Lib Sql
open Pipeline (TaggedRow)

variable {F : Type}

structure Tumbling (F : Type) where
  clock : Clock
  etBuffer : List (Int × TaggedRow F)
  windowStart : Option Int

/-- Closes every window that the watermark has passed, from `t0` on: the start of the window
that stays open, the rows that are left, and the batches. -/
def closeWindows (windowMillis watermark : Int) :
    Nat → Int → List (Int × TaggedRow F) → Int × List (Int × TaggedRow F) × List (Batch F)
  | 0, t0, etBuffer => (t0, etBuffer, [])
  | fuel + 1, t0, etBuffer =>
    let tEnd := saturate (t0 + windowMillis)
    if watermark < tEnd then (t0, etBuffer, [])
    else
      let (closed, stillOpen) := etBuffer.partition (·.1 < tEnd)
      let batch := (closed.filter (t0 ≤ ·.1)).map Prod.snd
      let (t0', etBuffer', batches) := closeWindows windowMillis watermark fuel tEnd stillOpen
      (t0', etBuffer', emitWindowBatch t0 tEnd batch ++ batches)

namespace Tumbling

def start : Tumbling F := ⟨.start, [], none⟩

def ingest (rule : EventRule F) (windowMillis : Int) (s : Tumbling F) (ts : Int)
    (tagged : TaggedRow F) : Tumbling F × List (Batch F) :=
  if s.clock.isLate ts then (s, [])
  else
    let clock := s.clock.advance rule tagged.source ts
    let aligned := ts - ts % max windowMillis 1
    let windowStart := s.windowStart.elim aligned (min aligned)
    let etBuffer := if rule.passes tagged then s.etBuffer ++ [(ts, tagged)] else s.etBuffer
    -- the loop closes this many windows at most
    let fuel := ((clock.watermark - windowStart) / windowMillis + 1).toNat
    let (windowStart, etBuffer, batches) :=
      closeWindows windowMillis clock.watermark fuel windowStart etBuffer
    (⟨clock, etBuffer, some windowStart⟩, batches)

def step (rule : EventRule F) (windowMillis : Int) (s : Tumbling F) :
    Event F → Tumbling F × List (Batch F)
  | .row ts tagged => s.ingest rule windowMillis ts tagged
  | .joinsClosed => ({ s with clock := s.clock.step rule .joinsClosed }, [])

def run (rule : EventRule F) (windowMillis : Int) (events : List (Event F)) :
    Tumbling F × List (Batch F) :=
  runEvents (step rule windowMillis) start events

end Tumbling

-- ---- The closing loop

variable {w watermark ws : Int} {accepted etBuffer : List (Int × TaggedRow F)}
  {emitted : List (Batch F)}

/-- The rows before the open window, which starts at `ws`, were emitted, each in its window;
the others are in the buffer. -/
structure Tiled (w watermark : Int) (accepted : List (Int × TaggedRow F)) (ws : Int)
    (etBuffer : List (Int × TaggedRow F)) (emitted : List (Batch F)) : Prop where
  aligned : ws % w = 0
  buffer : etBuffer = accepted.filter (ws ≤ ·.1)
  sorted : emitted.Pairwise fun b b' => b.start < b'.start
  sound : ∀ b ∈ emitted, b.start % w = 0 ∧ b.stop = b.start + w ∧ b.stop ≤ watermark ∧
    b.stop ≤ ws ∧ b.rows = rowsIn w b.start accepted
  complete : ∀ r ∈ accepted, r.1 < ws → ∃ b ∈ emitted, b.start ≤ r.1 ∧ r.1 < b.stop
  once : (emitted.flatMap Batch.rows ++ etBuffer.map Prod.snd).Perm (accepted.map Prod.snd)

theorem Tiled.close (h : Tiled w watermark accepted ws etBuffer emitted)
    (hclose : ws + w ≤ watermark) (hw : 1 ≤ w) :
    Tiled w watermark accepted (ws + w) (etBuffer.filter (ws + w ≤ ·.1))
      (emitted ++ emitWindowBatch ws (ws + w) (rowsIn w ws accepted)) where
  aligned := by rw [Int.add_emod_right, h.aligned]
  buffer := by
    rw [h.buffer, List.filter_filter]
    refine filter_iff fun r _ => ?_
    simp only [Bool.and_eq_true, decide_eq_true_eq]
    omega
  sorted := by
    refine List.pairwise_append.mpr ⟨h.sorted, ?_, ?_⟩
    · simp only [emitWindowBatch]
      split <;> simp
    · intro b hb b' hb'
      obtain ⟨-, hstop, -, hbefore, -⟩ := h.sound b hb
      obtain ⟨-, rfl⟩ := mem_emitWindowBatch.mp hb'
      show b.start < ws
      omega
  sound b hb := by
    rcases List.mem_append.mp hb with hb | hb
    · obtain ⟨haligned, hstop, hpassed, hbefore, hrows⟩ := h.sound b hb
      exact ⟨haligned, hstop, hpassed, by omega, hrows⟩
    · obtain ⟨-, rfl⟩ := mem_emitWindowBatch.mp hb
      exact ⟨h.aligned, rfl, hclose, le_refl _, rfl⟩
  complete r hr hbefore := by
    by_cases hold : r.1 < ws
    · obtain ⟨b, hb, hin⟩ := h.complete r hr hold
      exact ⟨b, List.mem_append_left _ hb, hin⟩
    · refine ⟨⟨ws, ws + w, rowsIn w ws accepted⟩, List.mem_append_right _ ?_,
        not_lt.mp hold, hbefore⟩
      refine mem_emitWindowBatch.mpr ⟨?_, rfl⟩
      refine List.ne_nil_of_mem (List.mem_map_of_mem (List.mem_filter.mpr ⟨hr, ?_⟩))
      simp only [Bool.and_eq_true, decide_eq_true_eq]
      omega
  once := by
    refine List.Perm.trans ?_ h.once
    rw [List.flatMap_append, emitWindowBatch_rows, List.append_assoc]
    refine List.Perm.append_left _ ?_
    -- the rows of the window and those after it are the buffer
    have hwindow : rowsIn w ws accepted =
        (etBuffer.filter fun r => !decide (ws + w ≤ r.1)).map Prod.snd := by
      rw [rowsIn, h.buffer, List.filter_filter]
      refine congrArg _ (filter_iff fun r _ => ?_)
      simp only [Bool.and_eq_true, decide_eq_true_eq, Bool.not_eq_true', decide_eq_false_iff_not]
      omega
    rw [hwindow, ← List.map_append]
    exact (List.perm_append_comm.trans (List.filter_append_perm _ _)).map _

theorem Tiled.closeWindows {fuel : Nat} (h : Tiled w watermark accepted ws etBuffer emitted)
    (hw : 1 ≤ w) (hfuel : watermark < ws + fuel * w) (hlow : minI64 ≤ ws + w)
    (hhigh : ws + w ≤ maxI64) (hwatermark : watermark + w ≤ maxI64) :
    let closed := closeWindows w watermark fuel ws etBuffer
    Tiled w watermark accepted closed.1 closed.2.1 (emitted ++ closed.2.2) ∧
      watermark < closed.1 + w ∧ closed.1 + w ≤ maxI64 := by
  induction fuel generalizing ws etBuffer emitted with
  | zero =>
    simp only [Windows.closeWindows, List.append_nil]
    exact ⟨h, by omega, hhigh⟩
  | succ fuel ih =>
    have hend : saturate (ws + w) = ws + w := by
      simp only [saturate]
      omega
    simp only [Windows.closeWindows, hend]
    split
    · simp only [List.append_nil]
      exact ⟨h, ‹_›, hhigh⟩
    · rename_i hpassed
      rw [not_lt] at hpassed
      -- the rows that the loop takes are those of the window
      have hbatch : ((etBuffer.partition (·.1 < ws + w)).1.filter (ws ≤ ·.1)).map Prod.snd =
          rowsIn w ws accepted := by
        rw [List.partition_eq_filter_filter, List.filter_filter, rowsIn, h.buffer,
          List.filter_filter]
        refine congrArg _ (filter_iff fun r _ => ?_)
        simp only [Bool.and_eq_true, decide_eq_true_eq]
        omega
      have hleft : (etBuffer.partition (·.1 < ws + w)).2 = etBuffer.filter (ws + w ≤ ·.1) := by
        rw [List.partition_eq_filter_filter]
        refine filter_iff fun r _ => ?_
        simp only [Function.comp_apply, Bool.not_eq_true', decide_eq_false_iff_not, not_lt,
          decide_eq_true_eq]
      have hfuel' : watermark < ws + w + fuel * w := by
        push_cast at hfuel
        linarith
      rw [hbatch, hleft, ← List.append_assoc]
      exact ih (h.close hpassed hw) hfuel' (by omega) (by omega)

theorem Tiled.add (h : Tiled w watermark accepted ws etBuffer emitted) (hw : 1 ≤ w) {ts : Int}
    (hlate : watermark ≤ ts) {watermark' : Int} (hwatermark : watermark ≤ watermark')
    (tagged : TaggedRow F) (passes : Bool) :
    Tiled w watermark' (accepted ++ if passes then [(ts, tagged)] else [])
      (min (ts - ts % w) ws) (if passes then etBuffer ++ [(ts, tagged)] else etBuffer)
      emitted := by
  have hmod := Int.emod_nonneg ts (show w ≠ 0 by omega)
  have hmod' := Int.emod_lt_of_pos ts (show 0 < w by omega)
  have haligned : (ts - ts % w) % w = 0 := Int.emod_eq_zero_of_dvd Int.dvd_self_sub_emod
  -- a window that was closed ends before the window of the row
  have hbefore : ∀ b ∈ emitted, b.stop ≤ ts - ts % w := by
    intro b hb
    obtain ⟨hstart, hstop, hpassed, -⟩ := h.sound b hb
    refine le_of_lt_add_of_aligned hw ?_ haligned (by omega)
    rw [hstop, Int.add_emod_right, hstart]
  have hsame : ∀ b ∈ emitted, ∀ r ∈ (if passes then [(ts, tagged)] else []), b.stop ≤ r.1 := by
    intro b hb r hr
    obtain ⟨-, rfl⟩ : passes = true ∧ r = (ts, tagged) := by
      cases passes <;> simp_all
    have := hbefore b hb
    show b.stop ≤ ts
    omega
  refine ⟨?_, ?_, h.sorted, fun b hb => ?_, fun r hr hbelow => ?_, ?_⟩
  · rcases min_choice (ts - ts % w) ws with hmin | hmin <;> rw [hmin]
    · exact haligned
    · exact h.aligned
  · -- no row between the two starts was left behind
    have hold : accepted.filter (min (ts - ts % w) ws ≤ ·.1) = etBuffer := by
      rw [h.buffer]
      refine filter_iff fun r hr => ?_
      simp only [decide_eq_true_eq]
      refine ⟨fun hr' => ?_, fun hr' => by omega⟩
      by_contra hlt
      obtain ⟨b, hb, -, hin⟩ := h.complete r hr (not_le.mp hlt)
      have := hbefore b hb
      omega
    rw [List.filter_append, hold]
    cases passes with
    | false => simp
    | true =>
      simp only [if_true]
      rw [List.filter_cons_of_pos, List.filter_nil]
      simp only [decide_eq_true_eq]
      omega
  · obtain ⟨hstart, hstop, hpassed, hws, hrows⟩ := h.sound b hb
    refine ⟨hstart, hstop, hpassed.trans hwatermark, le_min (hbefore b hb) hws, ?_⟩
    have hnone : (if passes then [(ts, tagged)] else []).filter
        (fun r => b.start ≤ r.1 && r.1 < b.start + w) = [] := by
      refine List.filter_eq_nil_iff.mpr fun r hr => ?_
      have := hsame b hb r hr
      simp only [Bool.and_eq_true, decide_eq_true_eq]
      omega
    rw [hrows, rowsIn, rowsIn, List.filter_append, hnone, List.append_nil]
  · rcases List.mem_append.mp hr with hr | hr
    · exact h.complete r hr (by omega)
    · obtain ⟨-, rfl⟩ : passes = true ∧ r = (ts, tagged) := by
        cases passes <;> simp_all
      dsimp only at hbelow
      omega
  · cases passes with
    | false => simpa using h.once
    | true =>
      simp only [if_true, List.map_append, List.map_cons, List.map_nil, ← List.append_assoc]
      exact h.once.append_right _

-- ---- Runs

variable {rule : EventRule F} {events : List (Event F)}

structure Tumbling.Inv (rule : EventRule F) (w : Int) (events : List (Event F)) (s : Tumbling F)
    (emitted : List (Batch F)) : Prop where
  clock : s.clock = rule.clock events
  closed : s.windowStart = none → rule.accepted events = [] ∧ s.etBuffer = [] ∧ emitted = []
  tiled : ∀ ws, s.windowStart = some ws →
    Tiled w (rule.watermark events) (rule.accepted events) ws s.etBuffer emitted
  opened : ∀ ws, s.windowStart = some ws → rule.watermark events < ws + w ∧ ws + w ≤ maxI64

theorem Tumbling.Inv.ingest {s : Tumbling F} {ts : Int} {tagged : TaggedRow F}
    (h : s.Inv rule w events emitted) (hw : 1 ≤ w) (htolerance : 0 ≤ rule.lateTolerance)
    (hrange : ∀ ts' tagged', Event.row ts' tagged' ∈ events ++ [.row ts tagged] →
      minI64 + w ≤ ts' ∧ ts' + w ≤ maxI64) :
    (s.ingest rule w ts tagged).1.Inv rule w (events ++ [.row ts tagged])
      (emitted ++ (s.ingest rule w ts tagged).2) := by
  unfold Tumbling.ingest
  rw [h.clock]
  cases hlate : (rule.clock events).isLate ts with
  | true =>
    simp only [if_true, List.append_nil]
    refine ⟨?_, ?_, ?_, ?_⟩ <;>
      simp only [EventRule.watermark, clock_late tagged hlate, accepted_late tagged hlate]
    · exact h.clock
    · exact h.closed
    · exact h.tiled
    · exact h.opened
  | false =>
    have hon := watermark_le_of_onTime hlate
    have hclock := clock_onTime tagged hlate
    have haccepted := accepted_onTime tagged hlate
    have hmono : rule.watermark events ≤ rule.watermark (events ++ [.row ts tagged]) :=
      watermark_mono _
    obtain ⟨hlow, hhigh⟩ := hrange ts tagged (by simp)
    have hwatermark : rule.watermark (events ++ [.row ts tagged]) ≤ maxI64 - w :=
      (clock_atMost htolerance (by omega) fun ts' tagged' hrow => by
        have := (hrange ts' tagged' hrow).2
        omega).watermark
    have hmod := Int.emod_nonneg ts (show w ≠ 0 by omega)
    have hmod' := Int.emod_lt_of_pos ts (show 0 < w by omega)
    have haligned : (ts - ts % w) % w = 0 := Int.emod_eq_zero_of_dvd Int.dvd_self_sub_emod
    -- the open window after the row
    obtain ⟨ws, hws, htiled, hlow', hhigh'⟩ : ∃ ws,
        s.windowStart.elim (ts - ts % max w 1) (min (ts - ts % max w 1)) = ws ∧
        Tiled w (rule.watermark (events ++ [.row ts tagged]))
          (rule.accepted (events ++ [.row ts tagged])) ws
          (if rule.passes tagged then s.etBuffer ++ [(ts, tagged)] else s.etBuffer) emitted ∧
        minI64 ≤ ws + w ∧ ws + w ≤ maxI64 := by
      rw [max_eq_left hw, haccepted]
      cases hstart : s.windowStart with
      | none =>
        obtain ⟨hnone, hbuffer, hemitted⟩ := h.closed hstart
        have hempty : Tiled w (rule.watermark events) ([] : List (Int × TaggedRow F))
            (ts - ts % w) [] [] :=
          ⟨haligned, rfl, .nil, by simp, by simp, .nil⟩
        have hadd := hempty.add hw hon hmono tagged (rule.passes tagged)
        rw [min_self] at hadd
        rw [hnone, hbuffer, hemitted]
        exact ⟨ts - ts % w, rfl, hadd, by omega, by omega⟩
      | some ws =>
        have hopened := h.opened ws hstart
        have hmin := @minI64_le_watermark F rule events
        exact ⟨min (ts - ts % w) ws, rfl,
          (h.tiled ws hstart).add hw hon hmono tagged (rule.passes tagged), by omega, by omega⟩
    simp only [Bool.false_eq_true, if_false, hws]
    rw [← hclock]
    have hfuel := lt_fuel_mul hw (rule.watermark (events ++ [.row ts tagged]) - ws)
    obtain ⟨hclosed, hopen, hbound⟩ :=
      htiled.closeWindows hw (sub_lt_iff_lt_add'.mp hfuel) hlow' hhigh' (by omega)
    refine ⟨rfl, by simp, fun ws' hws' => ?_, fun ws' hws' => ?_⟩
    · obtain rfl := Option.some.inj hws'
      exact hclosed
    · obtain rfl := Option.some.inj hws'
      exact ⟨hopen, hbound⟩

theorem Tumbling.Inv.joinsClosed {s : Tumbling F} (h : s.Inv rule w events emitted) :
    ({ s with clock := s.clock.step rule .joinsClosed } : Tumbling F).Inv rule w
      (events ++ [.joinsClosed]) emitted := by
  have hwatermark : rule.watermark (events ++ [.joinsClosed]) = rule.watermark events := by
    rw [EventRule.watermark, clock_snoc]
    rfl
  refine ⟨?_, ?_, ?_, ?_⟩
  · rw [clock_snoc, h.clock]
  · rw [accepted_joinsClosed]
    exact h.closed
  · rw [accepted_joinsClosed, hwatermark]
    exact h.tiled
  · rw [hwatermark]
    exact h.opened

theorem run_inv (hw : 1 ≤ w) (htolerance : 0 ≤ rule.lateTolerance)
    (hrange : ∀ ts tagged, Event.row ts tagged ∈ events → minI64 + w ≤ ts ∧ ts + w ≤ maxI64) :
    (Tumbling.run rule w events).1.Inv rule w events (Tumbling.run rule w events).2 := by
  induction events using List.reverseRecOn with
  | nil => exact ⟨rfl, fun _ => ⟨rfl, rfl, rfl⟩, nofun, nofun⟩
  | append_singleton events event ih =>
    have hinv := ih fun ts tagged hrow => hrange ts tagged (List.mem_append_left _ hrow)
    rw [Tumbling.run, runEvents_snoc]
    cases event with
    | row ts tagged => exact hinv.ingest hw htolerance hrange
    | joinsClosed => exact (List.append_nil (Tumbling.run rule w events).2).symm ▸ hinv.joinsClosed

theorem Tumbling.Inv.tiling {s : Tumbling F} (h : s.Inv rule w events emitted) (hw : 1 ≤ w) :
    ∃ ws, Tiled w (rule.watermark events) (rule.accepted events) ws s.etBuffer emitted ∧
      rule.watermark events < ws + w := by
  cases hstart : s.windowStart with
  | none =>
    obtain ⟨hnone, hbuffer, hemitted⟩ := h.closed hstart
    rw [hnone, hbuffer, hemitted]
    have hmod := Int.emod_lt_of_pos (rule.watermark events) (show 0 < w by omega)
    refine ⟨rule.watermark events - rule.watermark events % w, ?_, by omega⟩
    exact ⟨Int.emod_eq_zero_of_dvd Int.dvd_self_sub_emod, rfl, .nil, nofun, nofun, .nil⟩
  | some ws => exact ⟨ws, h.tiled ws hstart, (h.opened ws hstart).1⟩

theorem step_clock (s : Tumbling F) (event : Event F) :
    (s.step rule w event).1.clock = s.clock.step rule event := by
  cases event with
  | row ts tagged =>
    simp only [Tumbling.step, Tumbling.ingest, Clock.step]
    cases s.clock.isLate ts <;> rfl
  | joinsClosed => rfl

theorem run_clock (rule : EventRule F) (w : Int) (events : List (Event F)) :
    (Tumbling.run rule w events).1.clock = rule.clock events := by
  induction events using List.reverseRecOn with
  | nil => rfl
  | append_singleton events event ih =>
    rw [Tumbling.run, runEvents_snoc, clock_snoc, ← ih, ← step_clock]
    rfl

/-- Every accepted row is emitted once, in the window that it belongs to and as soon as the
watermark has reached its end; windows are emitted in order and the watermark never goes
back. -/
theorem tumbling_exactly_once (rule : EventRule F) (w : Int) (events : List (Event F))
    (hw : 1 ≤ w) (htolerance : 0 ≤ rule.lateTolerance)
    (hrange : ∀ ts tagged, Event.row ts tagged ∈ events → minI64 + w ≤ ts ∧ ts + w ≤ maxI64) :
    let run := Tumbling.run rule w events
    run.1.clock = rule.clock events ∧
      (run.2.flatMap Batch.rows ++ run.1.etBuffer.map Prod.snd).Perm
        ((rule.accepted events).map Prod.snd) ∧
      (∀ b ∈ run.2, b.start % w = 0 ∧ b.stop = b.start + w ∧
        b.rows = rowsIn w b.start (rule.accepted events)) ∧
      (∀ r ∈ rule.accepted events, ∀ t0, t0 % w = 0 → t0 ≤ r.1 → r.1 < t0 + w →
        t0 + w ≤ run.1.clock.watermark → ∃ b ∈ run.2, b.start = t0 ∧ r.2 ∈ b.rows) ∧
      run.2.Pairwise (fun b b' => b.start < b'.start) ∧
      ∀ more, run.1.clock.watermark ≤ (Tumbling.run rule w (events ++ more)).1.clock.watermark := by
  intro run
  have hclock : run.1.clock.watermark = rule.watermark events := by rw [run_clock]; rfl
  obtain ⟨ws, htiled, hopen⟩ := (run_inv hw htolerance hrange).tiling hw
  refine ⟨run_clock rule w events, htiled.once, fun b hb => ?_, fun r hr t0 ht0 hle hlt hpassed => ?_,
    htiled.sorted, fun more => ?_⟩
  · obtain ⟨haligned, hstop, -, -, hrows⟩ := htiled.sound b hb
    exact ⟨haligned, hstop, hrows⟩
  · -- the row is before the open window, so it was emitted, and only one window has it
    have hbefore : t0 ≤ ws - w := by
      refine le_of_lt_add_of_aligned hw ht0 ?_ (by omega)
      rw [Int.sub_emod_right, htiled.aligned]
    obtain ⟨b, hb, hstart, hend⟩ := htiled.complete r hr (by omega)
    obtain ⟨haligned, hstop, -, -, hrows⟩ := htiled.sound b hb
    have hsame : b.start = t0 := by
      refine le_antisymm ?_ ?_
      · exact le_of_lt_add_of_aligned hw haligned ht0 (by omega)
      · exact le_of_lt_add_of_aligned hw ht0 haligned (by omega)
    refine ⟨b, hb, hsame, ?_⟩
    rw [hrows]
    refine List.mem_map_of_mem (List.mem_filter.mpr ⟨hr, ?_⟩)
    simp only [Bool.and_eq_true, decide_eq_true_eq]
    omega
  · rw [hclock, run_clock]
    exact watermark_mono more

/-- A row that is out of order, but not late, is emitted in its window. -/
theorem out_of_order_row_emitted :
    let run := Tumbling.run (oneStream 5) 10 (arrivals [3, 12, 8, 27])
    run.2.map (fun b => (b.start, b.rows.length)) = [(0, 2), (10, 1)] ∧
      (run.2.flatMap Batch.rows ++ run.1.etBuffer.map Prod.snd).Perm
        (((oneStream 5).accepted (arrivals [3, 12, 8, 27])).map Prod.snd) := by
  refine ⟨by decide, (tumbling_exactly_once (oneStream 5) 10 _ (by decide) (by decide) ?_).2.1⟩
  intro ts tagged hrow
  have hts := mem_arrivals hrow
  have hbounds : ∀ ts ∈ [(3 : Int), 12, 8, 27], minI64 + 10 ≤ ts ∧ ts + 10 ≤ maxI64 := by decide
  exact hbounds ts hts

end Rekuiper.Windows
