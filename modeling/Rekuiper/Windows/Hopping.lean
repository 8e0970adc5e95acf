import Rekuiper.Windows.EventTime

/-!
# Hopping windows

`run_hopping_window_rule` in event time. The hops end at multiples of the hop, from the end of
the hop of the first row on. A later row that is older than that hop is buffered, but the hops
before it are never closed.
-/

namespace Rekuiper.Windows

open Lib Sql
open Pipeline (TaggedRow)

variable {F : Type}

structure Hopping (F : Type) where
  clock : Clock
  etBuffer : List (Int × TaggedRow F)
  nextHopEnd : Option Int

/-- Closes every hop that the watermark has passed, from `curEnd` on: the end of the next hop,
the rows that are kept, and the batches. -/
def closeHops (lengthMs hopMs watermark : Int) :
    Nat → Int → List (Int × TaggedRow F) → Int × List (Int × TaggedRow F) × List (Batch F)
  | 0, curEnd, etBuffer => (curEnd, etBuffer, [])
  | fuel + 1, curEnd, etBuffer =>
    if watermark < curEnd then (curEnd, etBuffer, [])
    else
      let curStart := saturate (curEnd - lengthMs)
      let batch := (etBuffer.filter fun r => curStart ≤ r.1 && r.1 < curEnd).map Prod.snd
      let nextEnd := saturate (curEnd + hopMs)
      let retainAfter := saturate (saturate (curEnd + hopMs) - lengthMs)
      let (nextEnd', etBuffer', batches) :=
        closeHops lengthMs hopMs watermark fuel nextEnd (etBuffer.filter (retainAfter ≤ ·.1))
      (nextEnd', etBuffer', emitWindowBatch curStart curEnd batch ++ batches)

def hopEnd (hopMs ts : Int) : Int := ts - ts % hopMs + hopMs

namespace Hopping

def start : Hopping F := ⟨.start, [], none⟩

/-- The `ingest_hop!` macro. -/
def ingest (rule : EventRule F) (lengthMs hopMs : Int) (s : Hopping F) (ts : Int)
    (tagged : TaggedRow F) : Hopping F × List (Batch F) :=
  if s.clock.isLate ts then (s, [])
  else
    let clock := s.clock.advance rule tagged.source ts
    let nextHopEnd := s.nextHopEnd.getD (hopEnd hopMs ts)
    let etBuffer := if rule.passes tagged then s.etBuffer ++ [(ts, tagged)] else s.etBuffer
    -- the loop closes this many hops at most
    let fuel := ((clock.watermark - nextHopEnd) / hopMs + 1).toNat
    let (nextHopEnd, etBuffer, batches) :=
      closeHops lengthMs hopMs clock.watermark fuel nextHopEnd etBuffer
    (⟨clock, etBuffer, some nextHopEnd⟩, batches)

def step (rule : EventRule F) (lengthMs hopMs : Int) (s : Hopping F) :
    Event F → Hopping F × List (Batch F)
  | .row ts tagged => s.ingest rule lengthMs (max hopMs 1) ts tagged
  | .joinsClosed => ({ s with clock := s.clock.step rule .joinsClosed }, [])

def run (rule : EventRule F) (lengthMs hopMs : Int) (events : List (Event F)) :
    Hopping F × List (Batch F) :=
  runEvents (step rule lengthMs hopMs) start events

end Hopping

-- ---- The closing loop

variable {length hop watermark first next : Int} {accepted etBuffer : List (Int × TaggedRow F)}
  {emitted : List (Batch F)}

/-- The hops from `first` up to `next` were closed with all their rows; the rows of later hops
are in the buffer. -/
structure Hopped (length hop watermark first : Int) (accepted : List (Int × TaggedRow F))
    (next : Int) (etBuffer : List (Int × TaggedRow F)) (emitted : List (Batch F)) : Prop where
  aligned : next % hop = 0
  started : first ≤ next
  buffer : etBuffer.filter (next - length ≤ ·.1) = accepted.filter (next - length ≤ ·.1)
  passed : next = first ∨ next - hop ≤ watermark
  sorted : emitted.Pairwise fun b b' => b.stop < b'.stop
  sound : ∀ b ∈ emitted, b.stop % hop = 0 ∧ b.start = b.stop - length ∧ first ≤ b.stop ∧
    b.stop < next ∧ b.stop ≤ watermark ∧ b.rows = rowsIn length b.start accepted
  complete : ∀ e, e % hop = 0 → first ≤ e → e < next →
    ∀ r ∈ accepted, e - length ≤ r.1 → r.1 < e → ∃ b ∈ emitted, b.stop = e

theorem Hopped.close (h : Hopped length hop watermark first accepted next etBuffer emitted)
    (hhop : 1 ≤ hop) (hclose : next ≤ watermark) :
    Hopped length hop watermark first accepted (next + hop)
      (etBuffer.filter (next + hop - length ≤ ·.1))
      (emitted ++ emitWindowBatch (next - length) next
        (rowsIn length (next - length) accepted)) where
  aligned := by rw [Int.add_emod_right, h.aligned]
  started := by have := h.started; omega
  buffer := by
    rw [List.filter_filter]
    simp only [Bool.and_self]
    refine filter_agree h.buffer fun r hr => ?_
    simp only [decide_eq_true_eq] at hr ⊢
    omega
  passed := .inr (by omega)
  sorted := by
    refine List.pairwise_append.mpr ⟨h.sorted, ?_, ?_⟩
    · simp only [emitWindowBatch]
      split <;> simp
    · intro b hb b' hb'
      obtain ⟨-, rfl⟩ := mem_emitWindowBatch.mp hb'
      exact (h.sound b hb).2.2.2.1
  sound b hb := by
    rcases List.mem_append.mp hb with hb | hb
    · obtain ⟨haligned, hstart, hfirst, hbefore, hpassed, hrows⟩ := h.sound b hb
      exact ⟨haligned, hstart, hfirst, by omega, hpassed, hrows⟩
    · obtain ⟨-, rfl⟩ := mem_emitWindowBatch.mp hb
      exact ⟨h.aligned, rfl, h.started, Int.lt_add_of_pos_right _ (by omega), hclose, rfl⟩
  complete e he hfirst hbefore r hr hin hbelow := by
    by_cases hold : e < next
    · obtain ⟨b, hb, hstop⟩ := h.complete e he hfirst hold r hr hin hbelow
      exact ⟨b, List.mem_append_left _ hb, hstop⟩
    · have hsame : e = next := by
        have := le_of_lt_add_of_aligned hhop he h.aligned hbefore
        omega
      subst hsame
      refine ⟨⟨e - length, e, _⟩, List.mem_append_right _ (mem_emitWindowBatch.mpr ⟨?_, rfl⟩), rfl⟩
      refine List.ne_nil_of_mem (List.mem_map_of_mem (List.mem_filter.mpr ⟨hr, ?_⟩))
      simp only [Bool.and_eq_true, decide_eq_true_eq]
      omega

theorem Hopped.closeHops {fuel : Nat}
    (h : Hopped length hop watermark first accepted next etBuffer emitted) (hlength : 0 ≤ length)
    (hhop : 1 ≤ hop) (hfuel : watermark < next + fuel * hop) (hlow : minI64 + length ≤ next)
    (hwatermark : watermark + hop ≤ maxI64) :
    let closed := closeHops length hop watermark fuel next etBuffer
    Hopped length hop watermark first accepted closed.1 closed.2.1 (emitted ++ closed.2.2) ∧
      watermark < closed.1 := by
  induction fuel generalizing next etBuffer emitted with
  | zero =>
    simp only [Windows.closeHops, List.append_nil]
    exact ⟨h, by omega⟩
  | succ fuel ih =>
    simp only [Windows.closeHops]
    split
    · simp only [List.append_nil]
      exact ⟨h, ‹_›⟩
    · rename_i hpassed
      rw [not_lt] at hpassed
      have hstart : saturate (next - length) = next - length := by
        simp only [saturate]
        omega
      have hnext : saturate (next + hop) = next + hop := by
        simp only [saturate]
        omega
      have hretain : saturate (next + hop - length) = next + hop - length := by
        simp only [saturate]
        omega
      -- the rows that the loop takes are those of the hop
      have hbatch : (etBuffer.filter fun r => next - length ≤ r.1 && r.1 < next).map Prod.snd =
          rowsIn length (next - length) accepted := by
        rw [rowsIn, sub_add_cancel]
        refine congrArg _ (filter_agree h.buffer fun r hr => ?_)
        exact (Bool.and_eq_true_iff.mp hr).1
      have hfuel' : watermark < next + hop + fuel * hop := by
        push_cast at hfuel
        linarith
      rw [hstart, hnext, hretain, hbatch, ← List.append_assoc]
      exact ih (h.close hhop hpassed) hfuel' (by omega)

theorem Hopped.add (h : Hopped length hop watermark first accepted next etBuffer emitted)
    (hhop : 1 ≤ hop) {ts : Int} (hlate : watermark ≤ ts) {watermark' : Int}
    (hwatermark : watermark ≤ watermark') (tagged : TaggedRow F) (passes : Bool) :
    Hopped length hop watermark' first (accepted ++ if passes then [(ts, tagged)] else []) next
      (if passes then etBuffer ++ [(ts, tagged)] else etBuffer) emitted := by
  have hsame : ∀ r ∈ (if passes then [(ts, tagged)] else []), r.1 = ts := by
    intro r hr
    cases passes <;> simp_all
  refine ⟨h.aligned, h.started, ?_, h.passed.imp_right fun hpassed => hpassed.trans hwatermark,
    h.sorted, fun b hb => ?_, fun e he hfirst hbefore r hr hin hbelow => ?_⟩
  · cases passes with
    | false => simpa using h.buffer
    | true => simp only [if_true, List.filter_append, h.buffer]
  · obtain ⟨haligned, hstart, hfirst, hbefore, hpassed, hrows⟩ := h.sound b hb
    refine ⟨haligned, hstart, hfirst, hbefore, hpassed.trans hwatermark, ?_⟩
    have hnone : (if passes then [(ts, tagged)] else []).filter
        (fun r => b.start ≤ r.1 && r.1 < b.start + length) = [] := by
      refine List.filter_eq_nil_iff.mpr fun r hr => ?_
      have := hsame r hr
      simp only [Bool.and_eq_true, decide_eq_true_eq]
      omega
    rw [hrows, rowsIn, rowsIn, List.filter_append, hnone, List.append_nil]
  · rcases List.mem_append.mp hr with hr | hr
    · exact h.complete e he hfirst hbefore r hr hin hbelow
    · -- a hop that was closed ended before the row
      exfalso
      have hts := hsame r hr
      rcases h.passed with heq | hpassed
      · omega
      · have haligned : (next - hop) % hop = 0 := by rw [Int.sub_emod_right, h.aligned]
        have := le_of_lt_add_of_aligned hhop he haligned (by omega)
        omega

-- ---- Runs

variable {rule : EventRule F} {events : List (Event F)}

def firstTs (events : List (Event F)) : Option Int :=
  events.findSome? fun
    | .row ts _ => some ts
    | .joinsClosed => none

theorem firstTs_row (ts : Int) (tagged : TaggedRow F) :
    firstTs (events ++ [.row ts tagged]) = some ((firstTs events).getD ts) := by
  rw [firstTs, List.findSome?_append, ← firstTs]
  cases firstTs events <;> rfl

theorem firstTs_joinsClosed : firstTs (events ++ [.joinsClosed]) = firstTs events := by
  rw [firstTs, List.findSome?_append, ← firstTs]
  cases firstTs events <;> rfl

theorem watermark_eq_of_firstTs (htolerance : 0 ≤ rule.lateTolerance)
    (h : firstTs events = none) : rule.watermark events = minI64 := by
  refine le_antisymm ?_ minI64_le_watermark
  refine (clock_atMost htolerance (le_refl _) fun ts tagged hrow => ?_).watermark
  cases List.findSome?_eq_none_iff.mp h _ hrow

theorem hopEnd_bounds (hhop : 1 ≤ hop) (ts : Int) :
    hopEnd hop ts % hop = 0 ∧ ts < hopEnd hop ts ∧ hopEnd hop ts ≤ ts + hop := by
  have hmod := Int.emod_nonneg ts (show hop ≠ 0 by omega)
  have hmod' := Int.emod_lt_of_pos ts (show 0 < hop by omega)
  simp only [hopEnd]
  refine ⟨?_, by omega, by omega⟩
  rw [Int.add_emod_right]
  exact Int.emod_eq_zero_of_dvd Int.dvd_self_sub_emod

structure Hopping.Inv (rule : EventRule F) (length hop : Int) (events : List (Event F))
    (s : Hopping F) (emitted : List (Batch F)) : Prop where
  clock : s.clock = rule.clock events
  unopened : s.nextHopEnd = none → firstTs events = none ∧ rule.accepted events = [] ∧
    s.etBuffer = [] ∧ emitted = []
  hopped : ∀ next, s.nextHopEnd = some next → ∃ ts, firstTs events = some ts ∧
    minI64 + length ≤ ts ∧
    Hopped length hop (rule.watermark events) (hopEnd hop ts) (rule.accepted events) next s.etBuffer
      emitted ∧ rule.watermark events < next

theorem Hopping.Inv.ingest {s : Hopping F} {ts : Int} {tagged : TaggedRow F}
    (h : s.Inv rule length hop events emitted) (hlength : 0 ≤ length) (hhop : 1 ≤ hop)
    (htolerance : 0 ≤ rule.lateTolerance)
    (hrange : ∀ ts' tagged', Event.row ts' tagged' ∈ events ++ [.row ts tagged] →
      minI64 + length ≤ ts' ∧ ts' + hop ≤ maxI64) :
    (s.ingest rule length hop ts tagged).1.Inv rule length hop (events ++ [.row ts tagged])
      (emitted ++ (s.ingest rule length hop ts tagged).2) := by
  obtain ⟨hlow, hhigh⟩ := hrange ts tagged (by simp)
  unfold Hopping.ingest
  rw [h.clock]
  cases hlate : (rule.clock events).isLate ts with
  | true =>
    simp only [if_true, List.append_nil]
    -- a first row is never late
    obtain ⟨next, hnext⟩ : ∃ next, s.nextHopEnd = some next := by
      refine Option.ne_none_iff_exists'.mp fun hnone => ?_
      have hwatermark := watermark_eq_of_firstTs htolerance (h.unopened hnone).1
      rw [Clock.isLate, decide_eq_true_eq, ← EventRule.watermark, hwatermark] at hlate
      omega
    obtain ⟨first, hfirst, hfirst'⟩ := h.hopped next hnext
    refine ⟨?_, fun hnone => ?_, fun next' hnext' => ?_⟩
    · rw [clock_late tagged hlate, h.clock]
    · rw [hnext] at hnone
      cases hnone
    · obtain rfl := Option.some.inj (hnext.symm.trans hnext')
      refine ⟨first, ?_, ?_⟩
      · rw [firstTs_row, hfirst]
        rfl
      · rw [EventRule.watermark, clock_late tagged hlate, accepted_late tagged hlate]
        exact hfirst'
  | false =>
    have hon := watermark_le_of_onTime hlate
    have hclock := clock_onTime tagged hlate
    have hmono : rule.watermark events ≤ rule.watermark (events ++ [.row ts tagged]) :=
      watermark_mono _
    have hwatermark : rule.watermark (events ++ [.row ts tagged]) ≤ maxI64 - hop :=
      (clock_atMost htolerance (by omega) fun ts' tagged' hrow => by
        have := (hrange ts' tagged' hrow).2
        omega).watermark
    obtain ⟨first, hfirst, hfirstLow, hhopped⟩ : ∃ first,
        firstTs (events ++ [.row ts tagged]) = some first ∧ minI64 + length ≤ first ∧
        Hopped length hop (rule.watermark (events ++ [.row ts tagged])) (hopEnd hop first)
          (rule.accepted (events ++ [.row ts tagged])) (s.nextHopEnd.getD (hopEnd hop ts))
          (if rule.passes tagged then s.etBuffer ++ [(ts, tagged)] else s.etBuffer) emitted := by
      rw [accepted_onTime tagged hlate, firstTs_row]
      cases hnext : s.nextHopEnd with
      | none =>
        obtain ⟨hnone, haccepted, hbuffer, hemitted⟩ := h.unopened hnext
        have hempty : Hopped length hop (rule.watermark events) (hopEnd hop ts)
            ([] : List (Int × TaggedRow F)) (hopEnd hop ts) [] [] :=
          ⟨(hopEnd_bounds hhop ts).1, le_refl _, rfl, .inl rfl, .nil, by simp, by simp⟩
        rw [hnone, haccepted, hbuffer, hemitted]
        exact ⟨ts, rfl, hlow, hempty.add hhop hon hmono tagged (rule.passes tagged)⟩
      | some next =>
        obtain ⟨first, hfirst, hfirstLow, hhopped, -⟩ := h.hopped next hnext
        rw [hfirst]
        exact ⟨first, rfl, hfirstLow, hhopped.add hhop hon hmono tagged (rule.passes tagged)⟩
    simp only [Bool.false_eq_true, if_false]
    rw [← hclock]
    have hfuel := lt_fuel_mul hhop (rule.watermark (events ++ [.row ts tagged]) -
      s.nextHopEnd.getD (hopEnd hop ts))
    have hstarted := hhopped.started
    have hbounds := hopEnd_bounds hhop first
    obtain ⟨hclosed, hopen⟩ := hhopped.closeHops hlength hhop (sub_lt_iff_lt_add'.mp hfuel)
      (by omega) (by omega)
    refine ⟨rfl, by simp, fun next hnext => ?_⟩
    obtain rfl := Option.some.inj hnext
    exact ⟨first, hfirst, hfirstLow, hclosed, hopen⟩

theorem Hopping.Inv.joinsClosed {s : Hopping F} (h : s.Inv rule length hop events emitted) :
    ({ s with clock := s.clock.step rule .joinsClosed } : Hopping F).Inv rule length hop
      (events ++ [.joinsClosed]) emitted := by
  have hwatermark : rule.watermark (events ++ [.joinsClosed]) = rule.watermark events := by
    rw [EventRule.watermark, clock_snoc]
    rfl
  refine ⟨?_, ?_, ?_⟩
  · rw [clock_snoc, h.clock]
  · rw [accepted_joinsClosed, firstTs_joinsClosed]
    exact h.unopened
  · rw [accepted_joinsClosed, firstTs_joinsClosed, hwatermark]
    exact h.hopped

theorem hopping_inv (hlength : 0 ≤ length) (hhop : 1 ≤ hop) (htolerance : 0 ≤ rule.lateTolerance)
    (hrange : ∀ ts tagged, Event.row ts tagged ∈ events →
      minI64 + length ≤ ts ∧ ts + hop ≤ maxI64) :
    (Hopping.run rule length hop events).1.Inv rule length hop events
      (Hopping.run rule length hop events).2 := by
  induction events using List.reverseRecOn with
  | nil => exact ⟨rfl, fun _ => ⟨rfl, rfl, rfl, rfl⟩, nofun⟩
  | append_singleton events event ih =>
    have hinv := ih fun ts tagged hrow => hrange ts tagged (List.mem_append_left _ hrow)
    rw [Hopping.run, runEvents_snoc]
    cases event with
    | row ts tagged =>
      simp only [Hopping.step, max_eq_left hhop]
      exact hinv.ingest hlength hhop htolerance hrange
    | joinsClosed =>
      exact (List.append_nil (Hopping.run rule length hop events).2).symm ▸ hinv.joinsClosed

/-- Every accepted row is in the batch of every hop window that it belongs to and that the
watermark has reached, and in no other batch. -/
def HopsComplete (rule : EventRule F) (length hop : Int) (events : List (Event F)) : Prop :=
  let run := Hopping.run rule length hop events
  (∀ r ∈ rule.accepted events, ∀ e, e % hop = 0 → e - length ≤ r.1 → r.1 < e →
      e ≤ run.1.clock.watermark → ∃ b ∈ run.2, b.stop = e ∧ r.2 ∈ b.rows) ∧
    (∀ b ∈ run.2, b.stop % hop = 0 ∧ b.start = b.stop - length ∧
      b.rows = rowsIn length b.start (rule.accepted events)) ∧
    run.2.Pairwise fun b b' => b.stop < b'.stop

/-- The windows are complete if and only if no accepted row belongs to a window that the
watermark has reached and that ends before the hop of the first row. -/
theorem hops_complete_iff (rule : EventRule F) (length hop : Int) (events : List (Event F))
    (hlength : 1 ≤ length) (hhop : 1 ≤ hop) (htolerance : 0 ≤ rule.lateTolerance)
    (hrange : ∀ ts tagged, Event.row ts tagged ∈ events →
      minI64 + length ≤ ts ∧ ts + hop ≤ maxI64) :
    HopsComplete rule length hop events ↔
      ∀ first, firstTs events = some first → ∀ r ∈ rule.accepted events, ∀ e, e % hop = 0 →
        e - length ≤ r.1 → r.1 < e → e ≤ rule.watermark events → hopEnd hop first ≤ e := by
  have hinv := hopping_inv (by omega) hhop htolerance hrange
  have hclock : (Hopping.run rule length hop events).1.clock.watermark =
      rule.watermark events := by rw [hinv.clock]; rfl
  simp only [HopsComplete, hclock]
  cases hnext : (Hopping.run rule length hop events).1.nextHopEnd with
  | none =>
    obtain ⟨hfirst, haccepted, -, hemitted⟩ := hinv.unopened hnext
    rw [haccepted, hemitted, hfirst]
    simp
  | some next =>
    obtain ⟨first, hfirst, -, hhopped, hopen⟩ := hinv.hopped next hnext
    rw [hfirst]
    constructor
    · rintro ⟨hcomplete, -⟩ first' hfirst' r hr e he hin hbelow hpassed
      obtain rfl := Option.some.inj hfirst'
      obtain ⟨b, hb, rfl, -⟩ := hcomplete r hr e he hin hbelow hpassed
      exact (hhopped.sound b hb).2.2.1
    · intro hfirst'
      refine ⟨fun r hr e he hin hbelow hpassed => ?_, fun b hb => ?_, hhopped.sorted⟩
      · obtain ⟨b, hb, rfl⟩ := hhopped.complete e he (hfirst' first rfl r hr e he hin hbelow hpassed)
          (by omega) r hr hin hbelow
        obtain ⟨-, hstart, -, -, -, hrows⟩ := hhopped.sound b hb
        refine ⟨b, hb, rfl, ?_⟩
        rw [hrows]
        refine List.mem_map_of_mem (List.mem_filter.mpr ⟨hr, ?_⟩)
        simp only [Bool.and_eq_true, decide_eq_true_eq]
        omega
      · obtain ⟨haligned, hstart, -, -, -, hrows⟩ := hhopped.sound b hb
        exact ⟨haligned, hstart, hrows⟩

theorem in_order_hops_complete : HopsComplete (oneStream 5) 20 10 (arrivals [3, 12, 31]) := by
  have hrange : ∀ ts tagged, Event.row ts tagged ∈ arrivals [3, 12, 31] →
      minI64 + 20 ≤ ts ∧ ts + 10 ≤ maxI64 := by
    intro ts tagged hrow
    have hbounds : ∀ ts ∈ [(3 : Int), 12, 31], minI64 + 20 ≤ ts ∧ ts + 10 ≤ maxI64 := by decide
    exact hbounds ts (mem_arrivals hrow)
  refine (hops_complete_iff (oneStream 5) 20 10 _ (by decide) (by decide) (by decide) hrange).mpr ?_
  intro first hfirst r hr e he _ hbelow _
  obtain rfl := Option.some.inj hfirst
  have hrows : ∀ r ∈ (oneStream 5).accepted (arrivals [3, 12, 31]), 3 ≤ r.1 := by decide
  have hthree := hrows r hr
  show (10 : Int) ≤ e
  omega

/-- A row that is older than the hop of the first row, but not late. -/
theorem older_row_missed : ¬HopsComplete (oneStream 100) 10 10 (arrivals [95, 5, 250]) := by
  rintro ⟨hcomplete, -⟩
  have hrow : (5, ⟨"s", ∅⟩) ∈ (oneStream 100).accepted (arrivals [95, 5, 250]) := by
    have haccepted : (oneStream 100).accepted (arrivals [95, 5, 250]) =
        [(95, ⟨"s", ∅⟩), (5, ⟨"s", ∅⟩), (250, ⟨"s", ∅⟩)] := rfl
    simp [haccepted]
  obtain ⟨b, hb, hstop, -⟩ := hcomplete _ hrow 10 (by decide) (by decide) (by decide) (by decide)
  revert hstop
  revert b
  decide

end Rekuiper.Windows
