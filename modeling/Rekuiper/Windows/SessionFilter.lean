import Rekuiper.Windows.SessionOrder

/-!
# Sessions and the rows that are rejected

Rows that `WHERE` rejects move the watermark, and the watermark ends sessions. For the rows of one
stream in the order of their timestamps, the batches are compared with the ones of a run that is
given the accepted rows alone.
-/

namespace Rekuiper.Windows

open Lib Sql
open Pipeline (TaggedRow)

variable {F : Type}

def rowEvents (rows : List (Int × TaggedRow F)) : List (Event F) :=
  rows.map fun r => .row r.1 r.2

/-- Rows of the stream that the rule selects from, without joins, in the order of their
timestamps. -/
structure InOrder (rule : EventRule F) (rows : List (Int × TaggedRow F)) : Prop where
  stream : rule.fromIsTable = false
  joins : rule.joinSources = []
  source : ∀ r ∈ rows, r.2.source = rule.fromSource
  range : ∀ r ∈ rows, minI64 ≤ r.1 ∧ r.1 ≤ maxI64
  sorted : rows.Pairwise fun a b => a.1 ≤ b.1

def EventRule.passingRows (rule : EventRule F) (rows : List (Int × TaggedRow F)) :
    List (Int × TaggedRow F) :=
  rows.filter fun r => rule.passes r.2

variable {rows : List (Int × TaggedRow F)}

theorem rowEvents_snoc (r : Int × TaggedRow F) :
    rowEvents (rows ++ [r]) = rowEvents rows ++ [.row r.1 r.2] := by
  simp [rowEvents]

section
variable {rule : EventRule F}

theorem InOrder.sublist {rows' : List (Int × TaggedRow F)} (h : InOrder rule rows)
    (hsub : rows'.Sublist rows) : InOrder rule rows' :=
  ⟨h.stream, h.joins, fun r hr => h.source r (hsub.subset hr),
    fun r hr => h.range r (hsub.subset hr), h.sorted.sublist hsub⟩

theorem InOrder.init {rows' : List (Int × TaggedRow F)}
    (h : InOrder rule (rows ++ rows')) : InOrder rule rows :=
  h.sublist (List.sublist_append_left rows rows')

theorem InOrder.le_last {r : Int × TaggedRow F} (h : InOrder rule (rows ++ [r])) :
    ∀ y ∈ rows, y.1 ≤ r.1 := fun y hy =>
  (List.pairwise_append.mp h.sorted).2.2 y hy r (by simp)

-- ---- The watermark of one stream

/-- The clock knows one stream, and the watermark is where its greatest timestamp puts it. -/
structure Clock.OfStream (c : Clock) (rule : EventRule F) : Prop where
  opened : c.closedStreams = []
  behind : ∀ ts, c.streamMaxTs.lookup rule.fromSource = some ts →
    saturate (ts - rule.lateTolerance) ≤ c.watermark

theorem advance_watermark {c : Clock} (hstream : rule.fromIsTable = false)
    (hjoins : rule.joinSources = []) (hc : c.OfStream rule) (ts : Int) :
    (c.advance rule rule.fromSource ts).watermark =
        max c.watermark (saturate (ts - rule.lateTolerance)) ∧
      (c.advance rule rule.fromSource ts).OfStream rule := by
  have hinput : rule.inputStreams = [rule.fromSource] := by
    simp [EventRule.inputStreams, hstream, hjoins]
  have hlookup := HashMap.lookup_upsert c.streamMaxTs rule.fromSource ts (max · ts)
  have hwatermark : (c.advance rule rule.fromSource ts).watermark = max c.watermark
      (saturate (max ((c.streamMaxTs.lookup rule.fromSource).getD ts) ts - rule.lateTolerance)) := by
    simp [Clock.advance, hinput, hc.opened, hlookup]
  have hbehind : saturate (max ((c.streamMaxTs.lookup rule.fromSource).getD ts) ts -
      rule.lateTolerance) ≤ max c.watermark (saturate (ts - rule.lateTolerance)) := by
    cases hold : c.streamMaxTs.lookup rule.fromSource with
    | none => simp
    | some old =>
      have hold := hc.behind old hold
      rcases max_cases old ts with ⟨hmax, -⟩ | ⟨hmax, -⟩
      · simp [hmax, hold]
      · simp [hmax]
  constructor
  · rw [hwatermark]
    refine le_antisymm (max_le (le_max_left _ _) hbehind) (max_le_max_left _ (saturate_mono ?_))
    omega
  · refine ⟨hc.opened, fun seen hseen => ?_⟩
    cases hlookup.symm.trans hseen
    rw [hwatermark]
    exact le_max_right _ _

theorem rows_clock (h : InOrder rule rows) : (rule.clock (rowEvents rows)).OfStream rule := by
  induction rows using List.reverseRecOn with
  | nil => exact ⟨rfl, nofun⟩
  | append_singleton rows r ih =>
    rw [rowEvents_snoc, clock_snoc, Clock.step, h.source r (by simp)]
    split
    · exact ih h.init
    · exact (advance_watermark h.stream h.joins (ih h.init) r.1).2

theorem watermark_row {r : Int × TaggedRow F} (h : InOrder rule (rows ++ [r])) :
    rule.watermark (rowEvents (rows ++ [r])) =
      if (rule.clock (rowEvents rows)).isLate r.1 then rule.watermark (rowEvents rows)
      else max (rule.watermark (rowEvents rows)) (saturate (r.1 - rule.lateTolerance)) := by
  rw [rowEvents_snoc, EventRule.watermark, clock_snoc, Clock.step, h.source r (by simp)]
  split
  · rfl
  · exact (advance_watermark h.stream h.joins (rows_clock h.init) r.1).1

theorem stamped_initial {before : List (Stamped F)} {r : Stamped F}
    (hinitial : before ++ [r] <+: rule.stamped (rowEvents rows)) :
    ∃ earlier, earlier ++ [r.row] <+: rows ∧ rule.stamped (rowEvents earlier) = before ∧
      r.watermark = rule.watermark (rowEvents earlier) := by
  induction rows using List.reverseRecOn with
  | nil =>
    have := hinitial.length_le
    simp [rowEvents, EventRule.stamped, EventRule.stampedFrom] at this
  | append_singleton rows x ih =>
    have hinit (hinitial : before ++ [r] <+: rule.stamped (rowEvents rows)) :
        ∃ earlier, earlier ++ [r.row] <+: rows ++ [x] ∧ rule.stamped (rowEvents earlier) = before ∧
          r.watermark = rule.watermark (rowEvents earlier) := by
      obtain ⟨earlier, hearlier, hstamped⟩ := ih hinitial
      exact ⟨earlier, hearlier.trans (List.prefix_append rows [x]), hstamped⟩
    rw [rowEvents_snoc, stamped_row] at hinitial
    split at hinitial
    · rcases List.prefix_concat_iff.mp hinitial with heq | hinitial
      · obtain ⟨hbefore, hr⟩ := List.append_inj' heq rfl
        obtain rfl := List.singleton_inj.mp hr
        exact ⟨rows, List.prefix_refl _, hbefore.symm, rfl⟩
      · exact hinit hinitial
    · exact hinit (by simpa using hinitial)

theorem le_watermark_of_mem (h : InOrder rule rows) {p : Stamped F}
    (hp : p ∈ rule.stamped (rowEvents rows)) :
    saturate (p.ts - rule.lateTolerance) ≤ rule.watermark (rowEvents rows) := by
  induction rows using List.reverseRecOn with
  | nil => cases hp
  | append_singleton rows r ih =>
    rw [watermark_row h]
    rw [rowEvents_snoc, stamped_row] at hp
    cases hlate : (rule.clock (rowEvents rows)).isLate r.1 with
    | true =>
      simp only [hlate, Bool.not_true, Bool.false_and, Bool.false_eq_true, if_false,
        List.append_nil] at hp
      exact ih h.init hp
    | false =>
      rcases List.mem_append.mp hp with hp | hp
      · exact (ih h.init hp).trans (le_max_left _ _)
      · split at hp
        · rw [List.mem_singleton.mp hp]
          exact le_max_right _ _
        · cases hp

theorem mem_rows_of_stamped {p : Stamped F} (hp : p ∈ rule.stamped (rowEvents rows)) :
    p.row ∈ rows := by
  have haccepted : p.row ∈ rule.accepted (rowEvents rows) := by
    rw [EventRule.accepted, ← map_row_stampedFrom]
    exact List.mem_map_of_mem hp
  obtain ⟨r, hr, heq⟩ := List.mem_map.mp (mem_of_mem_acceptedFrom haccepted)
  rw [Event.row.injEq] at heq
  exact Prod.ext heq.1 heq.2 ▸ hr

theorem watermark_of_passing (h : InOrder rule rows) (hpass : ∀ r ∈ rows, rule.passes r.2 = true) :
    rule.watermark (rowEvents rows) =
      match (rule.stamped (rowEvents rows)).getLast? with
      | none => minI64
      | some p => saturate (p.ts - rule.lateTolerance) := by
  induction rows using List.reverseRecOn with
  | nil => rfl
  | append_singleton rows r ih =>
    have ih := ih h.init fun r hr => hpass r (List.mem_append_left _ hr)
    rw [watermark_row h, rowEvents_snoc, stamped_row, hpass r (by simp)]
    cases hlate : (rule.clock (rowEvents rows)).isLate r.1 with
    | true => simpa using ih
    | false =>
      have hle : rule.watermark (rowEvents rows) ≤ saturate (r.1 - rule.lateTolerance) := by
        rw [ih]
        cases hlast : (rule.stamped (rowEvents rows)).getLast? with
        | none =>
          simp only [saturate]
          omega
        | some p =>
          have hp := h.le_last _ (mem_rows_of_stamped (List.mem_of_getLast? hlast))
          refine saturate_mono ?_
          simp only [Stamped.row] at hp
          omega
      simpa using hle

end

-- ---- Sessions without rejected rows

namespace SessionRule

def endsAlone (rule : SessionRule F) (first last r : Int × TaggedRow F) : Bool :=
  saturate (last.1 + rule.timeoutMs) ≤ saturate (last.1 - rule.lateTolerance) ||
    saturate (r.1 - last.1) > rule.timeoutMs || saturate (r.1 - first.1) ≥ rule.maxDurationMs

/-- The first and the last row of the session that is open after some accepted rows. -/
def openSession (rule : SessionRule F) (before : List (Stamped F)) : List (Stamped F) :=
  (segmented (fun f p r => rule.endsAlone f.row p.row r.row) before).current

end SessionRule

variable {rule : SessionRule F}

theorem segments_passing (h : InOrder rule.toEventRule rows)
    (hpass : ∀ r ∈ rows, rule.passes r.2 = true) :
    segments rule.ends (rule.stamped (rowEvents rows)) =
      segments (fun f p r => rule.endsAlone f.row p.row r.row) (rule.stamped (rowEvents rows)) := by
  rw [segments_eq_iff]
  intro before r hinitial
  obtain ⟨earlier, hearlier, rfl, hmark⟩ := stamped_initial hinitial
  have hinit : earlier.Sublist rows :=
    (List.sublist_append_left earlier [r.row]).trans hearlier.sublist
  rw [watermark_of_passing (h.sublist hinit) fun x hx => hpass x (hinit.subset hx)] at hmark
  unfold isCut
  rw [getLast?_current]
  split
  · rename_i first last _ hlast
    rw [hlast] at hmark
    simp only [SessionRule.ends, SessionRule.endsAlone, Stamped.row, hmark]
    rfl
  · rfl

def SessionRule.rowBatch (rule : SessionRule F) (seg : List (Int × TaggedRow F)) : Batch F :=
  ⟨(seg.head?.map Prod.fst).getD 0, saturate ((seg.getLast?.map Prod.fst).getD 0 + rule.timeoutMs),
    seg.map Prod.snd⟩

theorem toBatch_eq (seg : List (Stamped F)) :
    rule.toBatch seg = rule.rowBatch (seg.map Stamped.row) := by
  simp [SessionRule.toBatch, SessionRule.rowBatch, Stamped.row, Function.comp_def]

/-- Cut without regard to rejected rows, the batches depend on the accepted rows only. -/
theorem segments_alone (events : List (Event F)) :
    (segments (fun f p r => rule.endsAlone f.row p.row r.row) (rule.stamped events)).map
        rule.toBatch = (segments rule.endsAlone (rule.accepted events)).map rule.rowBatch := by
  rw [EventRule.accepted, ← map_row_stampedFrom, segments_map, List.map_map]
  exact List.map_congr_left fun seg _ => toBatch_eq seg

theorem toBatch_segments_inj {cut cut' : Stamped F → Stamped F → Stamped F → Bool}
    {rows : List (Stamped F)} (h : (segments cut rows).map rule.toBatch =
      (segments cut' rows).map rule.toBatch) : segments cut rows = segments cut' rows := by
  rw [List.eq_iff_flatten_eq, flatten_segments, flatten_segments]
  refine ⟨rfl, ?_⟩
  have hlength : List.length ∘ Batch.rows ∘ rule.toBatch = List.length := by
    funext seg
    simp [SessionRule.toBatch]
  have := congrArg (List.map (List.length ∘ Batch.rows)) h
  rwa [List.map_map, List.map_map, Function.comp_assoc, hlength] at this

namespace SessionRule

/-- The batches are the ones of the run without the rejected rows. -/
def SameWithoutRejected (rule : SessionRule F) (rows : List (Int × TaggedRow F)) : Prop :=
  rule.sessions (rowEvents rows) = rule.sessions (rowEvents (rule.passingRows rows))

def EndsAnyway (rule : SessionRule F) (rows : List (Int × TaggedRow F)) : Prop :=
  ∀ before r, before ++ [r] <+: rule.stamped (rowEvents rows) →
    ∀ first ∈ (rule.openSession before).head?, ∀ last ∈ (rule.openSession before).getLast?,
      saturate (last.ts + rule.timeoutMs) ≤ r.watermark →
        rule.endsAlone first.row last.row r.row = true

/-- Rejected rows make no other row late and end no session too early. -/
structure Undisturbed (rule : SessionRule F) (rows : List (Int × TaggedRow F)) : Prop where
  accepted : rule.accepted (rowEvents rows) = rule.accepted (rowEvents (rule.passingRows rows))
  ends : rule.EndsAnyway rows

end SessionRule

theorem ends_iff (first last r : Stamped F) : rule.ends first last r = true ↔
    (saturate (last.ts + rule.timeoutMs) ≤ r.watermark ∨
      rule.timeoutMs < saturate (r.ts - last.ts)) ∨
        rule.maxDurationMs ≤ saturate (r.ts - first.ts) := by
  simp [SessionRule.ends]

theorem endsAlone_iff (first last r : Stamped F) :
    rule.endsAlone first.row last.row r.row = true ↔
      (saturate (last.ts + rule.timeoutMs) ≤ saturate (last.ts - rule.lateTolerance) ∨
        rule.timeoutMs < saturate (r.ts - last.ts)) ∨
          rule.maxDurationMs ≤ saturate (r.ts - first.ts) := by
  rw [SessionRule.endsAlone, Bool.or_eq_true, Bool.or_eq_true, decide_eq_true_iff,
    decide_eq_true_iff, decide_eq_true_iff]
  rfl

theorem endsAnyway_iff (h : InOrder rule.toEventRule rows) :
    segments rule.ends (rule.stamped (rowEvents rows)) =
        segments (fun f p r => rule.endsAlone f.row p.row r.row) (rule.stamped (rowEvents rows)) ↔
      rule.EndsAnyway rows := by
  rw [segments_eq_iff]
  refine forall_congr' fun before => forall_congr' fun r => forall_congr' fun hinitial => ?_
  change isCut rule.ends (rule.openSession before) r =
    isCut (fun f p r => rule.endsAlone f.row p.row r.row) (rule.openSession before) r ↔ _
  obtain ⟨earlier, hearlier, hstamped, hmark⟩ := stamped_initial hinitial
  have hinit : InOrder rule.toEventRule earlier :=
    h.sublist ((List.sublist_append_left earlier [r.row]).trans hearlier.sublist)
  unfold isCut
  split
  · rename_i first last hfirst hlast
    -- the watermark of the last row is behind the one that `r` finds
    have hbehind : saturate (last.ts - rule.lateTolerance) ≤ r.watermark := by
      rw [SessionRule.openSession, getLast?_current, ← hstamped] at hlast
      rw [hmark]
      exact le_watermark_of_mem hinit (List.mem_of_getLast? hlast)
    have hiff : rule.ends first last r = rule.endsAlone first.row last.row r.row ↔
        (saturate (last.ts + rule.timeoutMs) ≤ r.watermark →
          rule.endsAlone first.row last.row r.row = true) := by
      rw [Bool.eq_iff_iff, ends_iff, endsAlone_iff]
      constructor
      · exact fun heq hpassed => heq.mp (.inl (.inl hpassed))
      · intro hends
        constructor
        · rintro ((hpassed | hgap) | hspan)
          · exact hends hpassed
          · exact .inl (.inr hgap)
          · exact .inr hspan
        · rintro ((hpassed | hgap) | hspan)
          · exact .inl (.inl (hpassed.trans hbehind))
          · exact .inl (.inr hgap)
          · exact .inr hspan
    rw [hiff]
    constructor
    · intro hends first' hfirst' last' hlast'
      cases hfirst.symm.trans hfirst'
      cases hlast.symm.trans hlast'
      exact hends
    · exact fun hends => hends first hfirst last hlast
  · rename_i hnone
    exact iff_of_true rfl fun first hfirst last hlast => (hnone first last hfirst hlast).elim

theorem InOrder.passing (h : InOrder rule.toEventRule rows) :
    InOrder rule.toEventRule (rule.passingRows rows) :=
  h.sublist List.filter_sublist

theorem passingRows_passing : ∀ r ∈ rule.passingRows rows, rule.passes r.2 = true :=
  fun _ hr => (List.mem_filter.mp hr).2

theorem sessions_passing (h : InOrder rule.toEventRule rows) :
    rule.sessions (rowEvents (rule.passingRows rows)) =
      (segments rule.endsAlone (rule.accepted (rowEvents (rule.passingRows rows)))).map
        rule.rowBatch := by
  rw [SessionRule.sessions_eq, segments_passing h.passing passingRows_passing, segments_alone]

theorem same_iff (h : InOrder rule.toEventRule rows)
    (haccepted : rule.accepted (rowEvents rows) =
      rule.accepted (rowEvents (rule.passingRows rows))) :
    rule.SameWithoutRejected rows ↔ rule.EndsAnyway rows := by
  rw [← endsAnyway_iff h, SessionRule.SameWithoutRejected, sessions_passing h, ← haccepted,
    ← segments_alone, SessionRule.sessions_eq]
  exact ⟨toBatch_segments_inj, fun heq => by rw [heq]⟩

theorem noneLate_of_inOrder {rule : EventRule F} (h : InOrder rule rows)
    (htolerance : 0 ≤ rule.lateTolerance) : NoneLate rule (rowEvents rows) := by
  rintro before ts tagged ⟨after, hevents⟩
  obtain ⟨through, later, rfl, hthrough, -⟩ := List.map_eq_append_iff.mp hevents.symm
  obtain ⟨earlier, last, rfl, rfl, hlast⟩ := List.map_eq_append_iff.mp hthrough
  obtain ⟨r, rfl, hr⟩ := List.map_eq_singleton_iff.mp hlast
  cases hr
  have horder := h.init
  have hrange := h.range r (by simp)
  refine (clock_atMost htolerance hrange.1 fun ts tagged hmem => ?_).watermark
  obtain ⟨y, hy, hevent⟩ := List.mem_map.mp hmem
  cases hevent
  exact horder.le_last y hy

theorem accepted_rows {rule : EventRule F} (h : InOrder rule rows)
    (htolerance : 0 ≤ rule.lateTolerance) :
    rule.accepted (rowEvents rows) = rule.passingRows rows := by
  rw [accepted_of_noneLate (noneLate_of_inOrder h htolerance)]
  clear h
  induction rows with
  | nil => rfl
  | cons r rows ih =>
    rw [EventRule.passingRows, List.filter_cons, ← EventRule.passingRows, ← ih]
    cases hpass : rule.passes r.2 <;> simp [rowEvents, EventRule.passingRow, hpass]

theorem accepted_of_tolerant (h : InOrder rule.toEventRule rows)
    (htolerance : 0 ≤ rule.lateTolerance) :
    rule.accepted (rowEvents rows) = rule.accepted (rowEvents (rule.passingRows rows)) := by
  rw [accepted_rows h htolerance, accepted_rows h.passing htolerance]
  simp [EventRule.passingRows]

theorem flatten_sessions (events : List (Event F)) :
    ((rule.sessions events).map Batch.rows).flatten = (rule.accepted events).map Prod.snd := by
  rw [sessions_rows, ← List.map_flatten, flatten_stamped]

theorem accepted_of_same (htimed : Timed (rowEvents rows)) (h : rule.SameWithoutRejected rows) :
    rule.accepted (rowEvents rows) = rule.accepted (rowEvents (rule.passingRows rows)) := by
  obtain ⟨timestamp, htimestamp⟩ := htimed
  have hrows : (rule.accepted (rowEvents rows)).map Prod.snd =
      (rule.accepted (rowEvents (rule.passingRows rows))).map Prod.snd := by
    have := congrArg (fun batches => (batches.map Batch.rows).flatten) h
    simpa only [flatten_sessions] using this
  have hrestore : ∀ events ⊆ rowEvents rows, ((rule.accepted events).map Prod.snd).map
      (fun tagged => (timestamp tagged, tagged)) = rule.accepted events := by
    intro events hsub
    exact map_timestamp fun r hr => htimestamp r.1 r.2 (hsub (mem_of_mem_acceptedFrom hr))
  rw [← hrestore _ (List.Subset.refl _), hrows, hrestore]
  exact List.map_subset _ (List.filter_subset_self _)

/-- Rejected rows change nothing if they make no other row late and end no session too early. The
converse holds without a negative tolerance, or if the timestamps are in the rows. -/
theorem rejected_rows_iff (h : InOrder rule.toEventRule rows) :
    (rule.Undisturbed rows → rule.SameWithoutRejected rows) ∧
      (0 ≤ rule.lateTolerance ∨ Timed (rowEvents rows) →
        rule.SameWithoutRejected rows → rule.Undisturbed rows) := by
  constructor
  · exact fun hundisturbed => (same_iff h hundisturbed.accepted).mpr hundisturbed.ends
  · intro hor hsame
    have haccepted : rule.accepted (rowEvents rows) =
        rule.accepted (rowEvents (rule.passingRows rows)) := by
      rcases hor with htolerance | htimed
      · exact accepted_of_tolerant h htolerance
      · exact accepted_of_same htimed hsame
    exact ⟨haccepted, (same_iff h haccepted).mp hsame⟩

def filteredStream (lateTolerance timeout maxDuration : Int) : SessionRule Unit :=
  { sessionStream lateTolerance timeout maxDuration with passes := fun r => (r.data.lookup "pass").isSome }

def markedRows (marks : List (Int × Bool)) : List (Int × TaggedRow Unit) :=
  marks.map fun m => (m.1, ⟨"s", if m.2 then (∅ : Row Unit).insert "pass" .null else ∅⟩)

theorem tolerant_rejected_row :
    (filteredStream 5 10 1000).SameWithoutRejected
      (markedRows [(0, true), (10, false), (10, true)]) := by
  have horder : InOrder (filteredStream 5 10 1000).toEventRule
      (markedRows [(0, true), (10, false), (10, true)]) :=
    ⟨rfl, rfl, by decide, by decide, by decide⟩
  exact (rejected_rows_iff horder).1
    ⟨accepted_of_tolerant horder (by decide), forall_prefix_of_forall_fin (by decide)⟩

/-- The rejected row puts the watermark at 10, the end of the session of the row at 0. -/
theorem rejected_row_ends_session : ¬∀ rows : List (Int × TaggedRow Unit),
    InOrder (filteredStream 0 10 1000).toEventRule rows →
      (filteredStream 0 10 1000).SameWithoutRejected rows := by
  intro h
  have hsame := h (markedRows [(0, true), (10, false), (10, true)])
    ⟨rfl, rfl, by decide, by decide, by decide⟩
  have hlength := congrArg List.length hsame
  revert hlength
  decide

end Rekuiper.Windows
