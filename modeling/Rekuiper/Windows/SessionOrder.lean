import Rekuiper.Lib.StableSort
import Rekuiper.Windows.Session

/-!
# Sessions and the order of arrival

The sessions of a set of rows are the runs of the rows in the order of their timestamps. A run of
the rule cuts the rows in the order of their arrival instead, and finds these sessions exactly if
the arrivals stay in one session until it is complete and are cut between two sessions only.
-/

namespace Rekuiper.Windows

open Lib Sql
open Pipeline (TaggedRow)

variable {F : Type}

namespace SessionRule

/-- Rows too far apart, or a session that has lasted too long. -/
def separates (rule : SessionRule F) (first last r : Int × TaggedRow F) : Bool :=
  r.1 - last.1 > rule.timeoutMs || r.1 - first.1 ≥ rule.maxDurationMs

def sortedSessions (rule : SessionRule F) (rows : List (Int × TaggedRow F)) :
    List (List (Int × TaggedRow F)) :=
  segments rule.separates (sortByKey Prod.fst rows)

def sessionIndex (rule : SessionRule F) (rows : List (Int × TaggedRow F)) (ts : Int) : Nat :=
  (rule.sortedSessions rows).findIdx fun seg => seg.any fun r => r.1 == ts

end SessionRule

variable {rule : SessionRule F} {rows rows' : List (Int × TaggedRow F)}

theorem span_lt (rows : List (Int × TaggedRow F)) (first last : Int × TaggedRow F)
    (hfirst : (segmented rule.separates rows).current.head? = some first)
    (hlast : (segmented rule.separates rows).current.getLast? = some last) :
    last.1 - first.1 < rule.maxDurationMs := by
  have hpos : 1 ≤ rule.maxDurationMs := le_max_right _ _
  induction rows using List.reverseRecOn generalizing first last with
  | nil => cases hfirst
  | append_singleton rows r ih =>
    rw [segmented_snoc] at hfirst hlast
    cases hcut : isCut rule.separates (segmented rule.separates rows).current r with
    | true =>
      rw [push_cut hcut] at hfirst hlast
      obtain rfl : r = first := by simpa using hfirst
      obtain rfl : r = last := by simpa using hlast
      omega
    | false =>
      rw [push_joined hcut] at hfirst hlast
      obtain rfl : r = last := by simpa using hlast
      cases hcurrent : (segmented rule.separates rows).current with
      | nil =>
        rw [hcurrent] at hfirst
        cases hfirst
        omega
      | cons first' rest =>
        rw [hcurrent] at hfirst hcut
        cases hfirst
        rw [isCut, List.head?_cons, List.getLast?_eq_some_getLast (List.cons_ne_nil _ _)] at hcut
        simp only [SessionRule.separates, Bool.or_eq_false_iff, decide_eq_false_iff_not] at hcut
        omega

theorem cut_strict (hsorted : rows.Pairwise fun a b => a.1 ≤ b.1) {before} {r : Int × TaggedRow F}
    (hinitial : before ++ [r] <+: rows)
    (hcut : isCut rule.separates (segmented rule.separates before).current r = true) :
    ∀ y ∈ before, y.1 < r.1 := by
  have hpos : 1 ≤ rule.timeoutMs := le_max_right _ _
  have hbefore := hsorted.sublist hinitial.sublist
  rw [List.pairwise_append] at hbefore
  unfold isCut at hcut
  split at hcut
  · rename_i first last hfirst hlast
    have hspan := span_lt before first last hfirst hlast
    have hlt : last.1 < r.1 := by
      simp only [SessionRule.separates, Bool.or_eq_true, decide_eq_true_eq] at hcut
      omega
    rw [getLast?_current] at hlast
    obtain ⟨init, rfl⟩ := List.getLast?_eq_some_iff.mp hlast
    intro y hy
    rcases List.mem_append.mp hy with hy | hy
    · exact ((List.pairwise_append.mp hbefore.1).2.2 y hy last (by simp)).trans_lt hlt
    · rw [List.mem_singleton.mp hy]
      exact hlt
  · cases hcut

theorem flatten_sortedSessions (rows : List (Int × TaggedRow F)) :
    (rule.sortedSessions rows).flatten = sortByKey Prod.fst rows :=
  flatten_segments _

theorem ne_nil_of_mem_sortedSessions : ∀ seg ∈ rule.sortedSessions rows, seg ≠ [] :=
  fun _ => ne_nil_of_mem_segments

theorem sessionIndex_indexed (rows : List (Int × TaggedRow F)) :
    Indexed (fun r => rule.sessionIndex rows r.1) (rule.sortedSessions rows) :=
  indexed_findIdx (segments_strict (sortByKey_sorted rows) fun _ _ hinitial hcut =>
    cut_strict (sortByKey_sorted rows) hinitial hcut)

theorem sessionIndex_perm (hperm : rows.Perm rows') :
    rule.sessionIndex rows = rule.sessionIndex rows' := by
  have hsessions (rows : List (Int × TaggedRow F)) :
      (rule.sortedSessions rows).map (List.map Prod.fst) =
        segments (fun first last ts =>
          ts - last > rule.timeoutMs || ts - first ≥ rule.maxDurationMs)
          ((sortByKey Prod.fst rows).map Prod.fst) := by
    rw [segments_map]
    rfl
  funext ts
  have hfind (rows : List (Int × TaggedRow F)) : rule.sessionIndex rows ts =
      ((rule.sortedSessions rows).map (List.map Prod.fst)).findIdx (·.any (· == ts)) := by
    simp only [SessionRule.sessionIndex, List.findIdx_map, Function.comp_def, List.any_map]
  rw [hfind, hfind, hsessions, hsessions, map_key_sortByKey hperm]

theorem sortedSessions_perm (hperm : rows.Perm rows') :
    List.Forall₂ List.Perm (rule.sortedSessions rows) (rule.sortedSessions rows') := by
  refine (forall₂_perm_iff_indexed ne_nil_of_mem_sortedSessions ne_nil_of_mem_sortedSessions
    (sessionIndex_indexed rows') ?_).mpr ?_
  · rw [flatten_sortedSessions, flatten_sortedSessions]
    exact (sortByKey_perm rows).trans (hperm.trans (sortByKey_perm rows').symm)
  · rw [← sessionIndex_perm hperm]
    exact sessionIndex_indexed rows

-- ---- Runs

def NoneLate (rule : EventRule F) (events : List (Event F)) : Prop :=
  ∀ before ts tagged, before ++ [.row ts tagged] <+: events → rule.watermark before ≤ ts

def EventRule.passingRow (rule : EventRule F) : Event F → Option (Int × TaggedRow F)
  | .row ts tagged => if rule.passes tagged then some (ts, tagged) else none
  | .joinsClosed => none

theorem accepted_of_noneLate {rule : EventRule F} {events : List (Event F)}
    (h : NoneLate rule events) : rule.accepted events = events.filterMap rule.passingRow := by
  induction events using List.reverseRecOn with
  | nil => rfl
  | append_singleton events event ih =>
    have hbefore := ih fun before ts tagged hinitial =>
      h before ts tagged (hinitial.trans (List.prefix_append _ _))
    rw [List.filterMap_append, ← hbefore]
    cases event with
    | row ts tagged =>
      have honTime : (rule.clock events).isLate ts = false := by
        rw [Clock.isLate, decide_eq_false_iff_not, not_lt]
        exact h events ts tagged (List.prefix_refl _)
      rw [accepted_onTime tagged honTime]
      cases hpasses : rule.passes tagged <;> simp [EventRule.passingRow, hpasses]
    | joinsClosed => simp [accepted_joinsClosed, EventRule.passingRow]

theorem accepted_perm {rule : EventRule F} {events events' : List (Event F)}
    (hperm : events.Perm events') (h : NoneLate rule events) (h' : NoneLate rule events') :
    (rule.accepted events).Perm (rule.accepted events') := by
  rw [accepted_of_noneLate h, accepted_of_noneLate h']
  exact hperm.filterMap _

namespace SessionRule

def SessionsByTime (rule : SessionRule F) (events : List (Event F)) : Prop :=
  List.Forall₂ List.Perm ((rule.sessions events).map Batch.rows)
    ((rule.sortedSessions (rule.accepted events)).map (List.map Prod.snd))

/-- Each accepted row is of the same session as the accepted row before it, and the rule does not
end the session between the two, or is of the next session, and the rule does. The first row of
all is of the first session. -/
def ArrivesBySession (rule : SessionRule F) (events : List (Event F)) : Prop :=
  ∀ before r, before ++ [r] <+: rule.stamped events →
    rule.sessionIndex (rule.accepted events) r.ts =
      nextKey rule.ends (fun r => rule.sessionIndex (rule.accepted events) r.ts) before r

end SessionRule

theorem sessions_rows (events : List (Event F)) :
    (rule.sessions events).map Batch.rows =
      ((segments rule.ends (rule.stamped events)).map (List.map Stamped.row)).map
        (List.map Prod.snd) := by
  rw [SessionRule.sessions_eq, List.map_map, List.map_map]
  refine List.map_congr_left fun seg _ => ?_
  simp [SessionRule.toBatch, Stamped.row]

theorem flatten_stamped (events : List (Event F)) :
    ((segments rule.ends (rule.stamped events)).map (List.map Stamped.row)).flatten =
      rule.accepted events := by
  rw [← List.map_flatten, flatten_segments]
  exact map_row_stampedFrom _

theorem segments_perm_iff (events : List (Event F)) :
    List.Forall₂ List.Perm ((segments rule.ends (rule.stamped events)).map (List.map Stamped.row))
        (rule.sortedSessions (rule.accepted events)) ↔ rule.ArrivesBySession events := by
  rw [forall₂_perm_iff_indexed ?_ ne_nil_of_mem_sortedSessions
    (sessionIndex_indexed (rule.accepted events)) ?_, indexed_map]
  · exact indexed_segments_iff _
  · intro seg hseg
    obtain ⟨seg', hseg', rfl⟩ := List.mem_map.mp hseg
    simpa using ne_nil_of_mem_segments hseg'
  · rw [flatten_stamped, flatten_sortedSessions]
    exact (sortByKey_perm _).symm

/-- The timestamps are in the rows, so that equal rows have equal timestamps. -/
def Timed (events : List (Event F)) : Prop :=
  ∃ timestamp : TaggedRow F → Int, ∀ ts tagged, Event.row ts tagged ∈ events →
    ts = timestamp tagged

theorem map_timestamp {timestamp : TaggedRow F → Int} (h : ∀ r ∈ rows, r.1 = timestamp r.2) :
    (rows.map Prod.snd).map (fun tagged => (timestamp tagged, tagged)) = rows := by
  rw [List.map_map]
  conv_rhs => rw [← List.map_id rows]
  refine List.map_congr_left fun r hr => ?_
  rw [Function.comp_apply, ← h r hr, id_eq]

theorem map_map_timestamp {timestamp : TaggedRow F → Int} {segs : List (List (Int × TaggedRow F))}
    (h : ∀ r ∈ segs.flatten, r.1 = timestamp r.2) :
    (segs.map (List.map Prod.snd)).map (List.map fun tagged => (timestamp tagged, tagged)) =
      segs := by
  rw [List.map_map]
  conv_rhs => rw [← List.map_id segs]
  refine List.map_congr_left fun seg hseg => ?_
  exact map_timestamp fun r hr => h r (List.mem_flatten.mpr ⟨seg, hseg, hr⟩)

theorem sessionsByTime_of_arrives {events : List (Event F)} (h : rule.ArrivesBySession events) :
    rule.SessionsByTime events := by
  rw [SessionRule.SessionsByTime, sessions_rows]
  exact forall₂_perm_map Prod.snd ((segments_perm_iff events).mpr h)

theorem arrives_of_sessionsByTime {events : List (Event F)} (htimed : Timed events)
    (h : rule.SessionsByTime events) : rule.ArrivesBySession events := by
  obtain ⟨timestamp, htimestamp⟩ := htimed
  rw [SessionRule.SessionsByTime, sessions_rows] at h
  have h := forall₂_perm_map (fun tagged => (timestamp tagged, tagged)) h
  have haccepted : ∀ r ∈ rule.accepted events, r.1 = timestamp r.2 := fun r hr =>
    htimestamp r.1 r.2 (mem_of_mem_acceptedFrom hr)
  rw [map_map_timestamp, map_map_timestamp] at h
  · exact (segments_perm_iff events).mp h
  · rw [flatten_sortedSessions]
    exact fun r hr => haccepted r (mem_sortByKey.mp hr)
  · rw [flatten_stamped]
    exact haccepted

namespace SessionRule

/-- The batches of both runs hold the same rows, the ones of the sessions by timestamp. -/
def SameSessions (rule : SessionRule F) (events events' : List (Event F)) : Prop :=
  rule.SessionsByTime events ∧ rule.SessionsByTime events' ∧
    List.Forall₂ List.Perm ((rule.sessions events).map Batch.rows)
      ((rule.sessions events').map Batch.rows)

end SessionRule

/-- Two orders of arrival without late rows give the same sessions, the ones by timestamp, if in
both of them the rows arrive session by session, and only then. -/
theorem arrival_orders_iff {events events' : List (Event F)} (hperm : events.Perm events')
    (h : NoneLate rule.toEventRule events) (h' : NoneLate rule.toEventRule events') :
    (rule.ArrivesBySession events ∧ rule.ArrivesBySession events' →
      rule.SameSessions events events') ∧
    (Timed events → rule.SameSessions events events' →
      rule.ArrivesBySession events ∧ rule.ArrivesBySession events') := by
  constructor
  · rintro ⟨harrives, harrives'⟩
    have hsessions := sessionsByTime_of_arrives harrives
    have hsessions' := sessionsByTime_of_arrives harrives'
    have hsorted := forall₂_perm_map Prod.snd
      (@sortedSessions_perm F rule _ _ (accepted_perm hperm h h'))
    exact ⟨hsessions, hsessions',
      forall₂_perm_trans hsessions (forall₂_perm_trans hsorted (forall₂_perm_symm hsessions'))⟩
  · rintro htimed ⟨hsessions, hsessions', -⟩
    have htimed' : Timed events' := by
      obtain ⟨timestamp, htimestamp⟩ := htimed
      exact ⟨timestamp, fun ts tagged hmem => htimestamp ts tagged (hperm.mem_iff.mpr hmem)⟩
    exact ⟨arrives_of_sessionsByTime htimed hsessions,
      arrives_of_sessionsByTime htimed' hsessions'⟩

def sessionStream (lateTolerance timeout maxDuration : Int) : SessionRule Unit :=
  { oneStream lateTolerance with timeout, maxDuration }

theorem noneLate_arrivals {rule : EventRule Unit} {timestamps : List Int}
    (h : ∀ i : Fin timestamps.length,
      rule.watermark (arrivals (timestamps.take i)) ≤ timestamps.get i) :
    NoneLate rule (arrivals timestamps) := by
  refine fun before ts tagged hinitial => @forall_prefix_of_forall_fin _
    (fun before event => ∀ ts tagged, event = .row ts tagged → rule.watermark before ≤ ts)
    (arrivals timestamps) (fun i ts tagged hevent => ?_) before _ hinitial ts tagged rfl
  have hlt : i < timestamps.length := by simpa [arrivals] using i.isLt
  have hget : (arrivals timestamps).get i = .row (timestamps.get ⟨i, hlt⟩) ⟨"s", ∅⟩ :=
    List.getElem_map _
  have htake : (arrivals timestamps).take i = arrivals (timestamps.take i) := by
    simp [arrivals]
  rw [hget] at hevent
  cases hevent
  rw [htake]
  exact h ⟨i, hlt⟩

/-- Rows out of order within a session, and a row of the next one. -/
theorem close_rows_same_sessions :
    (sessionStream 100 10 1000).SameSessions (arrivals [0, 5, 3, 40]) (arrivals [0, 3, 5, 40]) := by
  have hperm : (arrivals [0, 5, 3, 40]).Perm (arrivals [0, 3, 5, 40]) :=
    List.Perm.map _ (by decide)
  exact (arrival_orders_iff hperm (noneLate_arrivals (by decide)) (noneLate_arrivals (by decide))).1
    ⟨forall_prefix_of_forall_fin (by decide), forall_prefix_of_forall_fin (by decide)⟩

/-- The row at 16 is too far from the one at 0, and the row at 8 that joins them comes later. -/
theorem later_row_not_joined : ¬∀ events events' : List (Event Unit), events.Perm events' →
    NoneLate (oneStream 100) events → NoneLate (oneStream 100) events' →
      (sessionStream 100 10 1000).SameSessions events events' := by
  intro h
  have hperm : (arrivals [0, 16, 8]).Perm (arrivals [0, 8, 16]) := List.Perm.map _ (by decide)
  obtain ⟨-, -, hsame⟩ := h _ _ hperm (noneLate_arrivals (by decide)) (noneLate_arrivals (by decide))
  have hlength := hsame.length_eq
  revert hlength
  decide

end Rekuiper.Windows
