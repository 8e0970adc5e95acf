import Rekuiper.Sql.CallRuns
import Rekuiper.Sql.Independence

/-!
# Sequences

`sequence_match` and `sequence_count` remember no more than the stage of the sequence in progress,
when it began and how many are complete. Each stage stands for events that met its conditions, the
first of them at the remembered time and all of them after the last complete sequence.
-/

namespace Rekuiper.Sql

open Lib

variable {F : Type}

/-- An event of a run: its timestamp and the values of the conditions, of which there are `k`. -/
structure CepEvent (F : Type) (k : Nat) where
  ts : Int
  isI64 : minI64 ≤ ts ∧ ts ≤ maxI64
  steps : List (Value F)
  length : steps.length = k

variable {k : Nat} {span : Int}

def CepEvent.flags (e : CepEvent F k) : List Bool := e.steps.map fun v => v.asBool.getD false

def CepEvent.holds (e : CepEvent F k) (j : Nat) : Bool := e.flags.getD j false

def cepNext (span : Int) (s : Option CepState) (e : CepEvent F k) : Bool × CepState :=
  (((s.getD ⟨0, e.ts, 0⟩).expire span e.ts).advance e.flags e.ts).finish k

def cepAfter (span : Int) (events : List (CepEvent F k)) : Option CepState × List Bool :=
  events.foldl (fun (s, reports) e => (some (cepNext span s e).2, reports ++ [(cepNext span s e).1]))
    (none, [])

theorem cepAfter_snoc (events : List (CepEvent F k)) (e : CepEvent F k) :
    cepAfter span (events ++ [e]) =
      (some (cepNext span (cepAfter span events).1 e).2,
        (cepAfter span events).2 ++ [(cepNext span (cepAfter span events).1 e).1]) := by
  simp [cepAfter]

theorem length_reports (span : Int) (events : List (CepEvent F k)) :
    (cepAfter span events).2.length = events.length := by
  induction events using List.reverseRecOn with
  | nil => rfl
  | append_singleton events e ih => simp [cepAfter_snoc, ih]

/-- Events, by their positions, that met the first steps one after the other, all of them since
the last report. -/
structure Chain (events : List (CepEvent F k)) (reports : List Bool) (stage : Nat) (start : Int)
    (chain : List Nat) : Prop where
  length : chain.length = stage
  increasing : chain.Pairwise (· < ·)
  seen : ∀ i ∈ chain, i < events.length
  fresh : ∀ i ∈ chain, ∀ m, reports[m]? = some true → m < i
  holds : ∀ j i, chain[j]? = some i → ∃ e : CepEvent F k, events[i]? = some e ∧ e.holds j = true
  began : ∀ i, chain[0]? = some i → ∃ e : CepEvent F k, events[i]? = some e ∧ e.ts = start

section
variable {events : List (CepEvent F k)} {reports : List Bool} {stage : Nat} {start : Int}
  {chain : List Nat} {e : CepEvent F k}

theorem Chain.nil : Chain events reports 0 start [] :=
  ⟨rfl, .nil, by simp, by simp, by simp, by simp⟩

theorem getElem?_snoc_of_some {l : List α} {x y : α} {i : Nat} (h : l[i]? = some x) :
    (l ++ [y])[i]? = some x := by
  rw [List.getElem?_append_left (List.getElem?_eq_some_iff.mp h).1, h]

theorem Chain.later (h : Chain events reports stage start chain) :
    Chain (events ++ [e]) reports stage start chain where
  length := h.length
  increasing := h.increasing
  seen i hi := by
    have := h.seen i hi
    simp
    omega
  fresh := h.fresh
  holds j i hi := by
    obtain ⟨e', he', hholds⟩ := h.holds j i hi
    exact ⟨e', getElem?_snoc_of_some he', hholds⟩
  began i hi := by
    obtain ⟨e', he', hts⟩ := h.began i hi
    exact ⟨e', getElem?_snoc_of_some he', hts⟩

theorem Chain.unreported (h : Chain events reports stage start chain) :
    Chain events (reports ++ [false]) stage start chain where
  length := h.length
  increasing := h.increasing
  seen := h.seen
  fresh i hi m hm := by
    rcases Nat.lt_or_ge m reports.length with hlt | hge
    · rw [List.getElem?_append_left hlt] at hm
      exact h.fresh i hi m hm
    · rw [List.getElem?_append_right hge, List.getElem?_singleton] at hm
      simp at hm
  holds := h.holds
  began := h.began

theorem Chain.begin (hreports : reports.length = events.length) (hholds : e.holds 0 = true) :
    Chain (events ++ [e]) reports 1 e.ts [events.length] where
  length := rfl
  increasing := List.pairwise_singleton _ _
  seen := by simp
  fresh := by
    rintro i hi m hm
    rw [List.mem_singleton] at hi
    rw [hi, ← hreports]
    exact (List.getElem?_eq_some_iff.mp hm).1
  holds := by
    rintro (_ | j) i hi
    · cases hi
      exact ⟨e, by simp, hholds⟩
    · simp at hi
  began := by
    rintro i hi
    cases hi
    exact ⟨e, by simp, rfl⟩

theorem Chain.extend (h : Chain events reports stage start chain) (hstage : 0 < stage)
    (hreports : reports.length = events.length) (hholds : e.holds stage = true) :
    Chain (events ++ [e]) reports (stage + 1) start (chain ++ [events.length]) where
  length := by simp [h.length]
  increasing := by
    rw [List.pairwise_append]
    refine ⟨h.increasing, List.pairwise_singleton _ _, ?_⟩
    rintro i hi j hj
    rw [List.mem_singleton.mp hj]
    exact h.seen i hi
  seen := by
    rintro i hi
    rcases List.mem_append.mp hi with hi | hi
    · exact h.later.seen i hi
    · rw [List.mem_singleton.mp hi]
      simp
  fresh := by
    rintro i hi m hm
    rcases List.mem_append.mp hi with hi | hi
    · exact h.fresh i hi m hm
    · rw [List.mem_singleton.mp hi, ← hreports]
      exact (List.getElem?_eq_some_iff.mp hm).1
  holds := by
    rintro j i hi
    rcases Nat.lt_or_ge j chain.length with hlt | hge
    · rw [List.getElem?_append_left hlt] at hi
      exact h.later.holds j i hi
    · rw [List.getElem?_append_right hge, List.getElem?_singleton] at hi
      split at hi
      · next hj =>
        cases hi
        have hj' : j = stage := by
          have := h.length
          omega
        exact ⟨e, by simp, hj' ▸ hholds⟩
      · simp at hi
  began := by
    rintro i hi
    rw [List.getElem?_append_left (by rw [h.length]; exact hstage)] at hi
    exact h.later.began i hi

def Backed (events : List (CepEvent F k)) (reports : List Bool) (s : CepState) : Prop :=
  ∃ chain, Chain events reports s.stage s.start chain

theorem Backed.expire {s : CepState} (h : Backed events reports s) (span ts : Int) :
    Backed events reports (s.expire span ts) := by
  obtain ⟨chain, hchain⟩ := h
  unfold CepState.expire
  split
  · exact ⟨[], .nil⟩
  · exact ⟨chain, hchain⟩

theorem Backed.advance {s : CepState} (h : Backed events reports s) (hk : 2 ≤ k)
    (hstage : s.stage < k) (hreports : reports.length = events.length) :
    (s.advance e.flags e.ts).stage ≤ k ∧
      ∃ chain, Chain (events ++ [e]) reports (s.advance e.flags e.ts).stage
          (s.advance e.flags e.ts).start chain ∧
        (k ≤ (s.advance e.flags e.ts).stage → chain.getLast? = some events.length ∧
          0 < s.stage ∧ (s.advance e.flags e.ts).start = s.start) := by
  obtain ⟨chain, hchain⟩ := h
  have hlength : e.flags.length = k := by simp [CepEvent.flags, e.length]
  unfold CepState.advance
  rw [hlength]
  split_ifs with hzero hfirst hnext hrestart
  · exact ⟨by simp; omega, _, .begin hreports hfirst, by simp; omega⟩
  · refine ⟨Nat.le_of_lt hstage, chain, hchain.later, ?_⟩
    omega
  · refine ⟨by simp; omega, _, hchain.extend (by omega) hreports hnext, fun _ => ?_⟩
    exact ⟨by simp, by omega, rfl⟩
  · exact ⟨by simp; omega, _, .begin hreports hrestart, by simp; omega⟩
  · refine ⟨Nat.le_of_lt hstage, chain, hchain.later, ?_⟩
    omega

/-- A complete sequence: its events, by their positions, the last of them being the one at which
it is reported. -/
structure Completed (span : Int) (events : List (CepEvent F k)) (reports : List Bool) (n : Nat)
    (chain : List Nat) : Prop where
  length : chain.length = k
  increasing : chain.Pairwise (· < ·)
  last : chain.getLast? = some n
  fresh : ∀ i ∈ chain, ∀ m < n, reports[m]? = some true → m < i
  holds : ∀ j i, chain[j]? = some i → ∃ e : CepEvent F k, events[i]? = some e ∧ e.holds j = true
  inTime : ∀ (i : Nat) (first last : CepEvent F k), chain[0]? = some i → events[i]? = some first →
    events[n]? = some last → saturate (last.ts - first.ts) ≤ span

theorem cepNext_completed {s : CepState} (h : Backed events reports s) (hk : 2 ≤ k)
    (hspan : 0 < span) (hstage : s.stage < k) (hreports : reports.length = events.length)
    (hmatch : (cepNext span (some s) e).1 = true) :
    ∃ chain, Completed span (events ++ [e]) reports events.length chain := by
  have hexpire := h.expire span e.ts
  have hstage' : (s.expire span e.ts).stage < k := by
    unfold CepState.expire
    split
    · show 0 < k
      omega
    · exact hstage
  obtain ⟨hle, chain, hchain, hlast⟩ := hexpire.advance (e := e) hk hstage' hreports
  have hfull : k ≤ ((s.expire span e.ts).advance e.flags e.ts).stage := by
    by_contra hnot
    simp [cepNext, CepState.finish, hnot] at hmatch
  obtain ⟨hlast, hprogress, hstart⟩ := hlast hfull
  refine ⟨chain, hchain.length.trans (Nat.le_antisymm hle hfull), hchain.increasing, hlast,
    fun i hi m _ => hchain.fresh i hi m, hchain.holds, ?_⟩
  rintro i first last hi hfirst hevent
  obtain ⟨e', he', hts⟩ := hchain.began i hi
  cases hfirst.symm.trans he'
  have hlast' : last = e := by
    simpa using hevent.symm
  rw [hlast', hts, hstart]
  unfold CepState.expire at hprogress ⊢
  split at hprogress
  · simp at hprogress
  · next hnot =>
    rw [if_neg hnot]
    by_contra hlate
    exact hnot ⟨hprogress, hspan, not_le.mp hlate⟩

/-- What is known of the state after a run, or of the one that an event begins with. -/
structure CepInv (events : List (CepEvent F k)) (reports : List Bool) (s : CepState) : Prop where
  backed : Backed events reports s
  stage_lt : s.stage < k
  start_le : s.start ≤ maxI64
  completed : s.completed = min (reports.count true : Int) maxI64

theorem CepState.finish_inv {s : CepState} (hbacked : Backed events reports s) (hle : s.stage ≤ k)
    (hk : 2 ≤ k) (hstart : s.start ≤ maxI64)
    (hcompleted : s.completed = min (reports.count true : Int) maxI64) :
    CepInv events (reports ++ [(s.finish k).1]) (s.finish k).2 := by
  unfold CepState.finish
  split
  · refine ⟨⟨[], .nil⟩, ?_, hstart, ?_⟩
    · show 0 < k
      omega
    · simp only [hcompleted, saturate, List.count_append, List.count_singleton_self, minI64, maxI64]
      omega
  · obtain ⟨chain, hchain⟩ := hbacked
    refine ⟨⟨chain, hchain.unreported⟩, ?_, hstart, by simp [hcompleted]⟩
    show s.stage < k
    omega

theorem CepInv.next {s : CepState} (h : CepInv events reports s) (span : Int) (hk : 2 ≤ k)
    (hreports : reports.length = events.length) :
    CepInv (events ++ [e]) (reports ++ [(cepNext span (some s) e).1]) (cepNext span (some s) e).2 := by
  have hexpire : (s.expire span e.ts).stage < k ∧ (s.expire span e.ts).start = s.start ∧
      (s.expire span e.ts).completed = s.completed := by
    unfold CepState.expire
    split
    · exact ⟨by show 0 < k; omega, rfl, rfl⟩
    · exact ⟨h.stage_lt, rfl, rfl⟩
  obtain ⟨hstage, hstart, hcompleted⟩ := hexpire
  obtain ⟨hle, chain, hchain, -⟩ :=
    (h.backed.expire span e.ts).advance (e := e) hk hstage hreports
  have hadvance : ((s.expire span e.ts).advance e.flags e.ts).completed = s.completed ∧
      ((s.expire span e.ts).advance e.flags e.ts).start ≤ maxI64 := by
    have hle' := hstart ▸ h.start_le
    have hts := e.isI64.2
    unfold CepState.advance
    split_ifs <;> exact ⟨hcompleted, by assumption⟩
  exact CepState.finish_inv ⟨chain, hchain⟩ hle hk hadvance.2 (hadvance.1.trans h.completed)

theorem cepAfter_inv (span : Int) (hk : 2 ≤ k) (events : List (CepEvent F k)) {ts : Int}
    (hts : ts ≤ maxI64) :
    CepInv events (cepAfter span events).2 ((cepAfter span events).1.getD ⟨0, ts, 0⟩) := by
  induction events using List.reverseRecOn generalizing ts with
  | nil =>
    refine ⟨⟨[], .nil⟩, ?_, hts, ?_⟩
    · show 0 < k
      omega
    · show (0 : Int) = min ((([] : List Bool).count true : Nat) : Int) maxI64
      simp [maxI64]
  | append_singleton events e ih =>
    rw [cepAfter_snoc]
    exact (ih e.isI64.2).next span hk (length_reports span events)

theorem Completed.later {n : Nat} {b : Bool} (h : Completed span events reports n chain)
    (hn : n < events.length) (hreports : reports.length = events.length) :
    Completed span (events ++ [e]) (reports ++ [b]) n chain where
  length := h.length
  increasing := h.increasing
  last := h.last
  fresh i hi m hm hreport := by
    rw [List.getElem?_append_left (by omega)] at hreport
    exact h.fresh i hi m hm hreport
  holds j i hi := by
    obtain ⟨e', he', hholds⟩ := h.holds j i hi
    exact ⟨e', getElem?_snoc_of_some he', hholds⟩
  inTime i first last hi hfirst hlast := by
    obtain ⟨e', he', -⟩ := h.holds 0 i hi
    rw [List.getElem?_append_left (List.getElem?_eq_some_iff.mp he').1] at hfirst
    rw [List.getElem?_append_left hn] at hlast
    exact h.inTime i first last hi hfirst hlast

theorem cepAfter_completed (hk : 2 ≤ k) (hspan : 0 < span) (events : List (CepEvent F k)) {n : Nat}
    (hn : (cepAfter span events).2[n]? = some true) :
    ∃ chain, Completed span events (cepAfter span events).2 n chain := by
  induction events using List.reverseRecOn generalizing n with
  | nil => simp [cepAfter] at hn
  | append_singleton events e ih =>
    have hreports := length_reports span events
    rw [cepAfter_snoc] at hn ⊢
    rcases Nat.lt_or_ge n events.length with hlt | hge
    · rw [List.getElem?_append_left (by omega)] at hn
      obtain ⟨chain, hchain⟩ := ih hn
      exact ⟨chain, hchain.later hlt hreports⟩
    · rw [List.getElem?_append_right (by omega), List.getElem?_singleton] at hn
      have hnow : n = events.length := by
        by_contra hne
        rw [if_neg (by omega)] at hn
        cases hn
      subst hnow
      rw [if_pos (by omega)] at hn
      have hinv := cepAfter_inv span hk events e.isI64.2
      obtain ⟨chain, hchain⟩ := cepNext_completed hinv.backed hk hspan hinv.stage_lt hreports
        (Option.some.inj hn)
      refine ⟨chain, { hchain with fresh := ?_ }⟩
      intro i hi m hm hreport
      rw [List.getElem?_append_left (by omega)] at hreport
      exact hchain.fresh i hi m hm hreport

end

-- ---- The calls

theorem load_store (ts : Int) {s : CepState} (hstart : s.start ≤ maxI64)
    (hcompleted : s.completed ≤ maxI64) : CepState.load ts (some (s.store : Value F)) = s := by
  simp [CepState.load, CepState.store, ofI64, Value.asU64, Value.asI64, Number.asU64, Number.asI64,
    hstart, hcompleted]

/-- How many sequences are complete after each event, as far as the counter goes. -/
def tally (reports : List Bool) : List (Value F) :=
  (List.range reports.length).map fun n =>
    ofI64 (min ((reports.take (n + 1)).count true : Int) maxI64)

theorem tally_snoc (reports : List Bool) (b : Bool) :
    tally (F := F) (reports ++ [b]) =
      tally reports ++ [ofI64 (min ((reports ++ [b]).count true : Int) maxI64)] := by
  have hbefore : ∀ n ∈ List.range reports.length,
      (reports ++ [b]).take (n + 1) = reports.take (n + 1) := by
    intro n hn
    exact List.take_append_of_le_length (List.mem_range.mp hn)
  simp only [tally, List.length_append, List.length_singleton, List.range_succ, List.map_append,
    List.map_singleton]
  congr 1
  · exact List.map_congr_left fun n hn => by rw [hbefore n hn]
  · rw [List.take_of_length_le (by simp)]

section
variable [Float64 F] {env : Env F} {keyOrder : KeyOrder F} {spanArg : Value F}
  {events : List (CepEvent F k)} {results counts : List (Value F)}
  {callId partitionKey callId' partitionKey' : String} {m m' : HashMap String (Value F)}

/-- The entry in which a call for a sequence keeps its state. -/
def cepKey (name callId partitionKey : String) : String := s!"cep:{name}:{callId}:{partitionKey}"

/-- One turn of `sequence_match(span, ...)` or `sequence_count(span, ...)`. -/
def cepCall (env : Env F) (keyOrder : KeyOrder F) (name callId partitionKey : String)
    (spanArg : Value F) (e : CepEvent F k) : StateM (HashMap String (Value F)) (Value F) :=
  evalAnalytic env keyOrder
    { name, args := spanArg :: e.steps, callId, partitionKey, skipUpdate := false,
      eventTime := some e.ts }

def HoldsState (span : Int) (events : List (CepEvent F k)) (stored : Option (Value F)) : Prop :=
  stored = (cepAfter span events).1.map CepState.store

theorem evalSequenceCep_next (lowered : String) (hk : 2 ≤ k)
    (hspan : toI64Arg env spanArg = some span) (e : CepEvent F k)
    {stored : Option (Value F)} (h : HoldsState span events stored) :
    HoldsState span (events ++ [e])
        ((evalSequenceCep env lowered (spanArg :: e.steps) e.ts false).next stored) ∧
      (evalSequenceCep env lowered (spanArg :: e.steps) e.ts false stored).1 =
        if lowered = "sequence_count" then
          ofI64 (cepNext span (cepAfter span events).1 e).2.completed
        else .bool (cepNext span (cepAfter span events).1 e).1 := by
  have hinv := cepAfter_inv span hk events e.isI64.2
  have hload : CepState.load e.ts stored = (cepAfter span events).1.getD ⟨0, e.ts, 0⟩ := by
    rw [h]
    cases hs : (cepAfter span events).1 with
    | none => rfl
    | some s =>
      rw [hs] at hinv
      exact load_store e.ts hinv.start_le (hinv.completed ▸ Int.min_le_right _ _)
  have henough : ¬k + 1 < 3 := by omega
  unfold HoldsState Update.next evalSequenceCep
  rw [hload, cepAfter_snoc]
  simp [e.length, henough, hspan, cepNext, CepEvent.flags]

theorem sequenceMatch_results (hk : 2 ≤ k) (hspan : toI64Arg env spanArg = some span)
    (h : CallRun (cepKey "sequence_match" callId partitionKey)
      (cepCall env keyOrder "sequence_match" callId partitionKey spanArg) events results m) :
    results = (cepAfter span events).2.map .bool := by
  refine (h.results (fun e => rfl) (HoldsState span) (fun events => (cepAfter span events).2.map .bool)
    rfl rfl ?_).2
  intro before stored e hbefore
  obtain ⟨hnext, hresult⟩ := evalSequenceCep_next "sequence_match" hk hspan e hbefore
  exact ⟨hnext, by simp [cepAfter_snoc, hresult]⟩

theorem sequenceCount_results (hk : 2 ≤ k) (hspan : toI64Arg env spanArg = some span)
    (h : CallRun (cepKey "sequence_count" callId partitionKey)
      (cepCall env keyOrder "sequence_count" callId partitionKey spanArg) events counts m) :
    counts = tally (cepAfter span events).2 := by
  refine (h.results (fun e => rfl) (HoldsState span) (fun events => tally (cepAfter span events).2)
    rfl rfl ?_).2
  intro before stored e hbefore
  obtain ⟨hnext, hresult⟩ := evalSequenceCep_next "sequence_count" hk hspan e hbefore
  refine ⟨hnext, ?_⟩
  have hinv := (cepAfter_inv span hk before e.isI64.2).next (e := e) span hk
    (length_reports span before)
  rw [Option.getD_some, hresult, if_pos rfl, cepAfter_snoc, tally_snoc]
  congr 3
  exact hinv.completed.symm

/-- In a run of both calls on the same events each match that is reported stands for a complete
sequence since the one before, and the counter follows the reports as far as an `i64` goes. -/
theorem sequences_sound (env : Env F) (keyOrder : KeyOrder F) (hk : 2 ≤ k)
    (hspan : toI64Arg env spanArg = some span) (hpos : 0 < span)
    (hmatch : CallRun (cepKey "sequence_match" callId partitionKey)
      (cepCall env keyOrder "sequence_match" callId partitionKey spanArg) events results m)
    (hcount : CallRun (cepKey "sequence_count" callId' partitionKey')
      (cepCall env keyOrder "sequence_count" callId' partitionKey' spanArg) events counts m') :
    ∃ reports : List Bool, results = reports.map .bool ∧
      (∀ n, reports[n]? = some true → ∃ chain, Completed span events reports n chain) ∧
      counts = (List.range reports.length).map fun n =>
        ofI64 (min ((reports.take (n + 1)).count true : Int) maxI64) :=
  ⟨(cepAfter span events).2, sequenceMatch_results hk hspan hmatch,
    fun _ hn => cepAfter_completed hk hpos events hn, sequenceCount_results hk hspan hcount⟩

end

def bothEvent : CepEvent ℚ 2 where
  ts := 0
  isI64 := by decide
  steps := [.bool true, .bool true]
  length := rfl

theorem sequences_sound_both :
    ∃ results counts m m',
      CallRun (cepKey "sequence_match" "id" "")
        (cepCall numbersEnv AList.keys "sequence_match" "id" "" (ofI64 1000)) [bothEvent, bothEvent]
        results m ∧
      CallRun (cepKey "sequence_count" "id" "")
        (cepCall numbersEnv AList.keys "sequence_count" "id" "" (ofI64 1000)) [bothEvent, bothEvent]
        counts m' ∧
      ∃ reports : List Bool, results = reports.map .bool ∧
        (∀ n, reports[n]? = some true →
          ∃ chain, Completed 1000 [bothEvent, bothEvent] reports n chain) ∧
        counts = (List.range reports.length).map fun n =>
          ofI64 (min ((reports.take (n + 1)).count true : Int) maxI64) := by
  obtain ⟨results, m, hmatch⟩ := CallRun.exists (cepKey "sequence_match" "id" "")
    (cepCall numbersEnv AList.keys "sequence_match" "id" "" (ofI64 1000)) [bothEvent, bothEvent]
  obtain ⟨counts, m', hcount⟩ := CallRun.exists (cepKey "sequence_count" "id" "")
    (cepCall numbersEnv AList.keys "sequence_count" "id" "" (ofI64 1000)) [bothEvent, bothEvent]
  have hspan : toI64Arg numbersEnv (ofI64 1000) = some 1000 := rfl
  exact ⟨results, counts, m, m', hmatch, hcount,
    sequences_sound numbersEnv AList.keys (Nat.le_refl 2) hspan (by decide) hmatch hcount⟩

theorem count_bothEvents (n : Nat) :
    ((cepAfter 1000 (List.replicate (2 * n) bothEvent)).1.getD ⟨0, 0, 0⟩).stage = 0 ∧
      (cepAfter 1000 (List.replicate (2 * n) bothEvent)).2.count true = n := by
  induction n with
  | zero => exact ⟨rfl, rfl⟩
  | succ n ih =>
    obtain ⟨hstage, hcount⟩ := ih
    have hsplit : List.replicate (2 * (n + 1)) bothEvent =
        List.replicate (2 * n) bothEvent ++ [bothEvent] ++ [bothEvent] := by
      rw [Nat.mul_succ, List.replicate_add, List.append_assoc]
      rfl
    have hflags : bothEvent.flags = [true, true] := rfl
    have hts : bothEvent.ts = 0 := rfl
    have hzero : saturate 0 = 0 := by decide
    rw [hsplit, cepAfter_snoc, cepAfter_snoc]
    simp [cepNext, CepState.expire, CepState.advance, CepState.finish, hstage, hcount, hflags, hts,
      hzero]

/-- After so many matches the counter stays at the greatest `i64`. -/
theorem sequence_count_saturates :
    ¬∀ (events : List (CepEvent ℚ 2)) (reports : List Bool) (counts : List (Value ℚ))
      (m m' : HashMap String (Value ℚ)),
      CallRun (cepKey "sequence_match" "id" "")
        (cepCall numbersEnv AList.keys "sequence_match" "id" "" (ofI64 1000)) events
        (reports.map .bool) m →
      CallRun (cepKey "sequence_count" "id" "")
        (cepCall numbersEnv AList.keys "sequence_count" "id" "" (ofI64 1000)) events counts m' →
      counts = (List.range reports.length).map fun n =>
        ofI64 ((reports.take (n + 1)).count true : Int) := by
  intro hall
  have hspan : toI64Arg numbersEnv (ofI64 1000) = some 1000 := rfl
  obtain ⟨n, hn⟩ : ∃ n : Nat, maxI64 < n := ⟨2 ^ 63, by decide⟩
  obtain ⟨results, m, hmatch⟩ := CallRun.exists (cepKey "sequence_match" "id" "")
    (cepCall numbersEnv AList.keys "sequence_match" "id" "" (ofI64 1000))
    (List.replicate (2 * n) bothEvent)
  obtain ⟨counts, m', hcount⟩ := CallRun.exists (cepKey "sequence_count" "id" "")
    (cepCall numbersEnv AList.keys "sequence_count" "id" "" (ofI64 1000))
    (List.replicate (2 * n) bothEvent)
  have hresults := sequenceMatch_results (Nat.le_refl 2) hspan hmatch
  rw [hresults] at hmatch
  have heq := hall _ _ counts m m' hmatch hcount
  rw [sequenceCount_results (Nat.le_refl 2) hspan hcount] at heq
  obtain ⟨-, htrue⟩ := count_bothEvents n
  obtain ⟨last, hlast⟩ : ∃ last, (cepAfter 1000 (List.replicate (2 * n) bothEvent)).2.length =
      last + 1 := by
    rw [length_reports, List.length_replicate]
    exact ⟨2 * n - 1, by simp only [maxI64] at hn; omega⟩
  have hat := congrArg (fun l => l[last]?) heq
  have htake : (cepAfter 1000 (List.replicate (2 * n) bothEvent)).2.take (last + 1) =
      (cepAfter 1000 (List.replicate (2 * n) bothEvent)).2 := List.take_of_length_le (by omega)
  simp only [tally, hlast, List.getElem?_map, List.getElem?_range (Nat.lt_succ_self last),
    Option.map_some, htake, htrue, ofI64, Option.some.injEq, Value.number.injEq,
    Number.int.injEq] at hat
  omega

end Rekuiper.Sql
