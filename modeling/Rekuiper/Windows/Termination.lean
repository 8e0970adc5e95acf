import Rekuiper.Lib.Loop
import Rekuiper.Windows.Hopping
import Rekuiper.Windows.Tumbling

/-!
# Ends of the closing loops

A row closes the windows that the watermark has passed one by one. The ends of windows stop at the
largest `i64`, so the loop gets past any watermark below it, and never past that one. A window
longer than an `i64` of milliseconds has a negative length, and its loop goes backwards.
-/

namespace Rekuiper.Windows

open Lib Sql
open Pipeline (TaggedRow wrapI64)

variable {F : Type}

-- ---- Durations

def unitMillis : TimeUnit → Nat
  | .ms => 1
  | .ss => 1000
  | .mi => 60000
  | .hh => 3600000
  | .dd => 86400000

/-- `tumbling_window_duration`, in milliseconds -/
def tumblingWindowDuration (unit : TimeUnit) (length : Nat) : Nat :=
  let millis := min (length * unitMillis unit) (2 ^ 64 - 1)
  if millis = 0 then 1 else millis

/-- `as_millis() as i64` of the duration -/
def windowMillis (unit : TimeUnit) (length : Nat) : Int :=
  wrapI64 (tumblingWindowDuration unit length)

theorem windowMillis_pos_iff (unit : TimeUnit) (length : Nat) :
    0 < windowMillis unit length ↔ (length * unitMillis unit : Int) ≤ maxI64 := by
  have hmax : maxI64 = 2 ^ 63 - 1 := rfl
  unfold windowMillis tumblingWindowDuration wrapI64
  rw [← Nat.cast_mul]
  generalize length * unitMillis unit = millis
  dsimp only
  split <;> split <;> omega

-- ---- The loops

def closeStep (w watermark t0 : Int) : Option Int :=
  let tEnd := saturate (t0 + w)
  if watermark < tEnd then none else some tEnd

def hopStep (hop watermark curEnd : Int) : Option Int :=
  if watermark < curEnd then none else some (saturate (curEnd + hop))

theorem closeWindows_rounds (w watermark : Int) (fuel : Nat) (t0 : Int)
    (etBuffer : List (Int × TaggedRow F)) :
    (closeWindows w watermark fuel t0 etBuffer).1 = rounds (closeStep w watermark) fuel t0 := by
  induction fuel generalizing t0 etBuffer with
  | zero => rfl
  | succ fuel ih =>
    simp only [closeWindows, rounds, closeStep]
    split
    · rfl
    · exact ih _ _

theorem closeHops_rounds (length hop watermark : Int) (fuel : Nat) (curEnd : Int)
    (etBuffer : List (Int × TaggedRow F)) :
    (closeHops length hop watermark fuel curEnd etBuffer).1 =
      rounds (hopStep hop watermark) fuel curEnd := by
  induction fuel generalizing curEnd etBuffer with
  | zero => rfl
  | succ fuel ih =>
    simp only [closeHops, rounds, hopStep]
    split
    · rfl
    · exact ih _ _

theorem saturate_le (n : Int) : saturate n ≤ maxI64 :=
  max_le (by decide) (min_le_left _ _)

theorem terminates_closeStep_iff (w watermark t0 : Int) :
    Terminates (closeStep w watermark) t0 ↔
      if 0 < w then watermark < maxI64 else watermark < saturate (t0 + w) := by
  split
  · next hw =>
    constructor
    · intro hends
      by_contra hmax
      refine not_terminates_of_invariant (fun _ => True) (fun t _ => ?_) trivial hends
      have := saturate_le (t + w)
      exact ⟨_, if_neg (by omega), trivial⟩
    · intro hwatermark
      refine terminates_of_measure (fun t => (maxI64 - t).toNat) (fun t t' ht => ?_) t0
      -- the end of the window is not the bound, so it is later than the start
      simp only [closeStep, Option.ite_none_left_eq_some, Option.some.injEq] at ht
      obtain ⟨hpassed, rfl⟩ := ht
      unfold saturate at hpassed ⊢
      omega
  · next hw =>
    constructor
    · intro hends
      by_contra hpassed
      refine not_terminates_of_invariant (fun t => saturate (t + w) ≤ watermark) (fun t ht => ?_)
        (not_lt.mp hpassed) hends
      refine ⟨_, if_neg (by omega), ?_⟩
      unfold saturate at ht ⊢
      omega
    · exact fun hopen => terminates_of_none (if_pos hopen)

theorem terminates_hopStep_iff {hop curEnd : Int} (watermark : Int) (hhop : 1 ≤ hop)
    (hend : curEnd ≤ maxI64) : Terminates (hopStep hop watermark) curEnd ↔ watermark < maxI64 := by
  constructor
  · intro hends
    by_contra hmax
    refine not_terminates_of_invariant (· ≤ maxI64) (fun e he => ?_) hend hends
    exact ⟨_, if_neg (by omega), saturate_le _⟩
  · intro hwatermark
    refine terminates_of_measure (fun e => (maxI64 - e).toNat) (fun e e' he => ?_) curEnd
    simp only [hopStep, Option.ite_none_left_eq_some, Option.some.injEq] at he
    obtain ⟨hpassed, rfl⟩ := he
    unfold saturate
    have : maxI64 = 2 ^ 63 - 1 := rfl
    have : minI64 = -2 ^ 63 := rfl
    omega

-- ---- Runs

/-- Arithmetic on `i64`, which wraps around. -/
def wrapInt (n : Int) : Int := Int.bmod n (2 ^ 64)

def Tumbling.openStart (w : Int) (s : Tumbling F) (ts : Int) : Int :=
  let aligned := wrapInt (ts - ts % max w 1)
  s.windowStart.elim aligned (min aligned)

def Hopping.openEnd (hop : Int) (s : Hopping F) (ts : Int) : Int :=
  s.nextHopEnd.getD (wrapInt (hopEnd hop ts))

def buffered (rule : EventRule F) (etBuffer : List (Int × TaggedRow F)) (ts : Int)
    (tagged : TaggedRow F) : List (Int × TaggedRow F) :=
  if rule.passes tagged then etBuffer ++ [(ts, tagged)] else etBuffer

/-- The states of a rule that has taken in some events: the loop has ended for each of them. -/
inductive Tumbling.Reaches (rule : EventRule F) (w : Int) : List (Event F) → Tumbling F → Prop
  | start : Reaches rule w [] .start
  | late {events : List (Event F)} {s : Tumbling F} {ts : Int} (tagged : TaggedRow F)
      (h : Reaches rule w events s) (hlate : s.clock.isLate ts = true) :
      Reaches rule w (events ++ [.row ts tagged]) s
  | row {events : List (Event F)} {s : Tumbling F} {ts : Int} (tagged : TaggedRow F)
      {clock : Clock} {fuel : Nat} {closed : Int × List (Int × TaggedRow F) × List (Batch F)}
      (h : Reaches rule w events s) (hlate : s.clock.isLate ts = false)
      (hclock : s.clock.advance rule tagged.source ts = clock)
      (hclosed : closeWindows w clock.watermark fuel (s.openStart w ts)
        (buffered rule s.etBuffer ts tagged) = closed)
      (hends : closeStep w clock.watermark closed.1 = none) :
      Reaches rule w (events ++ [.row ts tagged]) ⟨clock, closed.2.1, some closed.1⟩
  | joinsClosed {events : List (Event F)} {s : Tumbling F} (h : Reaches rule w events s) :
      Reaches rule w (events ++ [.joinsClosed]) { s with clock := s.clock.step rule .joinsClosed }

inductive Hopping.Reaches (rule : EventRule F) (length hop : Int) :
    List (Event F) → Hopping F → Prop
  | start : Reaches rule length hop [] .start
  | late {events : List (Event F)} {s : Hopping F} {ts : Int} (tagged : TaggedRow F)
      (h : Reaches rule length hop events s) (hlate : s.clock.isLate ts = true) :
      Reaches rule length hop (events ++ [.row ts tagged]) s
  | row {events : List (Event F)} {s : Hopping F} {ts : Int} (tagged : TaggedRow F)
      {clock : Clock} {fuel : Nat} {closed : Int × List (Int × TaggedRow F) × List (Batch F)}
      (h : Reaches rule length hop events s) (hlate : s.clock.isLate ts = false)
      (hclock : s.clock.advance rule tagged.source ts = clock)
      (hclosed : closeHops length hop clock.watermark fuel (s.openEnd hop ts)
        (buffered rule s.etBuffer ts tagged) = closed)
      (hends : hopStep hop clock.watermark closed.1 = none) :
      Reaches rule length hop (events ++ [.row ts tagged]) ⟨clock, closed.2.1, some closed.1⟩
  | joinsClosed {events : List (Event F)} {s : Hopping F} (h : Reaches rule length hop events s) :
      Reaches rule length hop (events ++ [.joinsClosed])
        { s with clock := s.clock.step rule .joinsClosed }

def EventRule.onTimeFrom (rule : EventRule F) : Clock → List (Event F) → List Int
  | _, [] => []
  | c, event :: events =>
    (match event with
      | .row ts _ => if c.isLate ts then [] else [ts]
      | .joinsClosed => []) ++ rule.onTimeFrom (c.step rule event) events

def EventRule.onTime (rule : EventRule F) (events : List (Event F)) : List Int :=
  rule.onTimeFrom .start events

variable {rule : EventRule F} {events : List (Event F)} {w length hop : Int}

theorem onTimeFrom_append (c : Clock) (more : List (Event F)) :
    rule.onTimeFrom c (events ++ more) =
      rule.onTimeFrom c events ++ rule.onTimeFrom (events.foldl (Clock.step rule) c) more := by
  induction events generalizing c with
  | nil => rfl
  | cons event events ih => simp [EventRule.onTimeFrom, ih]

theorem onTime_row (ts : Int) (tagged : TaggedRow F) :
    rule.onTime (events ++ [.row ts tagged]) =
      rule.onTime events ++ if (rule.clock events).isLate ts then [] else [ts] := by
  simp only [EventRule.onTime, onTimeFrom_append, EventRule.onTimeFrom, List.append_nil]
  rfl

theorem onTime_joinsClosed : rule.onTime (events ++ [.joinsClosed]) = rule.onTime events := by
  simp [EventRule.onTime, onTimeFrom_append, EventRule.onTimeFrom]

theorem watermark_joinsClosed :
    rule.watermark (events ++ [.joinsClosed]) = rule.watermark events := by
  rw [EventRule.watermark, clock_snoc]
  rfl

theorem watermark_late {ts : Int} (tagged : TaggedRow F)
    (hlate : (rule.clock events).isLate ts = true) :
    rule.watermark (events ++ [.row ts tagged]) = rule.watermark events := by
  rw [EventRule.watermark, clock_late tagged hlate, EventRule.watermark]

theorem watermark_onTime {ts : Int} (tagged : TaggedRow F)
    (hlate : (rule.clock events).isLate ts = false) :
    rule.watermark (events ++ [.row ts tagged]) =
      ((rule.clock events).advance rule tagged.source ts).watermark := by
  rw [EventRule.watermark, clock_onTime tagged hlate]

theorem Tumbling.Reaches.clock_eq {s : Tumbling F} (h : Reaches rule w events s) :
    s.clock = rule.clock events := by
  induction h with
  | start => rfl
  | late tagged h hlate ih => rw [clock_late tagged (ih ▸ hlate), ih]
  | row tagged h hlate hclock hclosed hends ih =>
    rw [clock_onTime tagged (ih ▸ hlate), ← hclock, ih]
  | joinsClosed h ih => rw [clock_snoc, ih]

theorem Hopping.Reaches.clock_eq {s : Hopping F} (h : Reaches rule length hop events s) :
    s.clock = rule.clock events := by
  induction h with
  | start => rfl
  | late tagged h hlate ih => rw [clock_late tagged (ih ▸ hlate), ih]
  | row tagged h hlate hclock hclosed hends ih =>
    rw [clock_onTime tagged (ih ▸ hlate), ← hclock, ih]
  | joinsClosed h ih => rw [clock_snoc, ih]

theorem Tumbling.Reaches.snoc {s : Tumbling F} (h : Reaches rule w events s) (event : Event F)
    (hends : ∀ ts tagged, event = .row ts tagged → s.clock.isLate ts = false →
      Terminates (closeStep w (s.clock.advance rule tagged.source ts).watermark)
        (s.openStart w ts)) :
    ∃ s', Reaches rule w (events ++ [event]) s' := by
  cases event with
  | joinsClosed => exact ⟨_, h.joinsClosed⟩
  | row ts tagged =>
    cases hlate : s.clock.isLate ts with
    | true => exact ⟨_, h.late tagged hlate⟩
    | false =>
      obtain ⟨fuel, hends⟩ := hends ts tagged rfl hlate
      rw [← closeWindows_rounds _ _ _ _ (buffered rule s.etBuffer ts tagged)] at hends
      exact ⟨_, h.row tagged hlate rfl rfl hends⟩

theorem Hopping.Reaches.snoc {s : Hopping F} (h : Reaches rule length hop events s)
    (event : Event F)
    (hends : ∀ ts tagged, event = .row ts tagged → s.clock.isLate ts = false →
      Terminates (hopStep hop (s.clock.advance rule tagged.source ts).watermark)
        (s.openEnd hop ts)) :
    ∃ s', Reaches rule length hop (events ++ [event]) s' := by
  cases event with
  | joinsClosed => exact ⟨_, h.joinsClosed⟩
  | row ts tagged =>
    cases hlate : s.clock.isLate ts with
    | true => exact ⟨_, h.late tagged hlate⟩
    | false =>
      obtain ⟨fuel, hends⟩ := hends ts tagged rfl hlate
      rw [← closeHops_rounds length hop _ _ _ (buffered rule s.etBuffer ts tagged)] at hends
      exact ⟨_, h.row tagged hlate rfl rfl hends⟩

-- ---- Lengths that fit an `i64`

theorem minI64_lt_maxI64 : minI64 < maxI64 := by decide

theorem tumbling_reaches_iff (hw : 0 < w) (rule : EventRule F) (events : List (Event F)) :
    (∃ s, Tumbling.Reaches rule w events s) ↔ rule.watermark events < maxI64 := by
  constructor
  · rintro ⟨s, h⟩
    induction h with
    | start => exact minI64_lt_maxI64
    | late tagged h hlate ih => rwa [watermark_late tagged (h.clock_eq ▸ hlate)]
    | @row events s ts tagged clock fuel closed h hlate hclock hclosed hends ih =>
      have hloop : Terminates (closeStep w clock.watermark) (s.openStart w ts) :=
        ⟨fuel, by rw [← closeWindows_rounds, hclosed, hends]⟩
      rw [terminates_closeStep_iff, if_pos hw] at hloop
      rwa [watermark_onTime tagged (h.clock_eq ▸ hlate), ← h.clock_eq, hclock]
    | joinsClosed h ih => rwa [watermark_joinsClosed]
  · intro hwatermark
    induction events using List.reverseRecOn with
    | nil => exact ⟨_, .start⟩
    | append_singleton events event ih =>
      obtain ⟨s, h⟩ := ih (lt_of_le_of_lt (watermark_mono _) hwatermark)
      refine h.snoc event ?_
      rintro ts tagged rfl hlate
      rw [watermark_onTime tagged (h.clock_eq ▸ hlate), ← h.clock_eq] at hwatermark
      rw [terminates_closeStep_iff, if_pos hw]
      exact hwatermark

theorem openEnd_le {s : Hopping F} (h : ∀ e, s.nextHopEnd = some e → e ≤ maxI64) (hop ts : Int) :
    s.openEnd hop ts ≤ maxI64 := by
  unfold Hopping.openEnd
  cases hnext : s.nextHopEnd with
  | none =>
    have hbound := Int.bmod_lt (x := hopEnd hop ts) (m := 2 ^ 64) (by decide)
    have hmax : maxI64 = 2 ^ 63 - 1 := rfl
    rw [Option.getD_none, wrapInt]
    omega
  | some e => exact h e hnext

theorem rounds_hopStep_le {watermark e : Int} (he : e ≤ maxI64) (fuel : Nat) :
    rounds (hopStep hop watermark) fuel e ≤ maxI64 := by
  induction fuel generalizing e with
  | zero => exact he
  | succ fuel ih =>
    unfold rounds hopStep
    split
    · next hnext =>
      split at hnext
      · cases hnext
      · cases hnext
        exact ih (saturate_le _)
    · exact he

theorem Hopping.Reaches.nextHopEnd_le {s : Hopping F} (h : Reaches rule length hop events s) :
    ∀ e, s.nextHopEnd = some e → e ≤ maxI64 := by
  induction h with
  | start => exact nofun
  | late tagged h hlate ih => exact ih
  | @row events s ts tagged clock fuel closed h hlate hclock hclosed hends ih =>
    rintro e ⟨rfl⟩
    rw [← hclosed, closeHops_rounds]
    exact rounds_hopStep_le (openEnd_le ih hop ts) fuel
  | joinsClosed h ih => exact ih

theorem hopping_reaches_iff (hhop : 1 ≤ hop) (rule : EventRule F) (events : List (Event F)) :
    (∃ s, Hopping.Reaches rule length hop events s) ↔ rule.watermark events < maxI64 := by
  constructor
  · rintro ⟨s, h⟩
    induction h with
    | start => exact minI64_lt_maxI64
    | late tagged h hlate ih => rwa [watermark_late tagged (h.clock_eq ▸ hlate)]
    | @row events s ts tagged clock fuel closed h hlate hclock hclosed hends ih =>
      have hloop : Terminates (hopStep hop clock.watermark) (s.openEnd hop ts) :=
        ⟨fuel, by rw [← closeHops_rounds length, hclosed, hends]⟩
      rw [terminates_hopStep_iff _ hhop (openEnd_le h.nextHopEnd_le hop ts)] at hloop
      rwa [watermark_onTime tagged (h.clock_eq ▸ hlate), ← h.clock_eq, hclock]
    | joinsClosed h ih => rwa [watermark_joinsClosed]
  · intro hwatermark
    induction events using List.reverseRecOn with
    | nil => exact ⟨_, .start⟩
    | append_singleton events event ih =>
      obtain ⟨s, h⟩ := ih (lt_of_le_of_lt (watermark_mono _) hwatermark)
      refine h.snoc event ?_
      rintro ts tagged rfl hlate
      rw [watermark_onTime tagged (h.clock_eq ▸ hlate), ← h.clock_eq] at hwatermark
      exact (terminates_hopStep_iff _ hhop (openEnd_le h.nextHopEnd_le hop ts)).mpr hwatermark

-- ---- Lengths that do not

/-- The open window starts at the earliest row, as no window is ever closed. -/
structure Tumbling.Backwards (rule : EventRule F) (w : Int) (events : List (Event F))
    (s : Tumbling F) : Prop where
  none : s.windowStart = none → rule.onTime events = []
  mem : ∀ ws, s.windowStart = some ws → ws ∈ rule.onTime events
  least : ∀ ws, s.windowStart = some ws → ∀ ts ∈ rule.onTime events, ws ≤ ts
  ahead : ∀ ts ∈ rule.onTime events, rule.watermark events < saturate (ts + w)

theorem Tumbling.Backwards.of_eq {s s' : Tumbling F} {events' : List (Event F)}
    (h : s.Backwards rule w events) (hstart : s'.windowStart = s.windowStart)
    (honTime : rule.onTime events' = rule.onTime events)
    (hwatermark : rule.watermark events' = rule.watermark events) :
    s'.Backwards rule w events' := by
  refine ⟨?_, ?_, ?_, ?_⟩ <;> rw [honTime]
  · exact hstart ▸ h.none
  · exact hstart ▸ h.mem
  · exact hstart ▸ h.least
  · exact hwatermark ▸ h.ahead

theorem Tumbling.Backwards.openStart {s : Tumbling F} (h : s.Backwards rule w events) (hw : w ≤ 0)
    {ts : Int} (hlow : minI64 ≤ ts) (hhigh : ts ≤ maxI64) (tagged : TaggedRow F)
    (hlate : (rule.clock events).isLate ts = false) :
    s.openStart w ts ∈ rule.onTime (events ++ [.row ts tagged]) ∧
      ∀ t ∈ rule.onTime (events ++ [.row ts tagged]), s.openStart w ts ≤ t := by
  have haligned : wrapInt (ts - ts % max w 1) = ts := by
    have hmax : maxI64 = 2 ^ 63 - 1 := rfl
    have hmin : minI64 = -2 ^ 63 := rfl
    rw [max_eq_right (by omega), Int.emod_one, sub_zero, wrapInt]
    exact Int.bmod_eq_of_le (by omega) (by omega)
  rw [onTime_row, hlate, if_neg Bool.false_ne_true, Tumbling.openStart, haligned]
  cases hstart : s.windowStart with
  | none => simp [h.none hstart]
  | some ws =>
    have hmem := h.mem ws hstart
    have hleast := h.least ws hstart
    simp only [Option.elim_some, List.mem_append, List.mem_singleton]
    refine ⟨?_, ?_⟩
    · rcases min_choice ts ws with hmin | hmin <;> rw [hmin]
      · exact .inr rfl
      · exact .inl hmem
    · rintro t (ht | rfl)
      · exact (min_le_right _ _).trans (hleast t ht)
      · exact min_le_left _ _

theorem Tumbling.Reaches.backwards {s : Tumbling F} (h : Reaches rule w events s) (hw : w ≤ 0) :
    (∀ ts tagged, Event.row ts tagged ∈ events → minI64 ≤ ts ∧ ts ≤ maxI64) →
      s.Backwards rule w events := by
  induction h with
  | start => exact fun _ => ⟨fun _ => rfl, nofun, nofun, nofun⟩
  | @late events s ts tagged h hlate ih =>
    intro hrange
    have hold := ih fun ts' tagged' hrow => hrange ts' tagged' (List.mem_append_left _ hrow)
    have hlate' : (rule.clock events).isLate ts = true := h.clock_eq ▸ hlate
    refine hold.of_eq rfl ?_ (watermark_late tagged hlate')
    rw [onTime_row, if_pos hlate', List.append_nil]
  | @row events s ts tagged clock fuel closed h hlate hclock hclosed hends ih =>
    intro hrange
    have hold := ih fun ts' tagged' hrow => hrange ts' tagged' (List.mem_append_left _ hrow)
    have hlate' : (rule.clock events).isLate ts = false := h.clock_eq ▸ hlate
    obtain ⟨hlow, hhigh⟩ := hrange ts tagged (by simp)
    obtain ⟨hmem, hleast⟩ := hold.openStart hw hlow hhigh tagged hlate'
    have hloop : Terminates (closeStep w clock.watermark) (s.openStart w ts) :=
      ⟨fuel, by rw [← closeWindows_rounds, hclosed, hends]⟩
    rw [terminates_closeStep_iff, if_neg (by omega)] at hloop
    -- the loop ended before its first round
    have hstart : closed.1 = s.openStart w ts := by
      have hnone : closeStep w clock.watermark (s.openStart w ts) = none := if_pos hloop
      rw [← hclosed, closeWindows_rounds]
      exact rounds_of_none hnone fuel
    have hwatermark : rule.watermark (events ++ [.row ts tagged]) = clock.watermark := by
      rw [watermark_onTime tagged hlate', ← h.clock_eq, hclock]
    refine ⟨nofun, ?_, ?_, fun t ht => ?_⟩
    · rintro ws ⟨rfl⟩
      rwa [hstart]
    · rintro ws ⟨rfl⟩
      rwa [hstart]
    · rw [hwatermark]
      exact lt_of_lt_of_le hloop (saturate_mono (by have := hleast t ht; omega))
  | joinsClosed h ih =>
    intro hrange
    have hold := ih fun ts' tagged' hrow => hrange ts' tagged' (List.mem_append_left _ hrow)
    exact hold.of_eq rfl onTime_joinsClosed watermark_joinsClosed

theorem tumbling_reaches_long_iff (hw : w ≤ 0) (rule : EventRule F) {events : List (Event F)}
    (hrange : ∀ ts tagged, Event.row ts tagged ∈ events → minI64 ≤ ts ∧ ts ≤ maxI64) :
    (∃ s, Tumbling.Reaches rule w events s) ↔
      ∀ ts ∈ rule.onTime events, rule.watermark events < saturate (ts + w) := by
  refine ⟨fun ⟨s, h⟩ => (h.backwards hw hrange).ahead, fun hahead => ?_⟩
  induction events using List.reverseRecOn with
  | nil => exact ⟨_, .start⟩
  | append_singleton events event ih =>
    have hrange' : ∀ ts tagged, Event.row ts tagged ∈ events → minI64 ≤ ts ∧ ts ≤ maxI64 :=
      fun ts tagged hrow => hrange ts tagged (List.mem_append_left _ hrow)
    obtain ⟨s, h⟩ := ih hrange' fun ts hts => by
      refine lt_of_le_of_lt (watermark_mono [event]) (hahead ts ?_)
      rw [EventRule.onTime, onTimeFrom_append]
      exact List.mem_append_left _ hts
    refine h.snoc event ?_
    rintro ts tagged rfl hlate
    have hlate' : (rule.clock events).isLate ts = false := h.clock_eq ▸ hlate
    obtain ⟨hlow, hhigh⟩ := hrange ts tagged (by simp)
    have hmem := ((h.backwards hw hrange').openStart hw hlow hhigh tagged hlate').1
    have hopen := hahead _ hmem
    rw [watermark_onTime tagged hlate', ← h.clock_eq] at hopen
    rw [terminates_closeStep_iff, if_neg (by omega)]
    exact hopen

-- ---- Both windows

/-- The loops end for all rows of a run exactly if the watermark stays below the largest `i64`. A
tumbling window whose milliseconds do not fit an `i64` has to end after the watermark, although its
end is before its start. -/
theorem closing_loops_end_iff (rule : EventRule F) (unit : TimeUnit) (length hop : Nat)
    (events : List (Event F))
    (hrange : ∀ ts tagged, Event.row ts tagged ∈ events → minI64 ≤ ts ∧ ts ≤ maxI64) :
    ((∃ s, Tumbling.Reaches rule (windowMillis unit length) events s) ↔
        if (length * unitMillis unit : Int) ≤ maxI64 then rule.watermark events < maxI64
        else ∀ ts ∈ rule.onTime events,
          rule.watermark events < saturate (ts + windowMillis unit length)) ∧
      ((∃ s, Hopping.Reaches rule (windowMillis unit length) (max (windowMillis unit hop) 1)
          events s) ↔ rule.watermark events < maxI64) := by
  refine ⟨?_, hopping_reaches_iff (le_max_right _ _) rule events⟩
  split
  · next hfits =>
    exact tumbling_reaches_iff ((windowMillis_pos_iff unit length).mpr hfits) rule events
  · next hlong =>
    refine tumbling_reaches_long_iff ?_ rule hrange
    exact not_lt.mp (mt (windowMillis_pos_iff unit length).mp hlong)

theorem closing_loops_end_arrivals :
    ∃ s, Tumbling.Reaches (oneStream 0) (windowMillis .ss 1) (arrivals [5, 2000]) s := by
  refine (closing_loops_end_iff (oneStream 0) .ss 1 1 (arrivals [5, 2000]) ?_).1.mpr ?_
  · intro ts tagged hrow
    have hts : ts = 5 ∨ ts = 2000 := by simpa using mem_arrivals hrow
    rcases hts with rfl | rfl <;> decide
  · rw [if_pos (by decide)]
    decide

/-- A row at the end of time is enough to keep the loops going. -/
theorem closing_loops_at_max :
    (¬∃ s, Tumbling.Reaches (oneStream 0) (windowMillis .ss 1) (arrivals [maxI64]) s) ∧
      ¬∃ s, Hopping.Reaches (oneStream 0) 1000 1000 (arrivals [maxI64]) s := by
  rw [tumbling_reaches_iff (by decide), hopping_reaches_iff (by decide)]
  decide

end Rekuiper.Windows
