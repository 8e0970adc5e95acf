import Mathlib.Algebra.GroupWithZero.Nat
import Mathlib.Data.List.Induction
import Mathlib.Data.List.Range
import Mathlib.Tactic.Common

/-!
# The feed of a rule test

The rows of a rule test are kept in a ring with sequence numbers, and every one is
followed by a wake-up to the subscribers. A subscriber copies what the ring has at or after
its cursor, delivers it, and waits for a wake-up once there is nothing more.
-/

namespace Rekuiper.Server.Ruletest

-- ---- The ring

abbrev Entry := Nat × String

def maxU64 : Nat := 2 ^ 64 - 1

/-- `saturating_add(1)` -/
def saturatingSucc (n : Nat) : Nat := min (n + 1) maxU64

theorem saturatingSucc_eq {n : Nat} (h : n < maxU64) : saturatingSucc n = n + 1 := Nat.min_eq_left h

/-- `RULETEST_HISTORY_CAP` -/
def historyCap : Nat := 10000

structure Replay where
  entries : List Entry
  nextSeq : Nat

/-- `pop_front` while there are more entries than the cap -/
def evict (cap : Nat) : List Entry → List Entry
  | [] => []
  | entry :: rest => if cap < (entry :: rest).length then evict cap rest else entry :: rest

theorem evict_suffix (cap : Nat) (entries : List Entry) : evict cap entries <:+ entries := by
  induction entries with
  | nil => exact List.suffix_rfl
  | cons entry rest ih =>
    unfold evict
    split
    · exact ih.trans (List.suffix_cons entry rest)
    · exact List.suffix_rfl

/-- A row is added, and the oldest rows past the cap are evicted. -/
def Replay.append (replay : Replay) (line : String) : Replay :=
  ⟨evict historyCap (replay.entries ++ [(replay.nextSeq, line)]), saturatingSucc replay.nextSeq⟩

theorem Replay.entries_append (replay : Replay) (line : String) :
    (replay.append line).entries <:+ replay.entries ++ [(replay.nextSeq, line)] := by
  have hentries : (replay.append line).entries =
      evict historyCap (replay.entries ++ [(replay.nextSeq, line)]) := rfl
  rw [hentries]
  exact evict_suffix historyCap _

def Replay.since (replay : Replay) (cursor : Nat) : List Entry × Nat :=
  replay.entries.foldl
    (fun (fresh, next) entry =>
      if cursor ≤ entry.1 then (fresh ++ [entry], saturatingSucc entry.1) else (fresh, next))
    ([], cursor)

-- ---- Subscribers

/-- Where a subscriber is: about to deliver or to copy, waiting for a wake-up, or at its end. -/
inductive Phase
  | refill
  | waiting
  | ended

/-- A copy from the ring: the cursor before it, the ring, and the cursor after it. -/
structure Snapshot where
  before : Nat
  replay : Replay
  after : Nat

/-- A subscriber, with the rows that it has delivered and the copies that it has made. -/
structure Subscriber where
  cursor : Nat
  pending : List Entry
  phase : Phase
  /-- wake-ups that were sent and not received -/
  unseen : Nat
  delivered : List Entry
  snapshots : List Snapshot

def Subscriber.new : Subscriber := ⟨0, [], .refill, 0, [], []⟩

/-- Copies what is fresh, or waits. -/
def Subscriber.snapshot (sub : Subscriber) (replay : Replay) : Subscriber :=
  let (fresh, next) := replay.since sub.cursor
  if fresh.isEmpty then { sub with phase := .waiting }
  else
    { sub with
      cursor := next
      pending := fresh
      snapshots := sub.snapshots ++ [⟨sub.cursor, replay, next⟩] }

/-- A step of a subscriber. A wake-up is a message or a lag, which stands for one or more
messages. -/
inductive Moves (replay : Replay) (closed : Bool) : Subscriber → Subscriber → Prop
  | deliver (sub : Subscriber) (entry : Entry) (rest : List Entry) (hphase : sub.phase = .refill)
      (hpending : sub.pending = entry :: rest) :
      Moves replay closed sub
        { sub with pending := rest, delivered := sub.delivered ++ [entry] }
  | snapshot (sub : Subscriber) (hphase : sub.phase = .refill) (hpending : sub.pending = []) :
      Moves replay closed sub (sub.snapshot replay)
  | wake (sub : Subscriber) (left : Nat) (hphase : sub.phase = .waiting) (hleft : left < sub.unseen) :
      Moves replay closed sub { sub with unseen := left, phase := .refill }
  | finish (sub : Subscriber) (hphase : sub.phase = .waiting) (hunseen : sub.unseen = 0)
      (hclosed : closed = true) : Moves replay closed sub { sub with phase := .ended }

-- ---- The session

structure Session where
  replay : Replay
  /-- rows that are in the ring while their wake-up is still to be sent -/
  inFlight : List Nat
  closed : Bool
  subscribers : List Subscriber
  emitted : List Entry

def Session.new : Session := ⟨⟨[], 0⟩, [], false, [], []⟩

/-- The first half of `emit_ruletest_line` for the text of a row, under the lock of the ring. -/
def Session.push (s : Session) (line : String) : Session :=
  { s with
    replay := s.replay.append line
    inFlight := s.replay.nextSeq :: s.inFlight
    emitted := s.emitted ++ [(s.replay.nextSeq, line)] }

/-- The second half, which wakes the subscribers. -/
def Session.send (s : Session) (seq : Nat) : Session :=
  { s with
    inFlight := s.inFlight.erase seq
    subscribers := s.subscribers.map fun sub => { sub with unseen := sub.unseen + 1 } }

/-- A step of a call, of a client that subscribes, of a subscriber, or the deletion of the session
once no call uses it. -/
inductive Step : Session → Session → Prop
  | push (s : Session) (line : String) (hopen : s.closed = false) : Step s (s.push line)
  | send (s : Session) (seq : Nat) (hseq : seq ∈ s.inFlight) : Step s (s.send seq)
  | subscribe (s : Session) (hopen : s.closed = false) :
      Step s { s with subscribers := s.subscribers ++ [.new] }
  | subscriber (s : Session) (i : Nat) (sub sub' : Subscriber) (hsub : s.subscribers[i]? = some sub)
      (hmoves : Moves s.replay s.closed sub sub') :
      Step s { s with subscribers := s.subscribers.set i sub' }
  | close (s : Session) (hidle : s.inFlight = []) : Step s { s with closed := true }

inductive Reachable : Session → Prop
  | new : Reachable .new
  | step {s s' : Session} : Reachable s → Step s s' → Reachable s'

-- ---- The ring keeps the latest rows

/-- The rows are numbered from zero, and the ring has the latest ones. -/
structure Replay.Inv (replay : Replay) (emitted : List Entry) : Prop where
  numbered : emitted.map Prod.fst = List.range emitted.length
  nextSeq : replay.nextSeq = emitted.length
  latest : replay.entries <:+ emitted

theorem Replay.Inv.append {replay : Replay} {emitted : List Entry} (h : replay.Inv emitted)
    (hroom : emitted.length < maxU64) (line : String) :
    (replay.append line).Inv (emitted ++ [(replay.nextSeq, line)]) where
  numbered := by simp [h.numbered, h.nextSeq, List.range_succ]
  nextSeq := by
    rw [List.length_append, List.length_singleton, ← h.nextSeq]
    exact saturatingSucc_eq (h.nextSeq ▸ hroom)
  latest := by
    obtain ⟨evicted, hevicted⟩ := h.latest
    refine (Replay.entries_append replay line).trans ⟨evicted, ?_⟩
    rw [← List.append_assoc, hevicted]

theorem Replay.Inv.ascending {replay : Replay} {emitted : List Entry} (h : replay.Inv emitted) :
    replay.entries.Pairwise fun a b => a.1 < b.1 := by
  have hall : emitted.Pairwise fun a b => a.1 < b.1 := by
    rw [← List.pairwise_map (R := (· < ·)), h.numbered]
    exact List.pairwise_lt_range
  exact hall.sublist h.latest.sublist

theorem Replay.Inv.lt_nextSeq {replay : Replay} {emitted : List Entry} (h : replay.Inv emitted)
    {entry : Entry} (hentry : entry ∈ emitted) : entry.1 < replay.nextSeq := by
  have hmem : entry.1 ∈ emitted.map Prod.fst := List.mem_map_of_mem hentry
  rw [h.numbered, List.mem_range, ← h.nextSeq] at hmem
  exact hmem

theorem Replay.since_eq (replay : Replay) (cursor : Nat) :
    replay.since cursor = (replay.entries.filter (cursor ≤ ·.1),
      ((replay.entries.filter (cursor ≤ ·.1)).getLast?.map fun entry =>
        saturatingSucc entry.1).getD cursor) := by
  unfold Replay.since
  induction replay.entries using List.reverseRecOn with
  | nil => rfl
  | append_singleton entries entry ih =>
    rw [List.foldl_append, ih]
    by_cases h : cursor ≤ entry.1 <;> simp [h]

-- ---- What a subscriber has been given

def Subscriber.copied (sub : Subscriber) : List Entry := sub.delivered ++ sub.pending

/-- A number that a copy passed when its row had been evicted. -/
def Snapshot.Missed (snapshot : Snapshot) (seq : Nat) : Prop :=
  snapshot.before ≤ seq ∧ seq < snapshot.after ∧ seq < snapshot.replay.nextSeq ∧
    ∀ entry ∈ snapshot.replay.entries, entry.1 ≠ seq

structure Subscriber.Inv (replay : Replay) (inFlight : List Nat) (emitted : List Entry)
    (sub : Subscriber) : Prop where
  known : ∀ entry ∈ sub.copied, entry ∈ emitted
  ascending : sub.copied.Pairwise fun a b => a.1 < b.1
  passed : ∀ entry ∈ sub.copied, entry.1 < sub.cursor
  cursor : sub.cursor ≤ replay.nextSeq
  retained : ∀ entry ∈ replay.entries, entry.1 < sub.cursor → entry ∈ sub.copied
  gaps : ∀ seq < sub.cursor, (∃ entry ∈ sub.copied, entry.1 = seq) ∨
    ∃ snapshot ∈ sub.snapshots, snapshot.Missed seq
  waiting : sub.phase = .waiting → sub.pending = [] ∧
    (sub.unseen = 0 → ∀ entry ∈ replay.entries, entry.1 ∉ inFlight → entry.1 < sub.cursor)

variable {replay : Replay} {inFlight : List Nat} {emitted : List Entry} {sub : Subscriber}

theorem Subscriber.Inv.new : Subscriber.new.Inv replay inFlight emitted where
  known := by simp [Subscriber.new, Subscriber.copied]
  ascending := List.Pairwise.nil
  passed := by simp [Subscriber.new, Subscriber.copied]
  cursor := Nat.zero_le _
  retained := by simp [Subscriber.new]
  gaps := by simp [Subscriber.new]
  waiting := by simp [Subscriber.new]

theorem Subscriber.Inv.deliver (h : sub.Inv replay inFlight emitted) (hphase : sub.phase = .refill)
    {entry : Entry} {rest : List Entry} (hpending : sub.pending = entry :: rest) :
    Subscriber.Inv replay inFlight emitted
      { sub with pending := rest, delivered := sub.delivered ++ [entry] } := by
  have hcopied : Subscriber.copied
      { sub with pending := rest, delivered := sub.delivered ++ [entry] } = sub.copied := by
    simp [Subscriber.copied, hpending]
  refine ⟨?_, ?_, ?_, h.cursor, ?_, ?_, ?_⟩
  · rw [hcopied]
    exact h.known
  · rw [hcopied]
    exact h.ascending
  · rw [hcopied]
    exact h.passed
  · rw [hcopied]
    exact h.retained
  · rw [hcopied]
    exact h.gaps
  · simp [hphase]

theorem Subscriber.Inv.snapshot (h : sub.Inv replay inFlight emitted) (hring : replay.Inv emitted)
    (hroom : replay.nextSeq ≤ maxU64) (hphase : sub.phase = .refill) (hpending : sub.pending = []) :
    (sub.snapshot replay).Inv replay inFlight emitted := by
  have hcopied : sub.copied = sub.delivered := by simp [Subscriber.copied, hpending]
  cases hlast : (replay.entries.filter (sub.cursor ≤ ·.1)).getLast? with
  | none =>
    have hnil := List.getLast?_eq_none_iff.mp hlast
    have hsnapshot : sub.snapshot replay = { sub with phase := .waiting } := by
      simp [Subscriber.snapshot, Replay.since_eq, hnil]
    rw [hsnapshot]
    refine ⟨h.known, h.ascending, h.passed, h.cursor, h.retained, h.gaps, fun _ => ⟨hpending, ?_⟩⟩
    intro _ entry hentry _
    by_contra hle
    have hmem : entry ∈ replay.entries.filter (sub.cursor ≤ ·.1) := by
      simpa [hentry] using Nat.le_of_not_lt hle
    rw [hnil] at hmem
    cases hmem
  | some last =>
    obtain ⟨front, hfront⟩ := List.getLast?_eq_some_iff.mp hlast
    have hmem : last ∈ replay.entries.filter (sub.cursor ≤ ·.1) := by simp [hfront]
    obtain ⟨hlastMem, hlastCursor⟩ := List.mem_filter.mp hmem
    have hlt : last.1 < replay.nextSeq := hring.lt_nextSeq (hring.latest.subset hlastMem)
    have hsucc : saturatingSucc last.1 = last.1 + 1 := saturatingSucc_eq (Nat.lt_of_lt_of_le hlt hroom)
    have hsnapshot : sub.snapshot replay =
        { sub with
          cursor := last.1 + 1
          pending := replay.entries.filter (sub.cursor ≤ ·.1)
          snapshots := sub.snapshots ++ [⟨sub.cursor, replay, last.1 + 1⟩] } := by
      simp [Subscriber.snapshot, Replay.since_eq, hfront, hsucc]
    have hfresh : ∀ entry ∈ replay.entries.filter (sub.cursor ≤ ·.1),
        sub.cursor ≤ entry.1 ∧ entry.1 < last.1 + 1 := by
      intro entry hentry
      refine ⟨of_decide_eq_true (List.mem_filter.mp hentry).2, ?_⟩
      have hsorted := hring.ascending.filter (sub.cursor ≤ ·.1)
      rw [hfront] at hsorted hentry
      rcases List.mem_append.mp hentry with hentry | hentry
      · exact Nat.lt_succ_of_lt ((List.pairwise_append.mp hsorted).2.2 entry hentry last (by simp))
      · rw [List.mem_singleton.mp hentry]
        exact Nat.lt_succ_self _
    have hpassed : ∀ entry ∈ sub.delivered, entry.1 < sub.cursor := hcopied ▸ h.passed
    rw [hsnapshot]
    refine ⟨?_, ?_, ?_, hlt, ?_, ?_, ?_⟩
    · intro entry hentry
      rcases List.mem_append.mp hentry with hentry | hentry
      · exact h.known entry (hcopied ▸ hentry)
      · exact hring.latest.subset (List.mem_filter.mp hentry).1
    · refine List.pairwise_append.mpr ⟨hcopied ▸ h.ascending, hring.ascending.filter _, ?_⟩
      exact fun a ha b hb => Nat.lt_of_lt_of_le (hpassed a ha) (hfresh b hb).1
    · intro entry hentry
      rcases List.mem_append.mp hentry with hentry | hentry
      · exact (hpassed entry hentry).trans_le (Nat.le_succ_of_le (of_decide_eq_true hlastCursor))
      · exact (hfresh entry hentry).2
    · intro entry hentry _
      by_cases hcursor : entry.1 < sub.cursor
      · exact List.mem_append_left _ (hcopied ▸ h.retained entry hentry hcursor)
      · refine List.mem_append_right _ (List.mem_filter.mpr ⟨hentry, ?_⟩)
        simpa using Nat.le_of_not_lt hcursor
    · intro seq hseq
      by_cases hcursor : seq < sub.cursor
      · rcases h.gaps seq hcursor with ⟨entry, hentry, rfl⟩ | ⟨snapshot, hsnap, hmissed⟩
        · exact .inl ⟨entry, List.mem_append_left _ (hcopied ▸ hentry), rfl⟩
        · exact .inr ⟨snapshot, List.mem_append_left _ hsnap, hmissed⟩
      · by_cases hfound : ∃ entry ∈ replay.entries, entry.1 = seq
        · obtain ⟨entry, hentry, rfl⟩ := hfound
          refine .inl ⟨entry, List.mem_append_right _ (List.mem_filter.mpr ⟨hentry, ?_⟩), rfl⟩
          simpa using Nat.le_of_not_lt hcursor
        · refine .inr ⟨⟨sub.cursor, replay, last.1 + 1⟩, by simp, Nat.le_of_not_lt hcursor, hseq,
            Nat.lt_of_lt_of_le hseq hlt, ?_⟩
          exact fun entry hentry heq => hfound ⟨entry, hentry, heq⟩
    · simp [hphase]

theorem Subscriber.Inv.moves {closed : Bool} {sub' : Subscriber} (h : sub.Inv replay inFlight emitted)
    (hring : replay.Inv emitted) (hroom : replay.nextSeq ≤ maxU64)
    (hmoves : Moves replay closed sub sub') : sub'.Inv replay inFlight emitted := by
  cases hmoves with
  | deliver entry rest hphase hpending => exact h.deliver hphase hpending
  | snapshot hphase hpending => exact h.snapshot hring hroom hphase hpending
  | wake left hphase hleft =>
    exact ⟨h.known, h.ascending, h.passed, h.cursor, h.retained, h.gaps, fun h => nomatch h⟩
  | finish hphase hunseen hclosed =>
    exact ⟨h.known, h.ascending, h.passed, h.cursor, h.retained, h.gaps, fun h => nomatch h⟩

theorem Subscriber.Inv.push (h : sub.Inv replay inFlight emitted) (hroom : replay.nextSeq < maxU64)
    (line : String) : sub.Inv (replay.append line) (replay.nextSeq :: inFlight)
      (emitted ++ [(replay.nextSeq, line)]) := by
  have hentries : ∀ entry ∈ (replay.append line).entries,
      entry ∈ replay.entries ∨ entry = (replay.nextSeq, line) := by
    intro entry hentry
    simpa using (Replay.entries_append replay line).subset hentry
  refine ⟨fun entry hentry => List.mem_append_left _ (h.known entry hentry), h.ascending, h.passed,
    ?_, ?_, h.gaps, ?_⟩
  · refine h.cursor.trans ?_
    rw [Replay.append, saturatingSucc_eq hroom]
    exact Nat.le_succ _
  · rintro entry hentry hlt
    rcases hentries entry hentry with hentry | rfl
    · exact h.retained entry hentry hlt
    · exact absurd hlt (Nat.not_lt_of_le h.cursor)
  · intro hphase
    obtain ⟨hpending, hcaught⟩ := h.waiting hphase
    refine ⟨hpending, fun hunseen entry hentry hannounced => ?_⟩
    rcases hentries entry hentry with hentry | rfl
    · exact hcaught hunseen entry hentry fun hmem => hannounced (List.mem_cons_of_mem _ hmem)
    · exact absurd List.mem_cons_self hannounced

theorem Subscriber.Inv.send (h : sub.Inv replay inFlight emitted) (seq : Nat) :
    Subscriber.Inv replay (inFlight.erase seq) emitted { sub with unseen := sub.unseen + 1 } := by
  refine ⟨h.known, h.ascending, h.passed, h.cursor, h.retained, h.gaps, fun hphase => ?_⟩
  exact ⟨(h.waiting hphase).1, fun hunseen => absurd hunseen (Nat.succ_ne_zero _)⟩

-- ---- Runs

structure Session.Inv (s : Session) : Prop where
  ring : s.replay.Inv s.emitted
  subscribers : ∀ sub ∈ s.subscribers, sub.Inv s.replay s.inFlight s.emitted

theorem Session.Inv.new : Session.new.Inv where
  ring := ⟨rfl, rfl, List.suffix_rfl⟩
  subscribers := by simp [Session.new]

theorem Step.length_emitted {s s' : Session} (h : Step s s') : s.emitted.length ≤ s'.emitted.length := by
  cases h <;> simp [Session.push, Session.send]

theorem Session.Inv.step {s s' : Session} (hinv : s.Inv) (hstep : Step s s')
    (hroom : s'.emitted.length ≤ maxU64) : s'.Inv := by
  cases hstep with
  | push line hopen =>
    have hlength : s.emitted.length < maxU64 := by
      refine Nat.lt_of_succ_le ?_
      simpa [Session.push] using hroom
    have hnext : s.replay.nextSeq < maxU64 := by
      rw [hinv.ring.nextSeq]
      exact hlength
    refine ⟨hinv.ring.append hlength line, fun sub hsub => ?_⟩
    exact (hinv.subscribers sub hsub).push hnext line
  | send seq hseq =>
    refine ⟨hinv.ring, ?_⟩
    rintro woken hwoken
    obtain ⟨sub, hsub, rfl⟩ := List.mem_map.mp hwoken
    exact (hinv.subscribers sub hsub).send seq
  | subscribe hopen =>
    refine ⟨hinv.ring, fun sub hsub => ?_⟩
    rcases List.mem_append.mp hsub with hsub | hsub
    · exact hinv.subscribers sub hsub
    · rw [List.mem_singleton.mp hsub]
      exact .new
  | subscriber i sub sub' hsub hmoves =>
    refine ⟨hinv.ring, fun other hother => ?_⟩
    rcases List.mem_or_eq_of_mem_set hother with hother | rfl
    · exact hinv.subscribers other hother
    · exact (hinv.subscribers sub (List.mem_of_getElem? hsub)).moves hinv.ring
        (hinv.ring.nextSeq ▸ hroom) hmoves
  | close hidle => exact ⟨hinv.ring, hinv.subscribers⟩

theorem Reachable.inv {s : Session} (h : Reachable s) (hroom : s.emitted.length ≤ maxU64) : s.Inv := by
  induction h with
  | new => exact .new
  | step _ hstep ih => exact (ih (hstep.length_emitted.trans hroom)).step hstep hroom

/-- As long as fewer than `2 ^ 64` rows have been emitted, a subscriber delivers rows of the session
in the order of their numbers, misses a row before a delivered one only where it had been evicted
from the ring before the copy that passed it, and has delivered every row in the ring whose wake-up
was sent once it waits with no wake-up outstanding. -/
theorem subscriber_sees_retained_rows {s : Session} (h : Reachable s)
    (hrows : s.emitted.length < 2 ^ 64) {sub : Subscriber} (hsub : sub ∈ s.subscribers) :
    (∀ entry ∈ sub.delivered, entry ∈ s.emitted) ∧
      sub.delivered.Pairwise (fun a b => a.1 < b.1) ∧
      (∀ seq, (∃ later ∈ sub.delivered, seq < later.1) → (∀ entry ∈ sub.delivered, entry.1 ≠ seq) →
        ∃ snapshot ∈ sub.snapshots, snapshot.Missed seq) ∧
      (sub.phase = .waiting → sub.unseen = 0 → ∀ entry ∈ s.replay.entries,
        entry.1 ∉ s.inFlight → entry ∈ sub.delivered) := by
  have hinv := (h.inv (Nat.le_sub_one_of_lt hrows)).subscribers sub hsub
  obtain ⟨hdelivered, -, hbefore⟩ := List.pairwise_append.mp hinv.ascending
  refine ⟨fun entry hentry => hinv.known entry (List.mem_append_left _ hentry), hdelivered, ?_, ?_⟩
  · rintro seq ⟨later, hlater, hlt⟩ hmissing
    have hpassed := hinv.passed later (List.mem_append_left _ hlater)
    refine (hinv.gaps seq (hlt.trans hpassed)).resolve_left ?_
    rintro ⟨entry, hentry, rfl⟩
    rcases List.mem_append.mp hentry with hentry | hentry
    · exact hmissing entry hentry rfl
    · exact absurd hlt (Nat.lt_asymm (hbefore later hlater entry hentry))
  · rintro hphase hunseen entry hentry hannounced
    obtain ⟨hpending, hcaught⟩ := hinv.waiting hphase
    have hcopied := hinv.retained entry hentry (hcaught hunseen entry hentry hannounced)
    simpa [Subscriber.copied, hpending] using hcopied

def threeRows : List Entry := [(0, "a"), (1, "b"), (2, "c")]

def caughtUp : Subscriber :=
  ⟨3, [], .waiting, 0, threeRows, [⟨0, ⟨[(0, "a"), (1, "b")], 2⟩, 2⟩, ⟨2, ⟨threeRows, 3⟩, 3⟩]⟩

/-- A row before the subscriber came, one before its first copy and one after it, whose wake-up is
sent when it has been delivered. -/
theorem reachable_caughtUp : Reachable ⟨⟨threeRows, 3⟩, [], false, [caughtUp], threeRows⟩ := by
  have hfirst := (Reachable.new.step (.push _ "a" rfl)).step (.send _ 0 List.mem_cons_self)
  have hsecond := (hfirst.step (.subscribe _ rfl)).step (.push _ "b" rfl)
  have hcopy := hsecond.step (.subscriber _ 0 .new _ rfl (.snapshot _ rfl rfl))
  have hdeliver := hcopy.step (.subscriber _ 0 _ _ rfl (.deliver _ (0, "a") [(1, "b")] rfl rfl))
  have hthird := (hdeliver.step (.push _ "c" rfl)).step (.send _ 1 (by decide))
  have hnext := hthird.step (.subscriber _ 0 _ _ rfl (.deliver _ (1, "b") [] rfl rfl))
  have hagain := hnext.step (.subscriber _ 0 _ _ rfl (.snapshot _ rfl rfl))
  have hlast := hagain.step (.subscriber _ 0 _ _ rfl (.deliver _ (2, "c") [] rfl rfl))
  have hwaits := (hlast.step (.send _ 2 (by decide))).step
    (.subscriber _ 0 _ _ rfl (.snapshot _ rfl rfl))
  have hwoken := hwaits.step (.subscriber _ 0 _ _ rfl (.wake _ 0 rfl (by decide)))
  exact hwoken.step (.subscriber _ 0 _ _ rfl (.snapshot _ rfl rfl))

theorem subscriber_sees_retained_rows_caughtUp :
    (∀ entry ∈ caughtUp.delivered, entry ∈ threeRows) ∧
      caughtUp.delivered.Pairwise (fun a b => a.1 < b.1) ∧
      (∀ seq, (∃ later ∈ caughtUp.delivered, seq < later.1) →
        (∀ entry ∈ caughtUp.delivered, entry.1 ≠ seq) →
          ∃ snapshot ∈ caughtUp.snapshots, snapshot.Missed seq) ∧
      (caughtUp.phase = .waiting → caughtUp.unseen = 0 → ∀ entry ∈ threeRows,
        entry.1 ∉ ([] : List Nat) → entry ∈ caughtUp.delivered) :=
  subscriber_sees_retained_rows reachable_caughtUp (by decide) List.mem_cons_self

-- ---- The last number

theorem mem_append (replay : Replay) (line : String) :
    (replay.nextSeq, line) ∈ (replay.append line).entries := by
  have hevict : ∀ entries : List Entry, (replay.nextSeq, line) ∈
      evict historyCap (entries ++ [(replay.nextSeq, line)]) := by
    intro entries
    induction entries with
    | nil => exact List.mem_cons_self
    | cons entry entries ih =>
      rw [List.cons_append, evict]
      split
      · exact ih
      · simp
  exact hevict replay.entries

theorem exists_nextSeq {n : Nat} (h : n ≤ maxU64) :
    ∃ s, Reachable s ∧ s.replay.nextSeq = n ∧ s.closed = false ∧ s.subscribers = [] := by
  induction n with
  | zero => exact ⟨.new, .new, rfl, rfl, rfl⟩
  | succ n ih =>
    obtain ⟨s, hs, hnext, hopen, hnone⟩ := ih (Nat.le_of_succ_le h)
    refine ⟨s.push "", hs.step (.push s "" hopen), ?_, hopen, hnone⟩
    exact (congrArg saturatingSucc hnext).trans (saturatingSucc_eq h)

theorem delivers_pending {s : Session} (h : Reachable s) {sub : Subscriber}
    (hsub : s.subscribers = [sub]) (hphase : sub.phase = .refill) :
    ∃ s', Reachable s' ∧ s'.replay = s.replay ∧
      s'.subscribers = [{ sub with pending := [], delivered := sub.copied }] := by
  obtain ⟨cursor, pending, phase, unseen, delivered, snapshots⟩ := sub
  obtain rfl : phase = .refill := hphase
  induction pending generalizing s delivered with
  | nil => exact ⟨s, h, rfl, by simp [hsub, Subscriber.copied]⟩
  | cons entry rest ih =>
    have hdeliver := h.step (.subscriber s 0 _ _ (by rw [hsub]; rfl) (.deliver _ entry rest rfl rfl))
    obtain ⟨s', hs', hreplay, hsub'⟩ := ih hdeliver _ (congrArg (List.set · 0 _) hsub)
    exact ⟨s', hs', hreplay, by simpa [Subscriber.copied] using hsub'⟩

theorem copies_last {s : Session} (h : Reachable s) {sub : Subscriber} {line : String}
    (hsub : s.subscribers = [sub]) (hphase : sub.phase = .refill) (hpending : sub.pending = [])
    (hcursor : sub.cursor ≤ maxU64) (hline : (maxU64, line) ∈ s.replay.entries) :
    ∃ s' sub', Reachable s' ∧ s'.replay = s.replay ∧ s'.subscribers = [sub'] ∧
      sub'.phase = .refill ∧ sub'.pending = [] ∧ sub'.cursor ≤ maxU64 ∧
      ∃ fresh, (maxU64, line) ∈ fresh ∧ sub'.delivered = sub.delivered ++ fresh := by
  have hfresh : (maxU64, line) ∈ s.replay.entries.filter (sub.cursor ≤ ·.1) :=
    List.mem_filter.mpr ⟨hline, decide_eq_true hcursor⟩
  have hne : (s.replay.since sub.cursor).1.isEmpty = false := by
    rw [Replay.since_eq, List.isEmpty_eq_false_iff]
    exact List.ne_nil_of_mem hfresh
  have hnext : (s.replay.since sub.cursor).2 ≤ maxU64 := by
    rw [Replay.since_eq]
    cases (s.replay.entries.filter (sub.cursor ≤ ·.1)).getLast? with
    | none => exact hcursor
    | some last => exact Nat.min_le_right _ _
  have hsnapshot : sub.snapshot s.replay =
      { sub with
        cursor := (s.replay.since sub.cursor).2
        pending := (s.replay.since sub.cursor).1
        snapshots := sub.snapshots ++
          [⟨sub.cursor, s.replay, (s.replay.since sub.cursor).2⟩] } := by
    simp [Subscriber.snapshot, hne]
  have hcopy := h.step (.subscriber s 0 sub _ (by rw [hsub]; rfl) (.snapshot sub hphase hpending))
  obtain ⟨s', hs', hreplay, hsub'⟩ := delivers_pending hcopy
    (congrArg (fun subs => List.set subs 0 (sub.snapshot s.replay)) hsub) (by rw [hsnapshot]; exact hphase)
  rw [hsnapshot] at hsub'
  refine ⟨s', _, hs', hreplay, hsub', hphase, rfl, hnext, (s.replay.since sub.cursor).1, ?_, rfl⟩
  rw [Replay.since_eq]
  exact hfresh

/-- After `2 ^ 64` rows the number of the last one is not counted up, and a subscriber delivers it
again. -/
theorem last_number_delivered_twice :
    ∃ s, Reachable s ∧ ∃ sub ∈ s.subscribers, ¬ sub.delivered.Pairwise fun a b => a.1 < b.1 := by
  obtain ⟨s, hs, hnext, hopen, hnone⟩ := exists_nextSeq (Nat.le_refl maxU64)
  have hpush := hs.step (.push s "" hopen)
  have hsubscribe := hpush.step (.subscribe _ hopen)
  have hline : (maxU64, "") ∈ (s.replay.append "").entries := hnext ▸ mem_append s.replay ""
  have honly : (s.push "").subscribers ++ [Subscriber.new] = [.new] := by simp [Session.push, hnone]
  obtain ⟨t, sub, ht, hreplay, hsub, hphase, hpending, hcursor, fresh, hfresh, hdelivered⟩ :=
    copies_last hsubscribe honly rfl rfl (Nat.zero_le _) hline
  obtain ⟨u, again, hu, -, hagain, -, -, -, more, hmore, htwice⟩ :=
    copies_last ht hsub hphase hpending hcursor (by rw [hreplay]; exact hline)
  refine ⟨u, hu, again, by simp [hagain], fun hsorted => ?_⟩
  rw [htwice, hdelivered] at hsorted
  exact Nat.lt_irrefl _ ((List.pairwise_append.mp hsorted).2.2 (maxU64, "")
    (List.mem_append_right _ hfresh) (maxU64, "") hmore)

end Rekuiper.Server.Ruletest
