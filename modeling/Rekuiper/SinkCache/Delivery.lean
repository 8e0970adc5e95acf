import Rekuiper.SinkCache.Restart

/-!
# What the cache delivers

The main results on the sink cache. From an empty directory and with page writes
that succeed, a run of calls is a drop-oldest queue. With page writes that fail
no record is lost, and the order is kept by every run whose pushes keep it.
Across restarts what survived comes first, unless records are pushed in
memory-only mode while adopted pages are on disk.
-/

namespace Rekuiper.SinkCache

open Lib (Flow Shuffle delivered lost)

variable {ρ Line : Type} {codec : LineCodec ρ Line} {c : SinkCache ρ Line}

/-- Nothing the run pushes or finds is lost or duplicated: it was returned, was
dropped and counted, or is held. -/
def NothingLost (codec : LineCodec ρ Line) (c : SinkCache ρ Line) (ops : List (Op ρ)) : Prop :=
  ∃ out, Shuffle (held codec c) (pushes ops) out (held codec (c.run codec ops).1) ∧
    delivered out = (c.run codec ops).2 ∧
    (c.run codec ops).1.dropped = c.dropped + lost out

/-- `pop_front` returns the records the run finds and pushes in that order, and
what is dropped is dropped from the front. -/
def PopsInPushOrder (codec : LineCodec ρ Line) (c : SinkCache ρ Line) (ops : List (Op ρ)) : Prop :=
  ∃ out, Flow (held codec c) (pushes ops) out (held codec (c.run codec ops).1) ∧
    delivered out = (c.run codec ops).2 ∧
    (c.run codec ops).1.dropped = c.dropped + lost out

theorem Conserves.popsInPushOrder
    (h : Conserves codec p c (pushes ops) (c.run codec ops).2 (c.run codec ops).1) (hp : p) :
    PopsInPushOrder codec c ops := by
  obtain ⟨out, -, hflow, hrest⟩ := h.records
  exact ⟨out, hflow hp, hrest⟩

-- ---- Writes that succeed

theorem step_pages_nil (hoff : c.cfg.diskEnabled = false) (h : c.pages = []) (op : Op ρ) :
    (c.step codec op).1.pages = [] := by
  have hfront : (c.front codec).1.pages = [] := by
    rw [front, loadOldestPage_nil h]
    dsimp only
    split
    · split <;> exact h
    · exact h
  cases op with
  | push record ok =>
    simp only [step, push, hoff, Bool.false_eq_true, not_false_eq_true, if_true]
    split <;> exact h
  | front => exact hfront
  | popFront =>
    simp only [step, popFront]
    split <;> simp_all

theorem step_mode (hmode : c.cfg.diskEnabled = true ∨ c.pages = []) (op : Op ρ) :
    c.cfg.diskEnabled = true ∨ (c.step codec op).1.pages = [] := by
  cases hon : c.cfg.diskEnabled with
  | true => exact .inl rfl
  | false =>
    have hpages : c.pages = [] := by simpa [hon] using hmode
    exact .inr (step_pages_nil hon hpages op)

theorem keepsOrderThroughout (hc : Ok codec c) (hmode : c.cfg.diskEnabled = true ∨ c.pages = [])
    (hw : WritesSucceed ops) : c.KeepsOrderThroughout codec ops := by
  induction ops generalizing c with
  | nil => trivial
  | cons op ops ih =>
    obtain ⟨hstep, hok⟩ := step_spec hc op
    have hwrites : WritesSucceed ops := fun record h => hw record (by simp [h])
    cases hon : c.cfg.diskEnabled with
    | true =>
      refine ⟨?_, ih hok (.inl (by rw [hstep.cfg, hon])) hwrites⟩
      cases op with
      | push record ok =>
        cases ok with
        | true => simp [KeepsOrder, hon]
        | false => exact absurd (by simp) (hw record)
      | front | popFront => trivial
    | false =>
      have hpages : c.pages = [] := by simpa [hon] using hmode
      refine ⟨?_, ih hok (.inr (step_pages_nil hon hpages op)) hwrites⟩
      cases op with
      | push record ok => simp [KeepsOrder, hon, hpages]
      | front | popFront => trivial

/-- From an empty directory the cache refines a drop-oldest queue: the records
pushed are those that left, each popped or dropped, followed by those held. -/
theorem run_refines_drop_oldest (codec : LineCodec ρ Line) (cfg : CacheConfig)
    (ops : List (Op ρ)) (hw : WritesSucceed ops) :
    let r := (openDir cfg ∅ : SinkCache ρ Line).run codec ops
    (∃ out, Flow [] (pushes ops) out (held codec r.1) ∧ delivered out = r.2 ∧
        lost out = r.1.dropped) ∧
      List.Sublist r.2 (pushes ops) ∧ held codec r.1 <:+ pushes ops ∧
      (pushes ops).length = r.2.length + r.1.len + r.1.dropped := by
  rw [openDir_empty]
  have hblank : Ok codec (blank cfg ∅) := blank_ok cfg
  obtain ⟨hrun, hok⟩ := run_spec hblank ops
  obtain ⟨out, hflow, hout, hdropped⟩ := hrun.popsInPushOrder
    (keepsOrderThroughout hblank (.inr rfl) hw)
  have hlost : lost out = ((blank cfg ∅ : SinkCache ρ Line).run codec ops).1.dropped := by
    simpa [blank] using hdropped.symm
  have hcount := hflow.shuffle.accounts
  rw [hout, hlost, hok.length_held] at hcount
  refine ⟨⟨out, hflow, hout, hlost⟩, ?_, hflow.suffix, by simpa [held, blank] using hcount⟩
  rw [← hout]
  exact hflow.delivered_sublist

def plainCodec : LineCodec Nat Nat := ⟨id, some, fun _ => rfl⟩

def smallConfig : CacheConfig where
  memoryThreshold := 1
  maxDisk := 2
  pageSize := 1
  cleanAtStop := false
  memoryThreshold_pos := Nat.one_pos
  pageSize_pos := Nat.one_pos

theorem run_refines_drop_oldest_small :
    WritesSucceed [Op.push 1 true, .push 2 true, .push 3 true, .push 4 true, .popFront] ∧
      ((openDir smallConfig ∅ : SinkCache Nat Nat).run plainCodec
        [.push 1 true, .push 2 true, .push 3 true, .push 4 true, .popFront]).2 = [2] ∧
      held plainCodec ((openDir smallConfig ∅ : SinkCache Nat Nat).run plainCodec
        [.push 1 true, .push 2 true, .push 3 true, .push 4 true, .popFront]).1 <:+ [1, 2, 3, 4] :=
  have hw : WritesSucceed [Op.push 1 true, .push 2 true, .push 3 true, .push 4 true, .popFront] := by
    intro record
    simp
  ⟨hw, by decide, (run_refines_drop_oldest plainCodec smallConfig _ hw).2.2.1⟩

-- ---- Writes that fail

/-- Whichever page writes fail, no record is lost or duplicated, and a run whose
pushes all keep the tiers in order returns the records in push order. -/
theorem failed_writes_keep_records (codec : LineCodec ρ Line) (c : SinkCache ρ Line)
    (ops : List (Op ρ)) (hc : Reachable codec c) :
    NothingLost codec c ops ∧
      c.len + (pushes ops).length + c.dropped =
        (c.run codec ops).2.length + (c.run codec ops).1.len + (c.run codec ops).1.dropped ∧
      (c.KeepsOrderThroughout codec ops → PopsInPushOrder codec c ops) := by
  obtain ⟨hrun, hok⟩ := run_spec hc.ok ops
  obtain ⟨out, hshuffle, -, hout, hdropped⟩ := hrun.records
  refine ⟨⟨out, hshuffle, hout, hdropped⟩, ?_, hrun.popsInPushOrder⟩
  have hcount := hshuffle.accounts
  rw [hout, hok.length_held, hc.ok.length_held] at hcount
  omega

/-- A write fails while nothing is on disk: the order is kept. -/
theorem failed_writes_keep_records_small :
    Reachable plainCodec (openDir smallConfig ∅) ∧
      KeepsOrderThroughout plainCodec (openDir smallConfig ∅)
        [.push 1 true, .push 2 false, .push 3 true, .popFront, .popFront, .popFront] ∧
      ((openDir smallConfig ∅).run plainCodec
        [.push 1 true, .push 2 false, .push 3 true, .popFront, .popFront, .popFront]).2 =
          [1, 2, 3] ∧
      PopsInPushOrder plainCodec (openDir smallConfig ∅)
        [.push 1 true, .push 2 false, .push 3 true, .popFront, .popFront, .popFront] :=
  have hr : Reachable plainCodec (openDir smallConfig ∅) := .opened smallConfig
  have hk : KeepsOrderThroughout plainCodec (openDir smallConfig ∅)
      [.push 1 true, .push 2 false, .push 3 true, .popFront, .popFront, .popFront] := by
    refine ⟨?_, ?_, ?_, trivial, trivial, trivial, trivial⟩ <;>
      simp [KeepsOrder, step, push, spillTail, rotate, writePage, openDir_empty, blank,
        smallConfig, CacheConfig.diskEnabled]
  ⟨hr, hk, by decide, (failed_writes_keep_records plainCodec _ _ hr).2.2 hk⟩

/-- The write of record 3 fails while record 2 is on disk: 3 overtakes 2. -/
theorem failed_write_reorders :
    Reachable plainCodec (openDir smallConfig ∅) ∧
      ¬ PopsInPushOrder plainCodec (openDir smallConfig ∅)
        [.push 1 true, .push 2 true, .push 3 false, .popFront, .popFront, .popFront] := by
  refine ⟨.opened smallConfig, ?_⟩
  rintro ⟨out, hflow, hout, -⟩
  have hsublist := hflow.delivered_sublist
  rw [hout] at hsublist
  revert hsublist
  decide

-- ---- Restarts

/-- A call, or a stop and start with the same options on the same directory. -/
inductive Event (ρ : Type)
  | call (op : Op ρ)
  | restart

def pushedIn : List (Event ρ) → List ρ
  | [] => []
  | .call op :: history => pushes [op] ++ pushedIn history
  | .restart :: history => pushedIn history

/-- The cache after a history in which closing and opening succeed. -/
def after (codec : LineCodec ρ Line) (c : SinkCache ρ Line) : List (Event ρ) → SinkCache ρ Line
  | [] => c
  | .call op :: history => after codec (c.step codec op).1 history
  | .restart :: history => after codec (c.restart codec c.cfg fun _ => true) history

def HistoryWritesSucceed (history : List (Event ρ)) : Prop :=
  ∀ record, .call (.push record false) ∉ history

def PushesBehindPages (c : SinkCache ρ Line) : Op ρ → Prop
  | .push _ _ => c.cfg.diskEnabled = true ∨ c.pages = []
  | .front | .popFront => True

/-- No call of the history pushes in memory-only mode while pages are on disk. -/
def OrderlyHistory (codec : LineCodec ρ Line) (c : SinkCache ρ Line) : List (Event ρ) → Prop
  | [] => True
  | .call op :: history =>
    c.PushesBehindPages op ∧ OrderlyHistory codec (c.step codec op).1 history
  | .restart :: history => OrderlyHistory codec (c.restart codec c.cfg fun _ => true) history

/-- After a history and a restart the survivors are in their push order, and
`ops` pops them, in that order, before the records it pushes itself. -/
def ReplayedFirst (codec : LineCodec ρ Line) (cfg : CacheConfig) (history : List (Event ρ))
    (ops : List (Op ρ)) : Prop :=
  let c := after codec (openDir cfg ∅) (history ++ [.restart])
  List.Sublist (held codec c) (pushedIn history) ∧ PopsInPushOrder codec c ops

theorem PushesBehindPages.keepsOrder {op : Op ρ} (h : c.PushesBehindPages op)
    (hw : ∀ record, op ≠ .push record false) : c.KeepsOrder op := by
  cases op with
  | push record ok =>
    cases ok with
    | false => exact absurd rfl (hw record)
    | true =>
      rw [KeepsOrder]
      split
      · exact .inl rfl
      · rename_i hoff
        simpa [PushesBehindPages, hoff] using h
  | front | popFront => trivial

theorem OrderlyHistory.keepsOrderThroughout {ops : List (Op ρ)}
    (h : OrderlyHistory codec c (ops.map .call)) (hw : WritesSucceed ops) :
    c.KeepsOrderThroughout codec ops := by
  induction ops generalizing c with
  | nil => trivial
  | cons op ops ih =>
    refine ⟨h.1.keepsOrder ?_, ih h.2 fun record hmem => hw record (by simp [hmem])⟩
    rintro record rfl
    exact hw record (by simp)

theorem pushedIn_append (history more : List (Event ρ)) :
    pushedIn (history ++ more) = pushedIn history ++ pushedIn more := by
  induction history with
  | nil => rfl
  | cons event history ih => cases event <;> simp [pushedIn, ih]

theorem orderlyHistory_append (c : SinkCache ρ Line) (history more : List (Event ρ)) :
    OrderlyHistory codec c (history ++ more) ↔
      OrderlyHistory codec c history ∧ OrderlyHistory codec (after codec c history) more := by
  induction history generalizing c with
  | nil => simp [OrderlyHistory, after]
  | cons event history ih => cases event <;> simp [OrderlyHistory, after, ih, and_assoc]

theorem after_spec {history : List (Event ρ)} (hc : Ok codec c)
    (hclean : c.cfg.cleanAtStop = false) (hw : HistoryWritesSucceed history)
    (ho : OrderlyHistory codec c history) :
    Ok codec (after codec c history) ∧
      List.Sublist (held codec (after codec c history)) (held codec c ++ pushedIn history) := by
  induction history generalizing c with
  | nil => exact ⟨hc, by simp [after, pushedIn]⟩
  | cons event history ih =>
    have hwrites : HistoryWritesSucceed history := fun record h => hw record (by simp [h])
    cases event with
    | call op =>
      obtain ⟨hstep, hok⟩ := step_spec hc op
      obtain ⟨out, -, hflow, -⟩ := hstep.records
      have hsuffix := (hflow (ho.1.keepsOrder (by
        rintro record rfl
        exact hw record (by simp)))).suffix
      obtain ⟨hfinal, hrest⟩ := ih hok (by rw [hstep.cfg, hclean]) hwrites ho.2
      refine ⟨hfinal, hrest.trans ?_⟩
      rw [pushedIn, ← List.append_assoc]
      exact hsuffix.sublist.append_right _
    | restart =>
      obtain ⟨hok, hcfg⟩ := restart_spec hc c.cfg fun _ => true
      obtain ⟨hfinal, hrest⟩ := ih hok (by rw [hcfg, hclean]) hwrites ho
      exact ⟨hfinal, hrest.trans ((restart_records hc hclean c.cfg).append_right _)⟩

/-- Persisted records are replayed first, in their push order, in every history
in which no record is pushed in memory-only mode while pages are on disk. -/
theorem restart_replays_first (codec : LineCodec ρ Line) (cfg : CacheConfig)
    (history : List (Event ρ)) (ops : List (Op ρ)) (hclean : cfg.cleanAtStop = false)
    (hhistory : HistoryWritesSucceed history) (hops : WritesSucceed ops)
    (ho : OrderlyHistory codec (openDir cfg ∅) (history ++ .restart :: ops.map .call)) :
    ReplayedFirst codec cfg history ops := by
  rw [List.append_cons, orderlyHistory_append] at ho
  rw [openDir_empty] at ho
  rw [ReplayedFirst, openDir_empty]
  obtain ⟨hok, hheld⟩ := after_spec (blank_ok cfg) hclean (by
    intro record h
    exact hhistory record (by simpa using h)) ho.1
  refine ⟨?_, ?_⟩
  · simpa [held, blank, pushedIn_append, pushedIn] using hheld
  · exact (run_spec hok ops).1.popsInPushOrder (ho.2.keepsOrderThroughout hops)

/-- A disk budget below one page: spilling is off, yet a page of two fits. -/
def memoryConfig : CacheConfig where
  memoryThreshold := 3
  maxDisk := 2
  pageSize := 3
  cleanAtStop := false
  memoryThreshold_pos := by decide
  pageSize_pos := by decide

/-- Popping the survivors before pushing again keeps the order. -/
theorem restart_replays_first_small :
    OrderlyHistory plainCodec (openDir memoryConfig ∅)
        [.call (.push 1 true), .call (.push 2 true), .restart, .call .popFront, .call (.push 3 true),
          .call .popFront] ∧
      ReplayedFirst plainCodec memoryConfig [.call (.push 1 true), .call (.push 2 true)]
        [.popFront, .push 3 true, .popFront] :=
  have ho : OrderlyHistory plainCodec (openDir memoryConfig ∅)
      [.call (.push 1 true), .call (.push 2 true), .restart, .call .popFront, .call (.push 3 true),
        .call .popFront] := by
    refine ⟨.inr rfl, .inr rfl, trivial, .inr (by decide), trivial, trivial⟩
  ⟨ho, restart_replays_first plainCodec memoryConfig _ _ rfl (by intro record; simp)
    (by intro record; simp) ho⟩

/-- Records 1 and 2 survive a restart in memory-only mode; 3, pushed afterwards,
is popped before them. -/
theorem restart_not_replayed_first :
    memoryConfig.cleanAtStop = false ∧
      ¬ ReplayedFirst plainCodec memoryConfig [.call (.push 1 true), .call (.push 2 true)]
        [.push 3 true, .popFront, .popFront, .popFront] := by
  refine ⟨rfl, ?_⟩
  rintro ⟨-, out, hflow, hout, -⟩
  have hsublist := hflow.delivered_sublist
  rw [hout] at hsublist
  revert hsublist
  decide

end Rekuiper.SinkCache
