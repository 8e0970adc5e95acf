import Rekuiper.SinkCache.Restart
import Rekuiper.Sinks.Refinement

/-!
# Where the rows are

Every row the rule produced went out with a send that returned without an error, waits
in the batch buffer or in the cache, or was in a batch that a linger or a shutdown flush
took out of the buffer and could not send. The last kind is lost: of the code paths that
send, those two do not put into the cache what fails.
-/

namespace Rekuiper.Sinks

variable {V Line : Type} {codec : LineCodec (Output V) Line} {cfg : CacheConfig} {α : Type}
  {orderly : Prop}

def Entry.lost : Entry α → List α
  | .sent .flush _ rows _ result | .sent .shutdown _ rows _ result =>
    if result = .ok then [] else rows
  | _ => []

def Entry.Retryable : Entry α → Prop
  | .sent _ _ _ _ result => result = .ok ∨ result = .retry
  | .queued _ _ => True

instance (entry : Entry α) : Decidable entry.Retryable :=
  match entry with
  | .sent _ _ _ _ result => inferInstanceAs (Decidable (result = .ok ∨ result = .retry))
  | .queued _ _ => isTrue trivial

theorem Entry.Retryable.map {β : Type} {f : α → β} {entry : Entry α} (h : entry.Retryable) :
    (entry.map f).Retryable := by
  cases entry <;> exact h

theorem Entry.lost_map {β : Type} (f : α → β) (entry : Entry α) :
    (entry.map f).lost = entry.lost.map f := by
  cases entry with
  | queued waiting rows => rfl
  | sent path cached rows acked result =>
    cases path <;> simp only [Entry.map, Entry.lost, List.map_nil] <;> split <;> rfl

namespace Ledger

variable [DecidableEq α]

def Accounts (L : Ledger α) : Prop :=
  L.dropped = 0 → ∀ a, L.produced.count a =
    (L.log.flatMap Entry.accepted).count a + (L.log.flatMap Entry.lost).count a +
      L.hand.count a + L.buffer.count a + L.cached.flatten.count a

theorem count_pushed {old new : List (List α)} {rows : List α} {n : Nat}
    (h : Pushed orderly old rows new n) (hn : n = 0) (a : α) :
    new.flatten.count a = old.flatten.count a + rows.count a := by
  have hlen := h.counted
  have hperm : List.Perm new (old ++ [rows]) := by
    refine h.subperm.perm_of_length_le ?_
    rw [List.length_append, List.length_singleton]
    omega
  rw [hperm.flatten.count_eq]
  simp

theorem Step.accounts {L L' : Ledger α} (h : Step orderly L L')
    (hlog : ∀ entry ∈ L'.log, entry.Retryable) (hL : L.Accounts) : L'.Accounts := by
  intro hdropped a
  have hzero : L.dropped = 0 := Nat.le_zero.mp (hdropped ▸ h.dropped_le)
  have hcount := hL hzero a
  cases h with
  | arrive rows hhand hbuffer =>
    simp only [hhand, hbuffer, List.count_append, List.count_nil] at hcount ⊢
    omega
  | store rows hhand =>
    simp only [hhand, List.count_append, List.count_nil] at hcount ⊢
    omega
  | batch n hhand =>
    have hsplit := congrArg (List.count a) (List.take_append_drop n L.buffer)
    simp only [hhand, List.count_append, List.count_nil] at hcount hsplit ⊢
    omega
  | accepted path acked hsends hacked =>
    have hfresh := hsends.fresh
    cases path <;>
      simp [note, Entry.accepted, Entry.lost, List.count_append] at hcount hfresh ⊢ <;> omega
  | kept path acked new n hsends hkeeps hacked hpushed =>
    have hnew := count_pushed hpushed (by simp only at hdropped; omega) a
    cases path <;>
      simp [note, Entry.accepted, Entry.lost, Path.keeps] at hcount hkeeps ⊢ <;> omega
  | lost path acked result hsends hfailed hkeeps hacked =>
    have hretry := hlog (.sent path L.pending L.hand acked result) (by simp [note])
    have hresult : result = .retry := hretry.resolve_left hfailed
    subst hresult
    cases path <;>
      simp [note, Entry.accepted, Entry.lost, List.count_append, Path.keeps] at hcount hkeeps ⊢ <;>
        omega
  | queued rows new n hhand hpending hpushed =>
    have hnew := count_pushed hpushed (by simp only at hdropped; omega) a
    simp [note, Entry.accepted, Entry.lost, hhand] at hcount ⊢
    omega
  | resent rows rest acked hhand hcached hacked =>
    simp [note, Entry.accepted, Entry.lost, List.count_append, hhand, hcached] at hcount ⊢
    omega
  | deferred rows rest acked hhand hcached hacked =>
    simp [note, Entry.accepted, Entry.lost, hhand] at hcount ⊢
    omega
  | discarded rows rest acked result hhand hcached hfailed hretry hacked =>
    have hentry := hlog (.sent .resend true rows acked result) (by simp [note])
    exact absurd hentry (not_or.mpr ⟨hfailed, hretry⟩)

theorem Steps.accounts {L L' : Ledger α} (h : Steps orderly L L')
    (hlog : ∀ entry ∈ L'.log, entry.Retryable) (hL : L.Accounts) : L'.Accounts :=
  h.invariant hlog hL fun hstep hentries hbefore => hstep.accounts hentries hbefore

/-- The row went out with a send that returned without an error, or waits. -/
def Holds (L : Ledger α) (a : α) : Prop :=
  a ∈ L.log.flatMap Entry.accepted ∨ a ∈ L.buffer ∨ a ∈ L.cached.flatten

theorem Accounts.holds_iff {L : Ledger α} (h : L.Accounts) (hdropped : L.dropped = 0)
    (hhand : L.hand = []) (hnodup : L.produced.Nodup) :
    (∀ a ∈ L.produced, L.Holds a) ↔ L.log.flatMap Entry.lost = [] := by
  have hcount := h hdropped
  simp only [hhand, List.count_nil, Nat.add_zero] at hcount
  constructor
  · intro hheld
    refine List.eq_nil_iff_forall_not_mem.mpr fun a ha => ?_
    have hlost := List.count_pos_iff.mpr ha
    have hone := List.nodup_iff_count_le_one.mp hnodup a
    have hmem : a ∈ L.produced := by
      rw [← List.count_pos_iff, hcount a]
      omega
    have hplace : 0 < (L.log.flatMap Entry.accepted).count a ∨ 0 < L.buffer.count a ∨
        0 < L.cached.flatten.count a := by
      simp only [List.count_pos_iff]
      exact hheld a hmem
    rw [hcount a] at hone
    omega
  · intro hlost a ha
    have hpos := List.count_pos_iff.mpr ha
    rw [hcount a, hlost, List.count_nil, Nat.add_zero] at hpos
    simp only [Holds, ← List.count_pos_iff]
    omega

end Ledger

-- ---- Runs of the worker

namespace SinkWorker

/-- Every send of the run and of the stop that ends it goes through or can be retried. -/
def OnlyRetryable (codec : LineCodec (Output V) Line) (w : SinkWorker V Line) : Prop :=
  ∀ entry ∈ (w.runtime.stop codec).1.log, entry.Retryable

/-- The cache has not dropped a record, and closing it drops none. -/
def NeverDrops (codec : LineCodec (Output V) Line) (w : SinkWorker V Line) : Prop :=
  ∀ c ∈ w.runtime.cache, (c.spillTail codec true).dropped = 0

/-- After the stop the row is in a send that returned without an error or in a page. -/
def Persists (codec : LineCodec (Output V) Line) (w : SinkWorker V Line) (n : Nat) : Prop :=
  n ∈ ((w.runtime.stop codec).1.log.map (Entry.map SinkRow.seq)).flatMap Entry.accepted ∨
    n ∈ ((SinkCache.dirRecords codec (w.runtime.stop codec).2).map Output.seqs).flatten

/-- After each turn every row produced is held, and after the stop it is persisted. -/
def LosesNoRow (codec : LineCodec (Output V) Line) (w : SinkWorker V Line)
    (ops : List (WorkerOp V)) : Prop :=
  (∀ k, ∀ n < (w.run codec (ops.take k)).produced,
    ((w.run codec (ops.take k)).ledger codec).Holds n) ∧
  ∀ n < (w.run codec ops).produced, (w.run codec ops).Persists codec n

/-- No linger flush and no shutdown flush fails. -/
def FlushesSucceed (codec : LineCodec (Output V) Line) (w : SinkWorker V Line) : Prop :=
  ∀ entry ∈ (w.runtime.stop codec).1.log, entry.lost = []

/-- The head's chunks fit below the first page when the cache is closed. -/
def HeadFits (codec : LineCodec (Output V) Line) (w : SinkWorker V Line) : Prop :=
  ∀ c ∈ w.runtime.cache, SinkCache.HeadFits codec c

theorem flushesSucceed_iff (w : SinkWorker V Line) :
    w.FlushesSucceed codec ↔
      ((w.runtime.stop codec).1.log.map (Entry.map SinkRow.seq)).flatMap Entry.lost = [] := by
  rw [List.flatMap_eq_nil_iff]
  simp [FlushesSucceed, Entry.lost_map]

theorem run_append (w : SinkWorker V Line) (ops more : List (WorkerOp V)) :
    w.run codec (ops ++ more) = (w.run codec ops).run codec more :=
  List.foldl_append

theorem NeverDrops.dropped {w : SinkWorker V Line} (h : w.runtime.Sound codec cfg orderly)
    (hroom : w.NeverDrops codec) : w.runtime.dropped = 0 := by
  obtain ⟨-, c, hcache, hcfg, hok, -⟩ := h
  obtain ⟨hspill, -⟩ := SinkCache.spillTail_spec hok.toPagesOk true
  obtain ⟨out, -, -, -, hdropped⟩ := hspill.records
  have hzero := hroom c hcache
  simp only [ActionRuntime.dropped, hcache, Option.map_some, Option.getD_some]
  omega

theorem persists_iff {w : SinkWorker V Line} (h : w.runtime.Sound codec cfg orderly)
    (hclean : cfg.cleanAtStop = false) (hwrites : ∀ n, w.runtime.writes n = true)
    (hroom : w.NeverDrops codec) (hfits : w.HeadFits codec) (n : Nat) :
    w.Persists codec n ↔
      ((w.runtime.stop codec).1.ledger codec (List.range w.produced) []).Holds n := by
  have hzero := hroom.dropped h
  obtain ⟨-, c, hcache, hcfg, hok, -⟩ := h
  obtain ⟨hstopped, hbuffer, hpages⟩ := w.runtime.stop_fields codec
  have hclosed : SinkCache.dirRecords codec (w.runtime.stop codec).2 =
      (w.runtime.stop codec).1.cached codec := by
    have hall : (fun i => w.runtime.writes (w.runtime.pushed + i)) = fun _ => true :=
      funext fun i => hwrites _
    have hdropped : (c.spillTail codec true).dropped = c.dropped := by
      rw [ActionRuntime.dropped, hcache] at hzero
      exact (hroom c hcache).trans hzero.symm
    rw [hpages, ActionRuntime.cached, hstopped, hcache, hall]
    exact SinkCache.close_records_all hok (hcfg ▸ hclean) hdropped (hfits c hcache)
  rw [Persists, Ledger.Holds, hclosed]
  simp [ActionRuntime.ledger, hbuffer]

theorem losesNoRow_iff {w : SinkWorker V Line} (h : w.runtime.Sound codec cfg True)
    {cacheFirst grouped : Bool}
    (hempty : w.ledger codec = ⟨[], [], [], [], 0, [], cacheFirst, grouped⟩) (hclean : cfg.cleanAtStop = false)
    (ops : List (WorkerOp V)) (hwrites : ∀ n, (w.run codec ops).runtime.writes n = true)
    (hretry : (w.run codec ops).OnlyRetryable codec) (hroom : (w.run codec ops).NeverDrops codec)
    (hfits : (w.run codec ops).HeadFits codec) :
    w.LosesNoRow codec ops ↔ (w.run codec ops).FlushesSucceed codec := by
  obtain ⟨hend, hsteps⟩ := run_refines h ops
  obtain ⟨-, hstop⟩ := ActionRuntime.stop_refines
    (List.range (w.run codec ops).produced) hend
  have hinit : (w.ledger codec).Accounts := by
    rw [hempty]
    intro _ a
    rfl
  have hentries : ∀ entry ∈ (((w.run codec ops).runtime.stop codec).1.ledger codec
      (List.range (w.run codec ops).produced) []).log, entry.Retryable := by
    intro entry hentry
    obtain ⟨sent, hsent, rfl⟩ := List.mem_map.mp hentry
    exact (hretry sent hsent).map
  have hdropped : (((w.run codec ops).runtime.stop codec).1.ledger codec
      (List.range (w.run codec ops).produced) []).dropped = 0 := by
    have hzero := hroom.dropped hend
    rw [ActionRuntime.dropped] at hzero
    rw [ActionRuntime.ledger, ActionRuntime.dropped, ((w.run codec ops).runtime.stop_fields codec).1]
    exact hzero
  have hlast := (Ledger.Steps.accounts (hsteps.trans hstop) hentries hinit).holds_iff hdropped rfl
    List.nodup_range
  have hpersists := persists_iff hend hclean hwrites hroom hfits
  rw [flushesSucceed_iff]
  constructor
  · rintro ⟨-, hkept⟩
    exact hlast.mp fun n hn => (hpersists n).mp (hkept n (List.mem_range.mp hn))
  · intro hlost
    refine ⟨fun k n hn => ?_, fun n hn => (hpersists n).mpr (hlast.mpr hlost n (List.mem_range.mpr hn))⟩
    -- what was logged up to a moment is the start of what is logged in the end
    obtain ⟨hsound, hbefore⟩ := run_refines h (ops.take k)
    obtain ⟨-, hrest⟩ := run_refines hsound (ops.drop k)
    rw [← run_append, List.take_append_drop] at hrest
    have hafter : Ledger.Steps True _ _ := hrest.trans hstop
    have hmoment := hbefore.accounts
      (fun entry hentry => hentries entry (hafter.log_grows.subset hentry)) hinit
    have hdroppedk := Nat.le_zero.mp (hdropped ▸ hafter.dropped_le)
    refine (hmoment.holds_iff hdroppedk rfl List.nodup_range).mpr ?_ n (List.mem_range.mpr hn)
    refine List.flatMap_eq_nil_iff.mpr fun entry hentry => ?_
    exact List.flatMap_eq_nil_iff.mp hlost entry (hafter.log_grows.subset hentry)

/-- The worker of an action with a cache that is kept at the stop, never drops a record
and fits below its pages, with page writes that succeed and sends that fail with
retryable errors only: it loses no row exactly in the runs in which no flush fails. -/
theorem worker_loses_no_row (codec : LineCodec (Output V) Line) (action : PreparedAction V)
    (resend : ResendConfig V) (cfg : CacheConfig) (answers : Nat → Answer) (now : Nat)
    (ops : List (WorkerOp V)) (hclean : cfg.cleanAtStop = false)
    (hretry : ((start action resend cfg answers (fun _ => true) now).run codec ops).OnlyRetryable
      codec)
    (hroom : ((start action resend cfg answers (fun _ => true) now).run codec ops).NeverDrops codec)
    (hfits : ((start action resend cfg answers (fun _ => true) now).run codec ops).HeadFits codec) :
    (start action resend cfg answers (fun _ => true) now).LosesNoRow codec ops ↔
      ((start action resend cfg answers (fun _ => true) now).run codec ops).FlushesSucceed codec := by
  have hstart := start_sound codec True action resend cfg answers
    (fun _ => true) now fun _ _ => rfl
  obtain ⟨⟨-, c, -, -, -, horder⟩, -⟩ := run_refines hstart ops
  exact losesNoRow_iff hstart (ledger_start action resend cfg answers _ now) hclean ops
    (horder trivial).1 hretry hroom hfits

def batchingRest : PreparedAction Nat :=
  .rest "POST" "json" none ⟨false, none, 10, 100, id⟩

/-- The first batch fails and is sent again; the last row goes out with a linger flush. -/
theorem worker_loses_no_row_resent :
    let w := start (.rest "POST" "json" none ⟨false, none, 2, 100, id⟩) equalResend roomyConfig
      (fun n => if n = 0 then .retry else .ok) (fun _ => true) 0
    let ops := [.record 0 (.batch [7, 8]), .record 10 (.single 9), .tick 2000 fun _ => 2000]
    w.LosesNoRow outputCodec ops ∧ (w.run outputCodec ops).FlushesSucceed outputCodec := by
  intro w ops
  have hflush : (w.run outputCodec ops).FlushesSucceed outputCodec := by
    unfold FlushesSucceed
    decide
  refine ⟨(worker_loses_no_row outputCodec _ _ _ _ 0 ops rfl ?_ ?_ ?_).mpr hflush, hflush⟩
  · unfold OnlyRetryable
    decide
  · unfold NeverDrops
    decide
  · unfold HeadFits
    decide

/-- The destination is down. A row waits for its batch to fill, the linger flush takes it
out of the buffer and fails, and the row is nowhere. -/
theorem linger_flush_loses_row :
    let w := start batchingRest equalResend roomyConfig (fun _ => .retry) (fun _ => true) 0
    let ops := [.record 0 (.single 7), .tick 200 fun _ => 200]
    roomyConfig.cleanAtStop = false ∧ (w.run outputCodec ops).OnlyRetryable outputCodec ∧
      (w.run outputCodec ops).NeverDrops outputCodec ∧ ¬ w.LosesNoRow outputCodec ops := by
  intro w ops
  refine ⟨rfl, ?_, ?_, ?_⟩
  · unfold OnlyRetryable
    decide
  · unfold NeverDrops
    decide
  · rintro ⟨hmoment, -⟩
    have hrow := hmoment 2 0 (by decide)
    revert hrow
    unfold Ledger.Holds
    decide

end SinkWorker

end Rekuiper.Sinks
