import Rekuiper.Sinks.Worker

/-!
# The worker is a store-and-forward sender

Rows are followed by their place among the rows the rule produced. Each turn of the
worker of a caching action is a sequence of the sender's steps: a record arrives and
leaves the hand again before the next one, a full batch and a lingering one are taken
into the hand and sent, and resending looks at the front of the queue only. Where page
writes succeed and pushes stay behind the pages, the queue keeps the order.
-/

namespace Rekuiper.Sinks

open SinkCache (held)

variable {V Line : Type} {codec : LineCodec (Output V) Line} {orderly : Prop}
  {cfg : CacheConfig} {rt : ActionRuntime V Line} {output : Output V} {produced hand : List Nat} {path : Path}

theorem subperm_map {α β : Type} {xs ys : List α} (f : α → β) (h : List.Subperm xs ys) :
    List.Subperm (xs.map f) (ys.map f) := by
  obtain ⟨l, hperm, hsub⟩ := h
  exact ⟨l.map f, hperm.map f, hsub.map f⟩

namespace ActionRuntime

def cached (codec : LineCodec (Output V) Line) (rt : ActionRuntime V Line) : List (Output V) :=
  (rt.cache.map (held codec)).getD []

def dropped (rt : ActionRuntime V Line) : Nat := (rt.cache.map SinkCache.dropped).getD 0

/-- The sender's view of an action, with the rows the rule has produced and those of the
record being delivered. -/
def ledger (codec : LineCodec (Output V) Line) (produced hand : List Nat)
    (rt : ActionRuntime V Line) : Ledger Nat where
  produced := produced
  hand := hand
  buffer := rt.batchBuffer.map SinkRow.seq
  cached := (rt.cached codec).map Output.seqs
  dropped := rt.dropped
  log := rt.log.map (Entry.map SinkRow.seq)
  cacheFirst := decide (rt.resend.priority = .cacheFirst)
  grouped := rt.action.grouped

/-- The action caches with the options `cfg`, its cache is sound, rows wait for a batch only
if the action batches, and if `orderly` then no push can put records in front of older
ones. -/
def Sound (codec : LineCodec (Output V) Line) (cfg : CacheConfig) (orderly : Prop)
    (rt : ActionRuntime V Line) : Prop :=
  (rt.commonBatching = none → rt.batchBuffer = []) ∧
  ∃ c, rt.cache = some c ∧ c.cfg = cfg ∧ SinkCache.Ok codec c ∧
    (orderly → (∀ n, rt.writes n = true) ∧ (c.cfg.diskEnabled = true ∨ c.pages = []))

theorem Sound.pending (h : Sound codec cfg orderly rt) (produced hand : List Nat) :
    rt.pending = (rt.ledger codec produced hand).pending := by
  obtain ⟨-, c, hcache, -, hok, -⟩ := h
  have hlen := hok.length_held
  simp only [ActionRuntime.pending, Ledger.pending, ledger, cached, hcache, Option.any_some,
    Option.map_some, Option.getD_some, SinkCache.isEmpty]
  cases hheld : held codec c with
  | nil => simp [← hlen, hheld]
  | cons r rest => simp [← hlen, hheld]

theorem Sound.cacheRecord (h : Sound codec cfg orderly rt) (output : Output V) :
    Sound codec cfg orderly (rt.cacheRecord codec output) ∧
      ∃ n, Pushed orderly ((rt.cached codec).map Output.seqs) output.seqs
          (((rt.cacheRecord codec output).cached codec).map Output.seqs) n ∧
        (rt.cacheRecord codec output).dropped = rt.dropped + n := by
  obtain ⟨hbatching, c, hcache, hcfg, hok, horder⟩ := h
  obtain ⟨hconserves, hok'⟩ := SinkCache.push_spec hok output (rt.writes rt.pushed)
  obtain ⟨out, hshuffle, hflow, hout, hdropped⟩ := hconserves.records
  have hcache' : (rt.cacheRecord codec output).cache =
      some (c.push codec output (rt.writes rt.pushed)) := by
    simp [ActionRuntime.cacheRecord, hcache]
  refine ⟨⟨hbatching, _, hcache', hconserves.cfg.trans hcfg, hok', fun ho => ?_⟩, Lib.lost out, ?_, ?_⟩
  · obtain ⟨hwrites, hmode⟩ := horder ho
    refine ⟨hwrites, ?_⟩
    rw [hconserves.cfg]
    exact SinkCache.step_mode hmode (.push output _)
  · have happend : (held codec c).map Output.seqs ++ [output.seqs] =
        (held codec c ++ [output]).map Output.seqs := by simp
    simp only [cached, hcache, hcache', Option.map_some, Option.getD_some]
    refine ⟨?_, fun ho => ?_, ?_⟩
    · rw [happend]
      have hsub : List.Subperm (held codec (c.push codec output (rt.writes rt.pushed)))
          (held codec c ++ [output]) :=
        (List.sublist_append_right _ _).subperm.trans hshuffle.conserves.symm.subperm
      exact subperm_map _ hsub
    · obtain ⟨hwrites, hmode⟩ := horder ho
      rw [happend]
      refine List.Sublist.map _ ((hflow ?_).suffix.sublist)
      refine SinkCache.PushesBehindPages.keepsOrder hmode fun record hrecord => ?_
      rw [hwrites] at hrecord
      cases hrecord
    · have hcount := hshuffle.accounts
      rw [hout] at hcount
      simpa using hcount
  · simp [dropped, hcache, hcache', hdropped]

-- ---- Sending

theorem send_spec (rt : ActionRuntime V Line) (path : Path) (output : Output V) :
    ∃ wire acked result, List.Subperm acked.flatten output.rows ∧
      (rt.action.grouped = false → List.Sublist acked.flatten output.rows) ∧
      rt.send path output = ({ rt with
        wire := wire
        log := rt.log ++ [.sent path rt.pending output.rows acked result] }, result) :=
  ⟨_, _, _, sendAction_subperm rt.action output rt.wire,
    fun h => sendAction_sublist h output rt.wire, rfl⟩

theorem acks_seqs {acked : List (List (SinkRow V))}
    (h : List.Subperm acked.flatten output.rows)
    (hrow : rt.action.grouped = false → List.Sublist acked.flatten output.rows) :
    (rt.ledger codec produced hand).Acks output.seqs (acked.map fun rows => rows.map SinkRow.seq) := by
  constructor
  · rw [← List.map_flatten]
    exact subperm_map _ h
  · intro hgrouped
    rw [← List.map_flatten]
    exact (hrow hgrouped).map _

theorem Sound.withLog (h : Sound codec cfg orderly rt) (wire : Wire) (log : List (Entry (SinkRow V))) :
    Sound codec cfg orderly { rt with wire := wire, log := log } := h

theorem Sound.withBuffer (h : Sound codec cfg orderly rt) (rows : List (SinkRow V)) (now : Nat)
    (hrows : rt.commonBatching = none → rows = []) :
    Sound codec cfg orderly { rt with batchBuffer := rows, lastBatchTime := now } :=
  ⟨hrows, h.2⟩

theorem ledger_note (hand : List Nat) {wire : Wire} {entry : Entry (SinkRow V)} :
    ({ rt with wire := wire, log := rt.log ++ [entry] }).ledger codec produced [] =
      (rt.ledger codec produced hand).note (entry.map SinkRow.seq) := by
  simp [ledger, Ledger.note, cached, dropped]

theorem ledger_note_push (hand : List Nat) {wire : Wire} {entry : Entry (SinkRow V)} :
    (ActionRuntime.cacheRecord codec { rt with wire := wire, log := rt.log ++ [entry] }
        output).ledger codec produced [] =
      { (rt.ledger codec produced hand).note (entry.map SinkRow.seq) with
        cached := ((rt.cacheRecord codec output).cached codec).map Output.seqs
        dropped := (rt.cacheRecord codec output).dropped } := by
  simp [ledger, Ledger.note, cached, dropped, ActionRuntime.cacheRecord]
  rfl

theorem sendLive_refines (produced : List Nat) (h : Sound codec cfg orderly rt)
    (output : Output V) (hkeeps : path.keeps = true)
    (hsends : (rt.ledger codec produced output.seqs).Sends path) :
    Sound codec cfg orderly (rt.sendLive codec path output).1 ∧
      Ledger.Steps orderly (rt.ledger codec produced output.seqs)
        ((rt.sendLive codec path output).1.ledger codec produced []) := by
  obtain ⟨wire, acked, result, hacked, hrow, hsend⟩ := rt.send_spec path output
  obtain ⟨-, c, hcache, -⟩ := id h
  have hseqs : (rt.ledger codec produced output.seqs).Acks _ _ := acks_seqs hacked hrow
  have hpending := h.pending produced output.seqs
  rw [sendLive, hsend]
  cases result with
  | ok =>
    refine ⟨h.withLog _ _, .single ?_⟩
    rw [ledger_note output.seqs, Entry.map, hpending]
    exact .accepted path _ hsends hseqs
  | retry =>
    have hsome : rt.cache.isSome = true := by rw [hcache]; rfl
    dsimp only
    rw [if_pos hsome]
    obtain ⟨hsound, n, hpushed, hdropped⟩ := h.cacheRecord output
    refine ⟨hsound, .single ?_⟩
    rw [ledger_note_push output.seqs, Entry.map, hpending, hdropped]
    exact .kept path _ _ n hsends hkeeps hseqs hpushed
  | permanent | dropped =>
    refine ⟨h.withLog _ _, .single ?_⟩
    rw [ledger_note output.seqs, Entry.map, hpending]
    exact .lost path _ _ hsends nofun nofun hseqs

theorem sendBatches_refines (produced : List Nat) (now size : Nat)
    (h : Sound codec cfg orderly rt) (n : Nat) :
    Sound codec cfg orderly (sendBatches codec now size n rt).1 ∧
      Ledger.Steps orderly (rt.ledger codec produced [])
        ((sendBatches codec now size n rt).1.ledger codec produced []) := by
  induction n generalizing rt with
  | zero => exact ⟨h, .refl⟩
  | succ n ih =>
    have htaken : Ledger.Step orderly (rt.ledger codec produced [])
        (({ rt with batchBuffer := rt.batchBuffer.drop size, lastBatchTime := now }).ledger codec
          produced (Output.batch (rt.batchBuffer.take size)).seqs) := by
      have hbatch : Ledger.Step orderly (rt.ledger codec produced []) _ := .batch size rfl
      simpa [ledger, cached, dropped, Output.seqs, Output.rows] using hbatch
    have hrest : Sound codec cfg orderly
        { rt with batchBuffer := rt.batchBuffer.drop size, lastBatchTime := now } :=
      h.withBuffer _ now fun hnone => by rw [h.1 hnone, List.drop_nil]
    obtain ⟨hsound, hsent⟩ := sendLive_refines produced hrest
      (.batch (rt.batchBuffer.take size)) (show Path.keeps .batch = true from rfl) ⟨nofun, nofun⟩
    obtain ⟨hsound', hlater⟩ := ih hsound
    exact ⟨hsound', (Relation.ReflTransGen.head htaken hsent).trans hlater⟩

theorem deliver_refines (produced : List Nat) (now : Nat) (h : Sound codec cfg orderly rt) (output : Output V) :
    Sound codec cfg orderly (deliver codec now output rt).1 ∧
      Ledger.Steps orderly (rt.ledger codec produced [])
        ((deliver codec now output rt).1.ledger codec (produced ++ output.seqs) []) := by
  rw [deliver]
  split
  · rename_i hfirst
    obtain ⟨hsound, n, hpushed, hdropped⟩ := h.cacheRecord output
    refine ⟨hsound, .single ?_⟩
    change Ledger.Step orderly _ ((ActionRuntime.cacheRecord codec { rt with
      wire := rt.wire
      log := rt.log ++ [.queued (!rt.batchBuffer.isEmpty) output.rows] } output).ledger codec
        (produced ++ output.seqs) [])
    have hpending := h.pending produced []
    have hqueued := Ledger.Step.queued (L := rt.ledger codec produced []) output.seqs _ n rfl
      (hpending.symm.trans hfirst.2) hpushed
    have hwaiting : (rt.ledger codec produced []).buffer.isEmpty = rt.batchBuffer.isEmpty := by
      simp [ledger]
    rw [hwaiting] at hqueued
    rw [ledger_note_push [], Entry.map, hdropped]
    exact hqueued
  · rename_i hfirst
    cases hbatches : rt.commonBatching with
    | none =>
      have harrive : Ledger.Step orderly (rt.ledger codec produced []) _ :=
        .arrive output.seqs rfl (by rw [ledger, h.1 hbatches]; rfl)
      -- a record is sent itself only past an empty queue, if the cache goes first
      have hsends : (rt.ledger codec (produced ++ output.seqs) output.seqs).Sends .live := by
        refine ⟨nofun, fun hcacheFirst _ => ?_⟩
        rw [← h.pending]
        exact Bool.eq_false_iff.mpr fun hpending => hfirst ⟨of_decide_eq_true hcacheFirst, hpending⟩
      obtain ⟨hsound, hsent⟩ := sendLive_refines (produced ++ output.seqs) h output rfl hsends
      exact ⟨hsound, .head harrive hsent⟩
    | some opts =>
      have hsound : Sound codec cfg orderly { rt with
          batchBuffer := rt.batchBuffer ++ output.rows.map (SinkRow.map opts.formatRecord) } :=
        h.withBuffer _ rt.lastBatchTime fun hnone => by rw [hbatches] at hnone; cases hnone
      have hstored : Ledger.Step orderly (rt.ledger codec produced [])
          (({ rt with batchBuffer := rt.batchBuffer ++
              output.rows.map (SinkRow.map opts.formatRecord) }).ledger codec
                (produced ++ output.seqs) []) := by
        have hstore : Ledger.Step orderly (rt.ledger codec produced []) _ := .store output.seqs rfl
        simpa [ledger, cached, dropped, Output.seqs, Function.comp_def, SinkRow.map] using hstore
      dsimp only
      split
      · obtain ⟨hsound', hsent⟩ := sendBatches_refines (produced ++ output.seqs) now
          opts.batchSize hsound
          ((rt.batchBuffer ++ output.rows.map (SinkRow.map opts.formatRecord)).length /
            opts.batchSize)
        exact ⟨hsound', .head hstored hsent⟩
      · exact ⟨hsound, .single hstored⟩

-- ---- Flushing

theorem flush_refines (h : Sound codec cfg orderly rt) (now : Nat) (hkeeps : path.keeps = false) :
    Sound codec cfg orderly (send { rt with batchBuffer := [], lastBatchTime := now } path
        (.batch rt.batchBuffer)).1 ∧
      Ledger.Steps orderly (rt.ledger codec produced [])
        ((send { rt with batchBuffer := [], lastBatchTime := now } path
          (.batch rt.batchBuffer)).1.ledger codec produced []) := by
  have htaken : Ledger.Step orderly (rt.ledger codec produced [])
      (({ rt with batchBuffer := [], lastBatchTime := now }).ledger codec produced
        (Output.batch rt.batchBuffer).seqs) := by
    have hbatch : Ledger.Step orderly (rt.ledger codec produced []) _ :=
      .batch rt.batchBuffer.length rfl
    simpa [ledger, cached, dropped, Output.seqs, Output.rows, List.take_of_length_le,
      List.drop_of_length_le] using hbatch
  have hsound : Sound codec cfg orderly { rt with batchBuffer := [], lastBatchTime := now } :=
    h.withBuffer [] now fun _ => rfl
  obtain ⟨wire, acked, result, hacked, hrow, hsend⟩ :=
    send_spec { rt with batchBuffer := [], lastBatchTime := now } path (.batch rt.batchBuffer)
  have hseqs : (({ rt with batchBuffer := [], lastBatchTime := now }).ledger codec produced
      (Output.batch rt.batchBuffer).seqs).Acks _ _ := acks_seqs hacked hrow
  have hpending := hsound.pending produced (Output.batch rt.batchBuffer).seqs
  rw [hsend]
  refine ⟨hsound.withLog _ _, .head htaken (.single ?_)⟩
  rw [ledger_note ((Output.batch rt.batchBuffer).seqs), Entry.map, hpending]
  have hsends : Ledger.Sends (({ rt with batchBuffer := [], lastBatchTime := now }).ledger codec
      produced (Output.batch rt.batchBuffer).seqs) path := by
    constructor
    · rintro rfl
      cases hkeeps
    · rintro - rfl
      cases hkeeps
  by_cases hok : result = .ok
  · subst hok
    exact .accepted path _ hsends hseqs
  · exact .lost path _ result hsends hok (by simp [hkeeps]) hseqs

theorem lingerFlush_refines (produced : List Nat) (now : Nat) (h : Sound codec cfg orderly rt) :
    Sound codec cfg orderly (rt.lingerFlush now) ∧
      Ledger.Steps orderly (rt.ledger codec produced [])
        ((rt.lingerFlush now).ledger codec produced []) := by
  rw [lingerFlush]
  dsimp only
  split
  · exact flush_refines h now rfl
  · exact ⟨h, .refl⟩

-- ---- Resending

@[simp] theorem seqs_resendCopy (indicator : Option (V → V)) (output : Output V) :
    (resendCopy indicator output).seqs = output.seqs := by
  cases output with
  | single row => cases indicator <;> rfl
  | batch rows => rfl

theorem Sound.popCached (h : Sound codec cfg orderly rt) :
    Sound codec cfg orderly (rt.popCached codec) ∧
      (rt.popCached codec).cached codec = (rt.cached codec).tail ∧
      (rt.popCached codec).dropped = rt.dropped := by
  obtain ⟨hbatching, c, hcache, hcfg, hok, horder⟩ := h
  obtain ⟨hheld, hdropped⟩ := SinkCache.popFront_held hok
  obtain ⟨hconserves, hok', -⟩ := SinkCache.popFront_spec (p := True) hok
  have hcache' : (rt.popCached codec).cache = some (c.popFront codec).1 := by
    simp [ActionRuntime.popCached, hcache]
  refine ⟨⟨hbatching, _, hcache', hconserves.cfg.trans hcfg, hok', fun ho => ⟨(horder ho).1, ?_⟩⟩, ?_, ?_⟩
  · rw [hconserves.cfg]
    exact SinkCache.step_mode (horder ho).2 .popFront
  · simp [cached, hcache, hcache', hheld]
  · simp [dropped, hcache, hcache', hdropped]

theorem Sound.front {c : SinkCache (Output V) Line} (h : Sound codec cfg orderly rt)
    (hcache : rt.cache = some c) :
    Sound codec cfg orderly { rt with cache := some (c.front codec).1 } ∧
      ({ rt with cache := some (c.front codec).1 } : ActionRuntime V Line).cached codec =
        rt.cached codec ∧
      ({ rt with cache := some (c.front codec).1 } : ActionRuntime V Line).dropped = rt.dropped ∧
      (c.front codec).2 = (rt.cached codec).head? := by
  obtain ⟨hbatching, _, hcache', hcfg, hok, horder⟩ := h
  obtain rfl := Option.some.inj (hcache.symm.trans hcache')
  obtain ⟨hheld, hdropped⟩ := SinkCache.front_held hok
  obtain ⟨hconserves, hok', hresult, -⟩ := SinkCache.front_spec (p := True) hok
  refine ⟨⟨hbatching, _, rfl, hconserves.cfg.trans hcfg, hok', fun ho => ⟨(horder ho).1, ?_⟩⟩, ?_, ?_, ?_⟩
  · rw [hconserves.cfg]
    exact SinkCache.step_mode (horder ho).2 .front
  · simp [cached, hcache, hheld]
  · simp [dropped, hcache, hdropped]
  · simp [cached, hcache, hresult]

theorem ledger_paced (now : Nat) :
    (rt.paced now).ledger codec produced hand = rt.ledger codec produced hand := by
  rw [paced]
  split <;> rfl

theorem Sound.paced (now : Nat) (h : Sound codec cfg orderly rt) :
    Sound codec cfg orderly (rt.paced now) := by
  rw [ActionRuntime.paced]
  split <;> exact h

theorem Sound.ledger_popCached (h : Sound codec cfg orderly rt) (produced hand : List Nat) :
    (rt.popCached codec).ledger codec produced hand =
      { rt.ledger codec produced hand with
        cached := (rt.ledger codec produced hand).cached.tail } := by
  obtain ⟨-, hpopped, hdropped⟩ := h.popCached
  simp only [ledger, hpopped, hdropped, List.map_tail]
  rfl

/-- One resend: a failure that can be retried leaves the record at the front of the
queue, any other outcome is followed by its removal. -/
theorem resend_spec (produced : List Nat) {record : Output V} {rest : List (Output V)}
    (h : Sound codec cfg orderly rt) (hcached : rt.cached codec = record :: rest) (indicator : Option (V → V)) :
    ∃ rt' result, rt.send .resend (resendCopy indicator record) = (rt', result) ∧
      Sound codec cfg orderly rt' ∧
      (result = .retry → Ledger.Step orderly (rt.ledger codec produced [])
        (rt'.ledger codec produced [])) ∧
      (result ≠ .retry → Ledger.Step orderly (rt.ledger codec produced [])
        ((rt'.popCached codec).ledger codec produced [])) := by
  obtain ⟨wire, acked, result, hacked, hrow, hsend⟩ :=
    rt.send_spec .resend (resendCopy indicator record)
  have hseqs : (rt.ledger codec produced []).Acks _ _ := acks_seqs hacked hrow
  rw [seqs_resendCopy] at hseqs
  have hqueue : (rt.ledger codec produced []).cached = record.seqs :: rest.map Output.seqs := by
    simp [ledger, hcached]
  have hpending : rt.pending = true := by
    rw [h.pending produced [], Ledger.pending, hqueue]
    rfl
  have hentry : Entry.map SinkRow.seq
      (.sent .resend rt.pending (resendCopy indicator record).rows acked result) =
        .sent .resend true record.seqs (acked.map fun rows => rows.map SinkRow.seq) result := by
    rw [Entry.map, hpending, ← seqs_resendCopy indicator record]
    rfl
  have hsound := h.withLog wire
    (rt.log ++ [.sent .resend rt.pending (resendCopy indicator record).rows acked result])
  have hpop := hsound.ledger_popCached produced []
  rw [ledger_note [], hentry] at hpop
  have htail : ((rt.ledger codec produced []).note (.sent .resend true record.seqs
      (acked.map fun rows => rows.map SinkRow.seq) result)).cached.tail =
        rest.map Output.seqs := by
    rw [Ledger.note, hqueue]
    rfl
  rw [htail] at hpop
  refine ⟨_, result, hsend, hsound, fun hretry => ?_, fun hretry => ?_⟩
  · subst hretry
    rw [ledger_note [], hentry]
    exact .deferred _ _ _ rfl hqueue hseqs
  · rw [hpop]
    by_cases hok : result = .ok
    · subst hok
      exact .resent _ _ _ rfl hqueue hseqs
    · exact .discarded _ _ _ _ rfl hqueue hok hretry hseqs

theorem resendLoop_refines (clock : Nat → Nat) (fuel i sent : Nat) (h : Sound codec cfg orderly rt) :
    Sound codec cfg orderly (resendLoop codec clock fuel i sent rt).1 ∧
      Ledger.Steps orderly (rt.ledger codec produced [])
        ((resendLoop codec clock fuel i sent rt).1.ledger codec produced []) := by
  induction fuel generalizing i sent rt with
  | zero => exact ⟨h, .refl⟩
  | succ fuel ih =>
    rw [resendLoop]
    split
    · obtain ⟨-, c, hcache, -⟩ := id h
      obtain ⟨hsound, hcached, hdropped, hfront⟩ := h.front hcache
      have hsame : ({ rt with cache := some (c.front codec).1 } : ActionRuntime V Line).ledger codec
          produced [] = rt.ledger codec produced [] := by
        simp only [ledger, hcached, hdropped]
      simp only [hcache, Option.map_some]
      rw [← hsame]
      generalize c.front codec = f at hsound hcached hfront ⊢
      obtain ⟨c', result⟩ := f
      cases result with
      | none => exact ⟨hsound, .refl⟩
      | some record =>
        obtain ⟨rest, hrest⟩ := List.head?_eq_some_iff.mp hfront.symm
        obtain ⟨rt', result, hsend, hsound', hretried, hremoved⟩ := resend_spec
          produced hsound (hcached.trans hrest) rt.resend.indicator
        dsimp only
        rw [hsend]
        cases result with
        | ok =>
          obtain ⟨hpopped, -⟩ := hsound'.popCached
          obtain ⟨hfinal, hsteps⟩ := ih (i + 1) (sent + 1) (hpopped.paced (clock i))
          rw [ledger_paced] at hsteps
          exact ⟨hfinal, .head (hremoved nofun) hsteps⟩
        | retry => exact ⟨hsound', .single (hretried rfl)⟩
        | permanent | dropped =>
          obtain ⟨hpopped, -⟩ := hsound'.popCached
          obtain ⟨hfinal, hsteps⟩ := ih (i + 1) sent hpopped
          exact ⟨hfinal, .head (hremoved nofun) hsteps⟩
    · exact ⟨h, .refl⟩

theorem resendCached_refines (produced : List Nat) (liveRecent : Bool) (clock : Nat → Nat)
    (h : Sound codec cfg orderly rt) :
    Sound codec cfg orderly (resendCached codec liveRecent clock rt).1 ∧
      Ledger.Steps orderly (rt.ledger codec produced [])
        ((resendCached codec liveRecent clock rt).1.ledger codec produced []) := by
  obtain ⟨-, c, hcache, -⟩ := id h
  rw [resendCached, hcache]
  dsimp only
  split
  · exact ⟨h, .refl⟩
  · exact resendLoop_refines clock _ _ _ h

theorem stop_fields (codec : LineCodec (Output V) Line) (rt : ActionRuntime V Line) :
    (rt.stop codec).1.cache = rt.cache ∧ (rt.stop codec).1.batchBuffer = [] ∧
      (rt.stop codec).2 =
        (rt.cache.map fun c => c.close codec fun i => rt.writes (rt.pushed + i)).getD ∅ := by
  rw [stop]
  dsimp only
  split
  · exact ⟨rfl, ‹_›, rfl⟩
  · exact ⟨rfl, rfl, rfl⟩

theorem stop_refines (produced : List Nat) (h : Sound codec cfg orderly rt) :
    Sound codec cfg orderly (rt.stop codec).1 ∧
      Ledger.Steps orderly (rt.ledger codec produced [])
        ((rt.stop codec).1.ledger codec produced []) := by
  rw [stop]
  dsimp only
  split
  · exact ⟨h, .refl⟩
  · exact flush_refines h rt.lastBatchTime rfl

end ActionRuntime

-- ---- Runs

@[simp] theorem seqs_number (n : Nat) (values : List V) :
    (number n values).map SinkRow.seq = List.range' n values.length := by
  induction values generalizing n with
  | nil => rfl
  | cons value values ih => rw [number, List.map_cons, ih, List.length_cons, List.range'_succ]

@[simp] theorem seqs_output (n : Nat) (payload : Payload V) :
    (payload.output n).seqs = List.range' n payload.values.length := by
  cases payload with
  | single value => rfl
  | batch values => exact seqs_number n values

namespace SinkWorker

def ledger (codec : LineCodec (Output V) Line) (w : SinkWorker V Line) : Ledger Nat :=
  w.runtime.ledger codec (List.range w.produced) []

theorem step_refines {w : SinkWorker V Line} (h : w.runtime.Sound codec cfg orderly)
    (op : WorkerOp V) :
    (w.step codec op).runtime.Sound codec cfg orderly ∧
      Ledger.Steps orderly (w.ledger codec) ((w.step codec op).ledger codec) := by
  cases op with
  | record now payload =>
    have hrange : List.range w.produced ++ (payload.output w.produced).seqs =
        List.range (w.produced + payload.values.length) := by
      have happend := @List.range'_append_1 0 w.produced payload.values.length
      rw [Nat.zero_add] at happend
      rw [seqs_output, List.range_eq_range', List.range_eq_range', happend]
    obtain ⟨hsound, hsteps⟩ := ActionRuntime.deliver_refines (List.range w.produced)
      now h (payload.output w.produced)
    rw [hrange] at hsteps
    exact ⟨hsound, hsteps⟩
  | tick now clock =>
    obtain ⟨hsound, hflush⟩ := ActionRuntime.lingerFlush_refines
      (List.range w.produced) now h
    obtain ⟨hsound', hresend⟩ := ActionRuntime.resendCached_refines
      (List.range w.produced) (decide (now - w.lastLive < sinkTick * 2)) clock hsound
    exact ⟨hsound', hflush.trans hresend⟩

theorem run_refines {w : SinkWorker V Line} (h : w.runtime.Sound codec cfg orderly)
    (ops : List (WorkerOp V)) :
    (w.run codec ops).runtime.Sound codec cfg orderly ∧
      Ledger.Steps orderly (w.ledger codec) ((w.run codec ops).ledger codec) := by
  induction ops generalizing w with
  | nil => exact ⟨h, .refl⟩
  | cons op ops ih =>
    obtain ⟨hsound, hstep⟩ := step_refines h op
    obtain ⟨hsound', hrest⟩ := ih hsound
    exact ⟨hsound', hstep.trans hrest⟩

theorem start_sound (codec : LineCodec (Output V) Line) (orderly : Prop)
    (action : PreparedAction V) (resend : ResendConfig V) (cfg : CacheConfig)
    (answers : Nat → Answer) (writes : Nat → Bool) (now : Nat)
    (hwrites : orderly → ∀ n, writes n = true) :
    (start action resend cfg answers writes now : SinkWorker V Line).runtime.Sound codec cfg
      orderly :=
  ⟨fun _ => rfl, _, rfl, rfl, SinkCache.blank_ok cfg, fun ho => ⟨hwrites ho, .inr rfl⟩⟩

theorem ledger_start (action : PreparedAction V) (resend : ResendConfig V) (cfg : CacheConfig)
    (answers : Nat → Answer) (writes : Nat → Bool) (now : Nat) :
    (start action resend cfg answers writes now : SinkWorker V Line).ledger codec =
      ⟨[], [], [], [], 0, [], decide (resend.priority = .cacheFirst), action.grouped⟩ := by
  simp [ledger, start, ActionRuntime.ledger, ActionRuntime.cached, ActionRuntime.dropped,
    SinkCache.openDir_empty, SinkCache.held, SinkCache.blank]
  rfl

end SinkWorker

end Rekuiper.Sinks
