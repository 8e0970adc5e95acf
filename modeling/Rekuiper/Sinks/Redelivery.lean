import Rekuiper.Sinks.Refinement

/-!
# Sending a row again

A record whose send failed is cached and sent again as a whole. Where the failed send
had made several requests and some of them were acknowledged, their rows go out twice. A
row is acknowledged at most once in every run whose failed sends, as far as the record
stays, acknowledged nothing.
-/

namespace Rekuiper.Sinks

variable {V Line : Type} {codec : LineCodec (Output V) Line} {cfg : CacheConfig} {α : Type}
  {orderly : Prop}

/-- If the send failed and its record stays in the cache, nothing was acknowledged. -/
def Entry.AllOrNothing : Entry α → Prop
  | .sent path _ _ acked .retry => path.keeps = true → acked.flatten = []
  | _ => True

instance [DecidableEq α] (entry : Entry α) : Decidable entry.AllOrNothing := by
  rcases entry with ⟨_, _, _, _, _ | _⟩ | _ <;> unfold Entry.AllOrNothing <;> infer_instance

namespace Ledger

variable [DecidableEq α]

/-- Each row was acknowledged and waits, taken together, at most as often as it was
produced. -/
def AtMostOnce (L : Ledger α) : Prop :=
  ∀ a, (L.log.flatMap Entry.acked).count a + L.hand.count a + L.buffer.count a +
    L.cached.flatten.count a ≤ L.produced.count a

theorem count_pushed_le {old new : List (List α)} {rows : List α} {n : Nat}
    (h : Pushed orderly old rows new n) (a : α) :
    new.flatten.count a ≤ old.flatten.count a + rows.count a := by
  obtain ⟨l, hperm, hsub⟩ := h.subperm
  rw [← hperm.flatten.count_eq]
  simpa using hsub.flatten.count_le a

theorem Step.atMostOnce {L L' : Ledger α} (h : Step orderly L L')
    (hlog : ∀ entry ∈ L'.log, entry.AllOrNothing) (hL : L.AtMostOnce) : L'.AtMostOnce := by
  intro a
  have hcount := hL a
  cases h with
  | arrive rows hhand hbuffer =>
    simp only [hhand, hbuffer, List.count_append, List.count_nil] at hcount ⊢
    omega
  | store rows hhand =>
    simp only [hhand, List.count_append, List.count_nil] at hcount ⊢
    omega
  | batch n hhand =>
    have hsplit := congrArg (List.count a) (List.take_append_drop n L.buffer)
    simp only [hhand, List.count_append, List.count_nil] at hcount hsplit ⊢
    omega
  | accepted path acked hsends hacked =>
    have hle := hacked.subperm.count_le a
    simp [note, Entry.acked] at hcount ⊢
    omega
  | kept path acked new n hsends hkeeps hacked hpushed =>
    have hnone : acked.flatten = [] :=
      hlog (.sent path L.pending L.hand acked .retry) (by simp [note]) hkeeps
    have hnew := count_pushed_le hpushed a
    simp [note, Entry.acked, hnone] at hcount ⊢
    omega
  | lost path acked result hsends hfailed hkeeps hacked =>
    have hle := hacked.subperm.count_le a
    simp [note, Entry.acked] at hcount ⊢
    omega
  | queued rows new n hhand hpending hpushed =>
    have hnew := count_pushed_le hpushed a
    simp [note, Entry.acked, hhand] at hcount ⊢
    omega
  | resent rows rest acked hhand hcached hacked =>
    have hle := hacked.subperm.count_le a
    simp [note, Entry.acked, hhand, hcached] at hcount ⊢
    omega
  | deferred rows rest acked hhand hcached hacked =>
    have hnone : acked.flatten = [] :=
      hlog (.sent .resend true rows acked .retry) (by simp [note]) rfl
    simp [note, Entry.acked, hhand, hnone] at hcount ⊢
    omega
  | discarded rows rest acked result hhand hcached hfailed hretry hacked =>
    have hle := hacked.subperm.count_le a
    simp [note, Entry.acked, hhand, hcached] at hcount ⊢
    omega

theorem Steps.atMostOnce {L L' : Ledger α} (h : Steps orderly L L')
    (hlog : ∀ entry ∈ L'.log, entry.AllOrNothing) (hL : L.AtMostOnce) : L'.AtMostOnce :=
  h.invariant hlog hL fun hstep hentries hbefore => hstep.atMostOnce hentries hbefore

end Ledger

theorem Entry.AllOrNothing.map {β : Type} {f : α → β} {entry : Entry α}
    (h : entry.AllOrNothing) : (entry.map f).AllOrNothing := by
  cases entry with
  | queued waiting rows => trivial
  | sent path cached rows acked result =>
    have hacked : acked.flatten = [] → (acked.map fun rows => rows.map f).flatten = [] := by
      intro hnone
      rw [← List.map_flatten, hnone, List.map_nil]
    cases result <;> first | trivial | exact fun hkeeps => hacked (h hkeeps)

-- ---- Runs of the worker

namespace SinkWorker

/-- How often the `n`-th row was acknowledged, up to the end of the worker. -/
def timesAcked (codec : LineCodec (Output V) Line) (w : SinkWorker V Line) (n : Nat) : Nat :=
  (((w.runtime.stop codec).1.log.flatMap Entry.acked).map SinkRow.seq).count n

/-- Over the first attempt and all later ones each row is in at most one acknowledged
request, in every run in which no send fails after one of its requests was acknowledged
and leaves its record in the cache. -/
theorem retries_send_no_row_again (codec : LineCodec (Output V) Line) (action : PreparedAction V)
    (resend : ResendConfig V) (cfg : CacheConfig) (answers : Nat → Answer) (writes : Nat → Bool)
    (now : Nat) (ops : List (WorkerOp V))
    (hsends : ∀ entry ∈ (((start action resend cfg answers writes now).run codec ops).runtime.stop
      codec).1.log, entry.AllOrNothing) (n : Nat) :
    ((start action resend cfg answers writes now).run codec ops).timesAcked codec n ≤ 1 := by
  have hstart := start_sound codec False action resend cfg answers writes
    now False.elim
  obtain ⟨hend, hsteps⟩ := run_refines hstart ops
  obtain ⟨-, hstop⟩ := ActionRuntime.stop_refines (List.range
    ((start action resend cfg answers writes now).run codec ops).produced) hend
  rw [ledger_start] at hsteps
  have honce := Ledger.Steps.atMostOnce (hsteps.trans hstop) (by
    intro entry hentry
    obtain ⟨sent, hsent, rfl⟩ := List.mem_map.mp hentry
    exact (hsends sent hsent).map) (fun _ => Nat.le_refl _) n
  have hproduced := List.nodup_iff_count_le_one.mp (List.nodup_range (n :=
    ((start action resend cfg answers writes now).run codec ops).produced)) n
  simp only [ActionRuntime.ledger, flatMap_acked_map] at honce
  rw [timesAcked]
  omega

def singleRest : PreparedAction Nat := .rest "POST" "json" none ⟨true, none, 0, 0, id⟩

/-- The first request of the first attempt fails; the second attempt goes through. -/
theorem retries_send_no_row_again_small :
    let w := start singleRest equalResend roomyConfig
      (fun n => if n = 0 then .retry else .ok) (fun _ => true) 0
    let ops := [.record 0 (.batch [7, 8]), .tick 2000 fun _ => 2000]
    (w.run outputCodec ops).timesAcked outputCodec 1 = 1 ∧
      (w.run outputCodec ops).timesAcked outputCodec 0 ≤ 1 := by
  intro w ops
  exact ⟨by decide, retries_send_no_row_again outputCodec _ _ _ _ _ _ ops (by decide) 0⟩

/-- The second of two rows fails in the first attempt: the first row is sent again. -/
theorem part_way_failure_sends_row_again :
    let w := start singleRest equalResend roomyConfig
      (fun n => if n = 1 then .retry else .ok) (fun _ => true) 0
    let ops := [.record 0 (.batch [7, 8]), .tick 2000 fun _ => 2000]
    ¬ (w.run outputCodec ops).timesAcked outputCodec 0 ≤ 1 := by
  decide

end SinkWorker

end Rekuiper.Sinks
