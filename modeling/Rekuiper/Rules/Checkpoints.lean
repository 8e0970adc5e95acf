import Rekuiper.Rules.Ownership

/-!
# Checkpoints

The ticker of a task takes snapshots of the task's state and writes them under the id of the
rule. It ends only if a tick finds the rule not running, so it can outlive its task and its
rule. As long as it does not, every checkpoint is a snapshot of the task that began last.
-/

namespace Rekuiper.Rules

open Lib

variable {F Text : Type} {r r' : Registry F} {w w' : World F Text} {ticker : Ticker F}

/-- A checkpoint of a rule that is there, and of the task that began last. -/
def CheckpointWrite.Current (checkpoint : CheckpointWrite F) : Prop :=
  checkpoint.present = true ∧ checkpoint.current = some checkpoint.task ∧
    checkpoint.value ∈ checkpoint.past

namespace World

/-- The rule of a task was removed, or another task of the rule has begun after it. -/
def Superseded (w : World F Text) (n : Nat) (task : Task F) : Prop :=
  (w.rules.lookup task.ruleId).isSome = true → w.current.lookup task.ruleId ≠ some n

/-- No ticker of the rule has a snapshot that it has not written. -/
def Quiet (w : World F Text) (id : String) : Prop :=
  ∀ ticker ∈ w.tickers, ticker.snapshot.isSome = true → ∀ task, w.tasks[ticker.task]? = some task →
    task.ruleId ≠ id

/-- The moves that keep the checkpoints of a rule its own: a ticker that was left behind finds at
its tick that the status it reads is not running, and no ticker is between its tick and its write
when its rule is removed or another task of the rule begins. -/
def Orderly (w : World F Text) : RuleOp F ⊕ Action F → Prop
  | .inl (.remove id) => w.Quiet id
  | .inr (.begin n _) => ∀ task, w.tasks[n]? = some task → w.goesOn n = true →
    w.incarnations.lookup n = none → w.Quiet task.ruleId
  | .inr (.tick k contended) => ∀ ticker task, w.tickers[k]? = some ticker →
    w.tasks[ticker.task]? = some task → ticker.alive = true → w.Superseded ticker.task task →
    w.isRuleRunning task contended = false
  | _ => True

/-- The ticker is of the task that began last for its rule, and so is its snapshot. -/
def IsCurrent (w : World F Text) (ticker : Ticker F) : Prop :=
  ∃ task incarnation, w.tasks[ticker.task]? = some task ∧
    (w.rules.lookup task.ruleId).isSome = true ∧
    w.current.lookup task.ruleId = some ticker.task ∧
    w.incarnations.lookup ticker.task = some incarnation ∧
    ∀ value, ticker.snapshot = some value → value ∈ incarnation.past

structure Checkpointed (w : World F Text) : Prop where
  reached : ∀ n incarnation, w.incarnations.lookup n = some incarnation →
    incarnation.state ∈ incarnation.past
  pending : ∀ ticker ∈ w.tickers, ticker.snapshot.isSome = true → w.IsCurrent ticker
  writes : ∀ checkpoint ∈ w.writes, checkpoint.Current

end World

-- ---- What a move keeps

def Remembers (incarnations incarnations' : HashMap Nat (Incarnation F)) : Prop :=
  ∀ n incarnation, incarnations.lookup n = some incarnation →
    ∃ incarnation', incarnations'.lookup n = some incarnation' ∧
      incarnation.past ⊆ incarnation'.past

theorem remembers_refl (incarnations : HashMap Nat (Incarnation F)) :
    Remembers incarnations incarnations :=
  fun _ incarnation h => ⟨incarnation, h, List.Subset.refl _⟩

theorem remembers_insert {incarnations : HashMap Nat (Incarnation F)} {n : Nat}
    {new : Incarnation F} (h : ∀ old, incarnations.lookup n = some old → old.past ⊆ new.past) :
    Remembers incarnations (incarnations.insert n new) := by
  intro m incarnation hm
  by_cases hmn : m = n
  · subst hmn
    exact ⟨new, AList.lookup_insert _, h incarnation hm⟩
  · exact ⟨incarnation, (AList.lookup_insert_ne hmn).trans hm, List.Subset.refl _⟩

theorem World.IsCurrent.mono (h : w.IsCurrent ticker) (htasks : w.tasks <+: w'.tasks)
    (hrules : ∀ task, w.tasks[ticker.task]? = some task →
      (w.rules.lookup task.ruleId).isSome = true → (w'.rules.lookup task.ruleId).isSome = true)
    (hcurrent : ∀ task, w.tasks[ticker.task]? = some task →
      w'.current.lookup task.ruleId = w.current.lookup task.ruleId)
    (hincarnations : Remembers w.incarnations w'.incarnations) : w'.IsCurrent ticker := by
  obtain ⟨task, incarnation, htask, hrule, hbegan, hincarnation, hsnapshot⟩ := h
  obtain ⟨incarnation', hincarnation', hpast⟩ := hincarnations _ _ hincarnation
  obtain ⟨later, hlater⟩ := htasks
  refine ⟨task, incarnation', ?_, hrules task htask hrule, (hcurrent task htask).trans hbegan,
    hincarnation', fun value hvalue => hpast (hsnapshot value hvalue)⟩
  rw [← hlater, List.getElem?_append_left (List.getElem?_eq_some_iff.mp htask).1, htask]

theorem Registry.exec_keeps {t : Nat} {op : RuleOp F} (h : r.exec t op = some r') :
    r.tasks <+: r'.tasks ∧ ∀ id, op ≠ .remove id → (r.rules.lookup id).isSome = true →
      (r'.rules.lookup id).isSome = true := by
  have hsame : r'.tasks = r.tasks → r'.rules = r.rules → r.tasks <+: r'.tasks ∧ ∀ id,
      op ≠ .remove id → (r.rules.lookup id).isSome = true →
      (r'.rules.lookup id).isSome = true := by
    intro htasks hrules
    rw [htasks, hrules]
    exact ⟨List.prefix_refl _, fun _ _ hid => hid⟩
  cases op with
  | lock =>
    obtain ⟨-, rfl⟩ := Option.ite_some_none_eq_some.mp h
    exact hsame rfl rfl
  | unlock | list | persist | unpersist | deleteCheckpoint | find | openQueue =>
    obtain rfl := Option.some.inj h
    exact hsame rfl rfl
  | insert rule =>
    obtain rfl := Option.some.inj h
    refine ⟨List.prefix_refl _, fun id _ hid => ?_⟩
    by_cases heq : id = rule.id
    · subst heq
      exact (congrArg Option.isSome (AList.lookup_insert _)).trans rfl
    · exact (congrArg Option.isSome (AList.lookup_insert_ne heq)).trans hid
  | remove id =>
    obtain rfl := Option.some.inj h
    simp only [Registry.removeRule]
    split
    · exact ⟨List.prefix_refl _, fun _ _ hid => hid⟩
    · refine ⟨List.prefix_refl _, fun other hother hid => ?_⟩
      have hne : other ≠ id := fun heq => hother (heq ▸ rfl)
      exact (congrArg Option.isSome (AList.lookup_erase_ne hne)).trans hid
  | changeAt id change =>
    simp only [Registry.exec] at h
    split at h <;> obtain rfl := Option.some.inj h <;> exact hsame rfl rfl
  | changeCell cell change =>
    simp only [Registry.exec] at h
    split at h <;> obtain rfl := Option.some.inj h <;> exact hsame rfl rfl
  | spawn task =>
    obtain rfl := Option.some.inj h
    exact ⟨List.prefix_append _ _, fun _ _ hid => hid⟩
  | setRuleHandle id task =>
    obtain rfl := Option.some.inj h
    refine hsame ?_ ?_
    all_goals
      simp only [Registry.setRuleHandle]
      split
      · rfl
      · split <;> rfl

-- ---- Moves

namespace World.Checkpointed

theorem op (h : w.Checkpointed) {codec : EnvelopeCodec F Text} {t : Nat} {op : RuleOp F}
    {answer : op.Answer} (horderly : w.Orderly (.inl op))
    (hexec : w.exec codec t op = some (answer, w')) : w'.Checkpointed := by
  obtain ⟨htasks, hrules⟩ := Registry.exec_keeps (exec_eq_some hexec).2
  obtain ⟨r', -, heq⟩ := Option.map_eq_some_iff.mp hexec
  cases heq
  refine ⟨h.reached, fun ticker hticker hsnapshot => ?_, h.writes⟩
  refine (h.pending ticker hticker hsnapshot).mono htasks (fun task htask hrule => ?_)
    (fun _ _ => rfl) (remembers_refl _)
  refine hrules task.ruleId (fun heq => ?_) hrule
  subst heq
  exact horderly ticker hticker hsnapshot task htask rfl

theorem setState (h : w.Checkpointed) {n : Nat} {old old' : Incarnation F}
    (hold : w.incarnations.lookup n = some old) (hpast : old'.past = old.past)
    (state : StateMap F) : (w.setState n old' state).Checkpointed where
  reached m incarnation hm := by
    by_cases hmn : m = n
    · subst hmn
      obtain rfl := Option.some.inj ((AList.lookup_insert _).symm.trans hm)
      exact List.mem_cons_self
    · exact h.reached m incarnation ((AList.lookup_insert_ne hmn).symm.trans hm)
  pending ticker hticker hsnapshot := by
    refine (h.pending ticker hticker hsnapshot).mono (List.prefix_refl _) (fun _ _ hrule => hrule)
      (fun _ _ => rfl) (remembers_insert fun old'' hold'' => ?_)
    obtain rfl := Option.some.inj (hold.symm.trans hold'')
    exact hpast ▸ List.subset_cons_self _ _
  writes := h.writes

theorem begin (h : w.Checkpointed) {n : Nat} {now : Int}
    (horderly : w.Orderly (.inr (.begin n now))) : (w.begin n now).Checkpointed := by
  unfold World.begin
  split
  · exact h
  · rename_i task htask
    split
    · rename_i hbegins
      rw [Bool.and_eq_true, Bool.not_eq_true', Option.isSome_eq_false_iff,
        Option.isNone_iff_eq_none] at hbegins
      have hquiet := horderly task htask hbegins.1 hbegins.2
      refine ⟨fun m incarnation hm => ?_, fun ticker hticker hsnapshot => ?_, h.writes⟩
      · by_cases hmn : m = n
        · subst hmn
          obtain rfl := Option.some.inj ((AList.lookup_insert _).symm.trans hm)
          exact List.mem_singleton_self _
        · exact h.reached m incarnation ((AList.lookup_insert_ne hmn).symm.trans hm)
      · refine (h.pending ticker hticker hsnapshot).mono (List.prefix_refl _)
          (fun _ _ hrule => hrule) (fun task' htask' => ?_) (remembers_insert fun old hold => ?_)
        · exact AList.lookup_insert_ne (hquiet ticker hticker hsnapshot task' htask')
        · rw [hbegins.2] at hold
          cases hold
    · exact h

theorem restore (h : w.Checkpointed) (states : StateCodec F Text) (n : Nat) :
    (w.restore states n).Checkpointed := by
  unfold World.restore
  split
  · rename_i task old htask hold
    split
    · have hset := @setState F Text w h n old { old with restored := true } hold rfl
      dsimp only
      split
      · refine ⟨(hset _).reached, ?_, h.writes⟩
        simp only [World.setState, List.forall_mem_append, List.forall_mem_singleton]
        exact ⟨(hset _).pending, nofun⟩
      · exact hset _
    · exact h
  · exact h

theorem event (h : w.Checkpointed) (n : Nat) (contended : Bool)
    (update : StateMap F → StateMap F) : (w.event n contended update).Checkpointed := by
  unfold World.event
  split
  · rename_i task old htask hold
    split
    · exact h.setState hold rfl _
    · exact h
  · exact h

theorem setTicker (h : w.Checkpointed) (k : Nat)
    (hcurrent : ticker.snapshot.isSome = true → w.IsCurrent ticker) :
    { w with tickers := w.tickers.set k ticker }.Checkpointed := by
  refine ⟨h.reached, fun other hother => ?_, h.writes⟩
  rcases List.mem_or_eq_of_mem_set hother with hold | rfl
  · exact h.pending other hold
  · exact hcurrent

theorem tick (h : w.Checkpointed) {k : Nat} {contended : Bool}
    (horderly : w.Orderly (.inr (.tick k contended))) : (w.tick k contended).Checkpointed := by
  unfold World.tick
  split
  · exact h
  · rename_i ticker hticker
    split
    · rename_i task incarnation htask hincarnation
      split
      · rename_i hidle
        rw [Bool.and_eq_true, Option.isNone_iff_eq_none] at hidle
        split
        · rename_i hrunning
          have hlast : ¬w.Superseded ticker.task task := fun hleft => by
            rw [horderly ticker task hticker htask hidle.1 hleft] at hrunning
            cases hrunning
          obtain ⟨hrule, hcurrent⟩ := not_forall_not.mp hlast
          refine h.setTicker k fun _ => ⟨task, incarnation, htask, hrule, hcurrent, hincarnation, ?_⟩
          intro value hvalue
          obtain rfl := Option.some.inj hvalue
          exact h.reached _ _ hincarnation
        · refine h.setTicker k fun hsome => ?_
          have hnone : ({ ticker with alive := false } : Ticker F).snapshot = none := hidle.2
          rw [hnone] at hsome
          cases hsome
      · exact h
    · exact h

theorem writeCheckpoint (h : w.Checkpointed) (states : StateCodec F Text) (k : Nat) :
    (w.writeCheckpoint states k).Checkpointed := by
  unfold World.writeCheckpoint
  split
  · exact h
  · rename_i ticker hticker
    split
    · rename_i task value htask hvalue
      obtain ⟨task', incarnation, htask', hrule, hcurrent, hincarnation, hsnapshot⟩ :=
        h.pending ticker (List.mem_of_getElem? hticker) (hvalue ▸ rfl)
      obtain rfl := Option.some.inj (htask.symm.trans htask')
      have hset := @setTicker F Text w { ticker with snapshot := none } h k nofun
      dsimp only
      split
      · refine ⟨hset.reached, hset.pending, List.forall_mem_cons.mpr ⟨?_, h.writes⟩⟩
        refine ⟨hrule, hcurrent, ?_⟩
        simp only [hcurrent, Option.bind_some, hincarnation, Option.map_some, Option.getD_some]
        exact hsnapshot value hvalue
      · exact hset
    · exact h

theorem act (h : w.Checkpointed) (states : StateCodec F Text) {action : Action F}
    (horderly : w.Orderly (.inr action)) : (w.act states action).Checkpointed := by
  cases action with
  | setStore ok => exact ⟨h.reached, h.pending, h.writes⟩
  | begin n now => exact h.begin horderly
  | restore n => exact h.restore states n
  | event n contended update => exact h.event n contended update
  | tick k contended => exact h.tick horderly
  | write k => exact h.writeCheckpoint states k

end World.Checkpointed

-- ---- Runs

theorem booted_checkpointed (codec : EnvelopeCodec F Text) (kv : KvStore Text) :
    (World.booted codec kv).Checkpointed where
  reached := nofun
  pending := nofun
  writes := nofun

/-- Every checkpoint that is written is a snapshot of the task that began last for its rule, and
its rule is there, if every ticker that was left behind by a removal or a later task finds the
status not running, and none has yet to write when its rule is removed or another task begins. -/
theorem checkpoints_current (codec : EnvelopeCodec F Text) (states : StateCodec F Text)
    (kv : KvStore Text) (clients : Clients F) (schedule : List (Choice (Action F)))
    (horderly : ∀ move ∈ (clients.start codec kv).moves (machine codec states) schedule,
      move.1.Orderly move.2) :
    ∀ checkpoint ∈ ((clients.start codec kv).run (machine codec states) schedule).1.state.writes,
      checkpoint.Current := by
  refine (run_keeps (M := machine codec states) ?_ ?_ (clients.start codec kv) schedule
    (booted_checkpointed codec kv) horderly).writes
  · intro t w op answer w' h hgood hexec
    exact h.op hgood hexec
  · intro w action h hgood
    exact h.act states hgood

def savedRule : RuleDefinition Unit :=
  { bareRule "r" with
    options := some ((∅ : HashMap String (Value Unit)).insert "checkpointInterval"
      (.number (.int 1))) }

def deletingClients : Clients Unit
  | 0 => do
    let _ ← Prog.perform (RuleCall.createRule savedRule)
    let _ ← Prog.perform (RuleCall.spawnRuleTask "r" savedRule (.plain [] "demo" none))
    pure ()
  | 1 => do
    let _ ← Prog.perform (RuleCall.deleteRule "r")
    pure ()
  | _ => pure ()

/-- The first request is answered, and the task begins and has read its checkpoint. -/
def untilRestored : List (Choice (Action Unit)) :=
  List.replicate 9 (.thread 0) ++ [.env (.begin 0 0), .env (.restore 0)]

def recreatingClients : Clients Unit
  | 0 => do
    let _ ← Prog.perform (RuleCall.createRule savedRule)
    let _ ← Prog.perform (RuleCall.spawnRuleTask "r" savedRule (.plain [] "demo" none))
    pure ()
  | 1 => do
    let _ ← Prog.perform (RuleCall.stopRule "r" 0)
    let _ ← Prog.perform (RuleCall.deleteRule "r")
    let _ ← Prog.perform (RuleCall.createRule savedRule)
    let _ ← Prog.perform (RuleCall.spawnRuleTask "r" savedRule (.plain [] "demo" none))
    pure ()
  | _ => pure ()

/-- Each task writes a checkpoint, and the ticker of the first one ends after the rule was stopped
and deleted. -/
def untilSavedAgain : List (Choice (Action Unit)) :=
  untilRestored ++ [.env (.tick 0 false), .env (.write 0)] ++ List.replicate 11 (.thread 1) ++
    [.env (.tick 0 false)] ++ List.replicate 9 (.thread 1) ++
      [.env (.begin 1 0), .env (.restore 1), .env (.tick 1 false), .env (.write 1)]

theorem recreated_rule_saved :
    let run := (recreatingClients.start .plain ∅).run (machine .plain plainStates) untilSavedAgain
    (∃ first second, run.1.state.writes = [second, first] ∧ first.task = 0 ∧ second.task = 1) ∧
      ∀ checkpoint ∈ run.1.state.writes, checkpoint.Current := by
  intro run
  refine ⟨?_, checkpoints_current .plain plainStates ∅ recreatingClients _ ?_⟩
  · simp only [run, Clients.start, booted_empty]
    exact ⟨_, _, rfl, rfl, rfl⟩
  · simp only [Clients.start, booted_empty]
    -- the first request, and the task begins
    iterate 9 refine List.forall_mem_cons.mpr ⟨trivial, ?_⟩
    refine List.forall_mem_cons.mpr ⟨fun task _ _ _ => List.forall_mem_nil _, ?_⟩
    refine List.forall_mem_cons.mpr ⟨trivial, ?_⟩
    refine List.forall_mem_cons.mpr ⟨fun ticker task hticker htask _ hleft => ?_, ?_⟩
    · cases hticker
      cases htask
      exact absurd rfl (hleft rfl)
    -- the write, and the second request up to the removal
    iterate 10 refine List.forall_mem_cons.mpr ⟨trivial, ?_⟩
    refine List.forall_mem_cons.mpr ⟨List.forall_mem_singleton.mpr fun h => ?_, ?_⟩
    · cases h
    refine List.forall_mem_cons.mpr ⟨trivial, ?_⟩
    refine List.forall_mem_cons.mpr ⟨fun ticker task hticker htask _ _ => ?_, ?_⟩
    · cases hticker
      cases htask
      rfl
    -- the rule is created again
    iterate 9 refine List.forall_mem_cons.mpr ⟨trivial, ?_⟩
    refine List.forall_mem_cons.mpr ⟨fun task _ _ _ => ?_, ?_⟩
    · refine List.forall_mem_singleton.mpr fun h => ?_
      cases h
    refine List.forall_mem_cons.mpr ⟨trivial, ?_⟩
    refine List.forall_mem_cons.mpr ⟨fun ticker task hticker htask _ hleft => ?_, ?_⟩
    · cases hticker
      cases htask
      exact absurd rfl (hleft rfl)
    · exact List.forall_mem_cons.mpr ⟨trivial, List.forall_mem_nil _⟩

/-- A checkpoint is written for a rule that was deleted before the ticker took its snapshot. -/
theorem deleted_rule_saved :
    let run := (deletingClients.start .plain ∅).run (machine .plain plainStates)
      (untilRestored ++ List.replicate 8 (.thread 1) ++
        [.env (.tick 0 false), .env (.write 0)])
    run.1.threads 1 = .pure () ∧ run.1.state.rules.lookup "r" = none ∧
      ∃ checkpoint ∈ run.1.state.writes, checkpoint.ruleId = "r" ∧ checkpoint.present = false ∧
        ¬checkpoint.Current := by
  intro run
  have hwrites : ∃ checkpoint, run.1.state.writes = [checkpoint] ∧ checkpoint.ruleId = "r" ∧
      checkpoint.present = false := by
    simp only [run, Clients.start, booted_empty]
    exact ⟨_, rfl, rfl, rfl⟩
  obtain ⟨checkpoint, hwrites, hid, habsent⟩ := hwrites
  refine ⟨?_, ?_, checkpoint, hwrites ▸ List.mem_singleton_self _, hid, habsent, fun h => ?_⟩
  · simp only [run, Clients.start, booted_empty]
    rfl
  · simp only [run, Clients.start, booted_empty]
    rfl
  · rw [CheckpointWrite.Current, habsent] at h
    cases h.1

end Rekuiper.Rules
