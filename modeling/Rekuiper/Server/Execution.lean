import Rekuiper.Rules.Ownership
import Rekuiper.Server.Handlers

/-!
# Running rules are executed

A handler that lets a rule run without a task owes it one, and pays by registering the task
that it spawns. So a running rule has a task of its definition or a handler that owes it one,
unless a bulk start lets it run, a task registers after the definition it was spawned from
has been replaced, or spawning it panics.
-/

namespace Rekuiper.Server

open Lib Rules

variable {F Text : Type} {lang : Manifest.Language F} {r r' : Registry F} {id : String} {cell : Nat}
  {active : ActiveRule F}

-- ---- Debts

abbrev Standing := Phase × Option String

def nextDebt (bulk : Bool) (s : Standing) : (op : RuleOp F) → op.Answer → Option String
  | .insert rule, _ => some rule.id
  | .changeAt id change, _ =>
    match change with
    | .start _ => if bulk then s.2 else some id
    | _ => s.2
  | .changeCell _ change, _ =>
    match s.1, change with
    | .found id _ _, .define _ wasRunning => if wasRunning then some id else s.2
    | .found id _ _, .restart _ => some id
    | _, _ => s.2
  | .find id, answer =>
    if Option.isNone (α := Nat × ActiveRule F) answer && s.2 == some id then none else s.2
  | .setRuleHandle _ _, _ => none
  | _, _ => s.2

def Parses (lang : Manifest.Language F) (rule : RuleDefinition F) : Prop :=
  ∃ stmt, lang.parseSelect rule.sql = .ok stmt

/-- A handler takes a debt only if it has none, and changes rules only through the manager's
operations, to definitions that parse. -/
def StandingAllows (lang : Manifest.Language F) (s : Standing) (op : RuleOp F) : Prop :=
  s.1.Allows op ∧
    match op with
    | .insert rule => s.2 = none ∧ Parses lang rule
    | .changeAt _ change => s.2 = none ∧
      match change with
      | .start _ | .stop _ | .halt _ _ => True
      | .define _ _ | .restart _ => False
    | .changeCell cell change => s.2 = none ∧
      ((∃ now, change = .restart now) ∨
        ∃ rule id wasRunning, change = .define rule wasRunning ∧ Parses lang rule ∧
          s.1 = .found id cell wasRunning)
    | .setRuleHandle id _ => ∀ owed, s.2 = some owed → owed = id
    | _ => True

def AnswerOk (lang : Manifest.Language F) : (op : RuleOp F) → op.Answer → Prop
  | .find _, answer => ∀ found : Nat × ActiveRule F, answer = some found →
    Parses lang found.2.definition
  | .openQueue _, answer => Eq (α := Bool) answer true
  | _, _ => True

def handlerProtocol (lang : Manifest.Language F) (bulk : Bool) :
    Protocol (RuleOp F) RuleOp.Answer Standing where
  allows := StandingAllows lang
  answers := AnswerOk lang
  next s op answer := (s.1.next op answer, nextDebt bulk s op answer)

-- ---- The invariant

def Executes (r : Registry F) (active : ActiveRule F) : Prop :=
  ∃ task spawned, active.handle = some task ∧ r.tasks[task]? = some spawned ∧
    spawned.definition = active.definition

structure Executed (lang : Manifest.Language F) (standing : Nat → Standing)
    (r : Registry F) : Prop where
  owned : Owned (Prod.fst ∘ standing) r
  parses : ∀ id found, r.find id = some found → Parses lang found.2.definition
  executed : ∀ id found, r.find id = some found → Rules.isRunning found.2 = true →
    Executes r found.2 ∨ ∃ t, (standing t).2 = some id

/-- Not so for three kinds of steps: a bulk start of a rule that is not running, the
registration of a task with a running rule that has another definition by now, and opening a
queue of more slots than a semaphore has permits. -/
def Timely (bulk : Nat → Bool) (e : Event (RuleOp F) RuleOp.Answer (World F Text)) : Prop :=
  match e.op with
  | .changeAt id (.start _) => bulk e.thread = true → e.before.runs id = true
  | .setRuleHandle id task => ∀ found spawned, e.before.find id = some found →
    Rules.isRunning found.2 = true → e.before.tasks[task]? = some spawned →
    spawned.definition = found.2.definition
  | .openQueue capacity => capacity ≤ maxPermits
  | _ => True

section
variable {standing : Nat → Standing} {t : Nat} {next : Standing}

theorem Executes.mono (htasks : r.tasks <+: r'.tasks) (h : Executes r active) :
    Executes r' active := by
  obtain ⟨task, spawned, hhandle, hspawned, hdefinition⟩ := h
  obtain ⟨later, hlater⟩ := htasks
  refine ⟨task, spawned, hhandle, ?_, hdefinition⟩
  rw [← hlater, List.getElem?_append_left (List.getElem?_eq_some_iff.mp hspawned).1, hspawned]

theorem Executed.update (h : Executed lang standing r) (id : String)
    (howned : Owned (Function.update (Prod.fst ∘ standing) t next.1) r')
    (hframe : ∀ other, other ≠ id → r'.find other = r.find other)
    (htasks : r.tasks <+: r'.tasks)
    (hdebt : ∀ owed, (standing t).2 = some owed → owed = id ∨ next.2 = some owed)
    (hparses : ∀ found, r'.find id = some found → Parses lang found.2.definition)
    (hexecuted : ∀ found, r'.find id = some found → Rules.isRunning found.2 = true →
      Executes r' found.2 ∨ ∃ t', (Function.update standing t next t').2 = some id) :
    Executed lang (Function.update standing t next) r' where
  owned := by rwa [Function.comp_update]
  parses other found hfound := by
    by_cases hother : other = id
    · subst other
      exact hparses found hfound
    · exact h.parses other found (hframe other hother ▸ hfound)
  executed other found hfound hrunning := by
    by_cases hother : other = id
    · subst other
      exact hexecuted found hfound hrunning
    · rcases h.executed other found (hframe other hother ▸ hfound) hrunning with hexec | ⟨t', ht'⟩
      · exact .inl (hexec.mono htasks)
      · refine .inr ⟨t', ?_⟩
        by_cases hself : t' = t
        · subst t'
          rw [Function.update_self]
          exact (hdebt other ht').resolve_left hother
        · rwa [Function.update_of_ne hself]

theorem Executed.same (h : Executed lang standing r) (id : String)
    (howned : Owned (Function.update (Prod.fst ∘ standing) t next.1) r')
    (hfind : ∀ other, r'.find other = r.find other)
    (htasks : r.tasks <+: r'.tasks)
    (hdebt : (standing t).2 = next.2 ∨ (r.find id = none ∧ (standing t).2 = some id)) :
    Executed lang (Function.update standing t next) r' := by
  refine h.update id howned (fun other _ => hfind other) htasks ?_ ?_ ?_
  · intro owed howed
    rcases hdebt with hsame | ⟨-, hid⟩
    · exact .inr (hsame ▸ howed)
    · exact .inl (Option.some.inj (howed.symm.trans hid))
  · intro found hfound
    exact h.parses id found (hfind id ▸ hfound)
  · intro found hfound hrunning
    rw [hfind] at hfound
    rcases hdebt with hsame | ⟨hnone, -⟩
    · rcases h.executed id found hfound hrunning with hexec | ⟨t', ht'⟩
      · exact .inl (hexec.mono htasks)
      · refine .inr ⟨t', ?_⟩
        by_cases hself : t' = t
        · subst t'
          rw [Function.update_self, ← hsame]
          exact ht'
        · rwa [Function.update_of_ne hself]
    · rw [hnone] at hfound
      cases hfound

theorem owes_after (howes : next.2 = some id) :
    ∃ t', (Function.update standing t next t').2 = some id :=
  ⟨t, by rw [Function.update_self, howes]⟩

theorem Executed.change (h : Executed lang standing r) {running : Bool}
    (hphase : (standing t).1 = .found id cell running) (hfind : r.find id = some (cell, active))
    (change : Change F) (hfree : (standing t).2 = none)
    (hparses : Parses lang (change.apply active).definition) {debt : Option String}
    (hexecuted : Rules.isRunning (change.apply active) = true →
      debt = some id ∨ (debt = none ∧ change.aborts = false ∧ Rules.isRunning active = true ∧
        (change.apply active).definition = active.definition)) :
    Executed lang (Function.update standing t (.held, debt)) (r.change cell active change) := by
  have hchanged := find_change h.owned.cells hfind change
  refine h.update id (h.owned.change hphase hfind change) (fun other hother => ?_)
    (List.prefix_refl _) (fun owed howed => ?_) (fun found hfound => ?_) fun found hfound => ?_
  · rw [hchanged, if_neg hother]
  · rw [hfree] at howed
    cases howed
  · rw [hchanged, if_pos rfl] at hfound
    cases hfound
    exact hparses
  · rw [hchanged, if_pos rfl] at hfound
    cases hfound
    intro hrunning
    rcases hexecuted hrunning with howes | ⟨hnone, haborts, hwas, hsame⟩
    · exact .inr (owes_after howes)
    · -- the task that the rule held, or the debt that another handler has, is still there
      rcases h.executed id _ hfind hwas with ⟨task, spawned, hhandle, hspawned, hdef⟩ | ⟨t', ht'⟩
      · refine .inl ⟨task, spawned, ?_, hspawned, hdef.trans hsame.symm⟩
        simp only [Change.apply, haborts]
        exact hhandle
      · refine .inr ⟨t', ?_⟩
        by_cases hself : t' = t
        · subst t'
          rw [hfree] at ht'
          cases ht'
        · rwa [Function.update_of_ne hself]

theorem Executed.setRuleHandle (h : Executed lang standing r) {task : Nat}
    (hphase : (standing t).1 = .spawned id task)
    (hdebt : ∀ owed, (standing t).2 = some owed → owed = id)
    (htimely : ∀ found spawned, r.find id = some found → Rules.isRunning found.2 = true →
      r.tasks[task]? = some spawned → spawned.definition = found.2.definition) :
    Executed lang (Function.update standing t (.free, none)) (r.setRuleHandle id task) := by
  have howned := h.owned.setRuleHandle hphase
  cases hfind : r.find id with
  | none =>
    refine h.same id howned (fun other => ?_) ?_ ?_
    · rw [setRuleHandle_absent hfind]
      rfl
    · have htasks : (r.setRuleHandle id task).tasks = r.tasks := by
        rw [setRuleHandle_absent hfind]
      exact htasks ▸ List.prefix_refl _
    · cases howed : (standing t).2 with
      | none => exact .inl rfl
      | some owed => exact .inr ⟨hfind, congrArg some (hdebt owed howed)⟩
  | some found =>
    obtain ⟨cell, active⟩ := found
    have hchanged := fun other => find_setRuleHandle task h.owned.cells hfind other
    have htasks : (r.setRuleHandle id task).tasks = r.tasks := by rw [setRuleHandle_present hfind]
    refine h.update id howned (fun other hother => ?_) (htasks ▸ List.prefix_refl _)
      (fun owed howed => .inl (hdebt owed howed)) (fun found hfound => ?_) fun found hfound => ?_
    · rw [hchanged, if_neg hother]
    · rw [hchanged, if_pos rfl] at hfound
      cases hfound
      exact h.parses id (cell, active) hfind
    · rw [hchanged, if_pos rfl] at hfound
      cases hfound
      intro hrunning
      have hwas : Rules.isRunning active = true := hrunning
      have hok := h.owned.phases t
      rw [Function.comp_apply, hphase] at hok
      obtain ⟨-, -, spawned, hspawned, -⟩ := hok
      refine .inl ⟨task, spawned, if_pos hwas, htasks ▸ hspawned, ?_⟩
      exact htimely (cell, active) spawned hfind hwas hspawned

theorem Executed.step {w : World F Text} (h : Executed lang standing w.toRegistry) {op : RuleOp F}
    (hallow : StandingAllows lang (standing t) op) (hexec : w.toRegistry.exec t op = some r')
    {bulk : Nat → Bool} (htimely : Timely bulk ⟨t, w, op, w.answer op⟩) :
    Executed lang (Function.update standing t ((standing t).1.next op (w.answer op),
      nextDebt (bulk t) (standing t) op (w.answer op))) r' := by
  obtain ⟨hbase, hextra⟩ := hallow
  have howned := h.owned.step hbase hexec
  have hok := h.owned.phases t
  cases op with
  | lock =>
    obtain ⟨-, rfl⟩ := Option.ite_some_none_eq_some.mp hexec
    exact h.same "" howned (fun _ => rfl) (List.prefix_refl _) (.inl rfl)
  | unlock | list | persist | unpersist | deleteCheckpoint | openQueue =>
    obtain rfl := Option.some.inj hexec
    exact h.same "" howned (fun _ => rfl) (List.prefix_refl _) (.inl rfl)
  | spawn task =>
    obtain rfl := Option.some.inj hexec
    exact h.same "" howned (fun _ => rfl) (List.prefix_append _ _) (.inl rfl)
  | find id =>
    obtain rfl := Option.some.inj hexec
    refine h.same id howned (fun _ => rfl) (List.prefix_refl _) ?_
    by_cases hnone : ((w.find id).isNone && (standing t).2 == some id) = true
    · rw [Bool.and_eq_true, Option.isNone_iff_eq_none, beq_iff_eq] at hnone
      exact .inr hnone
    · exact .inl (if_neg hnone).symm
  | insert rule =>
    obtain rfl := Option.some.inj hexec
    have hadded := find_addRule h.owned.cells (freshRule rule "running") rule.id
    refine h.update rule.id howned (fun other hother => ?_) (List.prefix_refl _)
      (fun owed howed => ?_) (fun found hfound => ?_) fun _ _ _ => .inr (owes_after rfl)
    · exact (hadded other).trans (if_neg hother)
    · rw [hextra.1] at howed
      cases howed
    · rw [hadded, if_pos rfl] at hfound
      cases hfound
      exact hextra.2
  | remove id =>
    obtain rfl := Option.some.inj hexec
    obtain ⟨cell, running, hphase⟩ := hbase
    rw [Function.comp_apply, hphase] at hok
    obtain ⟨-, active, hfind, -⟩ := hok
    have hremoved := find_removeRule h.owned.cells hfind
    have hgone : ∀ found, (w.removeRule id).find id ≠ some found := by
      intro found hfound
      rw [hremoved, if_pos rfl] at hfound
      cases hfound
    refine h.update id howned (fun other hother => (hremoved other).trans (if_neg hother)) ?_
      (fun owed howed => .inr howed) (fun found hfound => absurd hfound (hgone found))
      fun found hfound => absurd hfound (hgone found)
    have htasks : (w.removeRule id).tasks = w.tasks := by rw [Registry.removeRule, hfind]
    exact htasks ▸ List.prefix_refl _
  | changeAt id change =>
    obtain ⟨cell, running, hphase⟩ := hbase
    rw [Function.comp_apply, hphase] at hok
    obtain ⟨-, active, hfind, -⟩ := hok
    rw [Registry.exec, hfind] at hexec
    obtain rfl := Option.some.inj hexec
    obtain ⟨hfree, hkind⟩ := hextra
    have hparses := h.parses id _ hfind
    cases change with
    | start now =>
      refine h.change hphase hfind (.start now) hfree hparses fun _ => ?_
      cases hbulk : bulk t with
      | false => exact .inl rfl
      | true =>
        have hwas := htimely hbulk
        rw [runs_some hfind] at hwas
        exact .inr ⟨hfree, rfl, hwas, rfl⟩
    | stop now =>
      exact h.change hphase hfind (.stop now) hfree hparses fun hrunning =>
        (Bool.false_ne_true hrunning).elim
    | halt error now =>
      exact h.change hphase hfind (.halt error now) hfree hparses fun hrunning =>
        (Bool.false_ne_true hrunning).elim
    | define rule wasRunning => exact hkind.elim
    | restart now => exact hkind.elim
  | changeCell cell change =>
    obtain ⟨id, running, hphase⟩ := hbase
    rw [Function.comp_apply, hphase] at hok
    obtain ⟨-, active, hfind, hactive⟩ := hok
    rw [Registry.exec, (find_eq_some.mp hfind).2] at hexec
    obtain rfl := Option.some.inj hexec
    obtain ⟨hfree, ⟨now, rfl⟩ | ⟨rule, id', wasRunning, rfl, hrule, hphase'⟩⟩ := hextra
    · refine h.change hphase hfind (.restart now) hfree (h.parses id _ hfind) fun _ => .inl ?_
      simp only [nextDebt, show (standing t).1 = .found id cell running from hphase]
    · obtain ⟨rfl, -, rfl⟩ := Phase.found.inj (hphase'.symm.trans hphase)
      refine h.change hphase hfind (.define rule wasRunning) hfree hrule fun hrunning => .inl ?_
      have hwas : wasRunning = true := hactive.symm.trans hrunning
      simp only [nextDebt, hphase', hwas, if_true]
  | setRuleHandle id task =>
    obtain rfl := Option.some.inj hexec
    exact h.setRuleHandle hbase hextra htimely

end

-- ---- The operations of the manager

section
variable {α : Type} {bulk : Bool}

def LeavesLocked (lang : Manifest.Language F) (bulk : Bool) (phase : Phase) (body : RuleProg F α)
    (debt : α → Option String) : Prop :=
  body.Follows (handlerProtocol lang bulk) (fun s result => s.1.holds = true ∧ s.2 = debt result)
    (phase, none)

def Settles (lang : Manifest.Language F) (bulk : Bool) (before : Option String)
    (body : RuleProg F α)
    (after : α → Option String) : Prop :=
  body.Follows (handlerProtocol lang bulk) (fun s result => s = (.free, after result))
    (.free, before)

def onOk (debt : α → Option String) : Except RuleError α → Option String
  | .ok a => debt a
  | .error _ => none

theorem Settles.bind {β : Type} {before : Option String} {p : RuleProg F α}
    {f : α → RuleProg F β} {between : α → Option String} {after : β → Option String}
    (hp : Settles lang bulk before p between)
    (hf : ∀ a, Settles lang bulk (between a) (f a) after) :
    Settles lang bulk before (p >>= f) after := by
  refine Prog.Follows.bind hp fun s a hs => ?_
  subst hs
  exact hf a

theorem settles_pure {debt : Option String} {a : α} {after : α → Option String}
    (h : debt = after a) : Settles lang bulk debt (pure a : RuleProg F α) after :=
  congrArg (Prod.mk Phase.free) h

theorem settles_locked {body : RuleProg F α} {debt : α → Option String}
    (h : LeavesLocked lang bulk .held body debt) : Settles lang bulk none (locked body) debt := by
  refine Prog.follows_perform ⟨rfl, trivial⟩ fun _ _ => Prog.Follows.bind h fun s a hs => ?_
  exact Prog.follows_perform ⟨hs.1, trivial⟩ fun _ _ => congrArg (Prod.mk Phase.free) hs.2

theorem leavesLocked_findRule {f : Option (Nat × ActiveRule F) → RuleProg F α}
    {debt : α → Option String} (hnone : LeavesLocked lang bulk (.absent id) (f none) debt)
    (hsome : ∀ cell active, LeavesLocked lang bulk (.found id cell (Rules.isRunning active))
      (f (some (cell, active))) debt) :
    LeavesLocked lang bulk .held (findRule id >>= f) debt := by
  refine Prog.follows_perform ⟨nofun, trivial⟩ fun answer _ => ?_
  cases answer with
  | none => exact hnone
  | some found => exact hsome found.1 found.2

theorem settles_transition {id : String} {definition : ActiveRule F → RuleDefinition F}
    {status : ActiveRule F → String} {commit : Nat → ActiveRule F → RuleProg F Unit}
    {result : ActiveRule F → α} {debt : α → Option String}
    (hcommit : ∀ cell active, LeavesLocked lang bulk (.found id cell (Rules.isRunning active))
      (commit cell active) fun _ => debt (result active)) :
    Settles lang bulk none (transition id definition status commit result) (onOk debt) := by
  refine settles_locked (leavesLocked_findRule ⟨rfl, rfl⟩ fun cell active => ?_)
  refine Prog.follows_perform ⟨nofun, trivial⟩ fun stored _ => ?_
  cases stored with
  | false => exact ⟨rfl, rfl⟩
  | true => exact (hcommit cell active).bind fun s _ hs => hs

theorem settles_createRule {rule : RuleDefinition F} (hrule : Parses lang rule) :
    Settles lang bulk none (Rules.createRule rule) (onOk fun _ => some rule.id) := by
  refine settles_locked (leavesLocked_findRule ?_ fun _ _ => ⟨rfl, rfl⟩)
  refine Prog.follows_perform ⟨nofun, trivial⟩ fun stored _ => ?_
  cases stored with
  | false => exact ⟨rfl, rfl⟩
  | true =>
    refine Prog.Follows.ite (fun _ => Prog.Follows.ite (fun _ => ?_) fun _ => ⟨rfl, rfl⟩)
      fun _ => ⟨rfl, rfl⟩
    exact Prog.follows_perform ⟨rfl, rfl, hrule⟩ fun _ _ => ⟨rfl, rfl⟩

theorem settles_updateRule {rule : RuleDefinition F} (hrule : Parses lang rule) :
    Settles lang bulk none (Rules.updateRule rule)
      (onOk fun wasRunning => if wasRunning then some rule.id else none) :=
  settles_transition fun _ _ =>
    ⟨⟨⟨rule.id, _, rfl⟩, rfl, .inr ⟨rule, rule.id, _, rfl, hrule, rfl⟩⟩, fun _ _ => ⟨rfl, rfl⟩⟩

theorem settles_startRule (id : String) (now : Int) :
    Settles lang bulk none (Rules.startRule id now : RuleProg F _)
      (onOk fun _ => if bulk then none else some id) :=
  settles_transition fun cell _ => ⟨⟨⟨cell, _, rfl⟩, rfl, trivial⟩, fun _ _ => ⟨rfl, rfl⟩⟩

theorem settles_restartRule (id : String) (now : Int) :
    Settles lang bulk none (Rules.restartRule id now : RuleProg F _) (onOk fun _ => some id) :=
  settles_transition fun _ _ =>
    ⟨⟨⟨id, _, rfl⟩, rfl, .inl ⟨now, rfl⟩⟩, fun _ _ => ⟨rfl, rfl⟩⟩

theorem settles_stopRule (id : String) (now : Int) :
    Settles lang bulk none (Rules.stopRule id now : RuleProg F _) fun _ => none := by
  have h : Settles lang bulk none (Rules.stopRule id now : RuleProg F _) (onOk fun _ => none) :=
    settles_transition fun cell _ => ⟨⟨⟨cell, _, rfl⟩, rfl, trivial⟩, fun _ _ => ⟨rfl, rfl⟩⟩
  refine h.mono fun s result hs => hs.trans (congrArg (Prod.mk Phase.free) ?_)
  cases result <;> rfl

theorem settles_deleteRule (id : String) :
    Settles lang bulk none (Rules.deleteRule id : RuleProg F _) fun _ => none := by
  refine settles_locked (leavesLocked_findRule ⟨rfl, rfl⟩ fun cell active => ?_)
  refine Prog.follows_perform ⟨nofun, trivial⟩ fun stored _ => ?_
  cases stored with
  | false => exact ⟨rfl, rfl⟩
  | true =>
    exact Prog.follows_perform ⟨nofun, trivial⟩ fun _ _ =>
      Prog.follows_perform ⟨⟨cell, _, rfl⟩, trivial⟩ fun _ _ => ⟨rfl, rfl⟩

-- ---- The handlers

theorem settles_spawnRuleTask {debt : Option String} (hdebt : ∀ owed, debt = some owed → owed = id)
    (rule : RuleDefinition F) (stmt : Sql.SelectStmt F) :
    Settles lang bulk debt (spawnRuleTask id rule stmt) fun _ => none := by
  refine Prog.follows_perform ⟨nofun, trivial⟩ fun status _ => ?_
  refine Prog.follows_perform ⟨nofun, trivial⟩ fun opened hopened => ?_
  obtain rfl : opened = true := hopened
  refine Prog.follows_perform ⟨rfl, trivial⟩ fun task _ => ⟨⟨rfl, ?_⟩, fun _ _ => rfl⟩
  intro owed howed
  exact hdebt owed (Option.ite_none_left_eq_some.mp howed).2

theorem settles_spawnParsed {rule : RuleDefinition F} (hrule : Parses lang rule)
    (answer : Response) :
    Settles lang bulk (some id) (spawnParsed lang id rule answer) fun _ => none := by
  obtain ⟨stmt, hstmt⟩ := hrule
  unfold spawnParsed
  rw [hstmt]
  refine (settles_spawnRuleTask (fun owed howed => (Option.some.inj howed).symm) rule stmt).bind
    fun result => ?_
  cases result <;> exact settles_pure rfl

theorem settles_activateRule (id : String) (response : Response) :
    Settles lang bulk (some id) (activateRule lang id response) fun _ => none := by
  refine ⟨⟨nofun, trivial⟩, fun answer hanswer => ?_⟩
  cases answer with
  | none => exact congrArg (Prod.mk Phase.free) (if_pos (by simp))
  | some found => exact settles_spawnParsed (hanswer found rfl) response

theorem settles_findRule (id : String) :
    Settles lang bulk none (findRule id : RuleProg F _) fun _ => none :=
  ⟨⟨nofun, trivial⟩, fun _ _ => congrArg (Prod.mk Phase.free) (ite_self none)⟩

theorem settles_getRule (id : String) :
    Settles lang bulk none (getRule id : RuleProg F _) fun _ => none :=
  (settles_findRule id).bind fun _ => settles_pure rfl

theorem settles_getRuleStatus (id : String) :
    Settles lang bulk none (getRuleStatus id : RuleProg F _) fun _ => none :=
  (settles_findRule id).bind fun _ => settles_pure rfl

theorem settles_withRule {name : String} {body : RuleProg F Response}
    (h : Settles lang bulk none body fun _ => none) :
    Settles lang bulk none (withRule name body) fun _ => none := by
  unfold withRule
  cases checkValidName name with
  | error response => exact settles_pure rfl
  | ok _ =>
    refine (settles_getRule name).bind fun found => ?_
    cases found with
    | none => exact settles_pure rfl
    | some rule => exact h

variable {validateDataTemplate : String → Except String Unit}

theorem settles_createHandler (state : AppState F Text) (rule : RuleDefinition F) :
    Settles lang bulk none (handleCreateRule lang validateDataTemplate state rule)
      fun _ => none := by
  unfold handleCreateRule
  cases hchecked : checkedRule lang validateDataTemplate state rule with
  | error response => exact settles_pure rfl
  | ok created =>
    obtain ⟨-, -, -, -, -, stmt, hstmt, -⟩ := checkedRule_eq_ok.mp hchecked
    refine (settles_createRule ⟨stmt, hstmt⟩).bind fun result => ?_
    cases result with
    | error e => cases e <;> exact settles_pure rfl
    | ok _ => exact settles_spawnParsed ⟨stmt, hstmt⟩ _

theorem checkedUpdate_ok {state : AppState F Text} {name : String} {rule stored : RuleDefinition F}
    (h : checkedUpdate lang validateDataTemplate state name rule = .ok stored) :
    stored.id = name ∧ Parses lang stored := by
  obtain ⟨-, h⟩ := check_bind_ok_iff.mp h
  obtain ⟨compiled, hcompiled, h⟩ := bind_eq_ok h
  obtain ⟨-, h⟩ := check_bind_ok_iff.mp h
  obtain ⟨stmt, hstmt, h⟩ := bind_eq_ok h
  obtain ⟨-, h⟩ := check_bind_ok_iff.mp h
  cases h
  exact ⟨(withCompiledGraph_keeps ((mapError_ok_iff _).mp hcompiled)).1, stmt,
    (checkedStmt_eq_ok.mp hstmt).1⟩

theorem settles_updateHandler (state : AppState F Text) (name : String)
    (rule : RuleDefinition F) :
    Settles lang bulk none (handleUpdateRule lang validateDataTemplate state name rule)
      fun _ => none := by
  refine settles_withRule ?_
  cases hchecked : checkedUpdate lang validateDataTemplate state name rule with
  | error response => exact settles_pure rfl
  | ok stored =>
    obtain ⟨rfl, hparses⟩ := checkedUpdate_ok hchecked
    refine (settles_updateRule hparses).bind fun result => ?_
    rcases result with e | wasRunning
    · exact settles_pure rfl
    · cases wasRunning with
      | false => exact settles_pure rfl
      | true => exact settles_spawnParsed hparses _

theorem settles_startHandler (name : String) (now : Int) :
    Settles lang false none (handleStartRule lang name now) fun _ => none := by
  refine settles_withRule ((settles_getRuleStatus name).bind fun status => ?_)
  split
  · exact settles_pure rfl
  · refine (settles_startRule name now).bind fun result => ?_
    cases result with
    | error e => exact settles_pure rfl
    | ok _ => exact settles_activateRule name _

theorem settles_stopHandler (name : String) (now : Int) :
    Settles lang bulk none (handleStopRule name now : RuleProg F _) fun _ => none := by
  refine settles_withRule ((settles_getRuleStatus name).bind fun status => ?_)
  split
  · exact settles_pure rfl
  · refine (settles_stopRule name now).bind fun result => ?_
    cases result <;> exact settles_pure rfl

theorem settles_restartHandler (name : String) (now : Int) :
    Settles lang bulk none (handleRestartRule lang name now) fun _ => none := by
  refine settles_withRule ((settles_restartRule name now).bind fun result => ?_)
  cases result with
  | error e => exact settles_pure rfl
  | ok _ => exact settles_activateRule name _

theorem settles_deleteHandler (name : String) :
    Settles lang bulk none (handleDeleteRule name : RuleProg F _) fun _ => none := by
  refine settles_withRule ((settles_deleteRule name).bind fun result => ?_)
  cases result <;> exact settles_pure rfl

theorem settles_bulk {tags : List String} {op : String → RuleProg F (Except RuleError Unit)}
    (h : ∀ id, Settles lang bulk none (op id) fun _ => none) :
    Settles lang bulk none (Server.bulk tags op) fun _ => none := by
  have hloop : ∀ rules, Settles lang bulk none (forEachRule op rules) fun _ => none := by
    intro rules
    induction rules with
    | nil => exact settles_pure rfl
    | cons rule rest ih => exact (h rule.id).bind fun _ => ih.bind fun _ => settles_pure rfl
  have hlist : Settles lang bulk none (listRules : RuleProg F _) fun _ => none :=
    ⟨⟨nofun, trivial⟩, fun _ _ => rfl⟩
  exact hlist.bind fun _ => (hloop _).bind fun _ => settles_pure rfl

theorem settles_handle (request : RuleRequest F Text) :
    Settles lang request.isBulkStart none (request.handle lang validateDataTemplate)
      fun _ => none := by
  cases request with
  | create state rule => exact settles_createHandler state rule
  | update state name rule => exact settles_updateHandler state name rule
  | start name now => exact settles_startHandler name now
  | stop name now => exact settles_stopHandler name now
  | restart name now => exact settles_restartHandler name now
  | delete name => exact settles_deleteHandler name
  | bulkStart tags now =>
    refine settles_bulk fun id => (settles_startRule id now).mono fun s result hs =>
      hs.trans (congrArg (Prod.mk Phase.free) ?_)
    cases result <;> rfl
  | bulkStop tags now => exact settles_bulk fun id => settles_stopRule id now

end

-- ---- Runs

section
variable {Store : Type}

def bulkThread (requests : Nat → Option (RuleRequest F Text)) (t : Nat) : Bool :=
  (requests t).any (·.isBulkStart)

theorem settles_serve (lang : Manifest.Language F)
    (validateDataTemplate : String → Except String Unit)
    (codec : EnvelopeCodec F Store) (requests : Nat → Option (RuleRequest F Text)) (t : Nat) :
    Settles lang (bulkThread requests t) none
      ((serve lang validateDataTemplate codec requests).threads t) fun _ => none := by
  simp only [serve, bulkThread]
  cases requests t with
  | none => exact settles_pure rfl
  | some request => exact settles_handle request

theorem booted_executed (lang : Manifest.Language F) (codec : EnvelopeCodec F Store) :
    Executed lang (fun _ => (.free, none)) (World.booted codec ∅).toRegistry where
  owned := (booted_idle codec ∅).owned
  parses id found hfound := by
    rw [booted_empty] at hfound
    cases hfound
  executed id found hfound := by
    rw [booted_empty] at hfound
    cases hfound

theorem serve_executed (lang : Manifest.Language F)
    (validateDataTemplate : String → Except String Unit)
    (codec : EnvelopeCodec F Store) (states : StateCodec F Store)
    (requests : Nat → Option (RuleRequest F Text)) (schedule : List (Choice (Action F)))
    (htimely : ∀ e ∈ ((serve lang validateDataTemplate codec requests).run (machine codec states)
      schedule).2, Timely (bulkThread requests) e) :
    ∃ standing, Executed lang standing ((serve lang validateDataTemplate codec requests).run
        (machine codec states) schedule).1.state.toRegistry ∧
      ∀ t, (((serve lang validateDataTemplate codec requests).run (machine codec states)
        schedule).1.threads t).Follows (handlerProtocol lang (bulkThread requests t))
        (fun s _ => s = (.free, none)) (standing t) := by
  refine run_invariant (fun t => handlerProtocol lang (bulkThread requests t))
    (fun _ s _ => s = (.free, none)) (fun standing w => Executed lang standing w.toRegistry)
    (Timely (bulkThread requests)) ?_ ?_ _ schedule (fun _ => (.free, none))
    (booted_executed lang codec) (settles_serve lang validateDataTemplate codec requests) htimely
  · intro standing w t op answer w' h hallow hexec hgood
    obtain ⟨rfl, hregistry⟩ := exec_eq_some hexec
    refine ⟨?_, h.step hallow hregistry hgood⟩
    cases op with
    | find id => exact fun found hfound => h.parses id found hfound
    | openQueue capacity => exact decide_eq_true (show capacity ≤ maxPermits from hgood)
    | _ => trivial
  · intro standing w action h
    show Executed lang standing (w.act states action).toRegistry
    rwa [act_registry]

/-- When all requests are answered, every running rule has a live task that was spawned from
its definition, if no bulk start let a rule run that was not running, no task registered
with a running rule after the definition it was spawned from had been replaced, and no queue
was opened that is too large. -/
theorem running_rules_executed (lang : Manifest.Language F)
    (validateDataTemplate : String → Except String Unit) (codec : EnvelopeCodec F Store)
    (states : StateCodec F Store) (requests : Nat → Option (RuleRequest F Text))
    (schedule : List (Choice (Action F))) :
    let run := (serve lang validateDataTemplate codec requests).run (machine codec states) schedule
    (∀ e ∈ run.2, Timely (bulkThread requests) e) →
      (∀ t, ∃ response, run.1.threads t = .pure response) →
      ∀ id found, run.1.state.find id = some found → Rules.isRunning found.2 = true →
        ∃ task spawned, run.1.state.Live id task ∧ run.1.state.tasks[task]? = some spawned ∧
          spawned.definition = found.2.definition := by
  intro run htimely hend id found hfound hrunning
  obtain ⟨standing, h, hfollows⟩ := serve_executed lang validateDataTemplate codec states requests
    schedule htimely
  have hsettled : ∀ t, (standing t).2 = none := by
    intro t
    obtain ⟨response, hresponse⟩ := hend t
    have hfollow := hfollows t
    rw [show _ = Prog.pure response from hresponse] at hfollow
    exact congrArg Prod.snd (show standing t = _ from hfollow)
  rcases h.executed id found hfound hrunning with ⟨task, spawned, hhandle, hspawned, hdef⟩ | ⟨t, ht⟩
  · have hheld : run.1.state.handleOf id = some task := (handleOf_some hfound).trans hhandle
    obtain ⟨-, hlive, -, hfor⟩ := h.owned.tasks.held id task hheld
    exact ⟨task, spawned, ⟨hfor, hlive⟩, hspawned, hdef⟩
  · rw [hsettled t] at ht
    cases ht

end

def createRequests : Nat → Option (RuleRequest ℚ (RuleDefinition ℚ × String ⊕ StreamDefinition))
  | 0 => some (.create demoState (Manifest.sampleRule "SELECT * FROM demo"))
  | _ => none

theorem created_rule_executed :
    let run := (serve selectDemo (fun _ => .ok ()) .plain createRequests).run
      (machine .plain plainStates) (List.replicate 9 (.thread 0))
    (∀ e ∈ run.2, Timely (bulkThread createRequests) e) ∧
      (∀ t, ∃ response, run.1.threads t = .pure response) ∧
      ∃ found task, run.1.state.find "r" = some found ∧ Rules.isRunning found.2 = true ∧
        run.1.state.Live "r" task := by
  intro run
  have htimely : ∀ e ∈ run.2, Timely (bulkThread createRequests) e := by
    simp only [run, serve, booted_empty]
    iterate 6 refine List.forall_mem_cons.mpr ⟨trivial, ?_⟩
    refine List.forall_mem_cons.mpr ⟨show 32768 ≤ maxPermits by decide, ?_⟩
    refine List.forall_mem_cons.mpr ⟨trivial, ?_⟩
    refine List.forall_mem_cons.mpr ⟨?_, List.forall_mem_nil _⟩
    intro found spawned hfound _ hspawned
    cases hfound
    cases hspawned
    rfl
  have hend : ∀ t, ∃ response, run.1.threads t = .pure response := by
    intro t
    cases t with
    | zero =>
      simp only [run, serve, booted_empty]
      exact ⟨_, rfl⟩
    | succ t => exact ⟨_, run_unscheduled (by simp)⟩
  have hfound : ∃ found, run.1.state.find "r" = some found ∧ Rules.isRunning found.2 = true := by
    simp only [run, serve, booted_empty]
    exact ⟨_, rfl, rfl⟩
  obtain ⟨found, hfind, hrunning⟩ := hfound
  obtain ⟨task, spawned, hlive, -⟩ := running_rules_executed selectDemo (fun _ => .ok ()) .plain
    plainStates createRequests _ htimely hend "r" found hfind hrunning
  exact ⟨htimely, hend, found, task, hfind, hrunning, hlive⟩

def bulkRequests : Nat → Option (RuleRequest ℚ (RuleDefinition ℚ × String ⊕ StreamDefinition))
  | 0 => some (.create demoState (Manifest.sampleRule "SELECT * FROM demo"))
  | 1 => some (.stop "r" 0)
  | 2 => some (.bulkStart [] 0)
  | _ => none

theorem bulk_started_rule_not_executed :
    let run := (serve selectDemo (fun _ => .ok ()) .plain bulkRequests).run
      (machine .plain plainStates)
      (List.replicate 9 (.thread 0) ++ List.replicate 8 (.thread 1) ++ List.replicate 8 (.thread 2))
    (∀ t, ∃ response, run.1.threads t = .pure response) ∧
      (∃ found, run.1.state.find "r" = some found ∧ Rules.isRunning found.2 = true) ∧
      ∀ task, ¬run.1.state.Live "r" task := by
  intro run
  refine ⟨fun t => ?_, ?_, ?_⟩
  · match t with
    | 0 | 1 | 2 =>
      simp only [run, serve, booted_empty]
      exact ⟨_, rfl⟩
    | t + 3 => exact ⟨_, run_unscheduled (by simp)⟩
  · simp only [run, serve, booted_empty]
    exact ⟨_, rfl, rfl⟩
  · have htasks : run.1.state.tasks.length = 1 := by
      simp only [run, serve, booted_empty]
      rfl
    have haborted : run.1.state.aborted = [0] := by
      simp only [run, serve, booted_empty]
      rfl
    rintro task ⟨⟨spawned, hspawned, -⟩, hlive⟩
    have htask : task = 0 := by
      have := (List.getElem?_eq_some_iff.mp hspawned).1
      omega
    exact hlive (by rw [haborted, htask]; exact List.mem_singleton_self 0)

end Rekuiper.Server
