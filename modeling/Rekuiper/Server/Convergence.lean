import Rekuiper.Manifest.Loading
import Rekuiper.Rules.Tasks
import Rekuiper.Server.Definitions

/-!
# Convergence

A reconciliation that succeeds should leave the node with the streams, tables and rules of
the manifest, every rule running with a task, so that a second one has nothing to do. It
does exactly if the manifest's rules are declared under their ids, the writes it makes
succeed, and the rules that it takes for unchanged are those of the manifest.
-/

namespace Rekuiper.Server

open Lib Rules Manifest

variable {F Text : Type} {lang : Manifest.Language F} {enc : Encoders F Text} {kv : KvPattern}
  {now : Int}
  {formats : Formats F} {m : DeclarativeManifest F} {state : AppState F Text} {key : String}
  {rule : RuleDefinition F}

def AppState.OwnTasks (state : AppState F Text) : Prop :=
  Rules.OwnTasks state.ruleManager state.nextTask

abbrev RuleView (F : Type) := Option (RuleFacts F) × Option Nat

def ruleView (s : AppState F Text × ReconcileReport) (id : String) : RuleView F :=
  (s.1.ruleManager.facts id, s.1.activeRuleHashes.lookup id)

-- ---- The steps of one rule

def stoppedAndDeleted (kv : KvPattern) (id : String) (v : Option (RuleFacts F)) :
    Option (RuleFacts F) :=
  if kv (.deleteRule id) then none
  else v.map fun r => if kv (.stopRule id) then ⟨r.definition, false, false⟩ else r

variable (enc kv now) in
theorem stopAndDelete_ownTasks (h : state.OwnTasks) (id : String) :
    (stopAndDelete enc kv now state id).OwnTasks := by
  have hstop := Rules.OwnTasks.changesOnly h (stopRule_changesOnly enc.envelope id h now
    (kv (.stopRule id)))
  exact hstop.changesOnly (deleteRule_changesOnly hstop _ _)

theorem facts_stopAndDelete (h : state.OwnTasks) (id other : String) :
    (stopAndDelete enc kv now state id).ruleManager.facts other =
      if other = id then stoppedAndDeleted kv id (state.ruleManager.facts id)
      else state.ruleManager.facts other := by
  have hchange := stopRule_changesOnly enc.envelope id h now (kv (.stopRule id))
  have hstop := Rules.OwnTasks.changesOnly h hchange
  unfold stopAndDelete
  split
  · subst other
    rw [facts_deleteRule, facts_stopRule]
    rfl
  · rw [hstop.frame (deleteRule_changesOnly hstop _ _) ‹_›, Rules.OwnTasks.frame h hchange ‹_›]

def createdAndSpawned (kv : KvPattern) (key : String) (rule : RuleDefinition F)
    (v : Option (RuleFacts F)) : Option (RuleFacts F) :=
  (v.or (if kv (.createRule key) then some ⟨rule, true, false⟩ else none)).map fun r =>
    ⟨r.definition, r.running, r.running⟩

theorem createAndSpawn_ownTasks (h : state.OwnTasks) (key : String) (rule : RuleDefinition F) :
    (createAndSpawn lang enc kv m state key rule).OwnTasks := by
  have hcreate := Rules.OwnTasks.changesOnly h (createFitting_changesOnly enc.envelope h rule
    (kv (.createRule key)))
  exact hcreate.changesOnly (setRuleHandle_changesOnly hcreate)

theorem facts_createAndSpawn (h : state.OwnTasks) (hkey : rule.id = key) (other : String) :
    (createAndSpawn lang enc kv m state key rule).ruleManager.facts other =
      if other = key then createdAndSpawned kv key rule (state.ruleManager.facts key)
      else state.ruleManager.facts other := by
  subst hkey
  have hchange := createFitting_changesOnly enc.envelope h rule (kv (.createRule rule.id))
  have hcreate := Rules.OwnTasks.changesOnly h hchange
  split
  · subst other
    exact (facts_setRuleHandle hcreate).trans (congrArg _ (facts_createFitting rule _))
  · exact (hcreate.frame (setRuleHandle_changesOnly hcreate) ‹_›).trans
      (Rules.OwnTasks.frame h hchange ‹_›)

def looksUnchanged (lang : Manifest.Language F) (enc : Encoders F Text) (m : DeclarativeManifest F)
    (rule : RuleDefinition F) (v : RuleView F) : Bool :=
  v.2 == some (computeRuleEffectiveHash lang enc m rule) && v.1.any (·.running)

theorem isUnchanged_eq (s : AppState F Text × ReconcileReport) (key : String)
    (rule : RuleDefinition F) :
    isUnchanged lang enc m s.1 key rule = looksUnchanged lang enc m rule (ruleView s key) := by
  have hrunning : isRunning s.1 key = (s.1.ruleManager.facts key).any (·.running) := by
    unfold isRunning RuleManager.facts
    cases s.1.ruleManager.rules.lookup key <;> rfl
  rw [isUnchanged, hrunning]
  rfl

-- ---- The loop over the manifest's rules

section
variable (lang enc kv now m)

def reconcileRule (existing : List String) (s : AppState F Text × ReconcileReport)
    (entry : Sigma fun _ : String => RuleDefinition F) : AppState F Text × ReconcileReport :=
  if isUnchanged lang enc m s.1 entry.1 entry.2 then
    (s.1, { s.2 with rulesUnchanged := s.2.rulesUnchanged + 1 })
  else
    let removed := removeOld enc kv now existing s entry.1
    (createAndSpawn lang enc kv m removed.1 entry.1 entry.2, removed.2)

end

theorem reconcileRules_ok (existing : List String)
    {entries : List (Sigma fun _ : String => RuleDefinition F)}
    (hparse : ∀ entry ∈ entries, ∃ stmt, lang.parseSelect entry.2.sql = .ok stmt)
    (s : AppState F Text × ReconcileReport) :
    reconcileRules lang enc kv now m existing entries s =
      (.ok (), entries.foldl (reconcileRule lang enc kv now m existing) s) := by
  induction entries generalizing s with
  | nil => rfl
  | cons entry entries ih =>
    obtain ⟨⟨stmt, hstmt⟩, hrest⟩ := List.forall_mem_cons.mp hparse
    rw [List.foldl_cons, reconcileRules, reconcileRule]
    split
    · exact ih hrest _
    · simp only [hstmt]
      exact ih hrest _

def ruleEffect (lang : Manifest.Language F) (enc : Encoders F Text) (kv : KvPattern)
    (m : DeclarativeManifest F) (existing : List String)
    (entry : Sigma fun _ : String => RuleDefinition F) (v : RuleView F) : RuleView F :=
  if looksUnchanged lang enc m entry.2 v then v
  else
    let old := if existing.contains entry.1 then stoppedAndDeleted kv entry.1 v.1 else v.1
    (createdAndSpawned kv entry.1 entry.2 old, some (computeRuleEffectiveHash lang enc m entry.2))

variable (enc kv now) in
theorem removeOld_ownTasks (existing : List String) {s : AppState F Text × ReconcileReport}
    (h : s.1.OwnTasks) (key : String) : (removeOld enc kv now existing s key).1.OwnTasks := by
  unfold removeOld
  split
  · exact stopAndDelete_ownTasks enc kv now h key
  · exact h

theorem hashes_removeOld (existing : List String) (s : AppState F Text × ReconcileReport)
    (key : String) :
    (removeOld enc kv now existing s key).1.activeRuleHashes = s.1.activeRuleHashes := by
  unfold removeOld
  split <;> rfl

theorem facts_removeOld (existing : List String) {s : AppState F Text × ReconcileReport}
    (h : s.1.OwnTasks) (key other : String) :
    (removeOld enc kv now existing s key).1.ruleManager.facts other =
      if other = key then
        if existing.contains key then stoppedAndDeleted kv key (s.1.ruleManager.facts key)
        else s.1.ruleManager.facts key
      else s.1.ruleManager.facts other := by
  unfold removeOld
  by_cases hkey : existing.contains key = true
  · simp only [if_pos hkey, facts_stopAndDelete h]
  · simp only [if_neg hkey]
    split
    · subst other
      rfl
    · rfl

theorem reconcileRule_ownTasks (existing : List String) {s : AppState F Text × ReconcileReport}
    (h : s.1.OwnTasks) (entry : Sigma fun _ : String => RuleDefinition F) :
    (reconcileRule lang enc kv now m existing s entry).1.OwnTasks := by
  unfold reconcileRule
  split
  · exact h
  · exact createAndSpawn_ownTasks (removeOld_ownTasks enc kv now existing h entry.1) _ _

variable (lang enc kv now m) in
theorem reconcileRule_sweep (existing : List String)
    {entries : List (Sigma fun _ : String => RuleDefinition F)}
    (hkeyed : ∀ entry ∈ entries, entry.2.id = entry.1) :
    Sweep (fun s : AppState F Text × ReconcileReport => s.1.OwnTasks) ruleView Sigma.fst
      (reconcileRule lang enc kv now m existing) (ruleEffect lang enc kv m existing) entries where
  keeps s hs entry _ := reconcileRule_ownTasks existing hs entry
  own s hs entry hentry := by
    have hremoved := removeOld_ownTasks enc kv now existing hs entry.1
    rw [reconcileRule, ruleEffect, isUnchanged_eq]
    split
    · rfl
    · refine Prod.ext ?_ (AList.lookup_insert _)
      exact (facts_createAndSpawn hremoved (hkeyed entry hentry) entry.1).trans
        (by rw [if_pos rfl, facts_removeOld existing hs, if_pos rfl]; rfl)
  frame s hs entry hentry other hother := by
    have hremoved := removeOld_ownTasks enc kv now existing hs entry.1
    unfold reconcileRule
    split
    · rfl
    · refine Prod.ext ?_ ((AList.lookup_insert_ne hother).trans ?_)
      · exact (facts_createAndSpawn hremoved (hkeyed entry hentry) other).trans
          (by rw [if_neg hother, facts_removeOld existing hs, if_neg hother]; rfl)
      · exact congrArg (AList.lookup other) (hashes_removeOld existing s entry.1)

-- ---- The loop over the rules to remove

def removalEffect (kv : KvPattern) (incoming : HashMap String (RuleDefinition F)) (id : String)
    (v : RuleView F) : RuleView F :=
  if id ∈ incoming then v else (stoppedAndDeleted kv id v.1, none)

variable (enc kv now) in
theorem removeRule_sweep (incoming : HashMap String (RuleDefinition F)) (ids : List String) :
    Sweep (fun s : AppState F Text × ReconcileReport => s.1.OwnTasks) ruleView id
      (removeRule enc kv now incoming) (removalEffect kv incoming) ids where
  keeps s hs key _ := by
    unfold removeRule
    split
    · exact hs
    · exact stopAndDelete_ownTasks enc kv now hs key
  own s hs key _ := by
    unfold removeRule removalEffect
    split
    · rfl
    · simp only [ruleView, facts_stopAndDelete hs]
      simp
  frame s hs key _ other hother := by
    unfold removeRule
    split
    · rfl
    · refine Prod.ext ?_ (AList.lookup_erase_ne hother)
      exact (facts_stopAndDelete hs key other).trans (if_neg hother)

-- ---- All rules

def existingIds (state : AppState F Text) : List String :=
  state.ruleManager.rules.entries.map fun entry => entry.2.definition.id

theorem existingIds_eq (h : state.OwnTasks) : existingIds state = state.ruleManager.rules.keys :=
  List.map_congr_left fun entry hentry => h.keyed entry.1 entry.2 (AList.mem_lookup_iff.mpr hentry)

theorem mem_existingIds (h : state.OwnTasks) (id : String) :
    id ∈ existingIds state ↔ (state.ruleManager.facts id).isSome = true := by
  rw [existingIds_eq h, ← AList.mem_keys, ← AList.lookup_isSome, RuleManager.facts,
    Option.isSome_map]

section
variable (lang enc kv now m)

def reconciledRules (incoming : HashMap String (RuleDefinition F))
    (s : AppState F Text × ReconcileReport) : AppState F Text × ReconcileReport :=
  (existingIds s.1).foldl (removeRule enc kv now incoming)
    (incoming.entries.foldl (reconcileRule lang enc kv now m (existingIds s.1)) s)

end

variable {incoming : HashMap String (RuleDefinition F)} {s : AppState F Text × ReconcileReport}

theorem reconciledRules_ownTasks (h : s.1.OwnTasks) :
    (reconciledRules lang enc kv now m incoming s).1.OwnTasks := by
  refine (removeRule_sweep enc kv now incoming _).foldl_keeps ?_
  generalize incoming.entries = entries
  generalize existingIds s.1 = existing
  induction entries generalizing s with
  | nil => exact h
  | cons entry entries ih => exact ih (reconcileRule_ownTasks existing h entry)

theorem ruleView_reconciledRules (h : s.1.OwnTasks)
    (hkeyed : ∀ key rule, incoming.lookup key = some rule → rule.id = key) (id : String) :
    ruleView (reconciledRules lang enc kv now m incoming s) id =
      match incoming.lookup id with
      | some rule => ruleEffect lang enc kv m (existingIds s.1) ⟨id, rule⟩ (ruleView s id)
      | none =>
        if id ∈ existingIds s.1 then removalEffect kv incoming id (ruleView s id)
        else ruleView s id := by
  have hrules := reconcileRule_sweep lang enc kv now m (existingIds s.1)
    fun entry hentry => hkeyed entry.1 entry.2 (AList.mem_lookup_iff.mpr hentry)
  have hremoved := removeRule_sweep enc kv now incoming (existingIds s.1)
  have hkept := hrules.foldl_keeps h
  have hnodup : ((existingIds s.1).map fun key => key).Nodup := by
    rw [List.map_id', existingIds_eq h]
    exact s.1.ruleManager.rules.nodupKeys
  have hlast : ruleView (reconciledRules lang enc kv now m incoming s) id =
      if id ∈ existingIds s.1 then
        removalEffect kv incoming id
          (ruleView (incoming.entries.foldl
            (reconcileRule lang enc kv now m (existingIds s.1)) s) id)
      else
        ruleView (incoming.entries.foldl (reconcileRule lang enc kv now m (existingIds s.1)) s)
          id := by
    split
    · exact hremoved.foldl_own hkept hnodup ‹_›
    · exact hremoved.foldl_frame hkept (by simpa using ‹_›)
  rw [hlast]
  cases hid : incoming.lookup id with
  | some rule =>
    have hmem : id ∈ incoming := AList.lookup_isSome.mp (by rw [hid]; rfl)
    simp only [removalEffect, if_pos hmem, ite_self]
    exact hrules.foldl_own h incoming.nodupKeys (AList.mem_lookup_iff.mp hid)
  | none =>
    have hnot : id ∉ incoming := AList.lookup_eq_none.mp hid
    rw [hrules.foldl_frame h hnot]

-- ---- The whole reconciliation

section
variable (lang enc kv now formats m)

def reconciled (state : AppState F Text) : AppState F Text × ReconcileReport :=
  reconciledRules lang enc kv now m (manifestRules formats m).1
    (reconcileSources lang enc kv m state)

end

variable (enc kv now) in
theorem reconcileManifest_ok {summary : ValidationSummary}
    (h : validateManifest formats lang m = .ok summary) (state : AppState F Text) :
    reconcileManifest lang enc kv now formats m state =
      (.ok (reconciled lang enc kv now formats m state).2,
        (reconciled lang enc kv now formats m state).1) := by
  have hparse : ∀ entry ∈ (manifestRules formats m).1.entries,
      ∃ stmt, lang.parseSelect entry.2.sql = .ok stmt := by
    intro entry hentry
    obtain ⟨stmt, hstmt, -⟩ := accepted_rule h (AList.mem_lookup_iff.mpr hentry)
    exact ⟨stmt, hstmt⟩
  unfold reconcileManifest
  simp only [h, accepted_rules h, reconcileRules_ok _ hparse]
  rfl

/-- The streams, tables and rules of the node are those of the manifest, and every rule is
running with a task. -/
structure Converged (formats : Formats F) (m : DeclarativeManifest F) (state : AppState F Text) :
    Prop where
  streams : AsDeclared m.streams state.streamManager
  tables : AsDeclared m.tables state.tableManager
  rules : ∀ id rule, (state.ruleManager.facts id).map (·.definition) = some rule ↔
    m.rules.DeclaresAt formats id rule
  live : ∀ id r, state.ruleManager.facts id = some r → r.running = true ∧ r.live = true

structure ReconcileReport.Quiet (report : ReconcileReport) : Prop where
  streams : report.streamsCreated = 0 ∧ report.streamsUpdated = 0 ∧ report.streamsDeleted = 0
  tables : report.tablesCreated = 0 ∧ report.tablesUpdated = 0 ∧ report.tablesDeleted = 0
  rules : report.rulesStarted = 0 ∧ report.rulesRestarted = 0 ∧ report.rulesStopped = 0

def Stable (lang : Manifest.Language F) (enc : Encoders F Text) (formats : Formats F)
    (m : DeclarativeManifest F) (state : AppState F Text) : Prop :=
  ∀ kv now, ∃ report state', reconcileManifest lang enc kv now formats m state =
      (.ok report, state') ∧ report.Quiet ∧ state'.streamManager = state.streamManager ∧
    state'.tableManager = state.tableManager ∧ state'.ruleManager = state.ruleManager

/-- A reconciliation that succeeds converges, and has nothing left to do. -/
def Converges (lang : Manifest.Language F) (enc : Encoders F Text) (kv : KvPattern) (now : Int)
    (formats : Formats F) (m : DeclarativeManifest F) (state : AppState F Text) : Prop :=
  ∀ report state', reconcileManifest lang enc kv now formats m state = (.ok report, state') →
    Converged formats m state' ∧ Stable lang enc formats m state'

/-- A rule of the manifest ends up running: it is rightly taken for unchanged, or the writes
that replace it succeed, or it stays because neither stopping nor deleting succeeds. -/
def RuleKept (lang : Manifest.Language F) (enc : Encoders F Text) (kv : KvPattern)
    (m : DeclarativeManifest F) (state : AppState F Text) (key : String)
    (rule : RuleDefinition F) : Prop :=
  if isUnchanged lang enc m state key rule then
    state.ruleManager.facts key = some ⟨rule, true, true⟩
  else
    match state.ruleManager.facts key with
    | none => kv (.createRule key) = true
    | some old =>
      (kv (.deleteRule key) = true ∧ kv (.createRule key) = true) ∨
        (kv (.stopRule key) = false ∧ kv (.deleteRule key) = false ∧ old.running = true ∧
          old.definition = rule)

def RuleRemoved (kv : KvPattern) (m : DeclarativeManifest F) (state : AppState F Text)
    (id : String) : Prop :=
  (state.ruleManager.facts id).isSome = true → ¬ m.rules.Names id → kv (.deleteRule id) = true

theorem ruleEffect_kept_iff (h : state.OwnTasks) (key : String) (rule : RuleDefinition F) :
    (ruleEffect lang enc kv m (existingIds state) ⟨key, rule⟩
        (state.ruleManager.facts key, state.activeRuleHashes.lookup key)).1 =
        some ⟨rule, true, true⟩ ↔
      RuleKept lang enc kv m state key rule := by
  have hunchanged : isUnchanged lang enc m state key rule =
      looksUnchanged lang enc m rule
        (state.ruleManager.facts key, state.activeRuleHashes.lookup key) :=
    isUnchanged_eq (state, (reconcileSources lang enc kv m state).2) key rule
  unfold ruleEffect RuleKept
  rw [hunchanged]
  split
  · rfl
  · cases hfacts : state.ruleManager.facts key with
    | none =>
      have hnot : key ∉ existingIds state := by simp [mem_existingIds h, hfacts]
      cases hcreate : kv (.createRule key) <;> simp [createdAndSpawned, hnot, hcreate]
    | some old =>
      have hmem : key ∈ existingIds state := by simp [mem_existingIds h, hfacts]
      obtain ⟨definition, running, live⟩ := old
      cases hdelete : kv (.deleteRule key) <;> cases hstop : kv (.stopRule key) <;>
        cases hcreate : kv (.createRule key) <;>
        simp [createdAndSpawned, stoppedAndDeleted, hmem, hdelete, hstop, hcreate, and_comm]

theorem ruleEffect_hash (existing : List String) (key : String) (rule : RuleDefinition F)
    (v : RuleView F) :
    (ruleEffect lang enc kv m existing ⟨key, rule⟩ v).2 =
      some (computeRuleEffectiveHash lang enc m rule) := by
  unfold ruleEffect
  split
  · rename_i hsame
    simp only [looksUnchanged, Bool.and_eq_true, beq_iff_eq] at hsame
    exact hsame.1
  · rfl

def asRunning (rule : RuleDefinition F) : RuleFacts F := ⟨rule, true, true⟩

theorem reconciled_ownTasks (h : state.OwnTasks) :
    (reconciled lang enc kv now formats m state).1.OwnTasks :=
  reconciledRules_ownTasks (s := reconcileSources lang enc kv m state) h

variable (lang enc kv now) in
theorem ruleView_reconciled (h : state.OwnTasks)
    (hkeyed : ∀ key rule, (manifestRules formats m).1.lookup key = some rule → rule.id = key)
    (id : String) :
    ruleView (reconciled lang enc kv now formats m state) id =
      match (manifestRules formats m).1.lookup id with
      | some rule =>
        ruleEffect lang enc kv m (existingIds state) ⟨id, rule⟩
          (state.ruleManager.facts id, state.activeRuleHashes.lookup id)
      | none =>
        if id ∈ existingIds state then
          removalEffect kv (manifestRules formats m).1 id
            (state.ruleManager.facts id, state.activeRuleHashes.lookup id)
        else (state.ruleManager.facts id, state.activeRuleHashes.lookup id) :=
  ruleView_reconciledRules (s := reconcileSources lang enc kv m state) h hkeyed id

section
variable {summary : ValidationSummary} (hvalid : validateManifest formats lang m = .ok summary)
  (hdistinct : m.rules.Distinct formats)
include hvalid hdistinct

theorem manifest_keyed (key : String) (rule : RuleDefinition F)
    (h : (manifestRules formats m).1.lookup key = some rule) : rule.id = key :=
  declaresAt_id hdistinct (declaresAt_of_lookup (accepted_rules hvalid) h)

theorem rules_converged_iff (state : AppState F Text) :
    ((∀ id rule, (state.ruleManager.facts id).map (·.definition) = some rule ↔
        m.rules.DeclaresAt formats id rule) ∧
      ∀ id r, state.ruleManager.facts id = some r → r.running = true ∧ r.live = true) ↔
      ∀ id, state.ruleManager.facts id = ((manifestRules formats m).1.lookup id).map asRunning := by
  have hdeclared {id rule} := lookup_iff_declaresAt (accepted_rules hvalid) hdistinct id rule
  constructor
  · rintro ⟨hrules, hlive⟩ id
    cases hfacts : state.ruleManager.facts id with
    | none =>
      cases hid : (manifestRules formats m).1.lookup id with
      | none => rfl
      | some rule =>
        have hrule := (hrules id rule).mpr (hdeclared.mp hid)
        rw [hfacts] at hrule
        cases hrule
    | some r =>
      obtain ⟨definition, running, live⟩ := r
      obtain ⟨hrunning, hlive⟩ := hlive id _ hfacts
      have hid := hdeclared.mpr ((hrules id definition).mp (by rw [hfacts]; rfl))
      rw [hid]
      simp_all [asRunning]
  · intro h
    constructor
    · intro id rule
      rw [h id, ← hdeclared]
      cases (manifestRules formats m).1.lookup id <;> simp [asRunning]
    · intro id r hr
      rw [h id] at hr
      obtain ⟨rule, -, rfl⟩ := Option.map_eq_some_iff.mp hr
      exact ⟨rfl, rfl⟩

variable (now) in
theorem reconciled_rules_iff (h : state.OwnTasks) :
    (∀ id, (reconciled lang enc kv now formats m state).1.ruleManager.facts id =
        ((manifestRules formats m).1.lookup id).map asRunning) ↔
      (∀ key rule, m.rules.DeclaresAt formats key rule → RuleKept lang enc kv m state key rule) ∧
        ∀ id, RuleRemoved kv m state id := by
  have hview (id) := congrArg Prod.fst (ruleView_reconciled lang enc kv now h
    (manifest_keyed hvalid hdistinct) id)
  have hdeclared {id rule} := lookup_iff_declaresAt (accepted_rules hvalid) hdistinct id rule
  have hname (id : String) : (reconciled lang enc kv now formats m state).1.ruleManager.facts id =
      ((manifestRules formats m).1.lookup id).map asRunning ↔
        (∀ rule, m.rules.DeclaresAt formats id rule → RuleKept lang enc kv m state id rule) ∧
          RuleRemoved kv m state id := by
    refine (iff_of_eq (congrArg (· = _) (hview id))).trans ?_
    have hnames := mem_rulesMap_iff (accepted_rules hvalid) id
    rw [← AList.lookup_isSome] at hnames
    cases hid : (manifestRules formats m).1.lookup id with
    | some rule =>
      have hremoved : RuleRemoved kv m state id := fun _ hnot =>
        absurd (hnames.mp (by rw [hid]; rfl)) hnot
      refine (ruleEffect_kept_iff h id rule).trans ?_
      rw [and_iff_left hremoved]
      refine ⟨fun hkept rule' hrule' => ?_, fun hkept => hkept rule (hdeclared.mp hid)⟩
      rw [← hdeclared, hid] at hrule'
      exact Option.some.inj hrule' ▸ hkept
    | none =>
      have hnot : ¬ m.rules.Names id := fun hmem => by
        have := hnames.mpr hmem
        rw [hid] at this
        cases this
      have hnone : ∀ rule, ¬ m.rules.DeclaresAt formats id rule := fun rule hrule => by
        rw [← hdeclared, hid] at hrule
        cases hrule
      have hincoming : id ∉ (manifestRules formats m).1 := AList.lookup_eq_none.mp hid
      rw [and_iff_right fun rule hrule => absurd hrule (hnone rule)]
      unfold RuleRemoved
      have hexisting := mem_existingIds h id
      cases hfacts : state.ruleManager.facts id with
      | none => simp [hexisting, hfacts]
      | some old =>
        cases hdelete : kv (.deleteRule id) <;>
          simp [hexisting, hfacts, hnot, hincoming, removalEffect, stoppedAndDeleted, hdelete]
  simp only [hname, forall_and]

end

-- ---- Streams and tables

def definitions (s : AppState F Text × ReconcileReport) :
    DefinitionManager Text × DefinitionManager Text :=
  (s.1.streamManager, s.1.tableManager)

theorem definitions_reconciled (state : AppState F Text) :
    definitions (reconciled lang enc kv now formats m state) =
      ((reconcileDefinitions (streamOps lang enc kv) m.streams state.streamManager).1,
        (reconcileDefinitions (tableOps lang enc kv) m.tables state.tableManager).1) := by
  have hrule (existing : List String) (s : AppState F Text × ReconcileReport)
      (entry : Sigma fun _ : String => RuleDefinition F) :
      definitions (reconcileRule lang enc kv now m existing s entry) = definitions s := by
    unfold reconcileRule removeOld
    split
    · rfl
    · split <;> rfl
  have hremove (s : AppState F Text × ReconcileReport) (id : String) :
      definitions (removeRule enc kv now (manifestRules formats m).1 s id) = definitions s := by
    unfold removeRule
    split <;> rfl
  unfold reconciled reconciledRules
  rw [foldl_same hremove, foldl_same (hrule _)]
  rfl

variable (now) in
theorem reconciled_streams_iff {summary : ValidationSummary}
    (hvalid : validateManifest formats lang m = .ok summary) (state : AppState F Text) :
    AsDeclared m.streams (reconciled lang enc kv now formats m state).1.streamManager ↔
      ∀ name, WritesSucceed (streamOps lang enc kv) m.streams state.streamManager name := by
  have hmanager : (reconciled lang enc kv now formats m state).1.streamManager = _ :=
    congrArg Prod.fst (definitions_reconciled state)
  rw [hmanager]
  exact asDeclared_iff (streamOps_lawful lang enc kv) (accepted_definitions hvalid).1

variable (now) in
theorem reconciled_tables_iff {summary : ValidationSummary}
    (hvalid : validateManifest formats lang m = .ok summary) (state : AppState F Text) :
    AsDeclared m.tables (reconciled lang enc kv now formats m state).1.tableManager ↔
      ∀ name, WritesSucceed (tableOps lang enc kv) m.tables state.tableManager name := by
  have hmanager : (reconciled lang enc kv now formats m state).1.tableManager = _ :=
    congrArg Prod.snd (definitions_reconciled state)
  rw [hmanager]
  exact asDeclared_iff (tableOps_lawful lang enc kv) (accepted_definitions hvalid).2

-- ---- Stability

variable (kv now) in
theorem reconcileRules_quiet (existing : List String)
    {entries : List (Sigma fun _ : String => RuleDefinition F)}
    (h : ∀ entry ∈ entries, isUnchanged lang enc m s.1 entry.1 entry.2 = true) :
    ∃ n, entries.foldl (reconcileRule lang enc kv now m existing) s =
      (s.1, { s.2 with rulesUnchanged := n }) := by
  induction entries generalizing s with
  | nil => exact ⟨_, rfl⟩
  | cons entry entries ih =>
    obtain ⟨hentry, hrest⟩ := List.forall_mem_cons.mp h
    rw [List.foldl_cons, reconcileRule, if_pos hentry]
    exact ih hrest

theorem stable_of_converged {summary : ValidationSummary}
    (hvalid : validateManifest formats lang m = .ok summary) (h : state.OwnTasks)
    (hstreams : AsDeclared m.streams state.streamManager)
    (htables : AsDeclared m.tables state.tableManager)
    (hrules : ∀ id, state.ruleManager.facts id =
      ((manifestRules formats m).1.lookup id).map asRunning)
    (hhashes : ∀ key rule, (manifestRules formats m).1.lookup key = some rule →
      state.activeRuleHashes.lookup key = some (computeRuleEffectiveHash lang enc m rule)) :
    Stable lang enc formats m state := by
  intro kv now
  have hsources : reconcileSources lang enc kv m state =
      ({ state with
          connections := (reconcileSources lang enc kv m state).1.connections
          schemas := (reconcileSources lang enc kv m state).1.schemas },
        ⟨"reloaded", 0, 0, 0, 0, 0, 0, 0, 0, 0, 0⟩) := by
    simp only [reconcileSources, reconcileDefinitions_quiet hstreams,
      reconcileDefinitions_quiet htables]
  have hunchanged : ∀ entry ∈ (manifestRules formats m).1.entries,
      isUnchanged lang enc m (reconcileSources lang enc kv m state).1 entry.1 entry.2 = true := by
    intro entry hentry
    have hlookup := AList.mem_lookup_iff.mpr hentry
    refine (isUnchanged_eq (reconcileSources lang enc kv m state) entry.1 entry.2).trans ?_
    change looksUnchanged lang enc m entry.2
      (state.ruleManager.facts entry.1, state.activeRuleHashes.lookup entry.1) = true
    rw [hrules, hhashes entry.1 entry.2 hlookup, hlookup]
    simp [looksUnchanged, asRunning]
  obtain ⟨n, hloop⟩ := reconcileRules_quiet kv now
    (existingIds (reconcileSources lang enc kv m state).1) hunchanged
  have hremoved : reconciled lang enc kv now formats m state =
      ((reconcileSources lang enc kv m state).1,
        { (reconcileSources lang enc kv m state).2 with rulesUnchanged := n }) := by
    unfold reconciled reconciledRules
    rw [hloop]
    refine foldl_fixed fun id hid => ?_
    have hmem : (state.ruleManager.facts id).isSome = true := (mem_existingIds h id).mp hid
    rw [hrules, Option.isSome_map, AList.lookup_isSome] at hmem
    exact if_pos hmem
  refine ⟨_, _, reconcileManifest_ok enc kv now hvalid state, ?_⟩
  rw [hremoved, hsources]
  exact ⟨⟨⟨rfl, rfl, rfl⟩, ⟨rfl, rfl, rfl⟩, rfl, rfl, rfl⟩, rfl, rfl, rfl⟩

-- ---- Convergence

theorem reconciled_converges {summary : ValidationSummary}
    (hvalid : validateManifest formats lang m = .ok summary) (h : state.OwnTasks)
    (hdistinct : m.rules.Distinct formats)
    (hstreams : ∀ name, WritesSucceed (streamOps lang enc kv) m.streams state.streamManager name)
    (htables : ∀ name, WritesSucceed (tableOps lang enc kv) m.tables state.tableManager name)
    (hrules : ∀ key rule, m.rules.DeclaresAt formats key rule →
      RuleKept lang enc kv m state key rule)
    (hremoved : ∀ id, RuleRemoved kv m state id) :
    Converged formats m (reconciled lang enc kv now formats m state).1 ∧
      Stable lang enc formats m (reconciled lang enc kv now formats m state).1 := by
  have hdeclared₁ := (reconciled_streams_iff now hvalid state).mpr hstreams
  have hdeclared₂ := (reconciled_tables_iff now hvalid state).mpr htables
  have hfacts := (reconciled_rules_iff now hvalid hdistinct h).mpr ⟨hrules, hremoved⟩
  obtain ⟨hsame, hlive⟩ := (rules_converged_iff hvalid hdistinct _).mpr hfacts
  refine ⟨⟨hdeclared₁, hdeclared₂, hsame, hlive⟩,
    stable_of_converged hvalid (reconciled_ownTasks h) hdeclared₁ hdeclared₂ hfacts ?_⟩
  intro key rule hrule
  have hview := congrArg Prod.snd (ruleView_reconciled lang enc kv now h
    (manifest_keyed hvalid hdistinct) key)
  rw [hrule] at hview
  exact hview.trans (ruleEffect_hash _ key rule _)

theorem distinct_of_converged (h : state.OwnTasks) (hconverged : Converged formats m state) :
    m.rules.Distinct formats := by
  refine distinct_of_declaresAt ?_ ?_
  · intro name rule hrule
    obtain ⟨r, hr, rfl⟩ := Option.map_eq_some_iff.mp ((hconverged.rules name rule).mpr hrule)
    obtain ⟨active, hactive, rfl⟩ := Option.map_eq_some_iff.mp hr
    exact h.keyed name active hactive
  · intro name rule rule' hrule hrule'
    have hheld := (hconverged.rules name rule).mpr hrule
    rw [(hconverged.rules name rule').mpr hrule'] at hheld
    exact (Option.some.inj hheld).symm

def demoManifest : DeclarativeManifest ℚ :=
  { DeclarativeManifest.default with
    streams := AList.singleton "demo" "CREATE STREAM demo"
    rules := .list [sampleRule "SELECT * FROM demo"] }

theorem empty_ownTasks : (AppState.empty : AppState F Text).OwnTasks where
  keyed _ _ h := nomatch h
  held _ _ _ h := nomatch h
  aborted _ h := nomatch h
  unshared _ _ _ _ _ h := nomatch h

/-- The rule `b` is declared under the key `a`. -/
def misnamedManifest : DeclarativeManifest ℚ :=
  { DeclarativeManifest.default with
    rules := .map (AList.singleton "a"
      (.structured { sampleRule "SELECT * FROM demo" with id := "b" })) }

end Rekuiper.Server
