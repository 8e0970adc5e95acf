import Rekuiper.Rules.Manager

/-!
# Tasks of rules

A rule holds the handle of its task. Handles are numbered as the tasks are spawned, so no
two rules share one, and an operation on one rule leaves the tasks of the others alone.
-/

namespace Rekuiper.Rules

open Lib

variable {F Text : Type} {codec : EnvelopeCodec F Text} {m m' : RuleManager F Text} {id : String}
  {next : Nat}

/-- What is seen of a rule: its definition, whether it is running, and whether it holds a
task that was not aborted. -/
structure RuleFacts (F : Type) where
  definition : RuleDefinition F
  running : Bool
  live : Bool

namespace RuleManager

def isLive (m : RuleManager F Text) (active : ActiveRule F) : Bool :=
  active.handle.any fun h => !m.aborted.contains h

def factsOf (m : RuleManager F Text) (active : ActiveRule F) : RuleFacts F :=
  ⟨active.definition, active.status.status == "running", m.isLive active⟩

def facts (m : RuleManager F Text) (id : String) : Option (RuleFacts F) :=
  (m.rules.lookup id).map m.factsOf

end RuleManager

/-- Rules are kept under their ids, and the handles that are held or aborted are those of
the tasks that were spawned, each held by one rule. -/
structure OwnTasks (m : RuleManager F Text) (next : Nat) : Prop where
  keyed : ∀ id active, m.rules.lookup id = some active → active.definition.id = id
  held : ∀ id active h, m.rules.lookup id = some active → active.handle = some h → h < next
  aborted : ∀ h ∈ m.aborted, h < next
  unshared : ∀ id id' active active' h, m.rules.lookup id = some active →
    m.rules.lookup id' = some active' → active.handle = some h → active'.handle = some h → id = id'

/-- An operation on one rule, in which tasks from `next` to `next'` are spawned: it may abort
the rule's task and new ones, and give the rule a new one. -/
structure ChangesOnly (id : String) (next next' : Nat) (m m' : RuleManager F Text) : Prop where
  le : next ≤ next'
  frame : ∀ other, other ≠ id → m'.rules.lookup other = m.rules.lookup other
  keeps : m.aborted ⊆ m'.aborted
  aborts : ∀ h ∈ m'.aborted, h ∈ m.aborted ∨
    (∃ active, m.rules.lookup id = some active ∧ active.handle = some h) ∨ (next ≤ h ∧ h < next')
  keyed : ∀ active', m'.rules.lookup id = some active' → active'.definition.id = id
  handle : ∀ active' h, m'.rules.lookup id = some active' → active'.handle = some h →
    (∃ active, m.rules.lookup id = some active ∧ active.handle = some h) ∨ (next ≤ h ∧ h < next')

theorem ChangesOnly.refl (hown : OwnTasks m next) : ChangesOnly id next next m m where
  le := Nat.le_refl _
  frame _ _ := rfl
  keeps := List.Subset.refl _
  aborts _ := .inl
  keyed := hown.keyed id
  handle active _ hactive hhandle := .inl ⟨active, hactive, hhandle⟩

theorem ChangesOnly.held {next' : Nat} (h : ChangesOnly id next next' m m') {other : String}
    {active' : ActiveRule F} {task : Nat} (hrule : m'.rules.lookup other = some active')
    (htask : active'.handle = some task) :
    (∃ active, m.rules.lookup other = some active ∧ active.handle = some task) ∨
      (other = id ∧ next ≤ task ∧ task < next') := by
  by_cases hother : other = id
  · subst hother
    exact (h.handle active' task hrule htask).imp_right fun hnew => ⟨rfl, hnew⟩
  · exact .inl ⟨active', h.frame other hother ▸ hrule, htask⟩

theorem OwnTasks.changesOnly {next' : Nat} (hown : OwnTasks m next)
    (h : ChangesOnly id next next' m m') : OwnTasks m' next' where
  keyed other active' hrule := by
    by_cases hother : other = id
    · subst hother
      exact h.keyed active' hrule
    · exact hown.keyed other active' (h.frame other hother ▸ hrule)
  held other active' task hrule htask := by
    obtain ⟨active, hactive, htask⟩ | ⟨-, -, hnew⟩ := h.held hrule htask
    · exact (hown.held other active task hactive htask).trans_le h.le
    · exact hnew
  aborted task htask := by
    obtain htask | ⟨active, hactive, htask⟩ | ⟨-, hnew⟩ := h.aborts task htask
    · exact (hown.aborted task htask).trans_le h.le
    · exact (hown.held id active task hactive htask).trans_le h.le
    · exact hnew
  unshared other other' active₁ active₂ task h₁ h₂ ht₁ ht₂ := by
    obtain ⟨active₁, h₁, ht₁⟩ | ⟨rfl, hnew, -⟩ := h.held h₁ ht₁
    · obtain ⟨active₂, h₂, ht₂⟩ | ⟨-, hnew, -⟩ := h.held h₂ ht₂
      · exact hown.unshared other other' active₁ active₂ task h₁ h₂ ht₁ ht₂
      · exact absurd (hown.held other active₁ task h₁ ht₁) (Nat.not_lt.mpr hnew)
    · obtain ⟨active₂, h₂, ht₂⟩ | ⟨rfl, -, -⟩ := h.held h₂ ht₂
      · exact absurd (hown.held other' active₂ task h₂ ht₂) (Nat.not_lt.mpr hnew)
      · rfl

theorem isLive_iff {active : ActiveRule F} :
    m.isLive active = true ↔ ∃ h, active.handle = some h ∧ h ∉ m.aborted := by
  unfold RuleManager.isLive
  cases active.handle <;> simp

theorem OwnTasks.frame {next' : Nat} (hown : OwnTasks m next)
    (h : ChangesOnly id next next' m m') {other : String} (hother : other ≠ id) :
    m'.facts other = m.facts other := by
  unfold RuleManager.facts
  rw [h.frame other hother]
  cases hrule : m.rules.lookup other with
  | none => rfl
  | some active =>
    have hlive : m'.isLive active = m.isLive active := by
      rw [Bool.eq_iff_iff, isLive_iff, isLive_iff]
      refine exists_congr fun task => and_congr_right fun htask => not_congr ⟨?_, @h.keeps task⟩
      intro haborted
      obtain haborted | ⟨active', hactive', htask'⟩ | ⟨hnew, -⟩ := h.aborts task haborted
      · exact haborted
      · exact absurd (hown.unshared other id active active' task hrule hactive' htask htask') hother
      · exact absurd (hown.held other active task hrule htask) (Nat.not_lt.mpr hnew)
    simp [RuleManager.factsOf, hlive]

-- ---- Operations

theorem ChangesOnly.aborting {active : ActiveRule F} (hrule : m.rules.lookup id = some active)
    (haborted : m'.aborted = m.abortTask active)
    (hframe : ∀ other, other ≠ id → m'.rules.lookup other = m.rules.lookup other)
    (hnew : ∀ active', m'.rules.lookup id = some active' →
      active'.definition.id = id ∧ active'.handle = none) : ChangesOnly id next next m m' where
  le := Nat.le_refl _
  frame := hframe
  keeps := haborted ▸ List.subset_append_right _ _
  aborts task htask := by
    rw [haborted, RuleManager.abortTask] at htask
    rcases List.mem_append.mp htask with htask | htask
    · exact .inr (.inl ⟨active, hrule, Option.mem_toList.mp htask⟩)
    · exact .inl htask
  keyed active' hactive' := (hnew active' hactive').1
  handle active' task hactive' htask := by
    rw [(hnew active' hactive').2] at htask
    cases htask

theorem stopRule_changesOnly (codec : EnvelopeCodec F Text) (id : String)
    (hown : OwnTasks m next) (now : Int) (ok : Bool) :
    ChangesOnly id next next m (m.stopRule codec id now ok).2 := by
  unfold RuleManager.stopRule RuleManager.changeStatus
  cases hrule : m.rules.lookup id with
  | none => exact .refl hown
  | some active =>
    cases ok with
    | false => exact .refl hown
    | true =>
      refine .aborting hrule rfl (fun other hother => AList.lookup_insert_ne hother) ?_
      intro active' hactive'
      obtain rfl := Option.some.inj ((AList.lookup_insert _).symm.trans hactive')
      exact ⟨hown.keyed id active hrule, rfl⟩

theorem facts_stopRule (now : Int) (ok : Bool) :
    (m.stopRule codec id now ok).2.facts id =
      (m.facts id).map fun r => if ok then ⟨r.definition, false, false⟩ else r := by
  unfold RuleManager.stopRule RuleManager.changeStatus RuleManager.facts
  cases hrule : m.rules.lookup id with
  | none => simp [hrule]
  | some active =>
    cases ok with
    | false => simp [hrule, RuleManager.persistRule, RuleManager.write]
    | true =>
      simp [RuleManager.persistRule, RuleManager.write, RuleManager.factsOf, RuleManager.isLive]

theorem deleteRule_changesOnly (hown : OwnTasks m next) (ok checkpointOk : Bool) :
    ChangesOnly id next next m (m.deleteRule id ok checkpointOk).2 := by
  unfold RuleManager.deleteRule
  cases hrule : m.rules.lookup id with
  | none => exact .refl hown
  | some active =>
    cases ok with
    | false => exact .refl hown
    | true =>
      refine .aborting hrule rfl (fun other hother => AList.lookup_erase_ne hother) ?_
      intro active' hactive'
      cases (AList.lookup_erase id m.rules).symm.trans hactive'

theorem facts_deleteRule (ok checkpointOk : Bool) :
    (m.deleteRule id ok checkpointOk).2.facts id = if ok then none else m.facts id := by
  unfold RuleManager.deleteRule RuleManager.facts
  cases hrule : m.rules.lookup id with
  | none => simp [hrule]
  | some active =>
    cases ok <;> simp [hrule, RuleManager.unpersistRule, RuleManager.write]

theorem createFitting_changesOnly (codec : EnvelopeCodec F Text) (hown : OwnTasks m next)
    (rule : RuleDefinition F) (ok : Bool) :
    ChangesOnly rule.id next next m (m.createFitting codec rule ok).2 := by
  unfold RuleManager.createFitting
  by_cases hmem : rule.id ∈ m.rules
  · rw [if_pos hmem]
    exact .refl hown
  · rw [if_neg hmem]
    cases ok with
    | false => exact .refl hown
    | true =>
      have hnew : ∀ active', (m.rules.insert rule.id (freshRule rule "running")).lookup rule.id =
          some active' → active' = freshRule rule "running" := fun active' hactive' =>
        (Option.some.inj ((AList.lookup_insert _).symm.trans hactive')).symm
      refine ⟨Nat.le_refl _, fun other hother => AList.lookup_insert_ne hother, List.Subset.refl _,
        fun task htask => .inl htask, ?_, ?_⟩
      · intro active' hactive'
        rw [hnew active' hactive']
        rfl
      · intro active' task hactive' htask
        rw [hnew active' hactive'] at htask
        cases htask

theorem facts_createFitting (rule : RuleDefinition F) (ok : Bool) :
    (m.createFitting codec rule ok).2.facts rule.id =
      (m.facts rule.id).or (if ok then some ⟨rule, true, false⟩ else none) := by
  unfold RuleManager.createFitting RuleManager.facts
  by_cases hmem : rule.id ∈ m.rules
  · rw [if_pos hmem]
    obtain ⟨active, hactive⟩ := Option.isSome_iff_exists.mp (AList.lookup_isSome.mpr hmem)
    simp [hactive]
  · rw [if_neg hmem]
    have hnone := AList.lookup_eq_none.mpr hmem
    cases ok <;>
      simp [hnone, RuleManager.persistRule, RuleManager.write, RuleManager.factsOf, freshRule,
        RuleManager.isLive]

-- ---- Registering a new task

theorem setRuleHandle_changesOnly (hown : OwnTasks m next) :
    ChangesOnly id next (next + 1) m (m.setRuleHandle id next) := by
  have hnew : next ≤ next ∧ next < next + 1 := ⟨Nat.le_refl _, Nat.lt_succ_self _⟩
  unfold RuleManager.setRuleHandle
  cases hrule : m.rules.lookup id with
  | none =>
    refine ⟨Nat.le_succ _, fun _ _ => rfl, List.subset_cons_self _ _, ?_, hown.keyed id, ?_⟩
    · intro task htask
      rcases List.mem_cons.mp htask with rfl | htask
      · exact .inr (.inr hnew)
      · exact .inl htask
    · intro active' task hactive' htask
      exact .inl ⟨active', hactive', htask⟩
  | some active =>
    have hinsert : ∀ handle active', (m.rules.insert id { active with handle }).lookup id =
        some active' → active' = { active with handle } := fun handle active' hactive' =>
      (Option.some.inj ((AList.lookup_insert _).symm.trans hactive')).symm
    by_cases hrunning : active.status.status = "running"
    · simp only [if_pos hrunning]
      refine ⟨Nat.le_succ _, fun other hother => AList.lookup_insert_ne hother,
        List.subset_append_right _ _, ?_, ?_, ?_⟩
      · intro task htask
        rcases List.mem_append.mp htask with htask | htask
        · exact .inr (.inl ⟨active, hrule, Option.mem_toList.mp htask⟩)
        · exact .inl htask
      · intro active' hactive'
        rw [hinsert _ active' hactive']
        exact hown.keyed id active hrule
      · intro active' task hactive' htask
        rw [hinsert _ active' hactive'] at htask
        cases htask
        exact .inr hnew
    · simp only [if_neg hrunning]
      refine ⟨Nat.le_succ _, fun other hother => AList.lookup_insert_ne hother,
        List.subset_cons_self _ _, ?_, ?_, ?_⟩
      · intro task htask
        rcases List.mem_cons.mp htask with rfl | htask
        · exact .inr (.inr hnew)
        · exact .inl htask
      · intro active' hactive'
        rw [hinsert _ active' hactive']
        exact hown.keyed id active hrule
      · intro active' task hactive' htask
        rw [hinsert _ active' hactive'] at htask
        cases htask

theorem facts_setRuleHandle (hown : OwnTasks m next) :
    (m.setRuleHandle id next).facts id =
      (m.facts id).map fun r => ⟨r.definition, r.running, r.running⟩ := by
  unfold RuleManager.setRuleHandle RuleManager.facts
  cases hrule : m.rules.lookup id with
  | none => simp [hrule]
  | some active =>
    by_cases hrunning : active.status.status = "running"
    · have hlive : next ∉ m.abortTask active := by
        intro hmem
        rcases List.mem_append.mp hmem with hmem | hmem
        · exact absurd (hown.held id active next hrule (Option.mem_toList.mp hmem))
            (Nat.lt_irrefl _)
        · exact absurd (hown.aborted next hmem) (Nat.lt_irrefl _)
      simp [hrunning, RuleManager.factsOf, RuleManager.isLive, hlive]
    · simp [hrunning, RuleManager.factsOf, RuleManager.isLive]

end Rekuiper.Rules
