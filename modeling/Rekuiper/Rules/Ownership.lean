import Rekuiper.Rules.Lifecycle

/-!
# One task for a rule

However the requests interleave, a task that has registered is aborted or is the one that
its rule holds, and only a running rule holds one.
-/

namespace Rekuiper.Rules

open Lib

variable {F Text : Type} {r r' : Registry F} {id : String} {cell : Nat} {active : ActiveRule F}

-- ---- Cells

structure Registry.CellsOk (r : Registry F) : Prop where
  inRange : ∀ id cell, r.rules.lookup id = some cell → cell < r.cells.length
  injective : ∀ id id' cell, r.rules.lookup id = some cell → r.rules.lookup id' = some cell →
    id = id'

theorem find_eq_some {found : Nat × ActiveRule F} :
    r.find id = some found ↔
      r.rules.lookup id = some found.1 ∧ r.cells[found.1]? = some found.2 := by
  obtain ⟨cell, active⟩ := found
  simp [Registry.find, Option.bind_eq_some_iff]

theorem find_eq_none (h : r.CellsOk) : r.find id = none ↔ r.rules.lookup id = none := by
  cases hid : r.rules.lookup id with
  | none => simp [Registry.find, hid]
  | some cell => simp [Registry.find, hid, List.getElem?_eq_getElem (h.inRange id cell hid)]

def Registry.replace (r : Registry F) (cell : Nat) (active : ActiveRule F) : Registry F :=
  { r with cells := r.cells.set cell active }

theorem Registry.CellsOk.congr (h : r.CellsOk) (hrules : r'.rules = r.rules)
    (hcells : r'.cells.length = r.cells.length) : r'.CellsOk where
  inRange id c hc := hcells ▸ h.inRange id c (hrules ▸ hc)
  injective id id' c hc hc' := h.injective id id' c (hrules ▸ hc) (hrules ▸ hc')

theorem find_replace (h : r.CellsOk) (hfind : r.find id = some (cell, active))
    (changed : ActiveRule F) (other : String) :
    (r.replace cell changed).find other =
      if other = id then some (cell, changed) else r.find other := by
  obtain ⟨hlookup, hcell⟩ := find_eq_some.mp hfind
  have hrange := h.inRange id cell hlookup
  split
  · subst other
    exact find_eq_some.mpr ⟨hlookup, by simp [Registry.replace, hrange]⟩
  · rename_i hother
    unfold Registry.find Registry.replace
    cases hc : r.rules.lookup other with
    | none => rfl
    | some c =>
      have hne : cell ≠ c := fun heq => hother (h.injective other id cell (heq ▸ hc) hlookup)
      simp [List.getElem?_set_ne hne]

theorem Registry.CellsOk.addRule (h : r.CellsOk) (id : String) (active : ActiveRule F) :
    (r.addRule id active).CellsOk where
  inRange other c hc := by
    simp only [Registry.addRule, List.length_append, List.length_singleton] at hc ⊢
    by_cases hother : other = id
    · subst other
      rw [AList.lookup_insert] at hc
      cases hc
      exact Nat.lt_succ_self _
    · rw [AList.lookup_insert_ne hother] at hc
      exact Nat.lt_succ_of_lt (h.inRange other c hc)
  injective one other c hone hother := by
    have hnew : ∀ name, (r.rules.insert id r.cells.length).lookup name = some c →
        name = id ∧ c = r.cells.length ∨ name ≠ id ∧ r.rules.lookup name = some c ∧
          c < r.cells.length := by
      intro name hname
      by_cases heq : name = id
      · subst name
        rw [AList.lookup_insert] at hname
        cases hname
        exact .inl ⟨rfl, rfl⟩
      · rw [AList.lookup_insert_ne heq] at hname
        exact .inr ⟨heq, hname, h.inRange name c hname⟩
    obtain ⟨rfl, rfl⟩ | ⟨-, hone, hlt⟩ := hnew one hone
    · obtain ⟨rfl, -⟩ | ⟨-, -, hlt⟩ := hnew other hother
      · rfl
      · exact absurd hlt (Nat.lt_irrefl _)
    · obtain ⟨-, rfl⟩ | ⟨-, hother, -⟩ := hnew other hother
      · exact absurd hlt (Nat.lt_irrefl _)
      · exact h.injective one other c hone hother

theorem find_addRule (h : r.CellsOk) (active : ActiveRule F) (id other : String) :
    (r.addRule id active).find other =
      if other = id then some (r.cells.length, active) else r.find other := by
  unfold Registry.find Registry.addRule
  split
  · subst other
    simp
  · rename_i hother
    rw [AList.lookup_insert_ne hother]
    cases hc : r.rules.lookup other with
    | none => rfl
    | some c => simp [List.getElem?_append_left (h.inRange other c hc)]

def Registry.forget (r : Registry F) (id : String) : Registry F :=
  { r with rules := r.rules.erase id }

theorem lookup_forget (id other : String) :
    (r.forget id).rules.lookup other = if other = id then none else r.rules.lookup other := by
  split
  · subst other
    exact AList.lookup_erase _ _
  · exact AList.lookup_erase_ne ‹_›

theorem Registry.CellsOk.forget (h : r.CellsOk) (id : String) : (r.forget id).CellsOk where
  inRange other c hc := by
    rw [lookup_forget] at hc
    exact h.inRange other c (Option.ite_none_left_eq_some.mp hc).2
  injective one other c hone hother := by
    rw [lookup_forget] at hone hother
    exact h.injective one other c (Option.ite_none_left_eq_some.mp hone).2
      (Option.ite_none_left_eq_some.mp hother).2

theorem find_forget (id other : String) :
    (r.forget id).find other = if other = id then none else r.find other := by
  unfold Registry.find
  rw [lookup_forget]
  split <;> rfl

-- ---- Handles

namespace Registry

def handleOf (r : Registry F) (id : String) : Option Nat := (r.find id).bind (·.2.handle)

def runs (r : Registry F) (id : String) : Bool := (r.find id).any fun found => isRunning found.2

def SpawnedFor (r : Registry F) (task : Nat) (id : String) : Prop :=
  ∃ spawned, r.tasks[task]? = some spawned ∧ spawned.ruleId = id

/-- A rule that holds a task is running, and the task is its own and live; a task that has
registered is aborted or held. -/
structure TasksOwned (r : Registry F) : Prop where
  held : ∀ id task, r.handleOf id = some task → r.runs id = true ∧ task ∉ r.aborted ∧
    task ∈ r.registered ∧ r.SpawnedFor task id
  kept : ∀ task ∈ r.registered, task ∈ r.aborted ∨ ∃ id, r.handleOf id = some task
  aborted : ∀ task ∈ r.aborted, task ∈ r.registered
  known : ∀ task ∈ r.registered, ∃ id, r.SpawnedFor task id

end Registry

theorem handleOf_congr (h : r'.find id = r.find id) : r'.handleOf id = r.handleOf id :=
  congrArg (·.bind fun found => found.2.handle) h

theorem runs_congr (h : r'.find id = r.find id) : r'.runs id = r.runs id :=
  congrArg (·.any fun found => isRunning found.2) h

theorem Registry.SpawnedFor.unique {task : Nat} {id id' : String} (h : r.SpawnedFor task id)
    (h' : r.SpawnedFor task id') : id = id' := by
  obtain ⟨spawned, hspawned, rfl⟩ := h
  obtain ⟨spawned', hspawned', rfl⟩ := h'
  rw [hspawned] at hspawned'
  cases hspawned'
  rfl

/-- A step on one rule in which the tasks `new` register: of these and of the task that the
rule held, all are aborted but the one that the rule holds afterwards. -/
structure Rehandles (r r' : Registry F) (id : String) (new : List Nat) : Prop where
  frame : ∀ other, other ≠ id → r'.find other = r.find other
  tasks : ∀ task other, r.SpawnedFor task other → r'.SpawnedFor task other
  registered : ∀ task, task ∈ r'.registered ↔ task ∈ r.registered ∨ task ∈ new
  aborted : ∀ task, task ∈ r'.aborted ↔ task ∈ r.aborted ∨
    ((r.handleOf id = some task ∨ task ∈ new) ∧ r'.handleOf id ≠ some task)
  handle : ∀ task, r'.handleOf id = some task →
    r'.runs id = true ∧ (r.handleOf id = some task ∨ task ∈ new)
  fresh : ∀ task ∈ new, task ∉ r.registered ∧ r.SpawnedFor task id

theorem Registry.TasksOwned.step {new : List Nat} (h : r.TasksOwned)
    (hstep : Rehandles r r' id new) :
    r'.TasksOwned where
  held other task htask := by
    by_cases hother : other = id
    · subst other
      obtain ⟨hruns, hold | hnew⟩ := hstep.handle task htask
      · obtain ⟨-, hlive, hregistered, hspawned⟩ := h.held id task hold
        refine ⟨hruns, fun haborted => ?_, (hstep.registered task).mpr (.inl hregistered),
          hstep.tasks task id hspawned⟩
        exact ((hstep.aborted task).mp haborted).elim hlive fun hab => hab.2 htask
      · obtain ⟨hfresh, hspawned⟩ := hstep.fresh task hnew
        refine ⟨hruns, fun haborted => ?_, (hstep.registered task).mpr (.inr hnew),
          hstep.tasks task id hspawned⟩
        exact ((hstep.aborted task).mp haborted).elim (fun hab => hfresh (h.aborted task hab))
          fun hab => hab.2 htask
    · have hsame := hstep.frame other hother
      rw [handleOf_congr hsame] at htask
      obtain ⟨hruns, hlive, hregistered, hspawned⟩ := h.held other task htask
      refine ⟨(runs_congr hsame).trans hruns, fun haborted => ?_,
        (hstep.registered task).mpr (.inl hregistered), hstep.tasks task other hspawned⟩
      -- a task that is aborted belongs to `id`, so it is not the one that `other` holds
      rcases (hstep.aborted task).mp haborted with hab | ⟨hold | hnew, -⟩
      · exact hlive hab
      · exact hother (Registry.SpawnedFor.unique hspawned (h.held id task hold).2.2.2)
      · exact (hstep.fresh task hnew).1 hregistered
  kept task htask := by
    by_cases hheld : r'.handleOf id = some task
    · exact .inr ⟨id, hheld⟩
    rcases (hstep.registered task).mp htask with hold | hnew
    · rcases h.kept task hold with hab | ⟨other, hother⟩
      · exact .inl ((hstep.aborted task).mpr (.inl hab))
      · by_cases heq : other = id
        · subst other
          exact .inl ((hstep.aborted task).mpr (.inr ⟨.inl hother, hheld⟩))
        · exact .inr ⟨other, (handleOf_congr (hstep.frame other heq)).trans hother⟩
    · exact .inl ((hstep.aborted task).mpr (.inr ⟨.inr hnew, hheld⟩))
  aborted task htask := by
    refine (hstep.registered task).mpr ?_
    rcases (hstep.aborted task).mp htask with hab | ⟨hold | hnew, -⟩
    · exact .inl (h.aborted task hab)
    · exact .inl (h.held id task hold).2.2.1
    · exact .inr hnew
  known task htask := by
    rcases (hstep.registered task).mp htask with hold | hnew
    · exact (h.known task hold).imp fun other => hstep.tasks task other
    · exact ⟨id, hstep.tasks task id (hstep.fresh task hnew).2⟩

theorem handleOf_some {found : Nat × ActiveRule F} (h : r.find id = some found) :
    r.handleOf id = found.2.handle := by
  rw [Registry.handleOf, h]
  rfl

theorem runs_some {found : Nat × ActiveRule F} (h : r.find id = some found) :
    r.runs id = isRunning found.2 := by
  rw [Registry.runs, h]
  rfl

theorem handleOf_none (h : r.find id = none) : r.handleOf id = none := by
  rw [Registry.handleOf, h]
  rfl

theorem find_change (h : r.CellsOk) (hfind : r.find id = some (cell, active)) (change : Change F)
    (other : String) :
    (r.change cell active change).find other =
      if other = id then some (cell, change.apply active) else r.find other :=
  find_replace h hfind (change.apply active) other

theorem mem_abortedTask {change : Change F} {task : Nat} :
    task ∈ change.abortedTask active ↔ change.aborts = true ∧ active.handle = some task := by
  unfold Change.abortedTask
  split <;> simp [*]

theorem isRunning_apply {change : Change F} (h : change.aborts = false)
    (hrunning : isRunning active = true) : isRunning (change.apply active) = true := by
  cases change with
  | define rule wasRunning => exact hrunning
  | start now => rfl
  | restart now => cases h
  | stop now => cases h
  | halt error now => cases h

theorem change_rehandles (h : r.CellsOk) (howned : r.TasksOwned)
    (hfind : r.find id = some (cell, active)) (change : Change F) :
    Rehandles r (r.change cell active change) id [] := by
  have hfind' : (r.change cell active change).find id = some (cell, change.apply active) := by
    rw [find_change h hfind, if_pos rfl]
  have hhandle := handleOf_some hfind
  have hhandle' := handleOf_some hfind'
  refine ⟨fun other hother => ?_, fun _ _ hspawned => hspawned, fun task => ?_, fun task => ?_,
    fun task htask => ?_, nofun⟩
  · rw [find_change h hfind, if_neg hother]
  · simp [Registry.change]
  · rw [hhandle, hhandle']
    simp only [Registry.change, List.mem_append, mem_abortedTask, Change.apply]
    by_cases haborts : change.aborts = true
    · simp [haborts, or_comm]
    · simp [haborts]
  · rw [hhandle'] at htask
    simp only [Change.apply] at htask
    split at htask
    · cases htask
    · rename_i haborts
      rw [← hhandle] at htask
      obtain ⟨hruns, -⟩ := howned.held id task htask
      rw [runs_some hfind] at hruns
      refine ⟨?_, .inl htask⟩
      rw [runs_some hfind']
      exact isRunning_apply (Bool.not_eq_true _ ▸ haborts) hruns

theorem find_removeRule (h : r.CellsOk) (hfind : r.find id = some (cell, active))
    (other : String) :
    (r.removeRule id).find other = if other = id then none else r.find other := by
  have hsame : (r.removeRule id).find other =
      ((r.replace cell { active with handle := none }).forget id).find other := by
    rw [Registry.removeRule, hfind]
    rfl
  rw [hsame, find_forget, find_replace h hfind]
  split <;> rfl

theorem removeRule_rehandles (h : r.CellsOk) (hfind : r.find id = some (cell, active)) :
    Rehandles r (r.removeRule id) id [] := by
  have hnone : (r.removeRule id).handleOf id = none :=
    handleOf_none (by rw [find_removeRule h hfind, if_pos rfl])
  have hremoved : r.removeRule id =
      { r with
        rules := r.rules.erase id
        cells := r.cells.set cell { active with handle := none }
        aborted := active.handle.toList ++ r.aborted } := by
    rw [Registry.removeRule, hfind]
  refine ⟨fun other hother => ?_, fun _ _ hspawned => ?_, fun task => ?_, fun task => ?_,
    fun task htask => ?_, nofun⟩
  · rw [find_removeRule h hfind, if_neg hother]
  · rw [hremoved]
    exact hspawned
  · simp [hremoved]
  · rw [hnone, handleOf_some hfind, hremoved]
    simp [or_comm]
  · rw [hnone] at htask
    cases htask

theorem addRule_rehandles (h : r.CellsOk) (hnew : r.rules.lookup id = none)
    (rule : RuleDefinition F) : Rehandles r (r.addRule id (freshRule rule "running")) id [] := by
  have hnone := handleOf_none ((find_eq_none h).mpr hnew)
  have hfind : (r.addRule id (freshRule rule "running")).find id =
      some (r.cells.length, freshRule rule "running") := by
    rw [find_addRule h, if_pos rfl]
  have hnone' : (r.addRule id (freshRule rule "running")).handleOf id = none := handleOf_some hfind
  refine ⟨fun other hother => ?_, fun _ _ hspawned => hspawned, fun task => ?_, fun task => ?_,
    fun task htask => ?_, nofun⟩
  · rw [find_addRule h, if_neg hother]
  · simp [Registry.addRule]
  · simp [Registry.addRule, hnone]
  · rw [hnone'] at htask
    cases htask

theorem spawn_rehandles (howned : r.TasksOwned) (task : Task F) (id : String) :
    Rehandles r { r with tasks := r.tasks ++ [task] } id [] := by
  refine ⟨fun _ _ => rfl, ?_, fun n => by simp, fun n => ?_, fun n hn => ?_, nofun⟩
  · rintro n other ⟨spawned, hspawned, hid⟩
    exact ⟨spawned, (List.getElem?_append_left (List.getElem?_eq_some_iff.mp hspawned).1).trans
      hspawned, hid⟩
  · simp [Registry.handleOf, Registry.find]
  · exact ⟨(howned.held id n hn).1, .inl hn⟩

section
variable {task : Nat}

theorem setRuleHandle_absent (hfind : r.find id = none) :
    r.setRuleHandle id task =
      { r with registered := task :: r.registered, aborted := task :: r.aborted } := by
  have hfind' : ({ r with registered := task :: r.registered } : Registry F).find id = none := hfind
  simp only [Registry.setRuleHandle, hfind']

theorem setRuleHandle_present (hfind : r.find id = some (cell, active)) :
    r.setRuleHandle id task =
      { r with
        registered := task :: r.registered
        cells := r.cells.set cell
          { active with handle := if isRunning active then some task else none }
        aborted := (if isRunning active then active.handle.toList else [task]) ++ r.aborted } := by
  have hfind' : ({ r with registered := task :: r.registered } : Registry F).find id =
      some (cell, active) := hfind
  simp only [Registry.setRuleHandle, hfind', isRunning, beq_iff_eq]
  split <;> rfl

theorem find_setRuleHandle (task : Nat) (h : r.CellsOk) (hfind : r.find id = some (cell, active))
    (other : String) :
    (r.setRuleHandle id task).find other =
      if other = id then
        some (cell, { active with handle := if isRunning active then some task else none })
      else r.find other := by
  rw [setRuleHandle_present hfind]
  exact find_replace h hfind _ other

theorem setRuleHandle_rehandles (h : r.CellsOk) (howned : r.TasksOwned)
    (hfresh : task ∉ r.registered) (hspawned : r.SpawnedFor task id) :
    Rehandles r (r.setRuleHandle id task) id [task] := by
  have hnew : ∀ n ∈ [task], n ∉ r.registered ∧ r.SpawnedFor n id := by
    simpa using ⟨hfresh, hspawned⟩
  cases hfind : r.find id with
  | none =>
    have hnone := handleOf_none hfind
    rw [setRuleHandle_absent hfind]
    have hnone' : ({ r with registered := task :: r.registered, aborted := task :: r.aborted } :
        Registry F).handleOf id = none := hnone
    refine ⟨fun _ _ => rfl, fun _ _ h => h, fun n => ?_, fun n => ?_, fun n hn => ?_, hnew⟩
    · simp [or_comm]
    · simp [hnone, hnone', or_comm]
    · rw [hnone'] at hn
      cases hn
  | some found =>
    obtain ⟨cell, active⟩ := found
    have hfind' := find_setRuleHandle task h hfind id
    rw [if_pos rfl] at hfind'
    have hhandle := handleOf_some hfind
    have hhandle' := handleOf_some hfind'
    refine ⟨fun other hother => ?_, fun n other hn => ?_, fun n => ?_, fun n => ?_, fun n hn => ?_,
      hnew⟩
    · rw [find_setRuleHandle task h hfind, if_neg hother]
    · rw [setRuleHandle_present hfind]
      exact hn
    · simp [setRuleHandle_present hfind, or_comm]
    · have hheld := howned.held id n
      rw [hhandle, runs_some hfind] at hheld
      rw [hhandle, hhandle', setRuleHandle_present hfind]
      by_cases hrunning : isRunning active = true
      · have hne : active.handle = some n → task ≠ n := fun hn heq =>
          hfresh (heq ▸ (hheld hn).2.2.1)
        simp only [hrunning, if_true, List.mem_append, Option.mem_toList,
          List.mem_singleton, ne_eq, Option.some.injEq]
        grind
      · have hidle : active.handle ≠ some n := fun hn => hrunning (hheld hn).1
        simp [hrunning, hidle, or_comm]
    · rw [hhandle'] at hn
      obtain ⟨hrunning, hn⟩ := Option.ite_none_right_eq_some.mp hn
      rw [runs_some hfind']
      exact ⟨hrunning, .inr (List.mem_singleton.mpr (Option.some.inj hn).symm)⟩

end

-- ---- Phases of a request

/-- Where a request is: without the lock, with the lock and what it knows of a rule, or
between spawning a task and registering it. -/
inductive Phase
  | free
  | held
  | absent (id : String)
  | found (id : String) (cell : Nat) (running : Bool)
  | spawned (id : String) (task : Nat)

namespace Phase

def holds : Phase → Bool
  | .held | .absent _ | .found _ _ _ => true
  | .free | .spawned _ _ => false

def learn (phase : Phase) (id : String) (answer : Option (Nat × ActiveRule F)) : Phase :=
  if phase.holds then
    match answer with
    | none => .absent id
    | some (cell, active) => .found id cell (isRunning active)
  else phase

def Allows (phase : Phase) : RuleOp F → Prop
  | .lock | .spawn _ => phase = .free
  | .unlock => phase.holds = true
  | .insert rule => phase = .absent rule.id
  | .remove id | .changeAt id _ => ∃ cell running, phase = .found id cell running
  | .changeCell cell _ => ∃ id running, phase = .found id cell running
  | .setRuleHandle id task => phase = .spawned id task
  | .find _ | .list | .persist _ _ _ | .unpersist _ | .deleteCheckpoint _ | .openQueue _ =>
    ∀ id task, phase ≠ .spawned id task

def next (phase : Phase) : (op : RuleOp F) → op.Answer → Phase
  | .lock, _ => .held
  | .unlock, _ => .free
  | .find id, answer => phase.learn id answer
  | .insert _, _ | .remove _, _ | .changeAt _ _, _ | .changeCell _ _, _ => .held
  | .spawn task, answer => .spawned task.ruleId answer
  | .setRuleHandle _ _, _ => .free
  | .list, _ | .persist _ _ _, _ | .unpersist _, _ | .deleteCheckpoint _, _ | .openQueue _, _ => phase

def Ok (r : Registry F) (t : Nat) : Phase → Prop
  | .free => r.opLock ≠ some t
  | .held => r.opLock = some t
  | .absent id => r.opLock = some t ∧ r.rules.lookup id = none
  | .found id cell running =>
    r.opLock = some t ∧ ∃ active, r.find id = some (cell, active) ∧ isRunning active = running
  | .spawned id task => r.opLock ≠ some t ∧ task ∉ r.registered ∧ r.SpawnedFor task id

theorem Ok.holds_iff {t : Nat} {phase : Phase} (h : phase.Ok r t) :
    phase.holds = true ↔ r.opLock = some t := by
  cases phase with
  | free => exact ⟨nofun, fun hlock => absurd hlock h⟩
  | held => exact ⟨fun _ => h, fun _ => rfl⟩
  | absent id => exact ⟨fun _ => h.1, fun _ => rfl⟩
  | found id cell running => exact ⟨fun _ => h.1, fun _ => rfl⟩
  | spawned id task => exact ⟨nofun, fun hlock => absurd hlock h.1⟩

theorem Ok.of_free {t : Nat} {phase : Phase} (h : phase.Ok r t) (hlock : r.opLock ≠ some t)
    (hlock' : r'.opLock ≠ some t)
    (hspawned : ∀ id task, phase = .spawned id task → task ∉ r.registered →
      r.SpawnedFor task id → task ∉ r'.registered ∧ r'.SpawnedFor task id) : phase.Ok r' t := by
  cases phase with
  | free => exact hlock'
  | held => exact absurd h hlock
  | absent id => exact absurd h.1 hlock
  | found id cell running => exact absurd h.1 hlock
  | spawned id task => exact ⟨hlock', hspawned id task rfl h.2.1 h.2.2⟩

theorem Ok.mono {t : Nat} {phase : Phase} (h : phase.Ok r t) (hlock : r'.opLock = r.opLock)
    (hrules : r'.rules = r.rules)
    (hfind : ∀ id cell active, r.find id = some (cell, active) →
      ∃ active', r'.find id = some (cell, active') ∧ isRunning active' = isRunning active)
    (hspawned : ∀ id task, phase = .spawned id task → task ∉ r.registered →
      r.SpawnedFor task id → task ∉ r'.registered ∧ r'.SpawnedFor task id) : phase.Ok r' t := by
  cases phase with
  | free => exact fun heq => h (hlock ▸ heq)
  | held => exact hlock.trans h
  | absent id => exact ⟨hlock ▸ h.1, hrules ▸ h.2⟩
  | found id cell running =>
    obtain ⟨hheld, active, hactive, rfl⟩ := h
    exact ⟨hlock ▸ hheld, hfind id cell active hactive⟩
  | spawned id task => exact ⟨hlock ▸ h.1, hspawned id task rfl h.2.1 h.2.2⟩

end Phase

def taskProtocol : Protocol (RuleOp F) RuleOp.Answer Phase where
  allows := Phase.Allows
  answers _ _ := True
  next := Phase.next

/-- The invariant of any number of requests. -/
structure Owned (phase : Nat → Phase) (r : Registry F) : Prop where
  cells : r.CellsOk
  tasks : r.TasksOwned
  phases : ∀ t, (phase t).Ok r t
  distinct : ∀ t t' id id' task, phase t = .spawned id task → phase t' = .spawned id' task → t = t'

section
variable {phase : Nat → Phase} {t : Nat} {next : Phase}

theorem Owned.update (h : Owned phase r) (hcells : r'.CellsOk) (htasks : r'.TasksOwned)
    (hown : next.Ok r' t) (hothers : ∀ t', t' ≠ t → (phase t').Ok r' t')
    (hdistinct : ∀ id task, next = .spawned id task → ∀ t' id', t' ≠ t →
      phase t' ≠ .spawned id' task) : Owned (Function.update phase t next) r' where
  cells := hcells
  tasks := htasks
  phases t' := by
    by_cases ht : t' = t
    · subst t'
      simpa using hown
    · simpa [Function.update_of_ne ht] using hothers t' ht
  distinct t₁ t₂ id₁ id₂ task h₁ h₂ := by
    by_cases ht₁ : t₁ = t
    · by_cases ht₂ : t₂ = t
      · rw [ht₁, ht₂]
      · rw [ht₁, Function.update_self] at h₁
        rw [Function.update_of_ne ht₂] at h₂
        exact absurd h₂ (hdistinct id₁ task h₁ t₂ id₂ ht₂)
    · rw [Function.update_of_ne ht₁] at h₁
      by_cases ht₂ : t₂ = t
      · rw [ht₂, Function.update_self] at h₂
        exact absurd h₁ (hdistinct id₂ task h₂ t₁ id₁ ht₁)
      · rw [Function.update_of_ne ht₂] at h₂
        exact h.distinct t₁ t₂ id₁ id₂ task h₁ h₂

theorem Owned.learn (h : Owned phase r) (hown : next.Ok r t)
    (hnext : ∀ id task, next ≠ .spawned id task) : Owned (Function.update phase t next) r :=
  h.update h.cells h.tasks hown (fun t' _ => h.phases t') fun id task hspawned =>
    absurd hspawned (hnext id task)

theorem Owned.commit (h : Owned phase r) (hlock : r.opLock = some t)
    (hlock' : r'.opLock = r.opLock) (hregistered : r'.registered = r.registered)
    (hspawned : r'.tasks = r.tasks) (hcells : r'.CellsOk) (htasks : r'.TasksOwned) :
    Owned (Function.update phase t .held) r' := by
  refine h.update hcells htasks (hlock'.trans hlock) (fun t' ht => ?_) nofun
  have hfree : r.opLock ≠ some t' := by
    rw [hlock]
    exact fun heq => ht (Option.some.inj heq).symm
  refine (h.phases t').of_free hfree (hlock' ▸ hfree) fun id task _ hfresh hown => ?_
  rw [hregistered]
  exact ⟨hfresh, by rwa [Registry.SpawnedFor, hspawned]⟩

theorem Owned.find (h : Owned phase r) (t : Nat) (id : String) :
    Owned (Function.update phase t ((phase t).learn id (r.find id))) r := by
  have hok := h.phases t
  unfold Phase.learn
  by_cases hholds : (phase t).holds = true
  · rw [if_pos hholds]
    have hlock := hok.holds_iff.mp hholds
    cases hfind : r.find id with
    | none => exact h.learn ⟨hlock, (find_eq_none h.cells).mp hfind⟩ nofun
    | some found => exact h.learn ⟨hlock, found.2, hfind, rfl⟩ nofun
  · rw [if_neg hholds, Function.update_eq_self]
    exact h

theorem Owned.change (h : Owned phase r) {running : Bool}
    (hphase : phase t = .found id cell running) (hfind : r.find id = some (cell, active))
    (change : Change F) :
    Owned (Function.update phase t .held) (r.change cell active change) := by
  have hok := h.phases t
  rw [hphase] at hok
  exact h.commit hok.1 rfl rfl rfl (h.cells.congr rfl List.length_set)
    (h.tasks.step (change_rehandles h.cells h.tasks hfind change))

theorem Registry.SpawnedFor.lt {task : Nat} (h : r.SpawnedFor task id) : task < r.tasks.length := by
  obtain ⟨spawned, hspawned, -⟩ := h
  exact (List.getElem?_eq_some_iff.mp hspawned).1

theorem Owned.spawn (h : Owned phase r) (hphase : phase t = .free) (task : Task F) :
    Owned (Function.update phase t (.spawned task.ruleId r.tasks.length))
      { r with tasks := r.tasks ++ [task] } := by
  have hok := h.phases t
  rw [hphase] at hok
  have hstep := spawn_rehandles h.tasks task ""
  refine h.update (h.cells.congr rfl rfl) (h.tasks.step hstep) ?_ (fun t' _ => ?_) ?_
  · -- the new number is larger than those of the tasks that have registered
    refine ⟨hok, fun hmem => ?_, task, List.getElem?_concat_length, rfl⟩
    obtain ⟨other, hother⟩ := h.tasks.known _ hmem
    exact absurd hother.lt (Nat.lt_irrefl _)
  · exact (h.phases t').mono rfl rfl (fun _ _ active hactive => ⟨active, hactive, rfl⟩)
      fun id n _ hfresh hown => ⟨hfresh, hstep.tasks n id hown⟩
  · rintro id n hn t' id' ht hspawned
    cases hn
    have hother := h.phases t'
    rw [hspawned] at hother
    exact absurd hother.2.2.lt (Nat.lt_irrefl _)

theorem Owned.setRuleHandle (h : Owned phase r) {task : Nat}
    (hphase : phase t = .spawned id task) :
    Owned (Function.update phase t .free) (r.setRuleHandle id task) := by
  have hok := h.phases t
  rw [hphase] at hok
  obtain ⟨hlock, hfresh, hspawned⟩ := hok
  have hstep := setRuleHandle_rehandles h.cells h.tasks hfresh hspawned
  have hkeeps : (r.setRuleHandle id task).opLock = r.opLock ∧
      (r.setRuleHandle id task).rules = r.rules ∧
      (r.setRuleHandle id task).cells.length = r.cells.length := by
    cases hfind : r.find id with
    | none =>
      rw [setRuleHandle_absent hfind]
      exact ⟨rfl, rfl, rfl⟩
    | some found =>
      rw [setRuleHandle_present hfind]
      exact ⟨rfl, rfl, List.length_set⟩
  obtain ⟨hlock', hrules, hlength⟩ := hkeeps
  refine h.update (h.cells.congr hrules hlength) (h.tasks.step hstep)
    (fun heq => hlock (hlock' ▸ heq)) ?_ nofun
  intro t' ht
  refine (h.phases t').mono hlock' hrules (fun other c found hfound => ?_) ?_
  · by_cases hother : other = id
    · subst other
      exact ⟨_, (find_setRuleHandle task h.cells hfound _).trans (if_pos rfl), rfl⟩
    · exact ⟨found, (hstep.frame other hother).trans hfound, rfl⟩
  · intro other n hn hnew hown
    refine ⟨fun hmem => ?_, hstep.tasks n other hown⟩
    rcases (hstep.registered n).mp hmem with hold | heq
    · exact hnew hold
    · obtain rfl := List.mem_singleton.mp heq
      exact ht (h.distinct t' t other id n hn hphase)

theorem Owned.relock (h : Owned phase r) {opLock : Option Nat}
    (hown : next.Ok { r with opLock } t) (hnext : ∀ id task, next ≠ .spawned id task)
    (hfree : ∀ t', t' ≠ t → r.opLock ≠ some t' ∧ opLock ≠ some t') :
    Owned (Function.update phase t next) { r with opLock } :=
  h.update (h.cells.congr rfl rfl)
    ⟨h.tasks.held, h.tasks.kept, h.tasks.aborted, h.tasks.known⟩ hown
    (fun t' ht => (h.phases t').of_free (hfree t' ht).1 (hfree t' ht).2
      fun _ _ _ hfresh hown => ⟨hfresh, hown⟩)
    fun id task hspawned => absurd hspawned (hnext id task)

theorem Owned.step {w : World F Text} (h : Owned phase w.toRegistry) {op : RuleOp F}
    (hallow : (phase t).Allows op) (hexec : w.toRegistry.exec t op = some r') :
    Owned (Function.update phase t ((phase t).next op (w.answer op))) r' := by
  have hok := h.phases t
  cases op with
  | lock =>
    obtain ⟨hnone, rfl⟩ := Option.ite_some_none_eq_some.mp hexec
    refine h.relock rfl nofun fun t' ht => ⟨?_, fun heq => ht (Option.some.inj heq).symm⟩
    rw [hnone]
    exact nofun
  | unlock =>
    obtain rfl := Option.some.inj hexec
    have hlock := hok.holds_iff.mp hallow
    refine h.relock nofun nofun fun t' ht => ⟨fun heq => ht ?_, nofun⟩
    exact Option.some.inj (heq.symm.trans hlock)
  | find id =>
    obtain rfl := Option.some.inj hexec
    exact h.find t id
  | insert rule =>
    obtain rfl := Option.some.inj hexec
    rw [show phase t = .absent rule.id from hallow] at hok
    exact h.commit hok.1 rfl rfl rfl (h.cells.addRule rule.id _)
      (h.tasks.step (addRule_rehandles h.cells hok.2 rule))
  | remove id =>
    obtain rfl := Option.some.inj hexec
    obtain ⟨cell, running, hphase⟩ := hallow
    rw [hphase] at hok
    obtain ⟨hlock, active, hfind, -⟩ := hok
    have hsame : (w.removeRule id).opLock = w.opLock ∧
        (w.removeRule id).registered = w.registered ∧ (w.removeRule id).tasks = w.tasks := by
      rw [Registry.removeRule, hfind]
      exact ⟨rfl, rfl, rfl⟩
    have hcells : (w.removeRule id).CellsOk := by
      rw [Registry.removeRule, hfind]
      exact (h.cells.forget id).congr rfl List.length_set
    exact h.commit hlock hsame.1 hsame.2.1 hsame.2.2 hcells
      (h.tasks.step (removeRule_rehandles h.cells hfind))
  | changeAt id change =>
    obtain ⟨cell, running, hphase⟩ := hallow
    rw [hphase] at hok
    obtain ⟨-, active, hfind, -⟩ := hok
    rw [Registry.exec, hfind] at hexec
    obtain rfl := Option.some.inj hexec
    exact h.change hphase hfind change
  | changeCell cell change =>
    obtain ⟨id, running, hphase⟩ := hallow
    rw [hphase] at hok
    obtain ⟨-, active, hfind, -⟩ := hok
    rw [Registry.exec, (find_eq_some.mp hfind).2] at hexec
    obtain rfl := Option.some.inj hexec
    exact h.change hphase hfind change
  | spawn task =>
    obtain rfl := Option.some.inj hexec
    exact h.spawn hallow task
  | setRuleHandle id task =>
    obtain rfl := Option.some.inj hexec
    exact h.setRuleHandle hallow
  | list | persist | unpersist | deleteCheckpoint | openQueue =>
    obtain rfl := Option.some.inj hexec
    rwa [Phase.next, Function.update_eq_self]

end

-- ---- The calls keep to their phases

section
variable {α : Type}

def KeepsLock (phase : Phase) (body : RuleProg F α) : Prop :=
  body.Follows taskProtocol (fun phase _ => phase.holds = true) phase

def IsCall (body : RuleProg F α) : Prop :=
  body.Follows taskProtocol (fun phase _ => phase = .free) .free

theorem locked_isCall {body : RuleProg F α} (h : KeepsLock .held body) : IsCall (locked body) := by
  refine Prog.follows_perform rfl fun _ _ => Prog.Follows.bind h fun phase result hholds => ?_
  exact Prog.follows_perform hholds fun _ _ => rfl

theorem findRule_keepsLock {f : Option (Nat × ActiveRule F) → RuleProg F α}
    (hnone : KeepsLock (.absent id) (f none))
    (hsome : ∀ cell active, KeepsLock (.found id cell (isRunning active))
      (f (some (cell, active)))) :
    KeepsLock .held (findRule id >>= f) := by
  refine Prog.follows_perform nofun fun answer _ => ?_
  cases answer with
  | none => exact hnone
  | some found => exact hsome found.1 found.2

theorem transition_isCall (id : String) (definition : ActiveRule F → RuleDefinition F)
    (status : ActiveRule F → String) {commit : Nat → ActiveRule F → RuleProg F Unit}
    (result : ActiveRule F → α)
    (hcommit : ∀ cell active, KeepsLock (.found id cell (isRunning active)) (commit cell active)) :
    IsCall (transition id definition status commit result) := by
  refine locked_isCall (findRule_keepsLock rfl fun cell active => ?_)
  refine Prog.follows_perform nofun fun stored _ => ?_
  cases stored with
  | false => exact rfl
  | true => exact (hcommit cell active).bind fun phase _ hholds => hholds

theorem createRule_isCall (rule : RuleDefinition F) : IsCall (createRule rule) := by
  refine locked_isCall (findRule_keepsLock ?_ fun _ _ => rfl)
  refine Prog.follows_perform nofun fun stored _ => ?_
  cases stored with
  | false => exact rfl
  | true =>
    refine Prog.Follows.ite (fun _ => Prog.Follows.ite (fun _ => ?_) fun _ => rfl) fun _ => rfl
    exact Prog.follows_perform rfl fun _ _ => rfl

theorem deleteRule_isCall (id : String) : IsCall (deleteRule id : RuleProg F _) := by
  refine locked_isCall (findRule_keepsLock rfl fun cell active => ?_)
  refine Prog.follows_perform nofun fun stored _ => ?_
  cases stored with
  | false => exact rfl
  | true =>
    exact Prog.follows_perform nofun fun _ _ =>
      Prog.follows_perform ⟨cell, _, rfl⟩ fun _ _ => rfl

theorem changeAt_keepsLock (change : Change F) (cell : Nat) (running : Bool) :
    KeepsLock (.found id cell running) (changeAt id change) :=
  ⟨⟨cell, running, rfl⟩, fun _ _ => rfl⟩

theorem changeCell_keepsLock (change : Change F) (running : Bool) :
    KeepsLock (.found id cell running) (changeCell cell change) :=
  ⟨⟨id, running, rfl⟩, fun _ _ => rfl⟩

theorem run_isCall (call : RuleCall F) : IsCall call.run := by
  cases call with
  | createRule rule => exact createRule_isCall rule
  | updateRule rule => exact transition_isCall _ _ _ _ fun _ _ => changeCell_keepsLock _ _
  | startRule id now => exact transition_isCall _ _ _ _ fun _ _ => changeAt_keepsLock _ _ _
  | stopRule id now => exact transition_isCall _ _ _ _ fun _ _ => changeAt_keepsLock _ _ _
  | restartRule id now => exact transition_isCall _ _ _ _ fun _ _ => changeCell_keepsLock _ _
  | haltRuleWithError id error now =>
    exact transition_isCall _ _ _ _ fun _ _ => changeAt_keepsLock _ _ _
  | deleteRule id => exact deleteRule_isCall id
  | getRule id => exact Prog.follows_perform nofun fun _ _ => rfl
  | getRuleStatus id => exact Prog.follows_perform nofun fun _ _ => rfl
  | listRules => exact ⟨nofun, fun _ _ => rfl⟩
  | spawnRuleTask id rule stmt =>
    refine Prog.follows_perform nofun fun status _ => Prog.follows_perform nofun fun opened _ => ?_
    cases opened with
    | false => exact rfl
    | true => exact Prog.follows_perform rfl fun task _ => ⟨rfl, fun _ _ => rfl⟩

end

-- ---- Runs

theorem exec_eq_some {codec : EnvelopeCodec F Text} {t : Nat} {w w' : World F Text}
    {op : RuleOp F} {answer : op.Answer} (h : w.exec codec t op = some (answer, w')) :
    answer = w.answer op ∧ w.toRegistry.exec t op = some w'.toRegistry := by
  obtain ⟨r', hr', heq⟩ := Option.map_eq_some_iff.mp h
  cases heq
  exact ⟨rfl, hr'⟩

theorem act_registry (states : StateCodec F Text) (action : Action F) (w : World F Text) :
    (w.act states action).toRegistry = w.toRegistry := by
  cases action with
  | setStore ok => rfl
  | begin task now =>
    simp only [World.act, World.begin]
    split
    · rfl
    · split <;> rfl
  | restore task =>
    simp only [World.act, World.restore]
    split
    · split
      · split <;> rfl
      · rfl
    · rfl
  | event task contended update =>
    simp only [World.act, World.event]
    split
    · split <;> rfl
    · rfl
  | tick ticker contended =>
    simp only [World.act, World.tick]
    split
    · rfl
    · split
      · split
        · split <;> rfl
        · rfl
      · rfl
  | write ticker =>
    simp only [World.act, World.writeCheckpoint]
    split
    · rfl
    · split
      · split <;> rfl
      · rfl

structure Registry.Idle (r : Registry F) : Prop where
  cells : r.CellsOk
  handles : ∀ active ∈ r.cells, active.handle = none
  opLock : r.opLock = none
  tasks : r.tasks = []
  registered : r.registered = []
  aborted : r.aborted = []

theorem empty_idle : (Registry.empty : Registry F).Idle :=
  ⟨⟨nofun, nofun⟩, nofun, rfl, rfl, rfl, rfl⟩

theorem Registry.Idle.addRule (h : r.Idle) (id : String) (hactive : active.handle = none) :
    (r.addRule id active).Idle where
  cells := h.cells.addRule id active
  handles := by
    intro other hother
    rcases List.mem_append.mp hother with hold | hnew
    · exact h.handles other hold
    · rwa [List.mem_singleton.mp hnew]
  opLock := h.opLock
  tasks := h.tasks
  registered := h.registered
  aborted := h.aborted

theorem Registry.Idle.owned (h : r.Idle) : Owned (fun _ => .free) r where
  cells := h.cells
  tasks := by
    refine ⟨fun id task htask => ?_, ?_, ?_, ?_⟩
    · obtain ⟨found, hfound, htask⟩ := Option.bind_eq_some_iff.mp htask
      rw [h.handles found.2 (List.mem_of_getElem? (find_eq_some.mp hfound).2)] at htask
      cases htask
    · simp [h.registered]
    · simp [h.aborted]
    · simp [h.registered]
  phases t := by
    show r.opLock ≠ some t
    rw [h.opLock]
    exact nofun
  distinct := nofun

theorem restarted_handles (codec : EnvelopeCodec F Text) (kv : KvStore Text) :
    ∀ id active, (RuleManager.restarted codec kv).rules.lookup id = some active →
      active.handle = none := by
  refine List.foldlRecOn (motive := fun rules : HashMap String (ActiveRule F) =>
    ∀ id active, rules.lookup id = some active → active.handle = none) _ _ nofun ?_
  intro rules hrules entry _ id active hactive
  unfold RuleManager.loadEntry at hactive
  split at hactive
  · exact hrules id active hactive
  · rename_i rule status _
    by_cases hid : id = rule.id
    · subst hid
      rw [AList.lookup_insert] at hactive
      cases hactive
      rfl
    · rw [AList.lookup_insert_ne hid] at hactive
      exact hrules id active hactive

theorem booted_idle (codec : EnvelopeCodec F Text) (kv : KvStore Text) :
    (World.booted codec kv).Idle :=
  List.foldlRecOn _ _ empty_idle fun _ h entry hentry =>
    h.addRule entry.1 (restarted_handles codec kv entry.1 entry.2 (AList.mem_lookup_iff.mpr hentry))

theorem clients_owned (codec : EnvelopeCodec F Text) (states : StateCodec F Text)
    (kv : KvStore Text) (clients : Clients F) (schedule : List (Choice (Action F))) :
    ∃ phase, Owned phase
      ((clients.start codec kv).run (machine codec states) schedule).1.state.toRegistry := by
  refine (run_invariant (fun _ => taskProtocol) (fun _ phase _ => phase = .free)
    (fun phase w => Owned phase w.toRegistry) (fun _ => True) ?_ ?_ (clients.start codec kv)
    schedule (fun _ => .free) (booted_idle codec kv).owned
    (fun t => Prog.follows_expand run_isCall (clients t)) fun _ _ => trivial).imp
    fun phase hinv => hinv.1
  · intro phase w t op answer w' h hallow hexec _
    obtain ⟨rfl, hregistry⟩ := exec_eq_some hexec
    exact ⟨trivial, h.step hallow hregistry⟩
  · intro phase w action h
    show Owned phase (w.act states action).toRegistry
    rwa [act_registry]

def Registry.Live (r : Registry F) (id : String) (task : Nat) : Prop :=
  r.SpawnedFor task id ∧ task ∉ r.aborted

theorem Owned.live_held {phase : Nat → Phase} (h : Owned phase r) {task : Nat}
    (hregistered : task ∈ r.registered) (hlive : r.Live id task) : r.handleOf id = some task := by
  rcases h.tasks.kept task hregistered with haborted | ⟨other, hother⟩
  · exact absurd haborted hlive.2
  · rwa [hlive.1.unique (h.tasks.held other task hother).2.2.2]

/-- Once every task has registered, a running rule has at most one live task, and a rule that
is not running or not there has none. -/
theorem one_live_task (codec : EnvelopeCodec F Text) (states : StateCodec F Text)
    (kv : KvStore Text) (clients : Clients F) (schedule : List (Choice (Action F))) :
    let r := ((clients.start codec kv).run (machine codec states) schedule).1.state.toRegistry
    (∀ task < r.tasks.length, task ∈ r.registered) →
      ∀ id, (∀ task task', r.Live id task → r.Live id task' → task = task') ∧
        (r.runs id = false → ∀ task, ¬ r.Live id task) := by
  intro r hall id
  obtain ⟨phase, h⟩ := clients_owned codec states kv clients schedule
  have hheld : ∀ task, r.Live id task → r.handleOf id = some task := fun task hlive =>
    h.live_held (hall task hlive.1.lt) hlive
  refine ⟨fun task task' hlive hlive' => ?_, fun hstopped task hlive => ?_⟩
  · exact Option.some.inj ((hheld task hlive).symm.trans (hheld task' hlive'))
  · rw [(h.tasks.held id task (hheld task hlive)).1] at hstopped
    cases hstopped

theorem booted_empty (codec : EnvelopeCodec F Text) :
    World.booted codec ∅ = World.empty (F := F) ∅ := by
  have hnone : listAll (∅ : KvStore Text) "rules" = [] := List.mergeSort_nil
  simp only [World.booted, RuleManager.restarted, RuleManager.loadEntries, hnone, List.foldl_nil]
  rfl

def plainStates : StateCodec F (RuleDefinition F × String ⊕ StateMap F) where
  encode := .inr
  decode := Sum.getRight?

def spawning (call : RuleCall F) (rule : RuleDefinition F) :
    Prog (RuleCall F) RuleCall.Reply Unit := do
  let _ ← Prog.perform call
  let _ ← Prog.perform (RuleCall.spawnRuleTask rule.id rule (.plain [] "demo" none))
  pure ()

def restartingClients : Clients Unit
  | 0 => spawning (.createRule (bareRule "r")) (bareRule "r")
  | 1 => spawning (.restartRule "r" 5) (bareRule "r")
  | _ => pure ()

/-- The task of the creation registers when the restart has registered its own. -/
theorem restarted_rule_has_one_task :
    let r := ((restartingClients.start .plain ∅).run (machine .plain plainStates)
      (List.replicate 8 (.thread 0) ++ List.replicate 9 (.thread 1) ++ [.thread 0])).1.state.toRegistry
    r.registered = [0, 1] ∧ (∀ task < r.tasks.length, task ∈ r.registered) ∧
      r.runs "r" = true ∧ r.Live "r" 0 ∧ ∀ task, r.Live "r" task → task = 0 := by
  intro r
  have hr : r.tasks.length = 2 ∧ r.registered = [0, 1] ∧ r.runs "r" = true ∧ r.Live "r" 0 := by
    simp only [r, Clients.start, booted_empty]
    exact ⟨rfl, rfl, rfl, ⟨_, rfl, rfl⟩, by decide⟩
  obtain ⟨hlength, hregistered, hruns, hlive⟩ := hr
  have hall : ∀ task < r.tasks.length, task ∈ r.registered := by
    rw [hlength, hregistered]
    decide
  refine ⟨hregistered, hall, hruns, hlive, fun task htask => ?_⟩
  exact ((one_live_task .plain plainStates ∅ restartingClients _ hall "r").1 task 0 htask hlive)

end Rekuiper.Rules
