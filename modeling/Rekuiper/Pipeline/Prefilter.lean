import Rekuiper.Sql.Window
import Rekuiper.Pipeline.Joins
import Rekuiper.Pipeline.Predicate

/-!
# The bus filter and the task of a rule

What the task of a rule decides about each record of its stream, and the filter that the
bus puts before it. The filter is invisible as long as the task ignores every record that
the filter rejects.
-/

namespace Rekuiper.Pipeline

open Lib Sql

variable {F : Type}

inductive OnErrorPolicy
  | drop | dlq | halt
  deriving DecidableEq, Repr

inductive DlqStage
  | schemaValidation | codecDecode | sqlEval
  deriving DecidableEq, Repr

/-- A rule, with the columns that its stream declares and the stream's timestamp column. -/
structure Rule (F : Type) where
  stmt : SelectStmt F
  isEventTime : Bool
  sendError : Bool
  onError : OnErrorPolicy
  fields : List StreamField
  timestampField : Option String

def Rule.busPredicate [Float64 F] (rule : Rule F) : Option (BusPredicate F) :=
  if !stmtHasAnalytic rule.stmt && !rule.isEventTime && !rule.sendError then
    rule.stmt.whereClause.bind extractBusPredicate
  else none

/-- The bus does not hand the record on to the rule. -/
def Rule.rejects [Float64 F] (rule : Rule F) (record : Row F) : Bool :=
  rule.busPredicate.any fun predicate => !checkAndAccount predicate record

-- ---- The task

inductive Verdict (F : Type)
  | ignored
  | failed (stage : DlqStage) (error : String)
  | panicked
  | accepted (row : Row F)

def SchemaMismatchError.text (e : SchemaMismatchError) : String :=
  s!"Field '{e.field}' expected type '{e.expected}', got: {e.actualValue}"

section
variable [Float64 F]

def Rule.receive (rule : Rule F) (env : Env F) (record : Row F) :
    Except SchemaMismatchError (Row F) :=
  match rule.onError with
  | .dlq | .halt => enforceStreamSchemaChecked env record rule.fields
  | .drop => .ok (enforceStreamSchema env record rule.fields)

/-- The part of `eval_select_stateless_fast` before the projection. -/
def whereVerdict (env : Env F) (stmt : SelectStmt F) (row : Row F) (s : RuleState F) :
    Verdict F × RuleState F :=
  match stmt.whereClause with
  | none => (.accepted row, s)
  | some condition =>
    match (evalBoolStateful env row condition).go s with
    | (.ok true, s) => (.accepted row, s)
    | (.ok false, s) => (.ignored, s)
    | (.error (.message text), s) => (.failed .sqlEval text, s)
    | (.error (.panic _), s) => (.panicked, s)

/-- `run_stateless_rule` on one record. -/
def Rule.statelessVerdict (rule : Rule F) (env : Env F) (tables : Tables F)
    (latest : AsofState F) (row : Row F) (s : RuleState F) : Verdict F × RuleState F :=
  match joinedRow env tables latest rule.stmt rule.timestampField row with
  | .error _ => (.panicked, s)
  | .ok none => (.ignored, s)
  | .ok (some joined) => whereVerdict env rule.stmt joined s

def windowIngestPasses (env : Env F) (stmt : SelectStmt F) (row : Row F) : Except Failure Bool := do
  if stmt.joins.isEmpty then
    if !(← passesWhere env stmt row) then return false
  match stmt.windowFilter with
  | some condition => evalBool env row condition
  | none => return true

/-- The rows of the window go into accumulators, which look at `WHERE` only. -/
def isRowFree (stmt : SelectStmt F) : Bool :=
  match stmt.window with
  | some (.tumblingTime ..) | some (.session ..) => (incrementalPlans stmt).isSome
  | _ => false

def Rule.windowVerdict (rule : Rule F) (env : Env F) (row : Row F) : Verdict F :=
  let passes :=
    if isRowFree rule.stmt then passesWhere env rule.stmt row
    else windowIngestPasses env rule.stmt row
  match passes with
  | .ok true => .accepted row
  | .ok false => .ignored
  | .error _ => .panicked

/-- What the task of a rule decides about a record of its stream. A rule with analytic
functions or in event time looks at every record, and so has no filter. -/
def Rule.judge (rule : Rule F) (env : Env F) (tables : Tables F) (latest : AsofState F)
    (record : Row F) (s : RuleState F) : Verdict F × RuleState F :=
  match rule.receive env record with
  | .error mismatch => (.failed .schemaValidation mismatch.text, s)
  | .ok row =>
    match rule.stmt.window with
    -- a window of length zero has a task that only counts
    | some (.tumblingTime _ 0) => (.ignored, s)
    | window =>
      match checkRecordError env row with
      | some text => (.failed .codecDecode text, s)
      | none =>
        if rule.isEventTime || stmtHasAnalytic rule.stmt then (.accepted row, s)
        else
          match window with
          | none => rule.statelessVerdict env tables latest row s
          | some _ => (rule.windowVerdict env row, s)

end

-- ---- Runs

/-- The state of the task: what the evaluator keeps, the latest rows of the joined streams,
and the rest, such as open windows. -/
structure TaskState (F σ : Type) where
  ruleState : RuleState F
  latest : AsofState F
  stopped : Bool
  rest : σ

/-- A record of the stream, with the time, functions and tables at its arrival, or anything
else that the task waits for. -/
inductive Event (F ε : Type)
  | record (env : Env F) (tables : Tables F) (data : Row F)
  | other (event : ε)

/-- What the task does once it has decided about a record, and about other events. -/
structure Runner (F σ ε ω : Type) where
  accept : Env F → Tables F → Row F → TaskState F σ → TaskState F σ × List ω
  fail : Env F → DlqStage → String → Row F → TaskState F σ → TaskState F σ × List ω
  other : ε → TaskState F σ → TaskState F σ × List ω

section
variable [Float64 F] {σ ε ω : Type}

def Rule.step (rule : Rule F) (runner : Runner F σ ε ω) (task : TaskState F σ) :
    Event F ε → TaskState F σ × List ω
  | .other event => runner.other event task
  | .record env tables record =>
    if task.stopped then (task, [])
    else
      let (verdict, ruleState) := rule.judge env tables task.latest record task.ruleState
      let task := { task with ruleState }
      match verdict with
      | .ignored => (task, [])
      | .accepted row => runner.accept env tables row task
      | .failed stage error =>
        let (task, outputs) := runner.fail env stage error record task
        (if rule.onError = .halt then { task with stopped := true } else task, outputs)
      | .panicked => ({ task with stopped := true }, [])

def Rule.filteredStep (rule : Rule F) (runner : Runner F σ ε ω) (task : TaskState F σ)
    (event : Event F ε) : TaskState F σ × List ω :=
  match event with
  | .record _ _ record => if rule.rejects record then (task, []) else rule.step runner task event
  | .other _ => rule.step runner task event

def runWith (step : TaskState F σ → Event F ε → TaskState F σ × List ω) (task : TaskState F σ) :
    List (Event F ε) → TaskState F σ × List ω
  | [] => (task, [])
  | event :: events =>
    let (task, outputs) := step task event
    let (task, more) := runWith step task events
    (task, outputs ++ more)

/-- A property of every event of a run and of the state in which it arrives. -/
def Along (step : TaskState F σ → Event F ε → TaskState F σ × List ω)
    (P : TaskState F σ → Event F ε → Prop) (task : TaskState F σ) : List (Event F ε) → Prop
  | [] => True
  | event :: events => P task event ∧ Along step P (step task event).1 events

end

-- ---- Records that the task ignores

section
variable [Float64 F] {σ ε ω : Type}

/-- A record that the joins of a rule without a window drop, or whose joined row the bus
reads as the rule does and `WHERE` evaluates without an error and without keeping state. -/
def Rule.StatelessAgrees (rule : Rule F) (env : Env F) (tables : Tables F)
    (latest : AsofState F) (s : RuleState F) (record row : Row F) : Prop :=
  ∃ found, joinedRow env tables latest rule.stmt rule.timestampField row = .ok found ∧
    ∀ joined ∈ found, ∀ condition ∈ rule.stmt.whereClause,
      Faithful env record joined true condition ∧
      (∀ e ∈ subexprs condition, isStatefulCall e = false) ∧
      ∀ failure, ((evalBoolStateful env joined condition).go s).1 ≠ .error failure

def Rule.WindowAgrees (rule : Rule F) (env : Env F) (record row : Row F) : Prop :=
  (rule.stmt.joins = [] ∧ ∀ condition ∈ rule.stmt.whereClause,
    Faithful env record row true condition ∧ ∀ text, evalBool env row condition ≠ .error text) ∨
  (isRowFree rule.stmt = false ∧ (∃ f ∈ rule.stmt.windowFilter, evalBool env row f = .ok false) ∧
    (rule.stmt.joins = [] → ∀ text, passesWhere env rule.stmt row ≠ .error text))

/-- The bus and the rule agree about a record that the bus rejects: the schema accepts it,
the rule does not take it for an error record, and what `WHERE` looks at is in the row of the
rule as the bus finds it in the record. -/
def Rule.Agrees (rule : Rule F) (env : Env F) (tables : Tables F) (task : TaskState F σ)
    (record : Row F) : Prop :=
  ∃ row, rule.receive env record = .ok row ∧
    ((∃ unit, rule.stmt.window = some (.tumblingTime unit 0)) ∨
      (checkRecordError env row = none ∧
        match rule.stmt.window with
        | none => rule.StatelessAgrees env tables task.latest task.ruleState record row
        | some _ => rule.WindowAgrees env record row))

/-- The bus and the rule agree about the record that arrives, if it is rejected. -/
def Rule.AgreesAt (rule : Rule F) (task : TaskState F σ) : Event F ε → Prop
  | .record env tables record =>
    task.stopped = false → rule.rejects record = true → rule.Agrees env tables task record
  | .other _ => True

/-- The record that arrives, if it is rejected, is no error to the task, which gives no output
for it and keeps no state from it. -/
def Rule.IgnoresAt (rule : Rule F) (runner : Runner F σ ε ω) (task : TaskState F σ) :
    Event F ε → Prop
  | .record env tables record => rule.rejects record = true →
    rule.step runner task (.record env tables record) = (task, []) ∧
    (task.stopped = false → rule.judge env tables task.latest record task.ruleState =
      (.ignored, task.ruleState))
  | .other _ => True

theorem Rule.rejects_cases {rule : Rule F} {record : Row F} (h : rule.rejects record = true) :
    rule.isEventTime = false ∧ stmtHasAnalytic rule.stmt = false ∧
      ∃ condition p, rule.stmt.whereClause = some condition ∧
        extractBusPredicate condition = some p ∧ p.matches record = false := by
  unfold Rule.rejects Rule.busPredicate at h
  split at h
  · next hplain =>
    simp only [Bool.and_eq_true, Bool.not_eq_true'] at hplain
    obtain ⟨p, hp, hcheck⟩ := (Option.any_eq_true _ _).mp h
    obtain ⟨condition, hwhere, hextract⟩ := Option.bind_eq_some_iff.mp hp
    refine ⟨hplain.1.2, hplain.1.1, condition, p, hwhere, hextract, ?_⟩
    simp only [checkAndAccount, Bool.not_eq_true', Bool.or_eq_false_iff] at hcheck
    exact hcheck.1
  · cases h

variable [LawfulFloat64 F] {rule : Rule F} {env : Env F} {tables : Tables F} {record row : Row F}
  {condition : Expr F} {p : BusPredicate F}

theorem statelessVerdict_ignored {latest : AsofState F} {s : RuleState F}
    (hwhere : rule.stmt.whereClause = some condition)
    (hp : extractBusPredicate condition = some p) (hreject : p.matches record = false)
    (h : rule.StatelessAgrees env tables latest s record row) :
    rule.statelessVerdict env tables latest row s = (.ignored, s) := by
  obtain ⟨found, hjoined, hfound⟩ := h
  unfold Rule.statelessVerdict
  rw [hjoined]
  cases found with
  | none => rfl
  | some joined =>
    obtain ⟨hfaithful, hstateless, herror⟩ := hfound joined rfl condition hwhere
    have hnot := rejected_not_met hp hreject hfaithful s
    have hkeeps := evalBoolStateful_keeps env joined condition hstateless s
    simp only [whereVerdict, hwhere]
    cases heval : (evalBoolStateful env joined condition).go s with
    | mk result s' =>
      rw [heval] at hnot hkeeps herror
      obtain rfl : s' = s := hkeeps
      cases result with
      | ok b =>
        cases b with
        | true => exact absurd rfl hnot
        | false => rfl
      | error failure => exact absurd rfl (herror failure)

theorem passesWhere_rejected (hwhere : rule.stmt.whereClause = some condition)
    (hp : extractBusPredicate condition = some p) (hreject : p.matches record = false)
    (hfaithful : Faithful env record row true condition)
    (herror : ∀ text, evalBool env row condition ≠ .error text) :
    passesWhere env rule.stmt row = .ok false := by
  have hnot := rejected_not_met hp hreject hfaithful RuleState.new
  simp only [passesWhere, hwhere]
  unfold evalBool at herror ⊢
  cases heval : ((evalBoolStateful env row condition).go RuleState.new).1 with
  | ok b =>
    rw [heval] at hnot
    cases b with
    | true => exact absurd rfl hnot
    | false => rfl
  | error failure =>
    rw [heval] at herror
    cases failure with
    | message text => rfl
    | panic text => exact absurd rfl (herror _)

theorem windowVerdict_ignored (hwhere : rule.stmt.whereClause = some condition)
    (hp : extractBusPredicate condition = some p) (hreject : p.matches record = false)
    (h : rule.WindowAgrees env record row) : rule.windowVerdict env row = .ignored := by
  unfold Rule.windowVerdict
  rcases h with ⟨hjoins, hcondition⟩ | ⟨hrows, ⟨f, hf, hout⟩, herror⟩
  · obtain ⟨hfaithful, herror⟩ := hcondition condition hwhere
    have hpasses := passesWhere_rejected hwhere hp hreject hfaithful herror
    have hingest : windowIngestPasses env rule.stmt row = .ok false := by
      simp [windowIngestPasses, hjoins, hpasses, pure, Except.pure, bind, Except.bind]
    rw [hpasses, hingest, ite_self]
  · have hingest : windowIngestPasses env rule.stmt row = .ok false := by
      have hfilter : rule.stmt.windowFilter = some f := hf
      unfold windowIngestPasses
      cases hjoins : rule.stmt.joins with
      | nil =>
        cases hpasses : passesWhere env rule.stmt row with
        | ok b => cases b <;> simp [hfilter, hout, pure, Except.pure, bind, Except.bind]
        | error failure => exact absurd hpasses (herror hjoins failure)
      | cons join joins => simp [hfilter, hout]
    rw [hrows, hingest]
    rfl

theorem judge_ignored {task : TaskState F σ} (hrejects : rule.rejects record = true)
    (h : rule.Agrees env tables task record) :
    rule.judge env tables task.latest record task.ruleState = (.ignored, task.ruleState) := by
  obtain ⟨htime, hanalytic, condition, p, hwhere, hp, hreject⟩ := Rule.rejects_cases hrejects
  obtain ⟨row, hrow, hcase⟩ := h
  simp only [Rule.judge, hrow, htime, hanalytic, Bool.or_self, Bool.false_eq_true, if_false]
  rcases hcase with ⟨unit, hwindow⟩ | ⟨herror, hcase⟩
  · simp only [hwindow]
  · simp only [herror]
    cases hwindow : rule.stmt.window with
    | none =>
      rw [hwindow] at hcase
      exact statelessVerdict_ignored hwhere hp hreject hcase
    | some window =>
      rw [hwindow] at hcase
      rw [windowVerdict_ignored hwhere hp hreject hcase]
      split <;> rfl

-- ---- Invisibility

theorem ignoresAt_of_agreesAt (runner : Runner F σ ε ω) {task : TaskState F σ} {event : Event F ε}
    (h : rule.AgreesAt task event) : rule.IgnoresAt runner task event := by
  cases event with
  | other event => trivial
  | record env tables record =>
    intro hrejects
    cases hstopped : task.stopped with
    | true =>
      refine ⟨?_, fun h => absurd h (by simp)⟩
      simp only [Rule.step, hstopped, if_true]
    | false =>
      have hjudge := judge_ignored hrejects (h hstopped hrejects)
      refine ⟨?_, fun _ => hjudge⟩
      simp only [Rule.step, hstopped, hjudge, Bool.false_eq_true, if_false]
      rw [← hstopped]

omit [LawfulFloat64 F] in
theorem filteredStep_eq_step {runner : Runner F σ ε ω} {task : TaskState F σ} {event : Event F ε}
    (h : rule.IgnoresAt runner task event) :
    rule.filteredStep runner task event = rule.step runner task event := by
  cases event with
  | other event => rfl
  | record env tables record =>
    simp only [Rule.filteredStep]
    split
    · next hrejects => exact (h hrejects).1.symm
    · rfl

/-- In every run whose rejected records the bus and the rule agree about, the rule's states
and outputs are the same with and without the filter, and every rejected record is one that
the rule ignores. -/
theorem bus_filter_invisible (rule : Rule F) (runner : Runner F σ ε ω) (task : TaskState F σ)
    (events : List (Event F ε)) (h : Along (rule.step runner) rule.AgreesAt task events) :
    runWith (rule.filteredStep runner) task events = runWith (rule.step runner) task events ∧
      Along (rule.step runner) (rule.IgnoresAt runner) task events := by
  induction events generalizing task with
  | nil => exact ⟨rfl, trivial⟩
  | cons event events ih =>
    obtain ⟨hevent, hevents⟩ := h
    have hignores := ignoresAt_of_agreesAt runner hevent
    obtain ⟨hrun, halong⟩ := ih (rule.step runner task event).1 hevents
    refine ⟨?_, hignores, halong⟩
    simp only [runWith, filteredStep_eq_step hignores, hrun]

end

/-- `SELECT temp FROM s WHERE temp op literal` -/
def tempRule (op : BinaryOperator) (literal : Int) : Rule ℚ where
  stmt := .plain [.identifier "temp"] "s"
    (some (.binaryOp (.identifier "temp") op (.literal (.number (.int literal)))))
  isEventTime := false
  sendError := false
  onError := .drop
  fields := []
  timestampField := none

def tempRecord (n : Number ℚ) : Row ℚ := AList.singleton "temp" (.number n)

/-- A task that puts out a mark for every record it accepts. -/
def markRunner : Runner ℚ Unit Unit Unit where
  accept _ _ _ task := (task, [()])
  fail _ _ _ _ task := (task, [])
  other _ task := (task, [])

def freshTask : TaskState ℚ Unit := ⟨RuleState.new, ∅, false, ()⟩

def arrival (n : Number ℚ) : Event ℚ Unit :=
  .record bareEnv (fun _ _ => .ok []) (tempRecord n)

/-- The first record is rejected and ignored, the second accepted. -/
theorem bus_filter_invisible_two :
    (tempRule .gt 5).rejects (tempRecord (.int 3)) = true ∧
    runWith ((tempRule .gt 5).filteredStep markRunner) freshTask
        [arrival (.int 3), arrival (.int 7)] =
      runWith ((tempRule .gt 5).step markRunner) freshTask
        [arrival (.int 3), arrival (.int 7)] := by
  have hrejects : (tempRule .gt 5).rejects (tempRecord (.int 3)) = true := by decide +kernel
  have haccepts : (tempRule .gt 5).rejects (tempRecord (.int 7)) = false := by decide +kernel
  refine ⟨hrejects, (bus_filter_invisible (tempRule .gt 5) markRunner freshTask
    [arrival (.int 3), arrival (.int 7)] ⟨?_, ?_, trivial⟩).1⟩
  · intro _ _
    refine ⟨tempRecord (.int 3), rfl, .inr ⟨rfl, some (tempRecord (.int 3)), rfl, ?_⟩⟩
    rintro joined ⟨⟩ condition ⟨⟩
    have heval : ((evalBoolStateful bareEnv (tempRecord (.int 3)) (.binaryOp (.identifier "temp")
        .gt (.literal (.number (.int 5))))).go RuleState.new).1 = .ok false := by decide +kernel
    refine ⟨fun _ => ⟨?_, by simp⟩, ?_, fun failure h => ?_⟩
    · rfl
    · simp [subexprs, isStatefulCall]
    · cases heval.symm.trans h
  · intro _ h
    exact absurd (haccepts.symm.trans h) Bool.false_ne_true

/-- The bus compares `1.0` with the literal `1` as JSON, the rule as numbers. -/
theorem bus_filter_drops_match :
    (tempRule .eq 1).rejects (tempRecord (.float 1)) = true ∧
    (runWith ((tempRule .eq 1).filteredStep markRunner) freshTask [arrival (.float 1)]).2 = [] ∧
    (runWith ((tempRule .eq 1).step markRunner) freshTask [arrival (.float 1)]).2 = [()] := by
  refine ⟨?_, ?_, ?_⟩ <;> decide +kernel

end Rekuiper.Pipeline
