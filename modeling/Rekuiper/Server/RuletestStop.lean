import Rekuiper.Lib.Runs

/-!
# Stopping a rule test

The replay of a rule test evaluates a record, emits its rows, and waits for the shutdown
notification or for the interval. `notify_waiters` keeps nothing for later, so that a deletion
is lost to a loop that is not waiting.
-/

namespace Rekuiper.Server.RuletestStop

open Lib

variable {RuleState Record Row : Type}

/-- What the task of `start_ruletest` goes by. The statement was parsed when the session was
created. -/
structure Task (RuleState Record Row : Type) where
  data : List Record
  loopData : Bool
  /-- the empty record for a source without mock rows -/
  trigger : Record
  ruleState : RuleState
  evalSelect : RuleState → Record → List Row × RuleState

inductive Phase (Record Row : Type)
  | spawned
  | triggered (rows : List Row)
  | ready (rest : List Record)
  | emitting (rows : List Row) (rest : List Record)
  | waiting (notified : Bool) (rest : List Record)
  | ended

structure Replay (RuleState Record Row : Type) where
  phase : Phase Record Row
  ruleState : RuleState
  /-- how many records were evaluated -/
  evaluated : Nat
  deleted : Bool
  /-- the rows emitted before the deletion, each with the number of its record -/
  earlier : List (Nat × Row)
  /-- the rows emitted after it -/
  later : List (Nat × Row)

inductive Action
  | begin
  | evaluate
  | expire
  | emit
  | register
  | notified
  | timer
  | pass
  | delete

def Task.spawn (task : Task RuleState Record Row) : Replay RuleState Record Row :=
  ⟨.spawned, task.ruleState, 0, false, [], []⟩

/-- Evaluates a record; `next` is where its rows are emitted. -/
def Replay.evaluate (s : Replay RuleState Record Row) (task : Task RuleState Record Row)
    (record : Record) (next : List Row → Phase Record Row) : Replay RuleState Record Row :=
  let (rows, ruleState) := task.evalSelect s.ruleState record
  { s with phase := next rows, ruleState, evaluated := s.evaluated + 1 }

/-- `emit_ruletest_line` -/
def Replay.emit (s : Replay RuleState Record Row) (row : Row) (next : Phase Record Row) :
    Replay RuleState Record Row :=
  if s.deleted then { s with phase := next, later := s.later ++ [(s.evaluated, row)] }
  else { s with phase := next, earlier := s.earlier ++ [(s.evaluated, row)] }

def Phase.notifyWaiters : Phase Record Row → Phase Record Row
  | .waiting _ rest => .waiting true rest
  | phase => phase

/-- `delete_ruletest`: only the first one finds the session. -/
def Replay.delete (s : Replay RuleState Record Row) : Replay RuleState Record Row :=
  if s.deleted then s else { s with phase := s.phase.notifyWaiters, deleted := true }

/-- A step of the loop or a deletion; what is not possible in a state changes nothing. When both
branches of `select!` are ready, either may be taken. -/
def step (task : Task RuleState Record Row) (s : Replay RuleState Record Row) :
    Action → Replay RuleState Record Row
  | .begin =>
    match s.phase, task.data with
    | .spawned, [] => s.evaluate task task.trigger .triggered
    | .spawned, data => { s with phase := .ready data }
    | _, _ => s
  | .evaluate =>
    match s.phase with
    | .ready (record :: rest) => s.evaluate task record (.emitting · rest)
    | _ => s
  -- the session cap is past
  | .expire =>
    match s.phase with
    | .ready (_ :: _) => { s with phase := .ended }
    | _ => s
  | .emit =>
    match s.phase with
    | .triggered (row :: rows) => s.emit row (.triggered rows)
    | .emitting (row :: rows) rest => s.emit row (.emitting rows rest)
    | _ => s
  | .register =>
    match s.phase with
    | .emitting [] rest => { s with phase := .waiting false rest }
    | _ => s
  | .notified =>
    match s.phase with
    | .waiting true _ => { s with phase := .ended }
    | _ => s
  | .timer =>
    match s.phase with
    | .waiting _ rest => { s with phase := .ready rest }
    | _ => s
  -- the end of the data, or of the trigger's rows
  | .pass =>
    match s.phase with
    | .ready [] => { s with phase := if task.loopData then .ready task.data else .ended }
    | .triggered [] => { s with phase := .ended }
    | _ => s
  | .delete => s.delete

def run (task : Task RuleState Record Row) (actions : List Action) : Replay RuleState Record Row :=
  actions.foldl (step task) task.spawn

/-- The rows emitted after the deletion are those of one record at most. -/
def Stopped (s : Replay RuleState Record Row) : Prop :=
  ∀ x ∈ s.later, ∀ y ∈ s.later, x.1 = y.1

-- ---- When a deletion is heeded

/-- At most `n` records are still to be evaluated. -/
def AtMost (task : Task RuleState Record Row) (n : Nat) : Phase Record Row → Prop
  | .spawned =>
    if task.data = [] then 1 ≤ n else task.loopData = false ∧ task.data.length ≤ n
  | .ready rest | .emitting _ rest | .waiting _ rest => task.loopData = false ∧ rest.length ≤ n
  | .triggered _ | .ended => True

def Phase.Begun : Phase Record Row → Prop
  | .triggered (_ :: _) | .emitting (_ :: _) _ => True
  | _ => False

def OneLeft (task : Task RuleState Record Row) (phase : Phase Record Row) : Prop :=
  AtMost task 0 phase ∨ AtMost task 1 phase ∧ ¬phase.Begun

def Phase.Waiting : Phase Record Row → Prop
  | .waiting _ _ => True
  | _ => False

def Phase.Notified : Phase Record Row → Prop
  | .waiting true _ => True
  | _ => False

/-- The deletion finds the loop waiting, and a notified loop wakes by the notification, unless
there is hardly anything left to emit. -/
def Heeded (task : Task RuleState Record Row) (s : Replay RuleState Record Row) : Action → Prop
  | .delete => s.deleted = true ∨ s.phase.Waiting ∨ OneLeft task s.phase
  | .timer => s.phase.Notified → OneLeft task s.phase
  | _ => True

inductive Winding (task : Task RuleState Record Row) (s : Replay RuleState Record Row) : Prop
  | running (hdeleted : s.deleted = false) (hlater : s.later = [])
  | notified (hphase : s.phase.Notified) (hlater : s.later = [])
  | oneLeft (hphase : AtMost task 1 s.phase) (hbegun : ¬s.phase.Begun) (hlater : s.later = [])
  | last (hphase : AtMost task 0 s.phase) (hlater : ∀ x ∈ s.later, x.1 = s.evaluated)

section

variable {task : Task RuleState Record Row} {s : Replay RuleState Record Row}

theorem Winding.stopped (h : Winding task s) : Stopped s := by
  intro x hx y hy
  cases h with
  | running _ hlater | notified _ hlater | oneLeft _ _ hlater =>
    rw [hlater] at hx
    cases hx
  | last _ hlater => rw [hlater x hx, hlater y hy]

theorem Winding.of_oneLeft (h : OneLeft task s.phase) (hlater : s.later = []) : Winding task s := by
  rcases h with hphase | ⟨hphase, hbegun⟩
  · exact .last hphase (by simp [hlater])
  · exact .oneLeft hphase hbegun hlater

@[simp] theorem atMost_notifyWaiters {n : Nat} {phase : Phase Record Row} :
    AtMost task n phase.notifyWaiters ↔ AtMost task n phase := by
  cases phase <;> exact Iff.rfl

@[simp] theorem begun_notifyWaiters {phase : Phase Record Row} :
    phase.notifyWaiters.Begun ↔ phase.Begun := by
  cases phase <;> exact Iff.rfl

theorem notified_notifyWaiters {phase : Phase Record Row} (h : phase.Waiting) :
    phase.notifyWaiters.Notified := by
  cases phase with
  | waiting => trivial
  | _ => cases h

theorem Phase.Notified.waiting {phase : Phase Record Row} (h : phase.Notified) : phase.Waiting := by
  cases phase with
  | waiting => trivial
  | _ => cases h

theorem winding_delete (h : Winding task s) (hheeded : Heeded task s .delete) :
    Winding task s.delete := by
  unfold Replay.delete
  split
  · exact h
  · next hdeleted =>
    cases h with
    | running _ hlater =>
      rcases hheeded with hdeleted' | hwaiting | hleft
      · exact absurd hdeleted' hdeleted
      · exact .notified (notified_notifyWaiters hwaiting) hlater
      · exact .of_oneLeft (by simpa [OneLeft] using hleft) hlater
    | notified hphase hlater => exact .notified (notified_notifyWaiters hphase.waiting) hlater
    | oneLeft hphase hbegun hlater => exact .oneLeft (by simpa) (by simpa) hlater
    | last hphase hlater => exact .last (by simpa) hlater

theorem Winding.move (h : Winding task s) {phase : Phase Record Row}
    (hnotified : s.phase.Notified → OneLeft task phase)
    (hleft : ∀ n, AtMost task n s.phase → AtMost task n phase) (hbegun : ¬phase.Begun) :
    Winding task { s with phase } := by
  cases h with
  | running hdeleted hlater => exact .running hdeleted hlater
  | notified hphase hlater => exact .of_oneLeft (hnotified hphase) hlater
  | oneLeft hphase _ hlater => exact .oneLeft (hleft 1 hphase) hbegun hlater
  | last hphase hlater => exact .last (hleft 0 hphase) hlater

theorem Winding.evaluate (h : Winding task s) {record : Record} {next : List Row → Phase Record Row}
    (hnotified : ¬s.phase.Notified) (hleft : ∀ rows n, AtMost task (n + 1) s.phase →
      AtMost task n (next rows)) (hpos : ¬AtMost task 0 s.phase) :
    Winding task (s.evaluate task record next) := by
  cases h with
  | running hdeleted hlater => exact .running hdeleted hlater
  | notified hphase => exact absurd hphase hnotified
  | oneLeft hphase _ hlater => exact .last (hleft _ 0 hphase) (by simp [Replay.evaluate, hlater])
  | last hphase => exact absurd hphase hpos

theorem Winding.emit (h : Winding task s) {row : Row} {next : Phase Record Row}
    (hbegun : s.phase.Begun) (hnotified : ¬s.phase.Notified)
    (hleft : AtMost task 0 s.phase → AtMost task 0 next) : Winding task (s.emit row next) := by
  unfold Replay.emit
  cases h with
  | running hdeleted hlater =>
    rw [if_neg (by simp [hdeleted])]
    exact .running hdeleted hlater
  | notified hphase => exact absurd hphase hnotified
  | oneLeft _ hnone => exact absurd hbegun hnone
  | last hphase hlater =>
    split
    · refine .last (hleft hphase) ?_
      simpa [or_imp, forall_and] using hlater
    · exact .last (hleft hphase) hlater

theorem winding_step (h : Winding task s) (action : Action) (hheeded : Heeded task s action) :
    Winding task (step task s action) := by
  cases action with
  | begin =>
    simp only [step]
    split
    · next hphase hdata =>
      refine h.evaluate (by simp [hphase, Phase.Notified]) ?_ ?_ <;>
        simp [hphase, AtMost, hdata]
    · next hphase hdata =>
      refine h.move (by simp [hphase, Phase.Notified]) (fun n hn => ?_) (by simp [Phase.Begun])
      have hne : task.data ≠ [] := hdata
      simpa [hphase, AtMost, hne] using hn
    · exact h
  | evaluate =>
    simp only [step]
    split
    · next hphase =>
      refine h.evaluate (by simp [hphase, Phase.Notified]) ?_ ?_ <;>
        simp [hphase, AtMost]
    · exact h
  | expire =>
    simp only [step]
    split
    · next hphase =>
      exact h.move (by simp [hphase, Phase.Notified]) (fun _ _ => trivial) (by simp [Phase.Begun])
    · exact h
  | emit =>
    simp only [step]
    split
    · next hphase =>
      exact h.emit (by simp [hphase, Phase.Begun]) (by simp [hphase, Phase.Notified])
        (fun _ => trivial)
    · next hphase =>
      refine h.emit (by simp [hphase, Phase.Begun]) (by simp [hphase, Phase.Notified]) ?_
      simp [hphase, AtMost]
    · exact h
  | register =>
    simp only [step]
    split
    · next hphase =>
      refine h.move (by simp [hphase, Phase.Notified]) ?_ (by simp [Phase.Begun])
      simp [hphase, AtMost]
    · exact h
  | notified =>
    simp only [step]
    split
    · next hphase =>
      cases h with
      | running hdeleted hlater => exact .running hdeleted hlater
      | notified _ hlater | oneLeft _ _ hlater => exact .last trivial (by simp [hlater])
      | last _ hlater => exact .last trivial hlater
    · exact h
  | timer =>
    simp only [step]
    split
    · next hphase =>
      refine h.move (fun hnotified => ?_) ?_ (by simp [Phase.Begun])
      · simpa [hphase, OneLeft, AtMost, Phase.Begun] using hheeded hnotified
      · simp [hphase, AtMost]
    · exact h
  | pass =>
    simp only [step]
    split
    · next hphase =>
      refine h.move (by simp [hphase, Phase.Notified]) (fun n hn => ?_) ?_
      · have hloop : task.loopData = false := by simpa [hphase, AtMost] using hn
        simp [hloop, AtMost]
      · split <;> simp [Phase.Begun]
    · next hphase =>
      exact h.move (by simp [hphase, Phase.Notified]) (fun _ _ => trivial) (by simp [Phase.Begun])
    · exact h
  | delete => exact winding_delete h hheeded

theorem winding_run {actions : List Action} (h : Winding task s)
    (hheeded : EveryStep (step task) (Heeded task) s actions) :
    Winding task (actions.foldl (step task) s) := by
  induction actions generalizing s with
  | nil => exact h
  | cons action actions ih => exact ih (winding_step h action hheeded.1) hheeded.2

/-- A deletion that is heeded stops the replay: the rows emitted afterwards are those of one record
at most. -/
theorem stopped_of_heeded (task : Task RuleState Record Row) {actions : List Action}
    (hheeded : EveryStep (step task) (Heeded task) task.spawn actions) : Stopped (run task actions) :=
  (winding_run (.running rfl rfl) hheeded).stopped

end

def looping : Task Unit Nat Nat := ⟨[1, 2], true, 0, (), fun _ record => ([record], ())⟩

theorem stopped_while_waiting :
    Stopped (run looping [.begin, .evaluate, .emit, .register, .delete, .notified, .timer, .evaluate,
      .emit]) :=
  stopped_of_heeded looping ⟨trivial, trivial, trivial, trivial, .inr (.inl trivial), trivial,
    False.elim, trivial, trivial, trivial⟩

/-- The deletion falls while the first record is evaluated, and three records follow. -/
theorem deletion_lost :
    (run looping [.begin, .evaluate, .delete, .emit, .register, .timer, .evaluate, .emit, .register,
      .timer, .pass, .evaluate, .emit]).later = [(1, 1), (2, 2), (3, 1)] ∧
    ¬Stopped (run looping [.begin, .evaluate, .delete, .emit, .register, .timer, .evaluate, .emit,
      .register, .timer, .pass, .evaluate, .emit]) := by
  refine ⟨rfl, fun h => ?_⟩
  exact absurd (h (1, 1) (by decide) (2, 2) (by decide)) (by decide)

end Rekuiper.Server.RuletestStop
