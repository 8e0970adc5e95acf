import Rekuiper.Lib.Prog
import Rekuiper.Rules.Manager
import Rekuiper.Sql.Ast

/-!
# Rules under concurrency

Requests call the rule manager concurrently. Its operations take a lock, but tasks are
spawned outside of it and register themselves later; and the ticker that writes a rule's
checkpoints is a task of its own, which nobody aborts. Here the operations of the manager
are programs of atomic steps. Tasks and tickers act by themselves.
-/

namespace Rekuiper.Rules

open Lib (HashMap Prog Machine Choice Config)
open Lib.Prog (perform)
open Sql (SelectStmt)

variable {F Text : Type}

abbrev StateMap (F : Type) := HashMap String (Value F)

/-- A task that was spawned: the rule and the definition it is for, the cell with the status
it reads, which is a fresh one if the rule was gone, and the interval of its checkpoints. -/
structure Task (F : Type) where
  ruleId : String
  definition : RuleDefinition F
  cell : Option Nat
  checkpointInterval : Nat

/-- The state of a task that has begun to run, and what it was before. -/
structure Incarnation (F : Type) where
  state : StateMap F
  past : List (StateMap F)
  restored : Bool

structure Ticker (F : Type) where
  task : Nat
  alive : Bool
  snapshot : Option (StateMap F)

/-- A checkpoint that was written, with what was the case then: whether the rule existed, and
the task of that rule that had begun to run last, with its states. -/
structure CheckpointWrite (F : Type) where
  ruleId : String
  task : Nat
  value : StateMap F
  present : Bool
  current : Option Nat
  past : List (StateMap F)

/-- The rules in memory and the tasks that were spawned for them. The map of rules refers to
cells, as what took a reference goes on using its cell when the rule is removed. Tasks are
numbered as they are spawned. -/
structure Registry (F : Type) where
  rules : HashMap String Nat
  cells : List (ActiveRule F)
  opLock : Option Nat
  tasks : List (Task F)
  registered : List Nat
  aborted : List Nat

/-- What the requests, the tasks and the tickers share. `registered`, `current`, `writes` and
the `past` of an incarnation only record what happened. -/
structure World (F Text : Type) extends Registry F where
  kv : KvStore Text
  kvOk : Bool
  incarnations : HashMap Nat (Incarnation F)
  current : HashMap String Nat
  tickers : List (Ticker F)
  writes : List (CheckpointWrite F)

namespace Registry

def empty : Registry F where
  rules := ∅
  cells := []
  opLock := none
  tasks := []
  registered := []
  aborted := []

def find (r : Registry F) (id : String) : Option (Nat × ActiveRule F) :=
  (r.rules.lookup id).bind fun cell => r.cells[cell]?.map (cell, ·)

def addRule (r : Registry F) (id : String) (active : ActiveRule F) : Registry F :=
  { r with cells := r.cells ++ [active], rules := r.rules.insert id r.cells.length }

end Registry

def World.empty (kv : KvStore Text) : World F Text where
  toRegistry := .empty
  kv := kv
  kvOk := true
  incarnations := ∅
  current := ∅
  tickers := []
  writes := []

def World.booted (codec : EnvelopeCodec F Text) (kv : KvStore Text) : World F Text :=
  { World.empty kv with
    toRegistry := (RuleManager.restarted codec kv).rules.entries.foldl (fun r entry =>
      r.addRule entry.1 entry.2) .empty }

-- ---- Atomic steps

/-- What is done to a rule while its write lock is held. -/
inductive Change (F : Type)
  | define (rule : RuleDefinition F) (wasRunning : Bool)
  | start (now : Int)
  | restart (now : Int)
  | stop (now : Int)
  | halt (error : String) (now : Int)

namespace Change

def aborts : Change F → Bool
  | .define _ wasRunning => wasRunning
  | .start _ => false
  | .restart _ | .stop _ | .halt _ _ => true

/-- The new status, unless it stays as it is. -/
def status : Change F → RuleStatus → RuleStatus
  | .define _ _, st => st
  | .start now, st | .restart now, st =>
    { st with status := "running", lastStartTimestamp := now, message := "" }
  | .stop now, st =>
    { st with status := "stopped", lastStopTimestamp := now, message := "canceled manually" }
  | .halt error now, st =>
    { st with
      status := "stopped"
      lastStopTimestamp := now
      message := s!"halted on error: {error}"
      lastException := error }

def counters : Change F → RuleCounters → RuleCounters
  | .halt error _, c => { exceptions := c.exceptions + 1, lastException := error }
  | _, c => c

def definition : Change F → RuleDefinition F → RuleDefinition F
  | .define rule _, _ => rule
  | _, rule => rule

def apply (change : Change F) (active : ActiveRule F) : ActiveRule F :=
  { active with
    definition := change.definition active.definition
    status := change.status active.status
    counters := change.counters active.counters
    handle := if change.aborts then none else active.handle }

def abortedTask (change : Change F) (active : ActiveRule F) : List Nat :=
  if change.aborts then active.handle.toList else []

end Change

inductive RuleOp (F : Type)
  | lock
  | unlock
  | find (id : String)
  | list
  | persist (id : String) (rule : RuleDefinition F) (status : String)
  | unpersist (id : String)
  | deleteCheckpoint (id : String)
  | insert (rule : RuleDefinition F)
  | remove (id : String)
  | changeAt (id : String) (change : Change F)
  | changeCell (cell : Nat) (change : Change F)
  | openQueue (capacity : Nat)
  | spawn (task : Task F)
  | setRuleHandle (id : String) (task : Nat)

/-- A reference to a rule comes with a copy of it: while the lock is held nobody else changes
its definition or its status. Writes to the store answer whether they succeed, and opening
queues of a capacity whether it does not panic. -/
def RuleOp.Answer : RuleOp F → Type
  | .find _ => Option (Nat × ActiveRule F)
  | .list => List (RuleDefinition F)
  | .persist _ _ _ | .unpersist _ | .openQueue _ => Bool
  | .spawn _ => Nat
  | _ => Unit

abbrev RuleProg (F α : Type) := Prog (RuleOp F) RuleOp.Answer α

namespace Registry

def change (r : Registry F) (cell : Nat) (active : ActiveRule F) (change : Change F) :
    Registry F :=
  { r with
    cells := r.cells.set cell (change.apply active)
    aborted := change.abortedTask active ++ r.aborted }

def setRuleHandle (r : Registry F) (id : String) (task : Nat) : Registry F :=
  let r := { r with registered := task :: r.registered }
  match r.find id with
  | none => { r with aborted := task :: r.aborted }
  | some (cell, active) =>
    if active.status.status = "running" then
      { r with
        cells := r.cells.set cell { active with handle := some task }
        aborted := active.handle.toList ++ r.aborted }
    else
      { r with
        cells := r.cells.set cell { active with handle := none }
        aborted := task :: r.aborted }

def removeRule (r : Registry F) (id : String) : Registry F :=
  match r.find id with
  | none => r
  | some (cell, active) =>
    { r with
      rules := r.rules.erase id
      cells := r.cells.set cell { active with handle := none }
      aborted := active.handle.toList ++ r.aborted }

/-- What a step of thread `t` does to the rules; the lock has to be waited for. -/
def exec (t : Nat) (r : Registry F) : RuleOp F → Option (Registry F)
  | .lock => if r.opLock = none then some { r with opLock := some t } else none
  | .unlock => some { r with opLock := none }
  | .insert rule => some (r.addRule rule.id (freshRule rule "running"))
  | .remove id => some (r.removeRule id)
  | .changeAt id change =>
    match r.find id with
    | none => some r
    | some (cell, active) => some (r.change cell active change)
  | .changeCell cell change =>
    match r.cells[cell]? with
    | none => some r
    | some active => some (r.change cell active change)
  | .spawn task => some { r with tasks := r.tasks ++ [task] }
  | .setRuleHandle id task => some (r.setRuleHandle id task)
  | _ => some r

end Registry

namespace World

def answer (w : World F Text) : (op : RuleOp F) → op.Answer
  | .find id => w.find id
  | .list => w.rules.entries.filterMap fun entry => w.cells[entry.2]?.map (·.definition)
  | .persist _ _ _ => w.kvOk
  | .unpersist _ => w.kvOk
  | .openQueue capacity => decide (capacity ≤ maxPermits)
  | .spawn _ => w.tasks.length
  | .lock | .unlock | .deleteCheckpoint _ | .insert _ | .remove _ | .changeAt _ _
  | .changeCell _ _ | .setRuleHandle _ _ => ()

def stored (codec : EnvelopeCodec F Text) (w : World F Text) : RuleOp F → KvStore Text
  | .persist id rule status =>
    if w.kvOk then w.kv.insert ("rules", id) (codec.encode rule status) else w.kv
  | .unpersist id => if w.kvOk then w.kv.erase ("rules", id) else w.kv
  | .deleteCheckpoint id => if w.kvOk then w.kv.erase ("rule_checkpoints", id) else w.kv
  | _ => w.kv

def exec (codec : EnvelopeCodec F Text) (t : Nat) (w : World F Text) (op : RuleOp F) :
    Option (op.Answer × World F Text) :=
  (w.toRegistry.exec t op).map fun r =>
    (w.answer op, { w with toRegistry := r, kv := w.stored codec op })

end World

-- ---- Tasks and tickers

structure StateCodec (F Text : Type) where
  encode : StateMap F → Text
  decode : Text → Option (StateMap F)

/-- What happens without a request: the store becomes reachable or not, a task begins to run,
has read its checkpoint, or handles an event, and a ticker ticks or writes. A status whose
lock is contended is taken for running. -/
inductive Action (F : Type)
  | setStore (ok : Bool)
  | begin (task : Nat) (now : Int)
  | restore (task : Nat)
  | event (task : Nat) (contended : Bool) (update : StateMap F → StateMap F)
  | tick (ticker : Nat) (contended : Bool)
  | write (ticker : Nat)

namespace World

def isRuleRunning (w : World F Text) (task : Task F) (contended : Bool) : Bool :=
  contended || (task.cell.bind (w.cells[·]?)).all fun active => active.status.status == "running"

def goesOn (w : World F Text) (task : Nat) : Bool := !w.aborted.contains task

/-- The first poll of a task makes its state. -/
def begin (w : World F Text) (n : Nat) (now : Int) : World F Text :=
  match w.tasks[n]? with
  | none => w
  | some task =>
    if w.goesOn n && !(w.incarnations.lookup n).isSome then
      let state : StateMap F :=
        ((∅ : StateMap F).insert "__rule_id__" (.string task.ruleId)).insert "__rule_start__"
          (.number (.int now))
      { w with
        incarnations := w.incarnations.insert n ⟨state, [state], false⟩
        current := w.current.insert task.ruleId n }
    else w

def setState (w : World F Text) (n : Nat) (old : Incarnation F) (state : StateMap F) :
    World F Text :=
  { w with
    incarnations := w.incarnations.insert n
      { old with state := state, past := state :: old.past } }

def restore (states : StateCodec F Text) (w : World F Text) (n : Nat) : World F Text :=
  match w.tasks[n]?, w.incarnations.lookup n with
  | some task, some old =>
    if w.goesOn n && !old.restored then
      let saved := (w.kv.lookup ("rule_checkpoints", task.ruleId)).bind states.decode
      let state := (saved.elim [] (·.entries)).foldl (fun state entry =>
        state.insert entry.1 entry.2) old.state
      let w := w.setState n { old with restored := true } state
      if task.checkpointInterval > 0 then
        { w with tickers := w.tickers ++ [⟨n, true, none⟩] }
      else w
    else w
  | _, _ => w

def event (w : World F Text) (n : Nat) (contended : Bool) (update : StateMap F → StateMap F) :
    World F Text :=
  match w.tasks[n]?, w.incarnations.lookup n with
  | some task, some old =>
    if w.goesOn n && old.restored && w.isRuleRunning task contended then
      w.setState n old (update old.state)
    else w
  | _, _ => w

/-- A ticker ends if it finds its rule not running. -/
def tick (w : World F Text) (k : Nat) (contended : Bool) : World F Text :=
  match w.tickers[k]? with
  | none => w
  | some ticker =>
    match w.tasks[ticker.task]?, w.incarnations.lookup ticker.task with
    | some task, some incarnation =>
      if ticker.alive && ticker.snapshot.isNone then
        if w.isRuleRunning task contended then
          { w with
            tickers := w.tickers.set k { ticker with snapshot := some incarnation.state } }
        else { w with tickers := w.tickers.set k { ticker with alive := false } }
      else w
    | _, _ => w

/-- `save_rule_checkpoint`, whose error is ignored. -/
def writeCheckpoint (states : StateCodec F Text) (w : World F Text) (k : Nat) : World F Text :=
  match w.tickers[k]? with
  | none => w
  | some ticker =>
    match w.tasks[ticker.task]?, ticker.snapshot with
    | some task, some value =>
      let w := { w with tickers := w.tickers.set k { ticker with snapshot := none } }
      let current := w.current.lookup task.ruleId
      if w.kvOk then
        { w with
          kv := w.kv.insert ("rule_checkpoints", task.ruleId) (states.encode value)
          writes :=
            { ruleId := task.ruleId, task := ticker.task, value,
              present := (w.rules.lookup task.ruleId).isSome, current,
              past := ((current.bind w.incarnations.lookup).map (·.past)).getD [] } :: w.writes }
      else w
    | _, _ => w

def act (states : StateCodec F Text) : Action F → World F Text → World F Text
  | .setStore ok, w => { w with kvOk := ok }
  | .begin task now, w => w.begin task now
  | .restore task, w => w.restore states task
  | .event task contended update, w => w.event task contended update
  | .tick ticker contended, w => w.tick ticker contended
  | .write ticker, w => w.writeCheckpoint states ticker

end World

/-- Requests and actions in any order. -/
def machine (codec : EnvelopeCodec F Text) (states : StateCodec F Text) :
    Machine (RuleOp F) RuleOp.Answer (World F Text) (Action F) where
  exec := World.exec codec
  react := World.act states

-- ---- The operations of the manager

abbrev findRule (id : String) : RuleProg F (Option (Nat × ActiveRule F)) :=
  perform (RuleOp.find id)

abbrev changeAt (id : String) (change : Change F) : RuleProg F Unit :=
  perform (RuleOp.changeAt id change)

abbrev changeCell (cell : Nat) (change : Change F) : RuleProg F Unit :=
  perform (RuleOp.changeCell cell change)

abbrev persistRule (id : String) (rule : RuleDefinition F) (status : String) : RuleProg F Bool :=
  perform (RuleOp.persist id rule status)

abbrev unpersistRule (id : String) : RuleProg F Bool := perform (RuleOp.unpersist id)

abbrev openQueue (capacity : Nat) : RuleProg F Bool := perform (RuleOp.openQueue capacity)

def locked {α : Type} (body : RuleProg F α) : RuleProg F α := do
  perform RuleOp.lock
  let result ← body
  perform RuleOp.unlock
  pure result

def transition {α : Type} (id : String) (definition : ActiveRule F → RuleDefinition F)
    (status : ActiveRule F → String) (commit : Nat → ActiveRule F → RuleProg F Unit)
    (result : ActiveRule F → α) : RuleProg F (Except RuleError α) :=
  locked do
    match ← findRule id with
    | none => pure (.error (.notFound id))
    | some (cell, active) =>
      if ← persistRule id (definition active) (status active) then
        commit cell active
        pure (.ok (result active))
      else pure (.error .kv)

def isRunning (active : ActiveRule F) : Bool := active.status.status == "running"

def createRule (rule : RuleDefinition F) : RuleProg F (Except RuleError Unit) :=
  locked do
    match ← findRule rule.id with
    | some _ => pure (.error (.alreadyExists rule.id))
    | none =>
      if ← persistRule rule.id rule "running" then
        if rule.dlqFits then
          perform (RuleOp.insert rule)
          pure (.ok ())
        else pure (.error .panicked)
      else pure (.error .kv)

def updateRule (rule : RuleDefinition F) : RuleProg F (Except RuleError Bool) :=
  transition rule.id (fun _ => rule)
    (fun active => if isRunning active then "running" else "stopped")
    (fun cell active => changeCell cell (.define rule (isRunning active))) isRunning

def startRule (id : String) (now : Int) : RuleProg F (Except RuleError Unit) :=
  transition id (·.definition) (fun _ => "running") (fun _ _ => changeAt id (.start now))
    fun _ => ()

def stopRule (id : String) (now : Int) : RuleProg F (Except RuleError Unit) :=
  transition id (·.definition) (fun _ => "stopped") (fun _ _ => changeAt id (.stop now))
    fun _ => ()

def restartRule (id : String) (now : Int) : RuleProg F (Except RuleError Unit) :=
  transition id (·.definition) (fun _ => "running")
    (fun cell _ => changeCell cell (.restart now)) fun _ => ()

def haltRuleWithError (id error : String) (now : Int) : RuleProg F (Except RuleError Unit) :=
  transition id (·.definition) (fun _ => "stopped") (fun _ _ => changeAt id (.halt error now))
    fun _ => ()

def deleteRule (id : String) : RuleProg F (Except RuleError Unit) :=
  locked do
    match ← findRule id with
    | none => pure (.error (.notFound id))
    | some _ =>
      if ← unpersistRule id then
        perform (RuleOp.deleteCheckpoint id)
        perform (RuleOp.remove id)
        pure (.ok ())
      else pure (.error .kv)

def getRule (id : String) : RuleProg F (Option (RuleDefinition F)) := do
  let found ← findRule id
  pure (found.map (·.2.definition))

def getRuleStatus (id : String) : RuleProg F (Option RuleStatus) := do
  let found ← findRule id
  pure (found.map (·.2.status))

def listRules : RuleProg F (List (RuleDefinition F)) := perform RuleOp.list

def checkpointInterval (rule : RuleDefinition F) (stmt : SelectStmt F) : Nat :=
  let interval := (rule.options.bind (·.lookup "checkpointInterval")).bind Value.asU64
  if stmt.window.isNone then (interval.map Int.toNat).getD 0 else 0

def spawnRuleTask (id : String) (rule : RuleDefinition F) (stmt : SelectStmt F) :
    RuleProg F (Except RuleError Unit) := do
  let status ← findRule id
  if ← openQueue rule.bufferLen then
    let task ← perform (RuleOp.spawn
      ⟨id, rule, status.map Prod.fst, checkpointInterval rule stmt⟩)
    perform (RuleOp.setRuleHandle id task)
    pure (.ok ())
  else pure (.error .panicked)

-- ---- Clients

inductive RuleCall (F : Type)
  | createRule (rule : RuleDefinition F)
  | updateRule (rule : RuleDefinition F)
  | startRule (id : String) (now : Int)
  | stopRule (id : String) (now : Int)
  | restartRule (id : String) (now : Int)
  | haltRuleWithError (id error : String) (now : Int)
  | deleteRule (id : String)
  | getRule (id : String)
  | getRuleStatus (id : String)
  | listRules
  | spawnRuleTask (id : String) (rule : RuleDefinition F) (stmt : SelectStmt F)

def RuleCall.Reply : RuleCall F → Type
  | .createRule _ | .startRule _ _ | .stopRule _ _ | .restartRule _ _
  | .haltRuleWithError _ _ _ | .deleteRule _ | .spawnRuleTask _ _ _ => Except RuleError Unit
  | .updateRule _ => Except RuleError Bool
  | .getRule _ => Option (RuleDefinition F)
  | .getRuleStatus _ => Option RuleStatus
  | .listRules => List (RuleDefinition F)

def RuleCall.run : (call : RuleCall F) → RuleProg F call.Reply
  | .createRule rule => Rules.createRule rule
  | .updateRule rule => Rules.updateRule rule
  | .startRule id now => Rules.startRule id now
  | .stopRule id now => Rules.stopRule id now
  | .restartRule id now => Rules.restartRule id now
  | .haltRuleWithError id error now => Rules.haltRuleWithError id error now
  | .deleteRule id => Rules.deleteRule id
  | .getRule id => Rules.getRule id
  | .getRuleStatus id => Rules.getRuleStatus id
  | .listRules => Rules.listRules
  | .spawnRuleTask id rule stmt => Rules.spawnRuleTask id rule stmt

/-- Any number of requests, which go on with what their calls return. -/
abbrev Clients (F : Type) := Nat → Prog (RuleCall F) RuleCall.Reply Unit

def Clients.start (codec : EnvelopeCodec F Text) (kv : KvStore Text) (clients : Clients F) :
    Config (RuleOp F) RuleOp.Answer (World F Text) Unit where
  state := World.booted codec kv
  threads t := (clients t).expand RuleCall.run

end Rekuiper.Rules
