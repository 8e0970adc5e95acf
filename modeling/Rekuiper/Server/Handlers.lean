import Rekuiper.Rules.Lifecycle
import Rekuiper.Server.Endpoints

/-!
# The rule endpoints

The handlers that create, update, start, stop, restart and delete rules, as programs over the
steps of the rule manager. A handler changes the status of a rule first and spawns its task
afterwards. What a request is checked against, the streams, tables and functions of the node,
is an argument of the request.
-/

namespace Rekuiper.Server

open Lib Rules

variable {F Text : Type}

def checkValidName (name : String) : Except Response Unit :=
  let forbidden := [' ', ';', '/', Char.ofNat 0x5c]
  reject (name.toList.any forbidden.contains || decide ("%20".toList <:+: name.toList))
    ⟨400, .text s!"name '{name}' contains invalid characters"⟩

def managerFailure (e : RuleError) : Response := ⟨500, (e.message.map Body.text).getD .storeFailure⟩

def withRule (name : String) (body : RuleProg F Response) : RuleProg F Response :=
  match checkValidName name with
  | .error r => pure r
  | .ok () => do
    match ← getRule name with
    | none => pure ⟨404, .missing s!"Rule {name} not found"⟩
    | some _ => body

section
variable (lang : Manifest.Language F) (validateDataTemplate : String → Except String Unit)

/-- `answer`, after the task was spawned. -/
def spawnParsed (id : String) (rule : RuleDefinition F) (answer : Response) :
    RuleProg F Response :=
  match lang.parseSelect rule.sql with
  | .error _ => pure answer
  | .ok stmt => do
    match ← spawnRuleTask id rule stmt with
    | .error _ => pure .dropped
    | .ok () => pure answer

def activateRule (id : String) (answer : Response) : RuleProg F Response := do
  match ← getRule id with
  | none => pure answer
  | some rule => spawnParsed lang id rule answer

def handleCreateRule (state : AppState F Text) (rule : RuleDefinition F) : RuleProg F Response :=
  match checkedRule lang validateDataTemplate state rule with
  | .error r => pure r
  | .ok rule => do
    match ← Rules.createRule rule with
    | .error .panicked => pure .dropped
    | .error e => pure ⟨400, (e.message.map Body.failure).getD .storeFailure⟩
    | .ok () =>
      spawnParsed lang rule.id rule ⟨201, .text s!"Rule {rule.id} was created successfully."⟩

/-- What `update_rule` checks, and the rule that it then stores. -/
def checkedUpdate (state : AppState F Text) (name : String) (rule : RuleDefinition F) :
    Except Response (RuleDefinition F) := do
  (validateRuleOptions rule.options).mapError badRequest
  let rule ← (withCompiledGraph { rule with id := name }).mapError fun e =>
    badRequest s!"Invalid rule graph: {e}"
  reject rule.actions.isEmpty (badRequest "invalid rule json: Missing rule actions.")
  let _ ← checkedStmt lang state rule.options false rule.sql
  (validateSinkActions validateDataTemplate rule.actions).mapError badRequest
  return rule

def handleUpdateRule (state : AppState F Text) (name : String) (rule : RuleDefinition F) :
    RuleProg F Response :=
  withRule name <|
    match checkedUpdate lang validateDataTemplate state name rule with
    | .error r => pure r
    | .ok rule => do
      match ← Rules.updateRule rule with
      | .error e => pure ⟨500, (e.message.map Body.failure).getD .storeFailure⟩
      | .ok wasRunning =>
        let answer := ⟨200, .text s!"Rule {name} was updated successfully."⟩
        if wasRunning then spawnParsed lang name rule answer else pure answer

def handleStartRule (name : String) (now : Int) : RuleProg F Response :=
  withRule name do
    let status ← getRuleStatus name
    if status.any (·.status = "running") then pure ⟨200, .text s!"Rule {name} was started"⟩
    else
      match ← Rules.startRule name now with
      | .error e => pure (managerFailure e)
      | .ok () => activateRule lang name ⟨200, .text s!"Rule {name} was started"⟩

def handleStopRule (name : String) (now : Int) : RuleProg F Response :=
  withRule name do
    let status ← getRuleStatus name
    if status.any (·.status = "stopped") then pure ⟨200, .text s!"Rule {name} was stopped."⟩
    else
      match ← Rules.stopRule name now with
      | .error e => pure (managerFailure e)
      | .ok () => pure ⟨200, .text s!"Rule {name} was stopped."⟩

def handleRestartRule (name : String) (now : Int) : RuleProg F Response :=
  withRule name do
    match ← Rules.restartRule name now with
    | .error e => pure (managerFailure e)
    | .ok () => activateRule lang name ⟨200, .text s!"Rule {name} was restarted"⟩

def handleDeleteRule (name : String) : RuleProg F Response :=
  withRule name do
    match ← Rules.deleteRule name with
    | .error e => pure (managerFailure e)
    | .ok () => pure ⟨200, .text s!"Rule {name} is dropped."⟩

def forEachRule (op : String → RuleProg F (Except RuleError Unit)) :
    List (RuleDefinition F) → RuleProg F (List (String × Except (Option String) Unit))
  | [] => pure []
  | rule :: rest => do
    let result ← op rule.id
    let results ← forEachRule op rest
    pure ((rule.id, result.mapError RuleError.message) :: results)

def bulk (tags : List String) (op : String → RuleProg F (Except RuleError Unit)) :
    RuleProg F Response := do
  let rules ← listRules
  let results ← forEachRule op (rules.filter fun rule =>
    tags.isEmpty || tags.any rule.tags.contains)
  pure ⟨200, .bulk results⟩

def handleBulkStartRules (tags : List String) (now : Int) : RuleProg F Response :=
  bulk tags fun id => Rules.startRule id now

def handleBulkStopRules (tags : List String) (now : Int) : RuleProg F Response :=
  bulk tags fun id => Rules.stopRule id now

end

inductive RuleRequest (F Text : Type)
  | create (state : AppState F Text) (rule : RuleDefinition F)
  | update (state : AppState F Text) (name : String) (rule : RuleDefinition F)
  | start (name : String) (now : Int)
  | stop (name : String) (now : Int)
  | restart (name : String) (now : Int)
  | delete (name : String)
  | bulkStart (tags : List String) (now : Int)
  | bulkStop (tags : List String) (now : Int)

def RuleRequest.handle (lang : Manifest.Language F)
    (validateDataTemplate : String → Except String Unit) :
    RuleRequest F Text → RuleProg F Response
  | .create state rule => handleCreateRule lang validateDataTemplate state rule
  | .update state name rule => handleUpdateRule lang validateDataTemplate state name rule
  | .start name now => handleStartRule lang name now
  | .stop name now => handleStopRule name now
  | .restart name now => handleRestartRule lang name now
  | .delete name => handleDeleteRule name
  | .bulkStart tags now => handleBulkStartRules tags now
  | .bulkStop tags now => handleBulkStopRules tags now

def RuleRequest.isBulkStart : RuleRequest F Text → Bool
  | .bulkStart _ _ => true
  | _ => false

def serve {Store : Type} (lang : Manifest.Language F)
    (validateDataTemplate : String → Except String Unit)
    (codec : EnvelopeCodec F Store) (requests : Nat → Option (RuleRequest F Text)) :
    Config (RuleOp F) RuleOp.Answer (World F Store) Response where
  state := World.booted codec ∅
  threads t := ((requests t).map (·.handle lang validateDataTemplate)).getD (.pure ⟨200, .text ""⟩)

end Rekuiper.Server
