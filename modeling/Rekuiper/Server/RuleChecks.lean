import Rekuiper.Manifest.Validator
import Rekuiper.Server.State
import Rekuiper.Sql.Window

/-!
# Checks of rule requests

What the handlers check about a rule before they create it: its options, its sink actions
and its statement against the streams, tables and functions of the node. The parser of
data templates is a parameter.
-/

namespace Rekuiper.Server

open Lib Rules Manifest Sql

variable {F Text : Type}

/-- The bodies of answers: a text, an error envelope with code 1000, 3000 or 1002, an error
envelope with the text of a failed write, and the answers to queries. -/
inductive Body
  | text (message : String)
  | failure (message : String)
  | commandFailure (message : String)
  | missing (message : String)
  | storeFailure
  | bulk (results : List (String × Except (Option String) Unit))
  | valid (sources : List String)
  | names (names : List String)
  | described (d : StreamDefinition)

structure Response where
  status : Nat
  body : Body

def Response.isSuccess (r : Response) : Bool := 200 ≤ r.status && r.status < 300

/-- A handler panics, and the connection is closed without an answer. -/
def Response.dropped : Response := ⟨0, .text ""⟩

def badRequest (message : String) : Response := ⟨400, .failure message⟩

def unprocessable (message : String) : Response := ⟨422, .failure message⟩

def reject {ε : Type} (condition : Bool) (e : ε) : Except ε Unit :=
  if condition then .error e else .ok ()

-- ---- Options

def validateRuleOption (key : String) (v : Value F) : Except String Unit :=
  match key with
  | "qos" =>
    if !v.isInteger then .error "invalid rule json: qos must be an integer (0, 1, or 2)"
    else
      let q := v.asI64.getD (-1)
      if 0 ≤ q ∧ q ≤ 2 then .ok () else .error "invalid rule json: qos must be 0, 1, or 2"
  | "debug" | "isEventTime" | "sendMetaToSink" | "sendNilField" | "sendError" =>
    if v.asBool.isNone then .error s!"invalid rule json: {key} must be a boolean" else .ok ()
  | "concurrency" | "bufferLength" =>
    if !v.isInteger then .error s!"invalid rule json: {key} must be an integer" else .ok ()
  | _ => .ok ()

def validateRuleOptions : Option (HashMap String (Value F)) → Except String Unit
  | none => .ok ()
  | some options => options.entries.forM fun option => validateRuleOption option.1 option.2

-- ---- Sink actions

def parseFlag (v : Value F) : Option Bool :=
  match v.asBool with
  | some b => some b
  | none => v.asStr.bind parseBool

def isActionDisabled (action : HashMap String (Value F)) (opts : Value F) : Bool :=
  ((action.lookup "disabled" <|> action.lookup "disable").bind parseFlag).getD false ||
    ((opts.get "disabled" <|> opts.get "disable").bind parseFlag).getD false

def supportedFormats : List String :=
  ["json", "binary", "delimited", "protobuf", "custom", "urlencoded"]

/-- `opts.get(key)` as a string -/
def optStr (opts : Value F) (key : String) : Option String := (opts.get key).bind Value.asStr

def require (kind : String) (opts : Value F) (key : String) : Except String Unit :=
  reject ((optStr opts key).getD "" == "") s!"{kind} sink is missing property {key}"

def requireNonBlank (kind : String) (opts : Value F) (key : String) : Except String Unit :=
  reject ((optStr opts key).any fun s => trim s == "") s!"{kind} sink is missing property {key}"

def checkFormat (kind : String) (opts : Value F) : Except String Unit :=
  match optStr opts "format" with
  | none => .ok ()
  | some fmt =>
    reject (!eqIgnoreAsciiCase kind "image" && !supportedFormats.any (eqIgnoreAsciiCase · fmt))
      s!"format type {fmt} not supported"

def checkMqtt (opts : Value F) : Except String Unit := do
  require "mqtt" opts "topic"
  let selector := opts.get "connectionSelector" <|> opts.get "resourceId" <|>
    opts.get "confKey" <|> opts.get "CONF_KEY"
  let hasConnSelector := (selector.bind Value.asStr).any (· != "")
  reject ((optStr opts "server").getD "" == "" && !hasConnSelector) "missing server property"

def checkMethod (opts : Value F) : Except String Unit :=
  match optStr opts "method" with
  | none => .ok ()
  | some m =>
    reject (!(["GET", "POST", "PUT", "DELETE", "HEAD", "PATCH"].contains (toUppercase m)))
      s!"Not supported HTTP method {m}."

def checkRest (opts : Value F) : Except String Unit := do
  checkMethod opts
  reject
    ((optStr opts "bodyType").any (eqIgnoreAsciiCase · "form") &&
      !eqIgnoreAsciiCase ((optStr opts "format").getD "") "urlencoded")
    "format must be urlencoded if bodyType is form"

def checkInflux (opts : Value F) : Except String Unit := do
  requireNonBlank "influx" opts "addr"
  requireNonBlank "influx" opts "database"
  requireNonBlank "influx" opts "measurement"

def checkInflux2 (opts : Value F) : Except String Unit := do
  require "influx2" opts "addr"
  require "influx2" opts "org"
  require "influx2" opts "bucket"
  require "influx2" opts "measurement"

def checkTdengine (kind : String) (opts : Value F) : Except String Unit := do
  require kind opts "database"
  require kind opts "table"

def checkImage (opts : Value F) : Except String Unit := do
  require "image" opts "path"
  match optStr opts "format" with
  | none => .ok ()
  | some fmt =>
    reject (!(["png", "jpeg", "jpg"].contains (toAsciiLowercase fmt)))
      s!"image format type {fmt} not supported"

def checkZmq (kind : String) (opts : Value F) : Except String Unit :=
  reject (((opts.get "server" <|> opts.get "url").bind Value.asStr).getD "" == "")
    s!"{kind} sink is missing property server"

def checkSink (kind : String) (opts : Value F) : Except String Unit :=
  match toAsciiLowercase kind with
  | "mqtt" => checkMqtt opts
  | "rest" | "http" => checkRest opts
  | "influx" => checkInflux opts
  | "influx2" => checkInflux2 opts
  | "tdengine" | "tdengine3" => checkTdengine kind opts
  | "iotdb" => require "iotdb" opts "device"
  | "image" => checkImage opts
  | "zmq" | "zeromq" => checkZmq kind opts
  | _ => .ok ()

section
variable (validateDataTemplate : String → Except String Unit)

def checkTemplate (template : Option (Value F)) : Except String Unit :=
  match template.bind Value.asStr with
  | none => .ok ()
  | some text => validateDataTemplate text

def validateSink (action : HashMap String (Value F)) (kind : String) (opts : Value F) :
    Except String Unit :=
  if kind == "disabled" || kind == "disable" || isActionDisabled action opts then .ok ()
  else do
    checkTemplate validateDataTemplate (opts.get "dataTemplate")
    checkFormat kind opts
    checkSink kind opts

def validateSinkActions (actions : List (HashMap String (Value F))) : Except String Unit :=
  actions.forM fun action => do
    checkTemplate validateDataTemplate (action.lookup "dataTemplate")
    action.entries.forM fun sink => validateSink validateDataTemplate action sink.1 sink.2

end

-- ---- Functions

def collectCalledFunctions (e : Expr F) : List String :=
  (subexprs e).filterMap fun
    | .call name _ => some name
    | _ => none

def callingClauses (stmt : SelectStmt F) : List (Expr F) :=
  stmt.fields ++ stmt.whereClause.toList ++ stmt.groupBy ++ stmt.having.toList ++
    stmt.orderBy.map (·.expr) ++ stmt.joins.filterMap (·.onCondition)

def stmtCalledFunctions (stmt : SelectStmt F) : List String :=
  (branches stmt).flatMap fun branch => (callingClauses branch).flatMap collectCalledFunctions

def isBuiltinFunction (lang : Manifest.Language F) (name : String) : Bool :=
  lang.catalogue.contains (toAsciiLowercase name)

def findUnknownFunction (lang : Manifest.Language F) (state : AppState F Text)
    (stmt : SelectStmt F) :
    Option String :=
  let plugins := state.pluginManager
  let pluginDefs := plugins.listPlugins "function" ++ plugins.listPlugins "udf"
  (stmtCalledFunctions stmt).find? fun name =>
    !(isBuiltinFunction lang name || state.globalUdfs.hasUdf name || plugins.hasUdf name ||
      (pluginDefs.flatMap (·.functions)).any (eqIgnoreAsciiCase · name))

def functionNotFound (name : String) : String :=
  s!"invalid rule json: Parse SQL ... error: function {name} not found."

def checkRuleFunctions (lang : Manifest.Language F) (state : AppState F Text)
    (stmt : SelectStmt F) :
    Option Response :=
  (findUnknownFunction lang state stmt).map fun name => ⟨422, .text (functionNotFound name)⟩

-- ---- Statements

/-- The first name that is in the list a second time, after those that were seen. -/
def firstRepeated (seen : List String) : List String → Option String
  | [] => none
  | name :: rest => if name ∈ seen then some name else firstRepeated (name :: seen) rest

def isWildcard : Expr F → Bool
  | .wildcard | .wildcardModified _ _ => true
  | _ => false

def checkDuplicateFields (stmt : SelectStmt F) : Option Response :=
  let columns := stmt.fields.zipIdx.filter fun (e, _) => !isWildcard e
  let names := columns.map fun (e, idx) => selectFieldNameAt stmt idx e
  (firstRepeated [] names).map fun name => ⟨400, .text s!"duplicate field definition {name}"⟩

def rejectIf (condition : Bool) (r : Response) : Option Response :=
  if condition then some r else none

def checkGrouping (stmt : SelectStmt F) : Option Response :=
  rejectIf (!stmt.groupBy.isEmpty && stmt.window.isNone)
    (badRequest "select stmt group by should be used with window")

def checkEventTime (state : AppState F Text) (stmt : SelectStmt F)
    (options : Option (HashMap String (Value F))) : Option Response :=
  let isEventTime :=
    ((options.bind fun opts => opts.lookup "isEventTime").bind Value.asBool).getD false
  let untimed := (state.getStream stmt.source).any fun stream =>
    !stream.options.keys.any (eqIgnoreAsciiCase · "TIMESTAMP")
  rejectIf (isEventTime && untimed)
    (badRequest "preprocessor is set to be event time but stream option TIMESTAMP not found")

def checkJoins (state : AppState F Text) (stmt : SelectStmt F) : Option Response :=
  let hasStreamTarget := stmt.joins.any fun join =>
    join.joinType != .asof && join.joinType != .leftAsof && (state.getTable join.target).isNone
  rejectIf (stmt.window.isNone && hasStreamTarget)
    (badRequest "a time window or count window is required to join multiple streams")

/-- The `BUFFER_FULL_POLICY` of a stream, with the stream's name. -/
def bufferPolicy (state : AppState F Text) (name : String) : Option (String × String) := do
  let stream ← state.getStream name
  let option ← stream.options.entries.find? fun option =>
    eqIgnoreAsciiCase option.1 "buffer_full_policy"
  return (name, option.2)

def checkPolicies (state : AppState F Text) (stmt : SelectStmt F) : Option Response :=
  match (stmt.source :: stmt.joins.map (·.target)).filterMap (bufferPolicy state) with
  | [] => none
  | (firstName, firstPolicy) :: rest =>
    (rest.find? fun entry => !eqIgnoreAsciiCase entry.2 firstPolicy).map fun (name, policy) =>
      badRequest
        (s!"conflicting BUFFER_FULL_POLICY in joined streams: stream '{firstName}' uses " ++
          s!"'{firstPolicy}', but stream '{name}' uses '{policy}'")

def checkSourceExists (state : AppState F Text) (stmt : SelectStmt F) (status : Nat) :
    Option Response :=
  rejectIf (!((state.getStream stmt.source).isSome || (state.getTable stmt.source).isSome))
    ⟨status, .failure s!"fail to get stream {stmt.source}, please check if stream is created"⟩

def rejectInvalidRule (lang : Manifest.Language F) (state : AppState F Text) (stmt : SelectStmt F)
    (options : Option (HashMap String (Value F))) (validation : Bool) : Option Response :=
  let resolutionStatus := if validation then 422 else 400
  (checkDuplicateFields stmt).or <| (checkGrouping stmt).or <|
    (checkEventTime state stmt options).or <| (checkJoins state stmt).or <|
    (checkPolicies state stmt).or <| (checkSourceExists state stmt resolutionStatus).or <|
    (findUnknownFunction lang state stmt).map fun name =>
      ⟨resolutionStatus, .failure (functionNotFound name)⟩

def Response.Refuses (r : Response) : Prop := r.status = 400 ∨ r.status = 422

theorem Response.Refuses.not_success {r : Response} (h : r.Refuses) : r.isSuccess = false := by
  rcases h with h | h <;> simp [Response.isSuccess, h]

theorem refuses_badRequest (message : String) : (badRequest message).Refuses := .inl rfl

theorem rejectIf_eq_some {condition : Bool} {r r' : Response}
    (h : rejectIf condition r = some r') : r' = r := by
  unfold rejectIf at h
  split_ifs at h
  exact (Option.some.inj h).symm

theorem rejectInvalidRule_refuses {lang : Manifest.Language F} {state : AppState F Text}
    {stmt : SelectStmt F} {options : Option (HashMap String (Value F))} {validation : Bool}
    {r : Response} (h : rejectInvalidRule lang state stmt options validation = some r) :
    r.Refuses := by
  have hstatus (b : Body) : Response.Refuses ⟨if validation then 422 else 400, b⟩ := by
    cases validation
    · exact .inl rfl
    · exact .inr rfl
  simp only [rejectInvalidRule, Option.or_eq_some_iff, Option.map_eq_some_iff] at h
  obtain h | ⟨-, h | ⟨-, h | ⟨-, h | ⟨-, h | ⟨-, h | ⟨-, h⟩⟩⟩⟩⟩⟩ := h
  · obtain ⟨name, -, rfl⟩ := Option.map_eq_some_iff.mp h
    exact .inl rfl
  · exact rejectIf_eq_some h ▸ refuses_badRequest _
  · exact rejectIf_eq_some h ▸ refuses_badRequest _
  · exact rejectIf_eq_some h ▸ refuses_badRequest _
  · unfold checkPolicies at h
    split at h
    · cases h
    · obtain ⟨entry, -, rfl⟩ := Option.map_eq_some_iff.mp h
      exact refuses_badRequest _
  · exact rejectIf_eq_some h ▸ hstatus _
  · obtain ⟨name, -, rfl⟩ := h
    exact hstatus _

theorem checkSourceExists_eq_none (state : AppState F Text) (stmt : SelectStmt F)
    (status status' : Nat) :
    checkSourceExists state stmt status = none ↔ checkSourceExists state stmt status' = none := by
  unfold checkSourceExists rejectIf
  split <;> simp

theorem rejectInvalidRule_eq_none (lang : Manifest.Language F) (state : AppState F Text)
    (stmt : SelectStmt F) (options : Option (HashMap String (Value F))) :
    rejectInvalidRule lang state stmt options true = none ↔
      rejectInvalidRule lang state stmt options false = none := by
  simp only [rejectInvalidRule, Option.or_eq_none_iff, Option.map_eq_none_iff]
  rw [checkSourceExists_eq_none state stmt _ 400]
  rfl

theorem checkRuleFunctions_of_accepted {lang : Manifest.Language F} {state : AppState F Text}
    {stmt : SelectStmt F} {options : Option (HashMap String (Value F))} {validation : Bool}
    (h : rejectInvalidRule lang state stmt options validation = none) :
    checkRuleFunctions lang state stmt = none := by
  simp only [rejectInvalidRule, Option.or_eq_none_iff, Option.map_eq_none_iff] at h
  rw [checkRuleFunctions, Option.map_eq_none_iff]
  exact h.2.2.2.2.2.2

end Rekuiper.Server
