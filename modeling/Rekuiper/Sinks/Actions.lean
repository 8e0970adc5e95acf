import Mathlib.Data.List.Flatten
import Rekuiper.Lib.Groups
import Rekuiper.Lib.Text
import Rekuiper.Sinks.Ledger

/-!
# Sink actions and the requests they make

`send_action` hands one output record to the destination of an action. Most kinds
make one request for the whole record; some make one for each row (always, or with
`sendSingle`), one for each device or one for each signal, and stop at the first
request that fails. Which rows a request carries, and how the requests of one record
follow each other, is modelled for every kind. The text of a request is not: rows
keep their place among the rows the rule produced, whatever formatting does to them.
-/

namespace Rekuiper.Sinks

/-- An output row: its place among the rows the rule produced, and what it says. -/
structure SinkRow (V : Type) where
  seq : Nat
  value : V
  deriving DecidableEq, Repr

/-- The data of an output record: one row, or the rows under `__batch_rows__`. -/
inductive Output (V : Type)
  | single (row : SinkRow V)
  | batch (rows : List (SinkRow V))
  deriving DecidableEq, Repr

variable {V : Type}

def SinkRow.map (f : V → V) (row : SinkRow V) : SinkRow V := { row with value := f row.value }

def Output.rows : Output V → List (SinkRow V)
  | .single row => [row]
  | .batch rows => rows

def Output.seqs (output : Output V) : List Nat := output.rows.map SinkRow.seq

/-- Options every kind of sink shares. `formatRecord` is `format_record_for_sink`
under the action's `fields`, `excludeFields`, `dataField` and `sendNilField`. -/
structure CommonSinkOpts (V : Type) where
  sendSingle : Bool
  format : Option String
  batchSize : Nat
  lingerInterval : Nat
  formatRecord : V → V

/-- One request for the rows, or with `sendSingle` one for each. -/
def CommonSinkOpts.split (opts : CommonSinkOpts V) (rows : List (SinkRow V)) :
    List (List (SinkRow V)) :=
  if opts.sendSingle then rows.map ([·]) else [rows]

inductive OtlpSignal
  | metric
  | log
  | span
  deriving DecidableEq, Repr

/-- An action as the sink worker keeps it, without what only the text of a request
depends on. The functions on row values say what the connector makes of a row: whether
it yields a line, an insert clause, a timestamp or a register value, and which device
or signal it belongs to. -/
inductive PreparedAction (V : Type)
  | log
  | nop
  | file (opts : CommonSinkOpts V)
  | rest (method bodyType : String) (format : Option String) (opts : CommonSinkOpts V)
  | mqtt (valid : Bool) (format : Option String) (opts : CommonSinkOpts V)
  | webSocket (opts : CommonSinkOpts V)
  | redis (opts : CommonSinkOpts V)
  | kafka (opts : CommonSinkOpts V)
  | sql
  | memory
  | rabbitMq (opts : CommonSinkOpts V)
  | edgeX (valid : Bool) (encodes : V → Bool)
  | influx (line : V → Bool) (opts : CommonSinkOpts V)
  | influx2 (line : V → Bool) (opts : CommonSinkOpts V)
  | tdengine (clause : V → Bool) (opts : CommonSinkOpts V)
  | iotdb (device : V → Option String) (timestamped : V → Bool) (measured : List V → Bool)
      (opts : CommonSinkOpts V)
  | image (opts : CommonSinkOpts V)
  | zmq (opts : CommonSinkOpts V)
  | modbus (writes : V → Bool) (opts : CommonSinkOpts V)
  | opcUa (writes : V → Bool) (opts : CommonSinkOpts V)
  | otlp (signal : V → OtlpSignal) (opts : CommonSinkOpts V)
  | unknown

namespace PreparedAction

def commonOpts : PreparedAction V → Option (CommonSinkOpts V)
  | .file opts | .rest _ _ _ opts | .mqtt _ _ opts | .webSocket opts | .redis opts
  | .kafka opts | .rabbitMq opts | .influx _ opts | .influx2 _ opts | .tdengine _ opts
  | .iotdb _ _ _ opts | .image opts | .zmq opts | .modbus _ opts | .opcUa _ opts
  | .otlp _ opts => some opts
  | .log | .nop | .sql | .memory | .edgeX _ _ | .unknown => none

/-- The record can never be delivered as configured: `SendError::Permanent` before any
request is made. -/
def refuses : PreparedAction V → Output V → Bool
  | .mqtt valid _ _, _ => !valid
  | .edgeX valid encodes, .single row => !valid || !encodes row.value
  | .edgeX valid _, .batch _ => !valid
  | .tdengine clause _, .single row => !clause row.value
  | .iotdb device timestamped measured _, .single row =>
    (device row.value).isNone || !timestamped row.value || !measured [row.value]
  | .iotdb device timestamped _ _, .batch rows =>
    rows.any fun row => (device row.value).isSome && !timestamped row.value
  | _, _ => false

/-- No destination can refuse the rows: they are logged, ignored, or appended to the
buffer of a file. -/
def isLocal : PreparedAction V → Bool
  | .log | .nop | .file _ | .unknown => true
  | _ => false

def together (takes : V → Bool) (rows : List (SinkRow V)) : List (List (SinkRow V)) :=
  match rows.filter fun row => takes row.value with
  | [] => []
  | rows => [rows]

/-- One request for each row that has something to send. -/
def oneByOne (takes : V → Bool) (rows : List (SinkRow V)) : List (List (SinkRow V)) :=
  (rows.filter fun row => takes row.value).map ([·])

def isDelimited (format : Option String) (opts : CommonSinkOpts V) : Bool :=
  format == some "delimited" || opts.format == some "delimited"

/-- `build_batch_insert_payloads`: the rows of each device, in the order in which the
devices come up; rows without a device and devices without measurements are left out. -/
def devicePayloads (device : V → Option String) (measured : List V → Bool)
    (rows : List (SinkRow V)) : List (List (SinkRow V)) :=
  let groups := Lib.groupOn (fun row => device row.value)
    (rows.filter fun row => (device row.value).isSome)
  (groups.map Prod.snd).filter fun rows => measured (rows.map SinkRow.value)

/-- `write_batch`: the metrics, the logs and the spans of the rows. -/
def signalPayloads (signal : V → OtlpSignal) (rows : List (SinkRow V)) :
    List (List (SinkRow V)) :=
  [.metric, .log, .span].filterMap fun kind =>
    match rows.filter fun row => signal row.value = kind with
    | [] => none
    | rows => some rows

/-- The rows each request for the record carries, in the order of the requests. Where a request
is made of the columns of the record that do not begin with `__`, a batch has none. -/
def requests : PreparedAction V → Output V → List (List (SinkRow V))
  | .nop, _ | .unknown, _ => []
  | .log, output | .file _, output => [output.rows]
  | .rest _ _ _ _, .single row => [[row]]
  | .rest method bodyType format opts, .batch rows =>
    if Lib.eqIgnoreAsciiCase method "GET" ∨ bodyType = "none" then [[]]
    else if isDelimited format opts then [rows]
    else opts.split rows
  | .mqtt _ format opts, .batch rows => if isDelimited format opts then [rows] else opts.split rows
  | .webSocket opts, .batch rows | .redis opts, .batch rows | .kafka opts, .batch rows
  | .rabbitMq opts, .batch rows | .zmq opts, .batch rows => opts.split rows
  | .mqtt _ _ _, .single row | .webSocket _, .single row | .redis _, .single row
  | .kafka _, .single row | .rabbitMq _, .single row | .zmq _, .single row => [[row]]
  | .sql, .single row | .edgeX _ _, .single row => [[row]]
  | .sql, .batch _ | .edgeX _ _, .batch _ => [[]]
  | .memory, .single row => [[row]]
  | .memory, .batch rows => rows.map ([·])
  | .influx line _, output | .influx2 line _, output => together line output.rows
  | .tdengine _ _, .single row => [[row]]
  | .tdengine clause _, .batch rows => together clause rows
  | .iotdb _ _ _ _, .single row => [[row]]
  | .iotdb device _ measured _, .batch rows => devicePayloads device measured rows
  | .image _, output => output.rows.map ([·])
  | .modbus writes opts, output | .opcUa writes opts, output =>
    oneByOne (fun value => writes (opts.formatRecord value)) output.rows
  | .otlp _ _, .single row => [[row]]
  | .otlp signal opts, .batch rows =>
    signalPayloads (fun value => signal (opts.formatRecord value)) rows

/-- A batch is divided by what its rows are about. -/
def grouped : PreparedAction V → Bool
  | .iotdb _ _ _ _ | .otlp _ _ => true
  | _ => false

end PreparedAction

-- ---- Sending

/-- The destination's answer to one request. -/
inductive Answer
  | ok
  | retry
  | permanent
  deriving DecidableEq, Repr

/-- The destination of an action: its answers to the requests, in the order in which
they are made, and how many were made. -/
structure Wire where
  answers : Nat → Answer
  made : Nat

def PreparedAction.failed : PreparedAction V → Answer → SendResult
  | .memory, _ => .dropped
  | _, .permanent => .permanent
  | _, _ => .retry

/-- Makes the requests one after the other; gives those acknowledged and the first
failure. `stops` says whether a failure ends the loop. -/
def perform (stops : Bool) : List (List (SinkRow V)) → Wire →
    Wire × List (List (SinkRow V)) × Option Answer
  | [], wire => (wire, [], none)
  | rows :: rest, wire =>
    let next := { wire with made := wire.made + 1 }
    match wire.answers wire.made with
    | .ok =>
      let (last, acked, failure) := perform stops rest next
      (last, rows :: acked, failure)
    | failure =>
      if stops then (next, [], some failure)
      else
        let (last, acked, _) := perform stops rest next
        (last, acked, some failure)

def PreparedAction.ignoresFailures : PreparedAction V → Output V → Bool
  | .memory, .batch _ => true
  | _, _ => false

def sendAction (action : PreparedAction V) (output : Output V) (wire : Wire) :
    Wire × List (List (SinkRow V)) × SendResult :=
  if action.refuses output then (wire, [], .permanent)
  else if action.isLocal then (wire, action.requests output, .ok)
  else if action.ignoresFailures output then
    let sent := perform false (action.requests output) wire
    (sent.1, sent.2.1, .ok)
  else
    let sent := perform true (action.requests output) wire
    (sent.1, sent.2.1, (sent.2.2.map action.failed).getD .ok)

-- ---- A send carries no row twice

@[simp] theorem flatten_map_singleton (rows : List (SinkRow V)) :
    (rows.map ([·])).flatten = rows := by
  induction rows with
  | nil => rfl
  | cons row rows ih => simpa using ih

namespace PreparedAction

variable {rows : List (SinkRow V)}

theorem flatten_split (opts : CommonSinkOpts V) : (opts.split rows).flatten = rows := by
  rw [CommonSinkOpts.split]
  split <;> simp

theorem flatten_together (takes : V → Bool) :
    (together takes rows).flatten = rows.filter fun row => takes row.value := by
  rw [together]
  split
  · rename_i h
    rw [h]
    rfl
  · simp

theorem flatten_oneByOne (takes : V → Bool) :
    (oneByOne takes rows).flatten = rows.filter fun row => takes row.value := by
  rw [oneByOne, flatten_map_singleton]

theorem devicePayloads_subperm (device : V → Option String) (measured : List V → Bool) :
    List.Subperm (devicePayloads device measured rows).flatten rows := by
  have hgroups := Lib.flatten_groupOn_perm (fun row : SinkRow V => device row.value)
    (rows.filter fun row => (device row.value).isSome)
  exact (List.filter_sublist.flatten.subperm.trans hgroups.subperm).trans
    List.filter_sublist.subperm

theorem flatten_signalPayloads (signal : V → OtlpSignal) :
    (signalPayloads signal rows).flatten =
      (rows.filter fun row => signal row.value = .metric) ++
        ((rows.filter fun row => signal row.value = .log) ++
          rows.filter fun row => signal row.value = .span) := by
  have hone (kind : OtlpSignal) (rest : List OtlpSignal) :
      ((kind :: rest).filterMap fun kind =>
        match rows.filter fun row => signal row.value = kind with
        | [] => none
        | rows => some rows).flatten =
        (rows.filter fun row => signal row.value = kind) ++
          (rest.filterMap fun kind =>
            match rows.filter fun row => signal row.value = kind with
            | [] => none
            | rows => some rows).flatten := by
    rw [List.filterMap_cons]
    cases h : rows.filter fun row => decide (signal row.value = kind) <;> simp
  rw [signalPayloads, hone, hone, hone]
  simp

theorem signalPayloads_perm (signal : V → OtlpSignal) (rows : List (SinkRow V)) :
    List.Perm (signalPayloads signal rows).flatten rows := by
  rw [flatten_signalPayloads]
  have hrest : List.Perm
      ((rows.filter fun row => signal row.value = .log) ++
        rows.filter fun row => signal row.value = .span)
      (rows.filter fun row => !decide (signal row.value = .metric)) := by
    have hsplit := List.filter_append_perm (fun row : SinkRow V => signal row.value = .log)
      (rows.filter fun row => !decide (signal row.value = .metric))
    rw [List.filter_filter, List.filter_filter] at hsplit
    refine (List.Perm.of_eq ?_).trans hsplit
    congr 1 <;>
    · refine List.filter_congr fun row _ => ?_
      cases signal row.value <;> rfl
  exact (hrest.append_left _).trans (List.filter_append_perm _ _)

theorem requests_sublist (action : PreparedAction V) (h : action.grouped = false)
    (output : Output V) : List.Sublist (action.requests output).flatten output.rows := by
  have whole {flat rows : List (SinkRow V)} (h : flat = rows) : List.Sublist flat rows :=
    h ▸ .refl flat
  have delimited (format : Option String) (opts : CommonSinkOpts V) (rows : List (SinkRow V)) :
      (if isDelimited format opts then [rows] else opts.split rows).flatten = rows := by
    split
    · simp
    · exact flatten_split opts
  cases action with
  | rest method bodyType format opts =>
    cases output with
    | single row => exact .refl _
    | batch rows =>
      rw [requests]
      split
      · exact List.nil_sublist _
      · exact whole (delimited format opts rows)
  | mqtt valid format opts =>
    cases output with
    | single row => exact .refl _
    | batch rows => exact whole (delimited format opts rows)
  | webSocket opts | redis opts | kafka opts | rabbitMq opts | zmq opts =>
    cases output with
    | single row => exact .refl _
    | batch rows => exact whole (flatten_split opts)
  | memory =>
    cases output with
    | single row => exact .refl _
    | batch rows => exact whole (flatten_map_singleton rows)
  | influx line opts | influx2 line opts =>
    rw [requests, flatten_together]
    exact List.filter_sublist
  | tdengine clause opts =>
    cases output with
    | single row => exact .refl _
    | batch rows =>
      rw [requests, flatten_together]
      exact List.filter_sublist
  | image opts => exact whole (flatten_map_singleton output.rows)
  | modbus writes opts | opcUa writes opts =>
    rw [requests, flatten_oneByOne]
    exact List.filter_sublist
  | sql | edgeX valid encodes =>
    cases output with
    | single row => exact .refl _
    | batch rows => exact List.nil_sublist _
  | log | file opts => simp [requests]
  | nop | unknown => exact List.nil_sublist _
  | iotdb device timestamped measured opts | otlp signal opts => cases h

theorem requests_subperm (action : PreparedAction V) (output : Output V) :
    List.Subperm (action.requests output).flatten output.rows := by
  cases hgrouped : action.grouped with
  | false => exact (requests_sublist action hgrouped output).subperm
  | true =>
    cases action with
    | iotdb device timestamped measured opts =>
      cases output with
      | single row => exact .refl _
      | batch rows => exact devicePayloads_subperm device measured
    | otlp signal opts =>
      cases output with
      | single row => exact .refl _
      | batch rows =>
        have hperm := signalPayloads_perm (fun value => signal (opts.formatRecord value)) rows
        exact hperm.subperm
    | _ => cases hgrouped

end PreparedAction

theorem perform_sublist (stops : Bool) (requests : List (List (SinkRow V))) (wire : Wire) :
    List.Sublist (perform stops requests wire).2.1 requests := by
  induction requests generalizing wire with
  | nil => exact List.Sublist.refl _
  | cons rows rest ih =>
    rw [perform]
    dsimp only
    split
    · exact (ih _).cons_cons rows
    · split
      · exact List.nil_sublist _
      · exact (ih _).cons rows

theorem sendAction_acked (action : PreparedAction V) (output : Output V) (wire : Wire) :
    List.Sublist (sendAction action output wire).2.1 (action.requests output) := by
  rw [sendAction]
  split
  · exact List.nil_sublist _
  · split
    · exact .refl _
    · split
      · exact perform_sublist false _ wire
      · exact perform_sublist true _ wire

theorem sendAction_subperm (action : PreparedAction V) (output : Output V) (wire : Wire) :
    List.Subperm (sendAction action output wire).2.1.flatten output.rows :=
  (sendAction_acked action output wire).flatten.subperm.trans (action.requests_subperm output)

theorem sendAction_sublist {action : PreparedAction V} (h : action.grouped = false)
    (output : Output V) (wire : Wire) :
    List.Sublist (sendAction action output wire).2.1.flatten output.rows :=
  (sendAction_acked action output wire).flatten.trans (action.requests_sublist h output)

end Rekuiper.Sinks
