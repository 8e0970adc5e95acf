import Rekuiper.Connectors.Delimited
import Rekuiper.Connectors.TemplateValues
import Rekuiper.Lib.Groups
import Rekuiper.Lib.Outcome
import Rekuiper.Lib.StableSort

/-!
# Tablets of the IoTDB sink

A record is sent as a tablet with one row, and a batch as one tablet for each device, column by
column. The type of a column is that of its first value, and values of another type are null.
-/

namespace Rekuiper.Connectors.Iotdb

open Lib

variable {F : Type}

structure IotdbConfig where
  device : String
  measurements : Option (List String)
  tsFieldName : String

/-- What the sink calls: `apply_data_template_value`, and the debug text of a value. -/
structure Calls (F : Type) where
  applyTemplate : String → Value F → String
  debug : Value F → String

/-- A payload of `/rest/v1/insertTablet` -/
structure Tablet (F : Type) where
  deviceId : String
  isAligned : Bool
  timestamps : List Int
  measurements : List String
  dataTypes : List String
  values : List (List (Value F))

/-- `infer_iotdb_data_type` -/
def inferDataType : Value F → String
  | .bool _ => "BOOLEAN"
  | .number _ => "DOUBLE"
  | _ => "TEXT"

def present (record : Row F) (m : String) : Option (Value F) :=
  (record.lookup m).filter fun v => !v.isNull

def measured (record : Row F) (m : String) : Except String (Option (String × Value F)) :=
  match record.lookup m with
  | some _ => .ok ((present record m).map fun v => (m, v))
  | none => .error s!"measurement '{m}' not found in record"

namespace IotdbConfig

def deviceOf (config : IotdbConfig) (calls : Calls F) (record : Row F) : String :=
  DataTemplate.resolveText calls.applyTemplate config.device record

def resolveTimestamp [Float64 F] (config : IotdbConfig) (calls : Calls F) (now : Int)
    (record : Row F) : Except String Int :=
  match record.lookup config.tsFieldName with
  | some (.number n) => .ok (n.asI64.getD (Float64.toInt n.asF64))
  | some (.string s) =>
    match parseI64 s with
    | some ts => .ok ts
    | none => .error s!"unparseable string timestamp '{s}' in '{config.tsFieldName}'"
  | some other =>
    .error ("unsupported timestamp type " ++ calls.debug other ++ " in '" ++ config.tsFieldName ++ "'")
  | none => .ok now

def writesKey (config : IotdbConfig) (k : String) : Bool :=
  k != config.tsFieldName && !startsWith k "__"

def columns (config : IotdbConfig) (record : Row F) : Except String (List (String × Value F)) :=
  match config.measurements with
  | some list => do
    let cells ← (list.filter (· != config.tsFieldName)).mapM (measured record)
    return cells.reduceOption
  | none =>
    .ok ((sortByKey id (record.keys.filter config.writesKey)).filterMap fun k =>
      (present record k).map fun v => (k, v))

def buildInsertPayload [Float64 F] (config : IotdbConfig) (calls : Calls F) (now : Int)
    (record : Row F) : Except String (Tablet F) :=
  if record.entries.isEmpty then .error "record data is empty"
  else if trim (config.deviceOf calls record) = "" then
    .error "device path resolved to empty string"
  else do
    let ts ← config.resolveTimestamp calls now record
    let columns ← config.columns record
    if columns.isEmpty then .error "no measurement values found to insert"
    else
      return {
        deviceId := config.deviceOf calls record
        isAligned := false
        timestamps := [ts]
        measurements := columns.map Prod.fst
        dataTypes := columns.map fun column => inferDataType column.2
        values := columns.map fun column => [column.2] }

-- ---- Batches

def addRecord [Float64 F] (config : IotdbConfig) (calls : Calls F) (now : Int)
    (batches : List (String × List (Int × Row F))) (record : Row F) :
    Except String (List (String × List (Int × Row F))) :=
  if trim (config.deviceOf calls record) = "" then .ok batches
  else do
    let ts ← config.resolveTimestamp calls now record
    let device := config.deviceOf calls record
    return put device ((batches.lookup device).getD [] ++ [(ts, record)]) batches

/-- The records of each device with their timestamps; `now` is the clock at each record. -/
def deviceBatches [Float64 F] (config : IotdbConfig) (calls : Calls F) (now : Nat → Int)
    (records : List (Row F)) : Except String (List (String × List (Int × Row F))) :=
  records.zipIdx.foldlM (fun batches x => config.addRecord calls (now x.2) batches x.1) []

def candidates (config : IotdbConfig) (rows : List (Int × Row F)) : List String :=
  match config.measurements with
  | some list => list.filter (· != config.tsFieldName)
  | none => sortByKey id ((rows.flatMap fun row => row.2.keys).filter config.writesKey).dedup

end IotdbConfig

def firstNonNull (rows : List (Int × Row F)) (m : String) : Option (Value F) :=
  rows.findSome? fun row => present row.2 m

def typedCell (dataType m : String) (record : Row F) : Value F :=
  match present record m with
  | some v => if inferDataType v = dataType then v else .null
  | none => .null

def column (rows : List (Int × Row F)) (m : String) : Option (String × String × List (Value F)) :=
  (firstNonNull rows m).map fun val =>
    (m, inferDataType val, rows.map fun row => typedCell (inferDataType val) m row.2)

namespace IotdbConfig

def batchColumns (config : IotdbConfig) (rows : List (Int × Row F)) :
    List (String × String × List (Value F)) :=
  (config.candidates rows).filterMap (column rows)

def batchTablet (config : IotdbConfig) (batch : String × List (Int × Row F)) : Option (Tablet F) :=
  if (config.batchColumns batch.2).isEmpty then none
  else some {
    deviceId := batch.1
    isAligned := false
    timestamps := batch.2.map Prod.fst
    measurements := (config.batchColumns batch.2).map fun c => c.1
    dataTypes := (config.batchColumns batch.2).map fun c => c.2.1
    values := (config.batchColumns batch.2).map fun c => c.2.2 }

def buildBatchInsertPayloads [Float64 F] (config : IotdbConfig) (calls : Calls F) (now : Nat → Int)
    (records : List (Row F)) : Except String (List (Tablet F)) := do
  let batches ← config.deviceBatches calls now records
  return batches.filterMap config.batchTablet

end IotdbConfig

-- ---- Cells

structure Cell (F : Type) where
  device : String
  timestamp : Int
  measurement : String
  value : Value F

/-- The cells of a tablet, without its nulls. -/
def Tablet.cells (tablet : Tablet F) : List (Cell F) :=
  (tablet.measurements.zip tablet.values).flatMap fun (m, values) =>
    ((tablet.timestamps.zip values).filter fun cell => !cell.2.isNull).map fun (ts, v) =>
      ⟨tablet.deviceId, ts, m, v⟩

structure Tablet.Shaped (tablet : Tablet F) : Prop where
  values : ∀ values ∈ tablet.values, values.length = tablet.timestamps.length
  dataTypes : tablet.dataTypes.length = tablet.measurements.length
  columns : tablet.values.length = tablet.measurements.length

end Rekuiper.Connectors.Iotdb
