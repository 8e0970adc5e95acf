import Rekuiper.Codecs.Protobuf
import Rekuiper.Connectors.Delimited
import Rekuiper.Lib.StableSort

/-!
# Parquet files

Records are written as batches of typed columns. The type of a column is folded over its
values in the order of the rows, and a null counts as text. A call adds a batch to those of
the file if it has the same schema, and writes all rows anew otherwise; a file that cannot
be read counts as one without rows.
-/

namespace Rekuiper.Connectors

open Lib
open Codecs (finiteNumber)

variable {F : Type}

-- ---- Batches

/-- The Arrow types of the columns that are written. -/
inductive DataType
  | boolean
  | int64
  | float64
  | utf8
  deriving DecidableEq

/-- An Arrow array, with its nulls. -/
inductive Column (F : Type)
  | boolean (cells : List (Option Bool))
  | int64 (cells : List (Option Int64))
  | float64 (cells : List (Option F))
  | utf8 (cells : List (Option String))

def Column.dataType : Column F → DataType
  | .boolean _ => .boolean
  | .int64 _ => .int64
  | .float64 _ => .float64
  | .utf8 _ => .utf8

structure RecordBatch (F : Type) where
  fields : List (String × Column F)
  numRows : Nat

def RecordBatch.schema (batch : RecordBatch F) : List (String × DataType) :=
  batch.fields.map fun f => (f.1, f.2.dataType)

-- ---- From records

def isInternal (k : String) : Bool := k == metaKey || startsWith k "__"

def candidateType : Value F → DataType
  | .bool _ => .boolean
  | .number (.int _) => .int64
  | .number (.float _) => .float64
  | _ => .utf8

def mergeType (existing candidate : DataType) : DataType :=
  if existing = .int64 ∧ candidate = .float64 then .float64
  else if existing ≠ candidate then .utf8
  else existing

def noteField (types : HashMap String DataType) (k : String) (v : Value F) :
    HashMap String DataType :=
  if isInternal k then types
  else types.insert k (((types.lookup k).map (mergeType · (candidateType v))).getD (candidateType v))

def fieldTypes (records : List (Row F)) : HashMap String DataType :=
  records.foldl (fun types r => r.entries.foldl (fun types e => noteField types e.1 e.2) types) ∅

def booleanCell : Option (Value F) → Option Bool
  | some (.bool b) => some b
  | _ => none

/-- An integer: itself if it is an `i64`, and `as i64` if it is a larger `u64`. -/
def int64Cell : Option (Value F) → Option Int64
  | some (.number (.int n)) => some (Int64.ofInt n)
  | _ => none

def float64Cell [Float64 F] : Option (Value F) → Option F
  | some (.number n) => some n.asF64
  | _ => none

def utf8Cell (json : JsonTexts F) : Option (Value F) → Option String
  | none | some .null => none
  | some (.string s) => some s
  | some other => some (json.toText other)

def buildColumn [Float64 F] (json : JsonTexts F) (values : List (Option (Value F))) :
    DataType → Column F
  | .boolean => .boolean (values.map booleanCell)
  | .int64 => .int64 (values.map int64Cell)
  | .float64 => .float64 (values.map float64Cell)
  | .utf8 => .utf8 (values.map (utf8Cell json))

def sortedTypes (records : List (Row F)) : List (String × DataType) :=
  sortByKey Prod.fst ((fieldTypes records).entries.map fun e => (e.1, e.2))

def recordsToRecordBatch [Float64 F] (json : JsonTexts F) (records : List (Row F)) :
    Except String (RecordBatch F) :=
  if (sortedTypes records).isEmpty then .error "Failed to construct Arrow RecordBatch"
  else .ok {
    fields := (sortedTypes records).map fun (name, dt) =>
      (name, buildColumn json (records.map (·.lookup name)) dt)
    numRows := records.length }

-- ---- To records

def textValue (json : JsonTexts F) (s : String) : Value F :=
  match json.fromText s with
  | some (.object fields) => .object fields
  | some (.array items) => .array items
  | _ => .string s

/-- The value of a column in a row, unless it is null. -/
def Column.value [Float64 F] (json : JsonTexts F) (rowIdx : Nat) : Column F → Option (Value F)
  | .boolean cells => cells[rowIdx]?.join.map .bool
  | .int64 cells => cells[rowIdx]?.join.map fun n => .number (.int n.toInt)
  | .float64 cells => cells[rowIdx]?.join.bind finiteNumber
  | .utf8 cells => cells[rowIdx]?.join.map (textValue json)

def insertCell [Float64 F] (json : JsonTexts F) (rowIdx : Nat) (rowData : Row F)
    (field : String × Column F) : Row F :=
  match field.2.value json rowIdx with
  | some v => rowData.insert field.1 v
  | none => rowData

def RecordBatch.row [Float64 F] (json : JsonTexts F) (batch : RecordBatch F) (rowIdx : Nat) :
    Row F :=
  batch.fields.foldl (insertCell json rowIdx) ∅

def recordBatchToRecords [Float64 F] (json : JsonTexts F) (batch : RecordBatch F) :
    List (Row F) :=
  (List.range batch.numRows).map (batch.row json)

-- ---- Files

abbrev ParquetFile (F : Type) := Option (List (RecordBatch F))

/-- The file operations of a call that fail, with their errors. -/
structure Faults where
  createDir : Option String
  /-- `exists` or `metadata`, which have no error to return -/
  stat : Bool
  read : Option String
  writeTemp : Option String
  rename : Option String

def Faults.none : Faults where
  createDir := .none
  stat := false
  read := .none
  writeTemp := .none
  rename := .none

/-- An operation that fails, or does nothing to the contents of the path. -/
def attempt (fault : Option String) : Except String Unit :=
  match fault with
  | some err => .error err
  | none => .ok ()

def readRawRecordBatches (faults : Faults) (file : ParquetFile F) :
    Except String (List (RecordBatch F)) :=
  match faults.read, file with
  | some err, _ => .error err
  | none, none => .error "Failed to open Parquet file"
  | none, some batches => .ok batches

def existingBatches (faults : Faults) (file : ParquetFile F) : List (RecordBatch F) :=
  if file.isSome && !faults.stat then
    match readRawRecordBatches faults file with
    | .ok batches => batches
    | .error _ => []
  else []

section

variable [Float64 F]

def batchesToWrite (json : JsonTexts F) (existing : List (RecordBatch F)) (newBatch : RecordBatch F)
    (records : List (Row F)) : Except String (List (RecordBatch F)) :=
  match existing with
  | [] => .ok [newBatch]
  | first :: _ =>
    if first.schema = newBatch.schema then .ok (existing ++ [newBatch])
    else do
      let batch ← recordsToRecordBatch json (existing.flatMap (recordBatchToRecords json) ++ records)
      .ok [batch]

def replacement (json : JsonTexts F) (faults : Faults) (file : ParquetFile F)
    (records : List (Row F)) : Except String (List (RecordBatch F)) := do
  attempt faults.createDir
  let newBatch ← recordsToRecordBatch json records
  let batches ← batchesToWrite json (existingBatches faults file) newBatch records
  attempt faults.writeTemp
  attempt faults.rename
  .ok batches

/-- `write_records_to_parquet`: its result, and what is under the path afterwards. The
temporary file takes the place of the old one in the last step. -/
def writeRecordsToParquet (json : JsonTexts F) (faults : Faults) (file : ParquetFile F)
    (records : List (Row F)) : Except String Unit × ParquetFile F :=
  if records.isEmpty then (.ok (), file)
  else
    match replacement json faults file records with
    | .ok batches => (.ok (), some batches)
    | .error err => (.error err, file)

def readParquetFile (json : JsonTexts F) (faults : Faults) (file : ParquetFile F) :
    Except String (List (Row F)) := do
  let batches ← readRawRecordBatches faults file
  .ok (batches.flatMap (recordBatchToRecords json))

end

end Rekuiper.Connectors
