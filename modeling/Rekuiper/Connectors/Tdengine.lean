import Mathlib.Data.String.Basic
import Rekuiper.Connectors.SqlSource
import Rekuiper.Connectors.TemplateValues
import Rekuiper.Lib.Outcome
import Rekuiper.Lib.StableSort

/-!
# Statements of the TDengine sink

A record is a row of an `INSERT`, and in a batch the rows after each other that go to the same place
share a clause.
-/

namespace Rekuiper.Connectors.Tdengine

open Lib DataTemplate

variable {F : Type}

structure TdengineConfig where
  table : String
  sTable : Option String
  tagFields : Option (List String)
  fields : Option (List String)
  tsFieldName : String
  provideTs : Bool

/-- What the sink calls: `apply_data_template_value`, and `to_string` of a value. -/
structure Calls (F : Type) where
  applyTemplate : String → Value F → String
  toText : Value F → String

-- ---- Values

def replaceChar (c : Char) (written : List Char) (text : List Char) : List Char :=
  text.flatMap fun d => if d = c then written else [d]

def quoted (s : String) : List Char :=
  '\'' :: (replaceChar '\'' ['\\', '\''] (replaceChar '\\' ['\\', '\\'] s.toList) ++ ['\''])

def formatSqlValue (calls : Calls F) : Value F → List Char
  | .string s => quoted s
  | .number n => (calls.toText (.number n)).toList
  | .bool b => (if b then "true" else "false").toList
  | .null => "NULL".toList
  | other => quoted (calls.toText other)

/-- What is written in a column: the clock of the server, or a value. -/
inductive SqlValue (F : Type)
  | now
  | value (v : Value F)

def SqlValue.chars (calls : Calls F) : SqlValue F → List Char
  | .now => "now".toList
  | .value v => formatSqlValue calls v

-- ---- Rows

structure InsertRow (F : Type) where
  table : String
  sTable : Option String
  tagVals : List (Value F)
  keys : List String
  vals : List (SqlValue F)

def checkIdentifier (kind name : String) : Except String Unit :=
  if isValidSqlIdentifier name then .ok () else .error s!"invalid {kind} identifier '{name}'"

def valueOf (record : Row F) (name missing : String) : Except String (Value F) :=
  match record.lookup name with
  | some v => .ok v
  | none => .error missing

namespace TdengineConfig

def tableOf (config : TdengineConfig) (calls : Calls F) (record : Row F) : Except String String :=
  let table := trim (resolveText calls.applyTemplate config.table record)
  if table = "" then .error "table name resolved to empty string"
  else do
    checkIdentifier "table" table
    return table

def sTableOf (config : TdengineConfig) (calls : Calls F) (record : Row F) :
    Except String (Option String) :=
  match config.sTable with
  | none => .ok none
  | some st => do
    let sTable := trim (resolveText calls.applyTemplate st record)
    checkIdentifier "super table" sTable
    return some sTable

def tagValsOf (config : TdengineConfig) (record : Row F) : Except String (List (Value F)) :=
  (config.tagFields.getD []).mapM fun name =>
    valueOf record name s!"tag field '{name}' not found in record"

def tsVal (config : TdengineConfig) (record : Row F) : Except String (SqlValue F) := do
  checkIdentifier "timestamp field" config.tsFieldName
  if config.provideTs then
    let v ← valueOf record config.tsFieldName s!"timestamp field '{config.tsFieldName}' not found"
    return .value v
  else return .now

def isTag (config : TdengineConfig) (key : String) : Bool :=
  (config.tagFields.getD []).any (· == key)

def skips (config : TdengineConfig) (key : String) : Bool :=
  key == config.tsFieldName || config.isTag key

def columnsOf (config : TdengineConfig) (record : Row F) : Except String (List (String × SqlValue F)) :=
  match config.fields with
  | some list =>
    (list.filter (!config.skips ·)).mapM fun f => do
      checkIdentifier "column" f
      let v ← valueOf record f s!"field '{f}' not found in record"
      return (f, .value v)
  | none => do
    let columns ← ((sortByKey id record.keys).filter fun k =>
      !config.skips k && !startsWith k "__").mapM fun k => do
        checkIdentifier "column" k
        return (record.lookup k).map fun v => (k, SqlValue.value v)
    return columns.reduceOption

def insertRow (config : TdengineConfig) (calls : Calls F) (record : Row F) :
    Except String (InsertRow F) :=
  if record.entries.isEmpty then .error "record data is empty"
  else do
    let table ← config.tableOf calls record
    let sTable ← config.sTableOf calls record
    let tagVals ← config.tagValsOf record
    let ts ← config.tsVal record
    let columns ← config.columnsOf record
    return {
      table, sTable, tagVals
      keys := config.tsFieldName :: columns.map Prod.fst
      vals := ts :: columns.map Prod.snd }

end TdengineConfig

-- ---- Statements

def tuple (texts : List (List Char)) : List Char :=
  '(' :: (List.intercalate [',', ' '] texts ++ [')'])

namespace InsertRow

def tagsClause (row : InsertRow F) (calls : Calls F) : List Char :=
  if row.tagVals.isEmpty then []
  else "TAGS".toList ++ ' ' :: (tuple (row.tagVals.map (formatSqlValue calls)) ++ [' '])

def usingClause (row : InsertRow F) (calls : Calls F) : List Char :=
  match row.sTable with
  | none => []
  | some st => "USING".toList ++ ' ' :: (st.toList ++ ' ' :: row.tagsClause calls)

def target (row : InsertRow F) (calls : Calls F) : List Char :=
  row.table.toList ++ ' ' :: (row.usingClause calls ++ tuple (row.keys.map String.toList))

def valuesTuple (row : InsertRow F) (calls : Calls F) : List Char :=
  tuple (row.vals.map (SqlValue.chars calls))

end InsertRow

def clauseChars (group : List Char × List (List Char)) : List Char :=
  group.1 ++ ' ' :: ("VALUES".toList ++ ' ' :: List.intercalate [' '] group.2)

def insertInto (clauses : List (List Char)) : String :=
  String.ofList ("INSERT".toList ++ ' ' :: ("INTO".toList ++ ' ' :: List.intercalate [' '] clauses))

def addParts (groups : List (List Char × List (List Char))) (parts : List Char × List Char) :
    List (List Char × List (List Char)) :=
  match groups.getLast? with
  | some last =>
    if last.1 = parts.1 then groups.dropLast ++ [(last.1, last.2 ++ [parts.2])]
    else groups ++ [(parts.1, [parts.2])]
  | none => groups ++ [(parts.1, [parts.2])]

namespace TdengineConfig

def buildInsertParts (config : TdengineConfig) (calls : Calls F) (record : Row F) :
    Except String (List Char × List Char) := do
  let row ← config.insertRow calls record
  return (row.target calls, row.valuesTuple calls)

def buildInsertClause (config : TdengineConfig) (calls : Calls F) (record : Row F) :
    Except String (List Char) := do
  let parts ← config.buildInsertParts calls record
  return clauseChars (parts.1, [parts.2])

def buildInsertSql (config : TdengineConfig) (calls : Calls F) (record : Row F) :
    Except String String := do
  let clause ← config.buildInsertClause calls record
  return insertInto [clause]

/-- The clauses of a batch; a record that is no row is skipped. -/
def groups (config : TdengineConfig) (calls : Calls F) (records : List (Row F)) :
    List (List Char × List (List Char)) :=
  records.foldl (fun groups record =>
    match config.buildInsertParts calls record with
    | .ok parts => addParts groups parts
    | .error _ => groups) []

def buildBatchInsertSql (config : TdengineConfig) (calls : Calls F) (records : List (Row F)) :
    Except String String :=
  if records.isEmpty then .ok ""
  else if (config.groups calls records).isEmpty then .ok ""
  else .ok (insertInto ((config.groups calls records).map clauseChars))

end TdengineConfig

end Rekuiper.Connectors.Tdengine
