import Mathlib.Data.List.Infix
import Mathlib.Data.List.Sort
import Rekuiper.Json
import Rekuiper.Lib.Paging

/-!
# The polling SQL source

The source of a table reads it in pages. A query selects the rows whose index columns are
greater than the tracked index values, in their order, up to a limit, and the index values
advance to those of the last row.
-/

namespace Rekuiper.Connectors

open Lib

variable {F K : Type}

-- ---- The configuration

structure IndexFieldCfg (F : Type) where
  indexField : String
  indexValue : Value F

structure InternalSqlQueryCfg (F : Type) where
  table : String
  limit : Nat
  indexField : String
  indexValue : Value F
  indexFields : List (IndexFieldCfg F)

structure SqlConnectorConfig (F : Type) where
  url : String
  table : String
  internalSqlQueryCfg : Option (InternalSqlQueryCfg F)

abbrev SqlIndex (F : Type) := List (String × Value F)

def InternalSqlQueryCfg.indexPairs (cfg : InternalSqlQueryCfg F) : SqlIndex F :=
  (if cfg.indexField = "" then [] else [(cfg.indexField, cfg.indexValue)]) ++
    (cfg.indexFields.filter fun f => f.indexField ≠ "").map fun f => (f.indexField, f.indexValue)

def initialIndexPairs (config : SqlConnectorConfig F) : SqlIndex F :=
  match config.internalSqlQueryCfg with
  | some cfg =>
    let pairs := cfg.indexPairs
    if pairs.isEmpty && cfg.indexField != "" then [(cfg.indexField, cfg.indexValue)] else pairs
  | none => []

def isValidSqlIdentifier (name : String) : Bool :=
  match name.toList with
  | [] => false
  | first :: rest => (first.isAlpha || first == '_') && rest.all fun c => c.isAlphanum || c == '_'

def validateSqlSourceIdentifiers (config : SqlConnectorConfig F) (pairs : SqlIndex F) :
    Except String Unit := do
  for (k, _) in pairs do
    if !isValidSqlIdentifier k then
      throw s!"Invalid SQL index field identifier '{k}': requires [A-Za-z_][A-Za-z0-9_]*"
  let table := ((config.internalSqlQueryCfg.filter (·.table != "")).map (·.table)).getD config.table
  if !isValidSqlIdentifier table then
    throw s!"Invalid SQL table identifier '{table}': requires [A-Za-z_][A-Za-z0-9_]*"

-- ---- The query

/-- `SELECT * FROM table WHERE column > literal AND .. ORDER BY column ASC, .. LIMIT limit` -/
structure Query (F : Type) where
  table : String
  /-- A value stands for the literal that `sql_literal` makes of it. -/
  conditions : List (String × Value F)
  order : List String
  limit : Option Nat

def sqlSourceQueryWith (config : SqlConnectorConfig F) (pairs : SqlIndex F) : Query F :=
  match config.internalSqlQueryCfg with
  | some cfg =>
    { table := if cfg.table = "" then config.table else cfg.table
      conditions := pairs
      order := pairs.map Prod.fst
      limit := if cfg.limit > 0 then some cfg.limit else none }
  | none => ⟨config.table, [], [], none⟩

-- ---- The database

/-- A column of a row: what the database compares, nothing for `NULL`, the name of its type, and
what the driver gives for it at each type. -/
structure Cell (K F : Type) where
  value : Option K
  typeName : String
  asString : Option String
  asI32 : Option Int
  asI64 : Option Int
  asF32 : Option F
  asF64 : Option F
  asBool : Option Bool

/-- A row of a table. Names of columns differ by more than their case. -/
structure SqlRow (K F : Type) where
  columns : List (String × Cell K F)
  distinct : (columns.map fun column => toAsciiLowercase column.1).Nodup

def SqlRow.column (row : SqlRow K F) (name : String) : Option K :=
  (row.columns.find? fun column => eqIgnoreAsciiCase column.1 name).bind fun column => column.2.value

def SqlRow.key (names : List String) (row : SqlRow K F) : List (Option K) := names.map row.column

section Reading

variable [Float64 F]

def contains (s part : String) : Bool := part.toList <:+: s.toList

def jsonFloat (f : F) : Value F := if Float64.isFinite f then .number (.float f) else .null

def sqliteColumnValue (cell : Cell K F) : Value F :=
  let upper := toAsciiUppercase cell.typeName
  let int := cell.asI64.map fun n => Value.number (.int n)
  let text := cell.asString.map Value.string
  let float := cell.asF64.map jsonFloat
  let typed :=
    if contains upper "INT" then int
    else if contains upper "CHAR" || contains upper "CLOB" || contains upper "TEXT" then text
    else if contains upper "REAL" || contains upper "FLOA" || contains upper "DOUB" then float
    else if contains upper "BOOL" then cell.asBool.map Value.bool <|> int
    else none
  (typed <|> int <|> float <|> text).getD .null

def pgColumnValue (cell : Cell K F) : Value F :=
  (cell.asString.map Value.string <|> cell.asI32.map (fun n => Value.number (.int n)) <|>
    cell.asI64.map (fun n => Value.number (.int n)) <|> cell.asF64.map jsonFloat <|>
    cell.asF32.map jsonFloat <|> cell.asBool.map Value.bool).getD .null

def SqlRow.data (url : String) (row : SqlRow K F) : List (String × Value F) :=
  row.columns.map fun (name, cell) =>
    (name, if startsWith url "sqlite" then sqliteColumnValue cell else pgColumnValue cell)

end Reading

/-- What a literal stands for; nothing for `NULL`. -/
structure Database (K F : Type) where
  literal : Value F → Option K

/-- The tracked values as the database compares them. -/
def SqlIndex.key (db : Database K F) (index : SqlIndex F) : List (Option K) :=
  index.map fun pair => db.literal pair.2

variable [LinearOrder K]

/-- `<`, which holds of no `NULL`. -/
def Less : Option K → Option K → Prop
  | some a, some b => a < b
  | _, _ => False

/-- `<` of row values: the first values that differ decide. -/
def RowLess : List (Option K) → List (Option K) → Prop
  | some a :: as, some b :: bs => a < b ∨ a = b ∧ RowLess as bs
  | _, _ => False

instance : DecidableRel (Less (K := K)) := fun a b =>
  match a, b with
  | some a, some b => inferInstanceAs (Decidable (a < b))
  | none, _ => isFalse id
  | some _, none => isFalse id

instance RowLess.decide : DecidableRel (RowLess (K := K)) := fun as bs =>
  match as, bs with
  | some a :: as, some b :: bs =>
    have := RowLess.decide as bs
    inferInstanceAs (Decidable (a < b ∨ a = b ∧ RowLess as bs))
  | [], _ => isFalse id
  | none :: _, _ => isFalse id
  | some _ :: _, [] => isFalse id
  | some _ :: _, none :: _ => isFalse id

def Query.fetch (db : Database K F) (query : Query F) (rows : List (SqlRow K F)) : List (SqlRow K F) :=
  let selected := rows.filter fun row =>
    query.conditions.all fun (column, value) => Less (db.literal value) (row.column column)
  let sorted := selected.insertionSort fun a b => ¬ RowLess (b.key query.order) (a.key query.order)
  match query.limit with
  | some limit => sorted.take limit
  | none => sorted

-- ---- Polling

/-- The last row that has a column wins. -/
def advanceIndex (index : SqlIndex F) (rows : List (List (String × Value F))) : SqlIndex F :=
  rows.foldl (fun index row => index.map fun (name, value) => (name, (field name row).getD value))
    index

variable [Float64 F]

def pollOnce (db : Database K F) (config : SqlConnectorConfig F) (index : SqlIndex F)
    (table : List (SqlRow K F)) : Except String (List (SqlRow K F) × SqlIndex F) := do
  validateSqlSourceIdentifiers config index
  let query := sqlSourceQueryWith config index
  if startsWith config.url "sqlite" || startsWith config.url "postgres" then
    let rows := query.fetch db table
    return (rows, advanceIndex index (rows.map (SqlRow.data config.url)))
  throw s!"Unsupported SQL source URL scheme: {config.url}"

structure Polling (K F : Type) where
  table : List (SqlRow K F)
  index : SqlIndex F
  returned : List (SqlRow K F)

def Polling.start (config : SqlConnectorConfig F) : Polling K F :=
  ⟨[], initialIndexPairs config, []⟩

/-- An insertion or a poll. A poll that fails leaves the index values. -/
def Polling.step (db : Database K F) (config : SqlConnectorConfig F) (s : Polling K F) :
    PagerEvent (SqlRow K F) → Polling K F
  | .insert row => { s with table := s.table ++ [row] }
  | .read =>
    match pollOnce db config s.index s.table with
    | .ok (rows, index) => { s with index, returned := s.returned ++ rows }
    | .error _ => s

def Polling.run (db : Database K F) (config : SqlConnectorConfig F)
    (events : List (PagerEvent (SqlRow K F))) : Polling K F :=
  events.foldl (Polling.step db config) (Polling.start config)

end Rekuiper.Connectors
