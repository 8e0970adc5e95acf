import Rekuiper.Connectors.Delimited
import Rekuiper.Connectors.SqlSource
import Rekuiper.Lib.Chunks
import Rekuiper.Lib.Prog

/-!
# The SQL sink

`insert_record` writes a record with one statement, `insert_batch` many records with one
statement for every few hundred values. A batch has the columns of all its records, so a
record may get a NULL where it would have had the column's default by itself. Its statements
do not share a transaction.
-/

namespace Rekuiper.Connectors

open Lib
open Lib.Prog (perform)

variable {F : Type}

-- ---- Statements

structure SqlSinkConfig where
  url : String
  table : String
  fields : List String

/-- A value that is bound to a placeholder. -/
inductive SqlBindVal (F : Type)
  | int (i : Int)
  | float (f : F)
  | bool (b : Bool)
  | text (s : String)

def jsonToBind [Float64 F] : Option (Value F) → Option (SqlBindVal F)
  | none | some .null => none
  | some (.bool b) => some (.bool b)
  | some (.number (.int n)) => some (if n ≤ maxI64 then .int n else .float (Float64.ofInt n))
  | some (.number (.float f)) => some (.float f)
  | some (.string s) => some (.text s)
  | some other => some (.text other.toJson)

inductive Dialect
  | sqlite
  | postgres
  deriving DecidableEq

def Dialect.ofUrl (url : String) : Option Dialect :=
  if startsWith url "sqlite" then some .sqlite
  else if startsWith url "postgres" then some .postgres
  else none

/-- A literal `NULL`, or a placeholder with its place among the placeholders. -/
inductive Placeholder
  | null
  | param (k : Nat)
  deriving DecidableEq

def Placeholder.text : Dialect → Placeholder → String
  | _, .null => "NULL"
  | .sqlite, .param _ => "?"
  | .postgres, .param k => "$" ++ toString k

/-- The placeholders of a row; the next one is number `next`. -/
def placeholders (next : Nat) : List (Option (SqlBindVal F)) → List Placeholder
  | [] => []
  | none :: cells => .null :: placeholders next cells
  | some _ :: cells => .param next :: placeholders (next + 1) cells

def batchPlaceholders (next : Nat) : List (List (Option (SqlBindVal F))) → List (List Placeholder)
  | [] => []
  | cells :: rows =>
    placeholders next cells :: batchPlaceholders (next + (cells.filterMap id).length) rows

inductive Statement (F : Type)
  | defaultValues (table : String)
  | insert (table : String) (cols : List String) (rows : List (List Placeholder))
    (binds : List (SqlBindVal F))

/-- The text that is sent, in which `?` stand for the bound values in their order. -/
def Statement.text (dialect : Dialect) : Statement F → String
  | .defaultValues table => "INSERT INTO " ++ table ++ " DEFAULT VALUES"
  | .insert table cols rows _ =>
    "INSERT INTO " ++ table ++ " (" ++ ", ".intercalate cols ++ ") VALUES " ++
      ", ".intercalate (rows.map fun row =>
        "(" ++ ", ".intercalate (row.map (Placeholder.text dialect)) ++ ")")

section

variable [Float64 F]

def cells (fields : List String) (record : Row F) : List (Option (SqlBindVal F)) :=
  fields.map fun f => jsonToBind (record.lookup f)

def rowStatement (table : String) (fields : List String) (record : Row F) : Statement F :=
  .insert table fields [placeholders 1 (cells fields record)]
    ((cells fields record).filterMap id)

def chunkStatement (table : String) (fields : List String) (chunk : List (Row F)) :
    Statement F :=
  let rows := chunk.map (cells fields)
  .insert table fields (batchPlaceholders 1 rows) (rows.flatMap (·.filterMap id))

-- ---- Checks

def checkTable (config : SqlSinkConfig) : Except String Unit :=
  if isValidSqlIdentifier config.table then .ok ()
  else .error ("Invalid SQL table identifier '" ++ config.table ++
    "': SQL sink requires identifiers matching [A-Za-z_][A-Za-z0-9_]*")

def checkFields (fields : List String) : Except String (List String) :=
  match fields.find? (!isValidSqlIdentifier ·) with
  | some f => .error ("Invalid field name '" ++ f ++
      "': SQL sink requires identifiers matching [A-Za-z_][A-Za-z0-9_]*")
  | none => .ok fields

omit [Float64 F] in
def columnKeys (record : Row F) : List String :=
  record.keys.filter fun k => k != metaKey && !startsWith k "__"

def checkKeys (keys : List String) : Except String Unit :=
  match keys.find? (!isValidSqlIdentifier ·) with
  | some k => .error ("Invalid dynamic field name '" ++ k ++
      "': SQL sink requires identifiers matching [A-Za-z_][A-Za-z0-9_]* when fields is unset")
  | none => .ok ()

def recordFields (config : SqlSinkConfig) (record : Row F) : Except String (List String) :=
  if config.fields.isEmpty then do
    checkKeys (columnKeys record)
    .ok ((columnKeys record).insertionSort (· ≤ ·))
  else checkFields config.fields

def batchFields (config : SqlSinkConfig) (records : List (Row F)) : Except String (List String) :=
  if config.fields.isEmpty then do
    checkKeys (records.flatMap columnKeys)
    .ok ((records.flatMap columnKeys).dedup.insertionSort (· ≤ ·))
  else checkFields config.fields

-- ---- Sessions

/-- What a sink does with the database: it takes a connection pool, and executes statements
on it. -/
inductive SqlOp (F : Type)
  | connect
  | execute (dialect : Dialect) (statement : Statement F)

abbrev Status := Except String Unit

/-- A call of the sink. Every operation may fail. -/
abbrev Session (F : Type) := Prog (SqlOp F) (fun _ => Status)

def andThen (p q : Session F Status) : Session F Status :=
  p >>= fun result => match result with
    | .ok () => q
    | .error err => pure (.error err)

def executeAll (dialect : Dialect) : List (Statement F) → Session F Status
  | [] => pure (.ok ())
  | statement :: rest =>
    andThen (perform (.execute dialect statement)) (executeAll dialect rest)

def recordStatement (config : SqlSinkConfig) (record : Row F) :
    Except String (Dialect × Statement F) := do
  checkTable config
  let fields ← recordFields config record
  match Dialect.ofUrl config.url with
  | some dialect =>
    .ok (dialect, if (cells fields record).isEmpty then .defaultValues config.table
      else rowStatement config.table fields record)
  | none => .error ("Unsupported SQL sink URL scheme: " ++ config.url)

def insertRecord (config : SqlSinkConfig) (record : Row F) : Session F Status :=
  match recordStatement config record with
  | .ok (dialect, statement) =>
    andThen (perform .connect) (perform (.execute dialect statement))
  | .error err => pure (.error err)

def insertRecords (config : SqlSinkConfig) : List (Row F) → Session F Status
  | [] => pure (.ok ())
  | record :: records => andThen (insertRecord config record) (insertRecords config records)

def subBatchSize (fields : List String) : Nat := max 1 (min (900 / max fields.length 1) 256)

def insertBatch (config : SqlSinkConfig) (records : List (Row F)) : Session F Status :=
  match records with
  | [] => pure (.ok ())
  | [record] =>
    match checkTable config with
    | .ok () => insertRecord config record
    | .error err => pure (.error err)
  | records =>
    match checkTable config, batchFields config records with
    | .error err, _ => pure (.error err)
    | .ok (), .error err => pure (.error err)
    | .ok (), .ok fields =>
      if fields.isEmpty then insertRecords config records
      else
        match Dialect.ofUrl config.url with
        | some dialect =>
          andThen (perform .connect) (executeAll dialect
            ((chunks (subBatchSize fields) records).map (chunkStatement config.table fields)))
        | none => insertRecords config records

end

-- ---- Rows

/-- What a statement puts in a column. -/
inductive Stored (F : Type)
  | null
  | bound (v : SqlBindVal F)
  | unbound

/-- The `k`-th placeholder stands for the `k`-th bound value. -/
def Placeholder.stored (binds : List (SqlBindVal F)) : Placeholder → Stored F
  | .null => .null
  | .param k =>
    match binds[k - 1]? with
    | some v => .bound v
    | none => .unbound

abbrev TableRow (F : Type) := String × List (String × Stored F)

def Statement.rows : Statement F → List (TableRow F)
  | .defaultValues table => [(table, [])]
  | .insert table cols rows binds =>
    rows.map fun row => (table, cols.zip (row.map (·.stored binds)))

/-- The rows that a run inserts. A statement that fails inserts none of its rows. -/
def inserted (trace : List (Done (SqlOp F) fun _ => Status)) : List (TableRow F) :=
  trace.flatMap fun done => match done with
    | ⟨.execute _ statement, .ok ()⟩ => statement.rows
    | _ => []

def storedCell : Option (SqlBindVal F) → Stored F
  | none => .null
  | some v => .bound v

@[simp] theorem inserted_append (first second : List (Done (SqlOp F) fun _ => Status)) :
    inserted (first ++ second) = inserted first ++ inserted second :=
  List.flatMap_append

theorem placeholders_stored (row : List (Option (SqlBindVal F)))
    (before after : List (SqlBindVal F)) :
    (placeholders (before.length + 1) row).map
      (·.stored (before ++ row.filterMap id ++ after)) = row.map storedCell := by
  induction row generalizing before with
  | nil => rfl
  | cons cell row ih =>
    cases cell with
    | none => exact congrArg _ (ih before)
    | some v =>
      have hbinds : before ++ (some v :: row).filterMap id ++ after =
          (before ++ [v]) ++ row.filterMap id ++ after := by simp
      have hget : ((before ++ [v]) ++ row.filterMap id ++ after)[before.length]? = some v := by
        simp
      rw [hbinds, placeholders, List.map_cons, List.map_cons]
      congr 1
      · rw [Placeholder.stored, Nat.add_sub_cancel, hget]
        rfl
      · simpa using ih (before ++ [v])

theorem batchPlaceholders_stored (rows : List (List (Option (SqlBindVal F))))
    (before : List (SqlBindVal F)) :
    (batchPlaceholders (before.length + 1) rows).map
      (·.map (·.stored (before ++ rows.flatMap (·.filterMap id)))) =
        rows.map (·.map storedCell) := by
  induction rows generalizing before with
  | nil => rfl
  | cons row rows ih =>
    rw [batchPlaceholders, List.map_cons, List.map_cons, List.flatMap_cons, ← List.append_assoc]
    congr 1
    · exact placeholders_stored row before _
    · have hnext : before.length + 1 + (row.filterMap id).length =
          (before ++ row.filterMap id).length + 1 := by
        rw [List.length_append]
        omega
      rw [hnext]
      exact ih (before ++ row.filterMap id)

section

variable [Float64 F]

def storedRow (table : String) (fields : List String) (record : Row F) : TableRow F :=
  (table, fields.map fun f => (f, storedCell (jsonToBind (record.lookup f))))

theorem zip_stored (fields : List String) (record : Row F) :
    fields.zip ((cells fields record).map storedCell) =
      fields.map fun f => (f, storedCell (jsonToBind (record.lookup f))) := by
  induction fields with
  | nil => rfl
  | cons f fields ih => exact congrArg (List.cons _) ih

theorem rows_chunkStatement (table : String) (fields : List String) (chunk : List (Row F)) :
    (chunkStatement table fields chunk).rows = chunk.map (storedRow table fields) := by
  have h := batchPlaceholders_stored (chunk.map (cells fields)) []
  rw [List.nil_append, List.length_nil, Nat.zero_add] at h
  rw [chunkStatement, Statement.rows]
  calc (batchPlaceholders 1 (chunk.map (cells fields))).map (fun row =>
        (table, fields.zip (row.map
          (·.stored ((chunk.map (cells fields)).flatMap (·.filterMap id))))))
      = ((batchPlaceholders 1 (chunk.map (cells fields))).map
          (·.map (·.stored ((chunk.map (cells fields)).flatMap (·.filterMap id))))).map
            fun row => (table, fields.zip row) := by
        rw [List.map_map]
        rfl
    _ = chunk.map (storedRow table fields) := by
        rw [h, List.map_map, List.map_map]
        exact List.map_congr_left fun record _ => congrArg _ (zip_stored fields record)

theorem rowStatement_eq (table : String) (fields : List String) (record : Row F) :
    rowStatement table fields record = chunkStatement table fields [record] := by
  simp [rowStatement, chunkStatement, batchPlaceholders]

end

end Rekuiper.Connectors
