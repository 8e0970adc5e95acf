import Rekuiper.Lib.Table
import Rekuiper.Sinks.FileWriter

/-!
# Delimited files as tables

A file action of format delimited writes a single row under its own keys and a batch of rows as
one text. The file is a table as long as all rows have the columns of the first line, no batch is
empty or comes in front of the header, and what is written without quotes needs none.
-/

namespace Rekuiper.Sinks

open Connectors (JsonTexts csvRow csvField csvEscape joinWith writtenKeys metaKey)
open Lib

variable {F : Type} [Float64 F]

-- ---- What is written

mutual
def formatRecordDelimited (json : JsonTexts F) (delimiter : String) (fields : Option (List String)) :
    Value F → String
  | .object map =>
    csvRow json (fields.getD ((map.map Prod.fst).insertionSort (· ≤ ·))) map delimiter
  | .array items => joinWith "\n" (formatItemsDelimited json delimiter fields items)
  | other => csvField json (some other) delimiter
def formatItemsDelimited (json : JsonTexts F) (delimiter : String) (fields : Option (List String)) :
    List (Value F) → List String
  | [] => []
  | item :: items =>
    formatRecordDelimited json delimiter fields item :: formatItemsDelimited json delimiter fields items
end

structure DelimitedAction where
  delimiter : Char
  hasHeader : Bool
  fields : Option (List String)

def DelimitedAction.delimiterText (action : DelimitedAction) : String :=
  String.singleton action.delimiter

/-- An output record: a single row, or those under `BATCH_ROWS_KEY`. -/
inductive OutputRows (F : Type)
  | single (data : List (String × Value F))
  | batch (rows : List (List (String × Value F)))

def OutputRows.rows : OutputRows F → List (List (String × Value F))
  | .single data => [data]
  | .batch rows => rows

/-- What `send_action` pushes for an output record. -/
def OutputRows.toPush (json : JsonTexts F) (action : DelimitedAction) : OutputRows F → Push F
  | .single data => .delimited data action.delimiterText action.hasHeader action.fields
  | .batch rows =>
    .text (formatRecordDelimited json action.delimiterText action.fields (.array (rows.map .object)))

inductive TableOp (F : Type)
  | send (output : OutputRows F)
  | settle (others : Bool) (outcome : WriteOutcome)
  | tick (outcome : WriteOutcome)
  | shutdown (outcome : WriteOutcome)

def TableOp.toFileOp (json : JsonTexts F) (action : DelimitedAction) : TableOp F → FileOp F
  | .send output => .push (output.toPush json action)
  | .settle others outcome => .settle others outcome
  | .tick outcome => .tick outcome
  | .shutdown outcome => .shutdown outcome

/-- The output record that is sent, if one is. -/
def TableOp.output : TableOp F → Option (OutputRows F)
  | .send output => some output
  | _ => none

/-- A writer from its beginning on. -/
def tableRun (json : JsonTexts F) (action : DelimitedAction) (ops : List (TableOp F)) : FileRun F :=
  ops.foldl (fun r op => r.step json (op.toFileOp json action)) (FileRun.start .new)

/-- What is in the file and what waits. -/
def FileRun.appended (r : FileRun F) : List UInt8 := r.file ++ r.writer.buf

-- ---- What is to be read

def rendering (json : JsonTexts F) : Option (Value F) → String
  | none | some .null => ""
  | some (.string s) => s
  | some (.number n) => n.render
  | some (.bool b) => toString b
  | some other => json.toText other

def tableOf (json : JsonTexts F) (header : Bool) (columns : List String)
    (rows : List (List (String × Value F))) : List (List (List Char)) :=
  (if header then [columns.map String.toList] else []) ++
    rows.map fun row => columns.map fun k => (rendering json (field k row)).toList

/-- The text reads as the table of all rows, with a header once there is an output. -/
def ShowsTable (json : JsonTexts F) (action : DelimitedAction) (columns : List String)
    (outputs : List (OutputRows F)) (text : List UInt8) : Prop :=
  ∃ s : String, text = utf8Bytes s ∧ Table.read action.delimiter s.toList =
    some (tableOf json (action.hasHeader && !outputs.isEmpty) columns (outputs.flatMap OutputRows.rows))

-- ---- What fits

def CellFits (json : JsonTexts F) (d : Char) : Option (Value F) → Prop
  | none | some .null | some (.string _) => True
  | some other => ∀ c ∈ (rendering json (some other)).toList, Table.Bare d c

def RowFits (json : JsonTexts F) (action : DelimitedAction) (columns keys : List String)
    (row : List (String × Value F)) : Prop :=
  action.fields.getD keys = columns ∧ ∀ k ∈ columns, CellFits json action.delimiter (field k row)

/-- The text of the rows does not end with the line break in front of an empty last row. -/
def EndsWithCell (json : JsonTexts F) (columns : List String)
    (rows : List (List (String × Value F))) : Prop :=
  ∀ first last, rows = first ++ [last] → first ≠ [] →
    ∀ k, columns = [k] → rendering json (field k last) ≠ ""

def OutputFits (json : JsonTexts F) (action : DelimitedAction) (columns : List String)
    (headerWritten : Bool) : OutputRows F → Prop
  | .single data => RowFits json action columns (writtenKeys data) data
  | .batch rows =>
    rows ≠ [] ∧ (action.hasHeader → headerWritten) ∧ EndsWithCell json columns rows ∧
      ∀ row ∈ rows, RowFits json action columns ((row.map Prod.fst).insertionSort (· ≤ ·)) row

/-- There is a column, and the header needs no quotes. -/
def ColumnsFit (action : DelimitedAction) (columns : List String) : Prop :=
  columns ≠ [] ∧ (action.hasHeader → ∀ k ∈ columns, ∀ c ∈ k.toList, Table.Bare action.delimiter c)

/-- No write fails in the midst of the text. -/
def FlushFits (r : FileRun F) (op : FileOp F) : Prop :=
  ∀ bytes, r.writer.flushOf op = some (.partly bytes) → r.writer.buf.take bytes = []

def RunFits (json : JsonTexts F) (action : DelimitedAction) (columns : List String) (r : FileRun F) :
    List (TableOp F) → Prop
  | [] => True
  | op :: ops =>
    (∀ output ∈ op.output, OutputFits json action columns r.writer.hasHeaderWritten output) ∧
      FlushFits r (op.toFileOp json action) ∧
        RunFits json action columns (r.step json (op.toFileOp json action)) ops

-- ---- The text of a table

def rawFields (json : JsonTexts F) (action : DelimitedAction) (columns : List String)
    (row : List (String × Value F)) : List (List Char) :=
  columns.map fun k => (csvField json (field k row) action.delimiterText).toList

def rawTable (json : JsonTexts F) (action : DelimitedAction) (header : Bool) (columns : List String)
    (rows : List (List (String × Value F))) : List (List (List Char)) :=
  (if header then [columns.map String.toList] else []) ++ rows.map (rawFields json action columns)

def lineBytes (d : Char) (records : List (List (List Char))) : List UInt8 :=
  (Table.lines d records).flatMap String.utf8EncodeChar

variable {json : JsonTexts F} {action : DelimitedAction} {columns : List String}

@[simp] theorem lineBytes_append (d : Char) (records more : List (List (List Char))) :
    lineBytes d (records ++ more) = lineBytes d records ++ lineBytes d more := by
  simp [lineBytes, Table.lines]

theorem rawTable_append (header : Bool) (rows more : List (List (String × Value F))) :
    rawTable json action header columns (rows ++ more) =
      rawTable json action header columns rows ++ more.map (rawFields json action columns) := by
  simp [rawTable]

@[simp] theorem encode_newline : String.utf8EncodeChar '\n' = [newline] := by decide

theorem lineBytes_singleton (d : Char) (raws : List (List Char)) :
    lineBytes d [raws] = ([d].intercalate raws).flatMap String.utf8EncodeChar ++ [newline] := by
  simp [lineBytes, Table.lines]

omit [Float64 F] in
theorem bytes_joinWith (delimiter : String) (pieces : List String) :
    utf8Bytes (joinWith delimiter pieces) =
      (delimiter.toList.intercalate (pieces.map String.toList)).flatMap String.utf8EncodeChar := by
  simp [utf8Bytes, joinWith]

theorem toList_csvRow (columns : List String) (row : List (String × Value F)) :
    (csvRow json columns row action.delimiterText).toList =
      [action.delimiter].intercalate (rawFields json action columns row) := by
  simp [csvRow, joinWith, rawFields, DelimitedAction.delimiterText, List.map_map, Function.comp_def]

theorem bytes_header (columns : List String) :
    utf8Bytes (joinWith action.delimiterText columns) ++ [newline] =
      lineBytes action.delimiter [columns.map String.toList] := by
  simp [lineBytes_singleton, bytes_joinWith, DelimitedAction.delimiterText]

theorem bytes_row (columns : List String) (row : List (String × Value F)) :
    utf8Bytes (csvRow json columns row action.delimiterText) ++ [newline] =
      lineBytes action.delimiter [rawFields json action columns row] := by
  rw [lineBytes_singleton, ← toList_csvRow]
  rfl

theorem CellFits.writes {v : Option (Value F)} (h : CellFits json action.delimiter v) :
    Table.Writes action.delimiter (csvField json v action.delimiterText).toList
      (rendering json v).toList := by
  match v with
  | none | some .null => exact .bare (by simp [csvField])
  | some (.string s) =>
    simp only [csvField, rendering, csvEscape]
    split
    · simp only [Connectors.quoted, String.toList_ofList]
      exact .quoted
    · rename_i hplain
      refine .bare fun c hc => ?_
      simp only [DelimitedAction.delimiterText, String.toList_singleton, Bool.or_eq_true,
        decide_eq_true_eq, List.any_eq_true, not_or, not_exists, not_and] at hplain
      obtain ⟨hd, hothers⟩ := hplain
      obtain ⟨⟨hquote, hline⟩, hreturn⟩ := hothers c hc
      refine ⟨?_, hquote, hline, hreturn⟩
      rintro rfl
      obtain ⟨before, after, hsplit⟩ := List.append_of_mem hc
      exact hd ⟨before, after, by simp [hsplit]⟩
  | some (.number _) | some (.bool _) | some (.array _) | some (.object _) => exact .bare h

theorem RowFits.writes {keys : List String} {row : List (String × Value F)}
    (h : RowFits json action columns keys row) :
    List.Forall₂ (Table.Writes action.delimiter) (rawFields json action columns row)
      (columns.map fun k => (rendering json (field k row)).toList) := by
  rw [rawFields, List.forall₂_map_left_iff, List.forall₂_map_right_iff, List.forall₂_same]
  exact fun k hk => (h.2 k hk).writes

theorem ColumnsFit.writes (h : ColumnsFit action columns) (hheader : action.hasHeader) :
    List.Forall₂ (Table.Writes action.delimiter) (columns.map String.toList)
      (columns.map String.toList) := by
  rw [List.forall₂_same]
  intro raw hraw
  obtain ⟨k, hk, rfl⟩ := List.mem_map.mp hraw
  exact .bare (h.2 hheader k hk)

-- ---- What one step keeps

structure Appends (json : JsonTexts F) (action : DelimitedAction) (columns : List String)
    (outputs : List (OutputRows F)) (r : FileRun F) : Prop where
  parquet : r.writer.parquetBuf = []
  header : r.writer.hasHeaderWritten = (action.hasHeader && !outputs.isEmpty)
  text : r.appended = lineBytes action.delimiter
    (rawTable json action (action.hasHeader && !outputs.isEmpty) columns
      (outputs.flatMap OutputRows.rows))
  fits : ∀ row ∈ outputs.flatMap OutputRows.rows, ∃ keys, RowFits json action columns keys row

variable {outputs : List (OutputRows F)} {r : FileRun F}

omit [Float64 F] in
@[simp] theorem flushFits_push (row : Push F) : FlushFits r (.push row) := by
  simp [FlushFits, FileBatchWriter.flushOf]

omit [Float64 F] in
@[simp] theorem flushFits_tick_complete : FlushFits r (.tick .complete) := by
  intro bytes hpartly
  simp only [FileBatchWriter.flushOf] at hpartly
  split at hpartly <;> cases hpartly

theorem Appends.flush (h : Appends json action columns outputs r) {outcome : WriteOutcome}
    (hwhole : ∀ bytes, outcome = .partly bytes → r.writer.buf.take bytes = []) :
    Appends json action columns outputs (r.flush outcome) := by
  obtain ⟨hparquet, hheader, htext, hfits⟩ := h
  by_cases hempty : r.writer.buf = []
  · have hreached : r.writer.reached outcome = [] := by
      cases outcome <;> simp [FileBatchWriter.reached, hempty]
    refine ⟨?_, ?_, ?_, hfits⟩ <;>
      simp_all [FileRun.flush, FileRun.appended, FileBatchWriter.flush]
  · cases outcome with
    | complete =>
      refine ⟨?_, ?_, ?_, hfits⟩ <;>
        simp_all [FileRun.flush, FileRun.appended, FileBatchWriter.flush, FileBatchWriter.reached]
    | nothing =>
      refine ⟨?_, ?_, ?_, hfits⟩ <;>
        simp_all [FileRun.flush, FileRun.appended, FileBatchWriter.flush, FileBatchWriter.reached]
    | partly bytes =>
      have hreached : r.writer.reached (.partly bytes) = [] := by
        simp [FileBatchWriter.reached, hwhole bytes rfl]
      refine ⟨?_, ?_, ?_, hfits⟩ <;>
        simp_all [FileRun.flush, FileRun.appended, FileBatchWriter.flush]

theorem appended_single {keys : List String} {data : List (String × Value F)}
    (hkeys : action.fields.getD (writtenKeys data) = keys) (r : FileRun F) :
    (r.push json ((OutputRows.single data).toPush json action)).appended =
      r.appended ++ ((if action.hasHeader && !r.writer.hasHeaderWritten then
          lineBytes action.delimiter [keys.map String.toList] else []) ++
        lineBytes action.delimiter [rawFields json action keys data]) := by
  rw [← bytes_row, ← bytes_header]
  simp [FileRun.push, FileRun.appended, OutputRows.toPush, FileBatchWriter.push,
    FileBatchWriter.pushDelimited, hkeys]

theorem Appends.single (h : Appends json action columns outputs r) {data : List (String × Value F)}
    (hfits : RowFits json action columns (writtenKeys data) data) :
    Appends json action columns (outputs ++ [.single data])
      (r.push json ((OutputRows.single data).toPush json action)) := by
  obtain ⟨hparquet, hheader, htext, hall⟩ := h
  refine ⟨hparquet, ?_, ?_, ?_⟩
  · cases hset : action.hasHeader <;>
      simp [FileRun.push, OutputRows.toPush, FileBatchWriter.push, FileBatchWriter.pushDelimited,
        hheader, hset]
  · rw [appended_single hfits.1, htext, hheader]
    cases outputs with
    | nil =>
      cases hset : action.hasHeader <;>
        simp [rawTable, OutputRows.rows, lineBytes, Table.lines]
    | cons first outputs =>
      rw [List.flatMap_append, rawTable_append, lineBytes_append]
      simp [OutputRows.rows]
  · intro row hrow
    rcases List.mem_append.mp (List.flatMap_append ▸ hrow) with hrow | hrow
    · exact hall row hrow
    · obtain rfl : row = data := by simpa [OutputRows.rows] using hrow
      exact ⟨_, hfits⟩

theorem batch_lines (d : Char) (records : List (List (List Char))) (hne : records ≠ [])
    (hlast : ∀ first last, records = first ++ [last] →
      '\n' ∉ ([d].intercalate last).getLast? ∧ (first ≠ [] → [d].intercalate last ≠ [])) :
    let text := String.ofList (['\n'].intercalate (records.map ([d].intercalate ·)))
    utf8Bytes text ++ (if Lib.endsWith text "\n" then [] else [newline]) = lineBytes d records := by
  obtain ⟨first, last, rfl⟩ : ∃ first last, records = first ++ [last] :=
    ⟨_, _, (List.dropLast_append_getLast hne).symm⟩
  obtain ⟨hbreak, hempty⟩ := hlast first last rfl
  intro text
  have htext : text.toList =
      (first.map ([d].intercalate ·)).flatMap (· ++ ['\n']) ++ [d].intercalate last := by
    simp [text, Table.intercalate_concat]
  have hends : Lib.endsWith text "\n" = false := by
    refine Bool.eq_false_iff.mpr fun hends => ?_
    obtain ⟨before, hbefore⟩ := List.isSuffixOf_iff_suffix.mp hends
    rw [htext] at hbefore
    cases hlastText : [d].intercalate last using List.reverseRecOn with
    | nil =>
      have hfirst : first = [] := by
        by_contra hfirst
        exact hempty hfirst hlastText
      simp [hfirst, hlastText] at hbefore
    | append_singleton cell c =>
      rw [hlastText, ← List.append_assoc] at hbefore
      have hc := (List.append_inj' hbefore rfl).2
      simp [hlastText] at hbreak
      exact hbreak (by simpa using hc.symm)
  rw [hends]
  simp [utf8Bytes, htext, lineBytes, Table.lines, List.flatMap_map]

theorem RowFits.empty {keys : List String} {row : List (String × Value F)}
    (h : RowFits json action columns keys row) (hcolumns : columns ≠ [])
    (hempty : [action.delimiter].intercalate (rawFields json action columns row) = []) :
    ∃ k, columns = [k] ∧ rendering json (field k row) = "" := by
  match columns, hcolumns with
  | [k], _ =>
    refine ⟨k, rfl, ?_⟩
    have hwrites := (h.2 k (by simp)).writes
    have hraw : (csvField json (field k row) action.delimiterText).toList = [] := by
      simpa [rawFields] using hempty
    rw [hraw] at hwrites
    generalize hcell : (rendering json (field k row)).toList = cell at hwrites
    cases hwrites
    exact String.toList_eq_nil_iff.mp hcell
  | k :: next :: more, _ => simp [rawFields] at hempty

theorem RowFits.getLast?_ne {keys : List String} {row : List (String × Value F)}
    (h : RowFits json action columns keys row) (hd : action.delimiter ≠ '\n') :
    '\n' ∉ ([action.delimiter].intercalate (rawFields json action columns row)).getLast? := by
  refine Table.getLast?_record_ne (fun raw hraw => ?_) hd
  obtain ⟨k, hk, rfl⟩ := List.mem_map.mp hraw
  exact (h.2 k hk).writes.getLast?_ne

theorem Appends.batch (h : Appends json action columns outputs r) (hcolumns : columns ≠ [])
    (hd : action.delimiter ≠ '\n')
    {rows : List (List (String × Value F))}
    (hfits : OutputFits json action columns r.writer.hasHeaderWritten (.batch rows)) :
    Appends json action columns (outputs ++ [.batch rows])
      (r.push json ((OutputRows.batch rows).toPush json action)) := by
  obtain ⟨hparquet, hheader, htext, hall⟩ := h
  obtain ⟨hne, hbehind, hcell, hrows⟩ := hfits
  have hformat : ∀ items ⊆ rows, formatItemsDelimited json action.delimiterText action.fields
      (items.map Value.object) =
        items.map fun row => csvRow json columns row action.delimiterText := by
    intro items hsub
    induction items with
    | nil => rfl
    | cons row items ih =>
      obtain ⟨hrow, hitems⟩ := List.cons_subset.mp hsub
      simp [formatItemsDelimited, formatRecordDelimited, (hrows row hrow).1, ih hitems]
  have htexts : joinWith "\n" (rows.map fun row => csvRow json columns row action.delimiterText) =
      String.ofList (['\n'].intercalate ((rows.map (rawFields json action columns)).map
        ([action.delimiter].intercalate ·))) := by
    simp [joinWith, List.map_map, Function.comp_def, toList_csvRow]
  have hlines := batch_lines action.delimiter (rows.map (rawFields json action columns))
    (by simpa using hne) (by
      intro first last hsplit
      obtain ⟨firstRows, lastRows, hrowsEq, rfl, hlastRow⟩ := List.map_eq_append_iff.mp hsplit
      obtain ⟨row, rfl, rfl⟩ := List.map_eq_singleton_iff.mp hlastRow
      have hfit := hrows row (by simp [hrowsEq])
      refine ⟨hfit.getLast?_ne hd, fun hfirst hempty => ?_⟩
      obtain ⟨k, hk, hrender⟩ := hfit.empty hcolumns hempty
      exact hcell firstRows row hrowsEq (by simpa using hfirst) k hk hrender)
  rw [← htexts] at hlines
  have hpushed : (r.push json ((OutputRows.batch rows).toPush json action)).appended =
      r.appended ++ lineBytes action.delimiter (rows.map (rawFields json action columns)) := by
    rw [← hlines]
    simp [FileRun.push, FileRun.appended, OutputRows.toPush, FileBatchWriter.push,
      FileBatchWriter.pushText, formatRecordDelimited, hformat rows (List.Subset.refl rows)]
  -- behind the header or without one, the batch does not change whether there is one
  have hsame : (action.hasHeader && !(outputs ++ [OutputRows.batch rows]).isEmpty) =
      (action.hasHeader && !outputs.isEmpty) := by
    cases hset : action.hasHeader with
    | false => rfl
    | true =>
      have hwritten := hbehind hset
      rw [hheader, hset] at hwritten
      have hsent : outputs.isEmpty = false := by simpa using hwritten
      rw [hsent]
      simp
  refine ⟨hparquet, ?_, ?_, ?_⟩
  · rw [hsame, ← hheader]
    rfl
  · rw [hpushed, htext, hsame, List.flatMap_append, rawTable_append, lineBytes_append]
    simp [OutputRows.rows]
  · intro row hrow
    rcases List.mem_append.mp (List.flatMap_append ▸ hrow) with hrow | hrow
    · exact hall row hrow
    · exact ⟨_, hrows row (by simpa [OutputRows.rows] using hrow)⟩

theorem Appends.step (h : Appends json action columns outputs r) (hcolumns : columns ≠ [])
    (hd : action.delimiter ≠ '\n') (op : TableOp F)
    (hfits : ∀ output ∈ op.output, OutputFits json action columns r.writer.hasHeaderWritten output)
    (hwhole : FlushFits r (op.toFileOp json action)) :
    Appends json action columns (outputs ++ op.output.toList)
      (r.step json (op.toFileOp json action)) := by
  cases op with
  | send output =>
    cases output with
    | single data => exact h.single (hfits _ rfl)
    | batch rows => exact h.batch hcolumns hd (hfits _ rfl)
  | settle _ _ | tick _ | shutdown _ =>
    simp only [TableOp.output, Option.toList_none, List.append_nil, TableOp.toFileOp, FileRun.step,
      FlushFits] at hwhole ⊢
    generalize r.writer.flushOf _ = made at hwhole ⊢
    cases made with
    | none => exact h
    | some outcome => exact h.flush fun bytes hbytes => hwhole bytes (congrArg some hbytes)

-- ---- Runs

theorem Appends.showsTable (h : Appends json action columns outputs r)
    (hcolumns : ColumnsFit action columns) (hd : action.delimiter ≠ '"' ∧ action.delimiter ≠ '\n') :
    ShowsTable json action columns outputs r.appended := by
  refine ⟨String.ofList (Table.lines action.delimiter (rawTable json action
    (action.hasHeader && !outputs.isEmpty) columns (outputs.flatMap OutputRows.rows))), ?_, ?_⟩
  · simp [h.text, lineBytes, utf8Bytes]
  · rw [String.toList_ofList]
    refine Table.read_lines hd (List.rel_append ?_ ?_) ?_
    · cases hset : (action.hasHeader && !outputs.isEmpty) with
      | false => exact .nil
      | true => exact .cons (hcolumns.writes (Bool.and_eq_true_iff.mp hset).1) .nil
    · rw [List.forall₂_map_left_iff, List.forall₂_map_right_iff, List.forall₂_same]
      intro row hrow
      obtain ⟨keys, hfits⟩ := h.fits row hrow
      exact hfits.writes
    · intro raws hraws
      have hne := hcolumns.1
      rcases List.mem_append.mp hraws with hraws | hraws
      · split at hraws
        · obtain rfl := List.mem_singleton.mp hraws
          simpa using hne
        · cases hraws
      · obtain ⟨row, -, rfl⟩ := List.mem_map.mp hraws
        simpa [rawFields] using hne

theorem appends_run {ops : List (TableOp F)} (h : Appends json action columns outputs r)
    (hcolumns : columns ≠ []) (hd : action.delimiter ≠ '\n')
    (hfits : RunFits json action columns r ops) :
    Appends json action columns (outputs ++ ops.filterMap TableOp.output)
      (ops.foldl (fun r op => r.step json (op.toFileOp json action)) r) := by
  induction ops generalizing outputs r with
  | nil => simpa using h
  | cons op ops ih =>
    have hrun := ih (h.step hcolumns hd op hfits.1 hfits.2.1) hfits.2.2
    cases hop : op.output <;> simpa [hop] using hrun

theorem RunFits.of_append {ops later : List (TableOp F)}
    (h : RunFits json action columns r (ops ++ later)) :
    RunFits json action columns r ops := by
  induction ops generalizing r with
  | nil => trivial
  | cons op ops ih => exact ⟨h.1, h.2.1, ih h.2.2⟩

/-- Over every run in which each output fits the columns when it is sent and no write fails in the
midst of the text, and after each part of it, the text appended is a table of these columns. -/
theorem delimited_file_is_table (json : JsonTexts F) (action : DelimitedAction)
    (hd : action.delimiter ≠ '"' ∧ action.delimiter ≠ '\n' ∧ action.delimiter ≠ '\r')
    (columns : List String) (hcolumns : ColumnsFit action columns) (ops : List (TableOp F))
    (hfits : RunFits json action columns (FileRun.start .new) ops) :
    ∀ done later, ops = done ++ later →
      ShowsTable json action columns (done.filterMap TableOp.output)
        (tableRun json action done).appended := by
  rintro done later rfl
  have hstart : Appends json action columns [] (FileRun.start .new) := by
    refine ⟨rfl, by simp [FileRun.start, FileBatchWriter.new], ?_, by simp⟩
    simp [FileRun.start, FileRun.appended, FileBatchWriter.new, rawTable, lineBytes, Table.lines]
  have hrun := appends_run hstart hcolumns.1 hd.2.1 hfits.of_append
  exact hrun.showsTable hcolumns ⟨hd.1, hd.2.1⟩

def noContainers : JsonTexts ℚ := ⟨fun _ => "", fun _ => none⟩

def commaTable : DelimitedAction := ⟨',', true, none⟩

def pumpOps : List (TableOp ℚ) :=
  [.send (.single [("id", .number (.int 1)), ("name", .string "a,b")]), .tick .complete,
    .send (.batch [[("id", .number (.int 2)), ("name", .null)]])]

theorem pumps_are_a_table :
    ShowsTable noContainers commaTable ["id", "name"] (pumpOps.filterMap TableOp.output)
      (tableRun noContainers commaTable pumpOps).appended := by
  have hbare : ∀ k ∈ ["id", "name"], ∀ c ∈ k.toList, Table.Bare ',' c :=
    List.forall_mem_cons.mpr ⟨Table.bare_of_all (by decide),
      List.forall_mem_singleton.mpr (Table.bare_of_all (by decide))⟩
  refine delimited_file_is_table noContainers commaTable (by decide) ["id", "name"]
    ⟨by decide, fun _ => hbare⟩ pumpOps ?_ pumpOps [] (by simp)
  have hkeys : writtenKeys [("id", (.number (.int 1) : Value ℚ)), ("name", .string "a,b")] =
      ["id", "name"] := by decide
  have hbatch : (["id", "name"].insertionSort (· ≤ ·)) = ["id", "name"] := by decide
  simp [RunFits, TableOp.toFileOp, pumpOps, TableOp.output, OutputFits, RowFits, commaTable, hkeys,
    hbatch, field, CellFits]
  refine ⟨?_, rfl, ?_, ?_⟩
  · simp only [rendering, Number.render]
    exact Table.bare_of_all (by decide)
  · rintro first last - - k hk
    cases hk
  · simp only [rendering, Number.render]
    exact Table.bare_of_all (by decide)

def strayOutputs : List (OutputRows ℚ) :=
  [.single [("a", .number (.int 1))], .single [("b", .number (.int 2))]]

/-- The second row is written under its own key, below the header of the first. -/
theorem stray_row_is_no_table : ¬ ∃ columns, ShowsTable noContainers commaTable columns
    strayOutputs (tableRun noContainers commaTable (strayOutputs.map .send)).appended := by
  rintro ⟨columns, s, htext, hread⟩
  have hfirst : commaTable.fields.getD (writtenKeys [("a", (.number (.int 1) : Value ℚ))]) = ["a"] := by
    decide
  have hsecond : commaTable.fields.getD (writtenKeys [("b", (.number (.int 2) : Value ℚ))]) =
      ["b"] := by decide
  have hone : rawFields noContainers commaTable ["a"] [("a", .number (.int 1))] = [['1']] := by
    simp [rawFields, csvField, field, Number.render]
    decide
  have htwo : rawFields noContainers commaTable ["b"] [("b", .number (.int 2))] = [['2']] := by
    simp [rawFields, csvField, field, Number.render]
    decide
  have hheader : ((FileRun.start .new).push noContainers ((OutputRows.single
      [("a", (.number (.int 1) : Value ℚ))]).toPush noContainers
        commaTable)).writer.hasHeaderWritten = true := rfl
  have hbytes : (tableRun noContainers commaTable (strayOutputs.map .send)).appended =
      lineBytes ',' ([[['a']]] ++ [[['1']]] ++ [[['2']]]) := by
    simp only [tableRun, strayOutputs, List.map_cons, List.map_nil, List.foldl_cons, List.foldl_nil,
      TableOp.toFileOp, FileRun.step, appended_single hfirst, appended_single hsecond, hone, htwo,
      hheader, lineBytes_append]
    simp [commaTable, FileRun.start, FileRun.appended, FileBatchWriter.new]
  have hs : s = String.ofList (Table.lines ',' ([[['a']]] ++ [[['1']]] ++ [[['2']]])) := by
    rw [← fromUtf8Lossy_utf8Bytes s, ← htext, hbytes,
      ← fromUtf8Lossy_utf8Bytes (String.ofList _), utf8Bytes, String.toList_ofList, lineBytes]
  have hrecords : Table.read ',' s.toList = some [[['a']], [['1']], [['2']]] := by
    rw [hs, String.toList_ofList]
    decide
  have htable := Option.some.inj (hrecords.symm.trans hread)
  simp [tableOf, strayOutputs, commaTable, OutputRows.rows] at htable
  obtain ⟨hcolumns, -, hstray⟩ := htable
  obtain ⟨k, rfl, hk⟩ := List.map_eq_singleton_iff.mp hcolumns.symm
  obtain rfl : k = "a" := String.toList_injective hk
  simp [field, rendering] at hstray

end Rekuiper.Sinks
