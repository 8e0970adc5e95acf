import Rekuiper.Connectors.Delimited
import Rekuiper.Lib.Text

/-!
# Writing files in batches

The sink worker keeps one writer for each path its file actions write to, and flushes it when
it is full, when it ticks and at the end of the rule. Rows of text wait as bytes and go once
they are written, so that a flush that fails can be made again. Rows of a Parquet file are
taken out of their buffer before the write, and one that fails has lost them.
-/

namespace Rekuiper.Sinks

open Connectors (FileSink JsonTexts csvRow joinWith writtenKeys)
open Lib (utf8Bytes)

variable {F : Type}

structure ParquetRecord (F : Type) where
  timestamp : Int
  data : List (String × Value F)

/-- The writer of one path, without the path and the file it has opened. -/
structure FileBatchWriter (F : Type) where
  buf : List UInt8
  parquetBuf : List (ParquetRecord F)
  pending : Nat
  hasHeaderWritten : Bool

/-- How the write of a flush ends: with `Ok`, or with an error before anything or after some bytes
were written. -/
inductive WriteOutcome
  | complete
  | nothing
  | partly (bytes : Nat)
  deriving DecidableEq, Repr

/-- A row that `send_action` pushes. A line of JSON is pushed as the text it is. -/
inductive Push (F : Type)
  | text (line : String)
  | delimited (data : List (String × Value F)) (delimiter : String) (header : Bool)
      (fields : Option (List String))
  | parquet (data : List (String × Value F)) (timestamp : Int)

def newline : UInt8 := 10

namespace FileBatchWriter

def new : FileBatchWriter F := ⟨[], [], 0, false⟩

def pushParquetRecord (writer : FileBatchWriter F) (data : List (String × Value F))
    (timestamp : Int) : FileBatchWriter F :=
  { writer with
    parquetBuf := writer.parquetBuf ++ [⟨timestamp, data⟩]
    pending := writer.pending + 1 }

def pushText (writer : FileBatchWriter F) (text : String) : FileBatchWriter F :=
  { writer with
    buf := writer.buf ++ utf8Bytes text ++ (if Lib.endsWith text "\n" then [] else [newline])
    pending := writer.pending + 1 }

def pushDelimited [Float64 F] (json : JsonTexts F) (writer : FileBatchWriter F)
    (data : List (String × Value F)) (delimiter : String) (header : Bool)
    (fields : Option (List String)) : FileBatchWriter F :=
  let keys := fields.getD (writtenKeys data)
  let written := header && !writer.hasHeaderWritten
  { writer with
    buf := writer.buf ++ (if written then utf8Bytes (joinWith delimiter keys) ++ [newline] else []) ++
      utf8Bytes (csvRow json keys data delimiter) ++ [newline]
    pending := writer.pending + 1
    hasHeaderWritten := writer.hasHeaderWritten || written }

def push [Float64 F] (json : JsonTexts F) (writer : FileBatchWriter F) :
    Push F → FileBatchWriter F
  | .text text => writer.pushText text
  | .delimited data delimiter header fields =>
    writer.pushDelimited json data delimiter header fields
  | .parquet data timestamp => writer.pushParquetRecord data timestamp

def shouldFlush (writer : FileBatchWriter F) : Bool :=
  if !writer.parquetBuf.isEmpty then decide (1024 ≤ writer.parquetBuf.length)
  else decide (100 ≤ writer.pending ∨ 64 * 1024 ≤ writer.buf.length)

/-- The writer after a flush, and whether the flush returns `Ok`. -/
def flush (outcome : WriteOutcome) (writer : FileBatchWriter F) : FileBatchWriter F × Bool :=
  if !writer.parquetBuf.isEmpty then
    ({ writer with parquetBuf := [], pending := 0 }, decide (outcome = .complete))
  else if writer.buf.isEmpty then (writer, true)
  else if outcome = .complete then ({ writer with buf := [], pending := 0 }, true)
  else (writer, false)

def flushed (writer : FileBatchWriter F) : List UInt8 × List (ParquetRecord F) :=
  if !writer.parquetBuf.isEmpty then ([], writer.parquetBuf) else (writer.buf, [])

/-- The bytes of text that a flush puts into the file. -/
def reached (outcome : WriteOutcome) (writer : FileBatchWriter F) : List UInt8 :=
  if !writer.parquetBuf.isEmpty then []
  else
    match outcome with
    | .complete => writer.buf
    | .nothing => []
    | .partly bytes => writer.buf.take bytes

/-- Without a list of fields the writer buffers the lines that the plain sink writes one by one. -/
theorem pushDelimited_lines [Float64 F] (json : JsonTexts F) (sink : FileSink)
    (records : List (List (String × Value F))) :
    (records.foldl (fun (writer : FileBatchWriter F) data =>
      writer.pushDelimited json data sink.delimiterStr sink.hasHeader none) new).buf =
        (records.foldl (sink.sendDelimited json) []).flatMap fun line => utf8Bytes line ++ [newline] := by
  have hrun : ∀ (writer : FileBatchWriter F) (lines : List String),
      writer.buf = (lines.flatMap fun line => utf8Bytes line ++ [newline]) →
      writer.hasHeaderWritten = (sink.hasHeader && !lines.isEmpty) →
      (records.foldl (fun (writer : FileBatchWriter F) data =>
        writer.pushDelimited json data sink.delimiterStr sink.hasHeader none) writer).buf =
          (records.foldl (sink.sendDelimited json) lines).flatMap
            fun line => utf8Bytes line ++ [newline] := by
    induction records with
    | nil => exact fun _ _ hbuf _ => hbuf
    | cons data records ih =>
      intro writer lines hbuf hwritten
      refine ih _ _ ?_ ?_ <;> cases hheader : sink.hasHeader <;> cases lines <;>
        simp_all [pushDelimited, FileSink.sendDelimited]
  exact hrun new [] rfl (by simp [new])

end FileBatchWriter

-- ---- Runs of a writer

/-- What the worker does to a writer: it pushes a row, flushes all writers if this one or
another is full, flushes at a tick what is pending, and flushes once more at the end. -/
inductive FileOp (F : Type)
  | push (row : Push F)
  | settle (others : Bool) (outcome : WriteOutcome)
  | tick (outcome : WriteOutcome)
  | shutdown (outcome : WriteOutcome)

def FileBatchWriter.flushOf (writer : FileBatchWriter F) : FileOp F → Option WriteOutcome
  | .push _ => none
  | .settle others outcome => if others || writer.shouldFlush then some outcome else none
  | .tick outcome => if 0 < writer.pending then some outcome else none
  | .shutdown outcome => some outcome

/-- The rows of text a push adds, with the header in front of the first one. -/
def Push.texts [Float64 F] (json : JsonTexts F) (headerWritten : Bool) :
    Push F → List (List UInt8)
  | .text line => [utf8Bytes line ++ (if Lib.endsWith line "\n" then [] else [newline])]
  | .delimited data delimiter header fields =>
    let keys := fields.getD (writtenKeys data)
    [(if header && !headerWritten then utf8Bytes (joinWith delimiter keys) ++ [newline] else []) ++
      utf8Bytes (csvRow json keys data delimiter) ++ [newline]]
  | .parquet _ _ => []

/-- The rows of a Parquet file a push adds. -/
def Push.records : Push F → List (ParquetRecord F)
  | .parquet data timestamp => [⟨timestamp, data⟩]
  | .text _ | .delimited _ _ _ _ => []

/-- A writer, what has been pushed to it, what its successful flushes have written, and the text
that is in the file. -/
structure FileRun (F : Type) where
  writer : FileBatchWriter F
  texts : List (List UInt8)
  records : List (ParquetRecord F)
  written : List UInt8
  writtenRecords : List (ParquetRecord F)
  file : List UInt8

namespace FileRun

variable [Float64 F] {json : JsonTexts F} {r : FileRun F}

/-- A run from any state of the writer: what is buffered has been pushed. -/
def start (writer : FileBatchWriter F) : FileRun F :=
  ⟨writer, [writer.buf], writer.parquetBuf, [], [], []⟩

def push (json : JsonTexts F) (r : FileRun F) (row : Push F) : FileRun F :=
  { r with
    writer := r.writer.push json row
    texts := r.texts ++ row.texts json r.writer.hasHeaderWritten
    records := r.records ++ row.records }

def flush (outcome : WriteOutcome) (r : FileRun F) : FileRun F :=
  let (writer, ok) := r.writer.flush outcome
  let file := r.file ++ r.writer.reached outcome
  if ok then
    { r with
      writer := writer
      written := r.written ++ r.writer.flushed.1
      writtenRecords := r.writtenRecords ++ r.writer.flushed.2
      file := file }
  else { r with writer := writer, file := file }

def step (json : JsonTexts F) (r : FileRun F) (op : FileOp F) : FileRun F :=
  match op with
  | .push row => r.push json row
  | op => (r.writer.flushOf op).elim r fun outcome => r.flush outcome

/-- The successful flushes have written the first rows of text that were pushed, each once and
whole, and the others are buffered; so it is with the rows of a Parquet file. -/
def WritesOnce (r : FileRun F) : Prop :=
  (∃ first waiting, r.texts = first ++ waiting ∧ r.written = first.flatten ∧
      r.writer.buf = waiting.flatten) ∧
    r.writtenRecords ++ r.writer.parquetBuf = r.records

def KeepsOnFailure (r : FileRun F) (op : FileOp F) : Prop :=
  r.writer.flushOf op = some .nothing → (r.writer.flush .nothing).2 = false →
    (r.writer.flush .nothing).1.buf = r.writer.buf ∧
      (r.writer.flush .nothing).1.parquetBuf = r.writer.parquetBuf ∧
      (r.writer.flush .nothing).1.pending = r.writer.pending

/-- No flush that fails changes what is left to write, and each row is written once. -/
def LosesNothing (json : JsonTexts F) (r : FileRun F) : List (FileOp F) → Prop
  | [] => r.WritesOnce
  | op :: ops => r.WritesOnce ∧ r.KeepsOnFailure op ∧ LosesNothing json (r.step json op) ops

def FailsWithoutParquet (r : FileRun F) (op : FileOp F) : Prop :=
  ∀ outcome ∈ r.writer.flushOf op, outcome ≠ .complete → r.writer.parquetBuf = []

/-- The flushes of the run that fail find no rows of a Parquet file. -/
def NoParquetFails (json : JsonTexts F) (r : FileRun F) : List (FileOp F) → Prop
  | [] => True
  | op :: ops => r.FailsWithoutParquet op ∧ NoParquetFails json (r.step json op) ops

-- ---- What one step keeps

omit [Float64 F] in
theorem writesOnce_start (writer : FileBatchWriter F) : (start writer).WritesOnce :=
  ⟨⟨[], [writer.buf], rfl, rfl, by simp [start]⟩, rfl⟩

theorem push_buffers (json : JsonTexts F) (writer : FileBatchWriter F) (row : Push F) :
    (writer.push json row).buf =
        writer.buf ++ (row.texts json writer.hasHeaderWritten).flatten ∧
      (writer.push json row).parquetBuf = writer.parquetBuf ++ row.records := by
  cases row <;>
    simp [FileBatchWriter.push, FileBatchWriter.pushText, FileBatchWriter.pushDelimited,
      FileBatchWriter.pushParquetRecord, Push.texts, Push.records]

theorem WritesOnce.push (h : r.WritesOnce) (row : Push F) : (r.push json row).WritesOnce := by
  obtain ⟨⟨first, waiting, htexts, hwritten, hbuf⟩, hrecords⟩ := h
  obtain ⟨hbuf', hrecords'⟩ := push_buffers json r.writer row
  refine ⟨⟨first, waiting ++ row.texts json r.writer.hasHeaderWritten, ?_, hwritten, ?_⟩, ?_⟩
  · simp [FileRun.push, htexts]
  · simp [FileRun.push, hbuf', hbuf]
  · simp [FileRun.push, hrecords', ← hrecords]

omit [Float64 F] in
/-- A flush keeps the law unless it fails with rows of a Parquet file, which are then neither
written nor buffered. -/
theorem WritesOnce.flush_iff (h : r.WritesOnce) (outcome : WriteOutcome) :
    (r.flush outcome).WritesOnce ↔ (outcome ≠ .complete → r.writer.parquetBuf = []) := by
  obtain ⟨⟨first, waiting, htexts, hwritten, hbuf⟩, hrecords⟩ := h
  cases hparquet : r.writer.parquetBuf with
  | nil =>
    rw [hparquet, List.append_nil] at hrecords
    refine iff_of_true ?_ fun _ => rfl
    by_cases hempty : r.writer.buf = []
    · refine ⟨⟨first, waiting, ?_, ?_, ?_⟩, ?_⟩ <;>
        simp [FileRun.flush, FileBatchWriter.flush, FileBatchWriter.flushed, hparquet, hempty,
          htexts, hwritten, hrecords, ← hbuf]
    · by_cases hcomplete : outcome = .complete
      · refine ⟨⟨first ++ waiting, [], ?_, ?_, ?_⟩, ?_⟩ <;>
          simp [FileRun.flush, FileBatchWriter.flush, FileBatchWriter.flushed, hparquet, hempty,
            hcomplete, htexts, hwritten, hrecords, ← hbuf]
      · refine ⟨⟨first, waiting, ?_, ?_, ?_⟩, ?_⟩ <;>
          simp [FileRun.flush, FileBatchWriter.flush, hparquet, hempty, hcomplete, htexts,
            hwritten, hrecords, ← hbuf]
  | cons record records =>
    rw [hparquet] at hrecords
    by_cases hcomplete : outcome = .complete
    · refine iff_of_true ⟨⟨first, waiting, ?_, ?_, ?_⟩, ?_⟩ fun hfails => absurd hcomplete hfails <;>
        simp [FileRun.flush, FileBatchWriter.flush, FileBatchWriter.flushed, hparquet, hcomplete,
          htexts, hwritten, hbuf, hrecords]
    · refine iff_of_false (fun hwrites => ?_) (by simp [hcomplete])
      have hlost : (r.flush outcome).writtenRecords ++ (r.flush outcome).writer.parquetBuf =
          r.writtenRecords := by
        simp [FileRun.flush, FileBatchWriter.flush, hparquet, hcomplete]
      have hsame : (r.flush outcome).records = r.records := by
        simp [FileRun.flush, FileBatchWriter.flush, hparquet, hcomplete]
      have hlength := congrArg List.length (hlost.symm.trans (hwrites.2.trans (hsame.trans hrecords.symm)))
      simp at hlength

theorem WritesOnce.step_iff (json : JsonTexts F) (h : r.WritesOnce) (op : FileOp F) :
    (r.step json op).WritesOnce ↔ r.FailsWithoutParquet op := by
  cases op with
  | push row => simp [step, FailsWithoutParquet, FileBatchWriter.flushOf, h.push row]
  | settle others outcome | tick outcome | shutdown outcome =>
    unfold step FailsWithoutParquet
    dsimp only
    generalize r.writer.flushOf _ = made
    cases made with
    | none => simpa using h
    | some outcome => simpa using h.flush_iff outcome

omit [Float64 F] in
theorem FailsWithoutParquet.keeps {op : FileOp F} (h : r.FailsWithoutParquet op) :
    r.KeepsOnFailure op := by
  intro hmade hfails
  have hparquet : r.writer.parquetBuf = [] := h .nothing hmade nofun
  by_cases hempty : r.writer.buf = []
  · simp [FileBatchWriter.flush, hparquet, hempty]
  · simp [FileBatchWriter.flush, hparquet, hempty]

-- ---- Runs

theorem LosesNothing.writesOnce {ops : List (FileOp F)} (h : r.LosesNothing json ops) :
    r.WritesOnce := by
  cases ops with
  | nil => exact h
  | cons op ops => exact h.1

theorem WritesOnce.losesNothing_iff (h : r.WritesOnce) (ops : List (FileOp F)) :
    r.LosesNothing json ops ↔ r.NoParquetFails json ops := by
  induction ops generalizing r with
  | nil => exact iff_of_true h trivial
  | cons op ops ih =>
    constructor
    · rintro ⟨-, -, hlater⟩
      have hstep := hlater.writesOnce
      exact ⟨(h.step_iff json op).mp hstep, (ih hstep).mp hlater⟩
    · rintro ⟨hfirst, hlater⟩
      have hstep := (h.step_iff json op).mpr hfirst
      exact ⟨h, hfirst.keeps, (ih hstep).mpr hlater⟩

/-- From every state of the writer and over every sequence of pushes and flushes, a failed
flush leaves what it has not written and each row is written once exactly if no flush fails on
rows of a Parquet file. -/
theorem failed_flushes_lose_nothing_iff (json : JsonTexts F) (writer : FileBatchWriter F)
    (ops : List (FileOp F)) :
    (start writer).LosesNothing json ops ↔ (start writer).NoParquetFails json ops :=
  (writesOnce_start writer).losesNothing_iff ops

/-- The row waits, the flush of the next tick cannot write it, and it is gone. -/
theorem parquet_row_lost :
    ¬ (start (.new : FileBatchWriter ℚ)).LosesNothing ⟨fun _ => "", fun _ => none⟩
      [.push (.parquet [("a", .bool true)] 0), .tick .nothing] := by
  rintro ⟨-, -, -, hkeeps, -⟩
  have hsame := (hkeeps rfl rfl).2.2
  revert hsame
  decide

end FileRun

end Rekuiper.Sinks
