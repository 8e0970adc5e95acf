import Rekuiper.Binary64
import Rekuiper.Connectors.ParquetBatch
import Rekuiper.Lib.Outcome
import Rekuiper.Lib.Runs

/-!
# Appending to a Parquet file

A call that fails leaves the file as it is. One that succeeds keeps the rows of the file and
adds its own, in columns of the same or of wider types, if it found the rows of the file. A
file that is there but cannot be examined or read is taken for one without rows, and what
the call writes takes its place.
-/

namespace Rekuiper.Connectors

open Lib
open Codecs (finiteNumber)

variable {F : Type} [Float64 F]

-- ---- Rows that are kept

def kept (r : Row F) (k : String) : Option (Value F) :=
  if isInternal k then none else (r.lookup k).filter (!·.isNull)

/-- A value as it is, or as it is in a column of a wider type: an integer as a float, and what
is no text as its text. -/
inductive Widened (json : JsonTexts F) : Value F → Value F → Prop
  | same (v : Value F) : Widened json v v
  | float (n : Int) : Widened json (.number (.int n)) (.number (.float (Float64.ofInt n)))
  | text (v : Value F) (hother : ∀ s, v ≠ .string s) : Widened json v (textValue json (json.toText v))

def Held (json : JsonTexts F) (r row : Row F) : Prop :=
  ∀ k, Option.Rel (Widened json) (kept r k) (row.lookup k)

/-- A value that a column of type `t` holds as it is, or as a wider type has it: a text that is
not the JSON of an array or object, and an integer that is an `i64` if the column has those. -/
def Fits (json : JsonTexts F) (t : Option DataType) (v : Value F) : Prop :=
  (∀ s, v = .string s → textValue json s = .string s) ∧
    ∀ n, v = .number (.int n) → t = some .int64 → n ≤ maxI64

def FitsRow (json : JsonTexts F) (types : String → Option DataType) (r : Row F) : Prop :=
  ∀ k v, kept r k = some v → Fits json (types k) v

def IsJson (v : Value F) : Prop :=
  (∀ n, v = .number (.int n) → InRange64 n) ∧ ∀ f, v = .number (.float f) → Float64.isFinite f = true

def JsonRow (r : Row F) : Prop := ∀ k v, r.lookup k = some v → IsJson v

omit [Float64 F] in
theorem kept_eq_some_iff {r : Row F} {k : String} {v : Value F} :
    kept r k = some v ↔ isInternal k = false ∧ r.lookup k = some v ∧ v.isNull = false := by
  unfold kept
  cases isInternal k <;> simp [Option.filter_eq_some_iff]

omit [Float64 F] in
theorem fits_of_other {json : JsonTexts F} {t : Option DataType} {v : Value F}
    (hstring : ∀ s, v ≠ .string s) (hint : t = some .int64 → ∀ n, v ≠ .number (.int n)) :
    Fits json t v :=
  ⟨fun s hs => absurd hs (hstring s), fun n hn ht => absurd hn (hint ht n)⟩

theorem toInt_le_maxI64 (n : Int64) : n.toInt ≤ maxI64 :=
  Int.le_sub_one_of_lt n.toInt_lt

theorem toInt_ofInt_iff {n : Int} (hn : InRange64 n) : (Int64.ofInt n).toInt = n ↔ n ≤ maxI64 := by
  constructor
  · exact fun h => h ▸ toInt_le_maxI64 _
  · intro h
    refine Int64.toInt_ofInt_of_le hn.1 ?_
    unfold maxI64 at h
    omega

theorem Widened.int_eq {json : JsonTexts F} {n m : Int}
    (h : Widened json (.number (.int n)) (.number (.int m))) : m = n := by
  generalize hw : Value.number (Number.int m) = w at h
  cases h with
  | same =>
    cases hw
    rfl
  | float => cases hw
  | text =>
    rcases textValue_cases json (json.toText (.number (.int n))) with heq | ⟨_, heq⟩ | ⟨_, heq⟩
    all_goals
      rw [heq] at hw
      cases hw

theorem Widened.string_eq {json : JsonTexts F} {s : String} {w : Value F}
    (h : Widened json (.string s) w) : w = .string s := by
  generalize hv : Value.string s = v at h
  cases h with
  | same => rfl
  | float => cases hv
  | text _ hother => exact absurd hv.symm (hother s)

theorem widened_through_iff [BinaryFloat64 F] {json : JsonTexts F} {v : Value F} {t : DataType}
    (hwidens : WidensTo (candidateType v) t) (hnull : v.isNull = false) (hjson : IsJson v) :
    (∃ w, through json (some v) t = some w ∧ Widened json v w) ↔ Fits json (some t) v := by
  cases v with
  | null => cases hnull
  | bool b =>
    refine iff_of_true ?_ (fits_of_other (fun _ h => nomatch h) fun _ _ h => nomatch h)
    rcases hwidens with rfl | rfl | ⟨h, -⟩
    · exact ⟨_, rfl, .same _⟩
    · exact ⟨_, rfl, .text _ fun _ h => nomatch h⟩
    · cases h
  | number number =>
    cases number with
    | int n =>
      have hrange : InRange64 n := hjson.1 n rfl
      rcases hwidens with rfl | rfl | ⟨-, rfl⟩
      · rw [show through json (some (.number (.int n))) (candidateType (.number (.int n))) =
          some (.number (.int (Int64.ofInt n).toInt)) from rfl]
        constructor
        · rintro ⟨w, hw, hwidened⟩
          cases hw
          refine ⟨(fun _ h => nomatch h), ?_⟩
          rintro _ ⟨⟩ -
          exact (toInt_ofInt_iff hrange).mp hwidened.int_eq
        · rintro ⟨-, hfits⟩
          rw [(toInt_ofInt_iff hrange).mpr (hfits n rfl rfl)]
          exact ⟨_, rfl, .same _⟩
      · exact iff_of_true ⟨_, rfl, .text _ fun _ h => nomatch h⟩
          (fits_of_other (fun _ h => nomatch h) fun h => nomatch h)
      · refine iff_of_true ⟨_, ?_, .float n⟩
          (fits_of_other (fun _ h => nomatch h) fun h => nomatch h)
        exact if_pos (isFinite_ofInt hrange)
    | float f =>
      refine iff_of_true ?_ (fits_of_other (fun _ h => nomatch h) fun _ _ h => nomatch h)
      rcases hwidens with rfl | rfl | ⟨h, -⟩
      · exact ⟨_, if_pos (hjson.2 f rfl), .same _⟩
      · exact ⟨_, rfl, .text _ fun _ h => nomatch h⟩
      · cases h
  | string s =>
    have ht : t = .utf8 := by
      rcases hwidens with rfl | rfl | ⟨h, -⟩
      · rfl
      · rfl
      · cases h
    subst ht
    constructor
    · rintro ⟨w, hw, hwidened⟩
      cases hw
      refine ⟨?_, (fun _ h => nomatch h)⟩
      rintro _ ⟨⟩
      exact hwidened.string_eq
    · rintro ⟨hfits, -⟩
      exact ⟨.string s, congrArg some (hfits s rfl), .same _⟩
  | array items =>
    refine iff_of_true ?_ (fits_of_other (fun _ h => nomatch h) fun _ _ h => nomatch h)
    rcases hwidens with rfl | rfl | ⟨h, -⟩
    · exact ⟨_, rfl, .text _ fun _ h => nomatch h⟩
    · exact ⟨_, rfl, .text _ fun _ h => nomatch h⟩
    · cases h
  | object fields =>
    refine iff_of_true ?_ (fits_of_other (fun _ h => nomatch h) fun _ _ h => nomatch h)
    rcases hwidens with rfl | rfl | ⟨h, -⟩
    · exact ⟨_, rfl, .text _ fun _ h => nomatch h⟩
    · exact ⟨_, rfl, .text _ fun _ h => nomatch h⟩
    · cases h

theorem codedValue_eq (json : JsonTexts F) (records : List (Row F)) (r : Row F) (k : String) :
    codedValue json records r k = (typeOf records k).bind (through json (kept r k)) := by
  unfold codedValue
  cases hinternal : isInternal k with
  | true => rw [typeOf, if_pos hinternal, Option.bind_none, Option.bind_none]
  | false =>
    congr 1
    funext t
    unfold kept
    rw [hinternal]
    cases hlookup : r.lookup k with
    | none => rfl
    | some v => cases v <;> rfl

theorem held_iff [BinaryFloat64 F] {json : JsonTexts F} {records : List (Row F)} {r row : Row F}
    (hr : r ∈ records) (hjson : JsonRow r) (hcoded : Coded json records r row) :
    Held json r row ↔ FitsRow json (typeOf records) r := by
  refine forall_congr' fun k => ?_
  rw [hcoded k]
  rw [codedValue_eq]
  cases hkept : kept r k with
  | none =>
    refine iff_of_true ?_ fun _ h => nomatch h
    rw [show (typeOf records k).bind (through json none) = none by
      cases typeOf records k <;> simp]
    exact .none
  | some v =>
    obtain ⟨hplain, hlookup, hnull⟩ := kept_eq_some_iff.mp hkept
    obtain ⟨t, htype, hwidens⟩ := typeOf_widens hr hlookup hplain
    have hiff : (∃ w, through json (some v) t = some w ∧ Widened json v w) ↔ Fits json (some t) v :=
      widened_through_iff hwidens hnull (hjson k v hlookup)
    rw [htype, Option.bind_some]
    constructor
    · rintro h _ ⟨⟩
      generalize hout : through json (some v) t = out at h
      cases h with
      | some hwidened => exact hiff.mp ⟨_, hout, hwidened⟩
    · intro h
      obtain ⟨w, hw, hwidened⟩ := hiff.mpr (h v rfl)
      rw [hw]
      exact .some hwidened

-- ---- Rows of a file

structure StoredRow (json : JsonTexts F) (row : Row F) : Prop where
  kept_eq : ∀ k, kept row k = row.lookup k
  isJson : JsonRow row
  fits : ∀ k v t, row.lookup k = some v → Fits json t v

theorem fits_through {json : JsonTexts F} {v : Option (Value F)} {w : Value F} {t : DataType}
    (h : through json v t = some w) : w.isNull = false ∧ IsJson w ∧ ∀ t', Fits json t' w := by
  cases t with
  | boolean =>
    obtain ⟨b, -, rfl⟩ := Option.map_eq_some_iff.mp h
    exact ⟨rfl, ⟨fun _ h => (nomatch h), fun _ h => (nomatch h)⟩,
      fun _ => fits_of_other (fun _ h => nomatch h) fun _ _ h => nomatch h⟩
  | int64 =>
    obtain ⟨n, -, rfl⟩ := Option.map_eq_some_iff.mp h
    refine ⟨rfl, ⟨?_, fun _ h => (nomatch h)⟩, fun _ => ⟨fun _ h => (nomatch h), ?_⟩⟩
    · rintro _ ⟨⟩
      exact ⟨n.le_toInt, n.toInt_lt.trans (by decide)⟩
    · rintro _ ⟨⟩ -
      exact toInt_le_maxI64 n
  | float64 =>
    obtain ⟨f, -, hf⟩ := Option.bind_eq_some_iff.mp h
    unfold finiteNumber at hf
    split at hf
    · rename_i hfinite
      cases hf
      refine ⟨rfl, ⟨fun _ h => (nomatch h), ?_⟩,
        fun _ => fits_of_other (fun _ h => nomatch h) fun _ _ h => nomatch h⟩
      rintro _ ⟨⟩
      exact hfinite
    · cases hf
  | utf8 =>
    obtain ⟨s, -, rfl⟩ := Option.map_eq_some_iff.mp h
    rcases textValue_cases json s with heq | ⟨_, heq⟩ | ⟨_, heq⟩
    · rw [heq]
      refine ⟨rfl, ⟨fun _ h => (nomatch h), fun _ h => (nomatch h)⟩,
        fun _ => ⟨?_, fun _ h => (nomatch h)⟩⟩
      rintro _ ⟨⟩
      exact heq
    · rw [heq]
      exact ⟨rfl, ⟨fun _ h => (nomatch h), fun _ h => (nomatch h)⟩,
        fun _ => fits_of_other (fun _ h => nomatch h) fun _ _ h => nomatch h⟩
    · rw [heq]
      exact ⟨rfl, ⟨fun _ h => (nomatch h), fun _ h => (nomatch h)⟩,
        fun _ => fits_of_other (fun _ h => nomatch h) fun _ _ h => nomatch h⟩

theorem codedValue_eq_some {json : JsonTexts F} {records : List (Row F)} {r : Row F} {k : String}
    {w : Value F} (h : codedValue json records r k = some w) :
    isInternal k = false ∧ ∃ t, typeOf records k = some t ∧ through json (r.lookup k) t = some w := by
  obtain ⟨t, htype, hw⟩ := Option.bind_eq_some_iff.mp h
  have hsome : typeOf records k ≠ none := by simp [htype]
  exact ⟨(typeOf_ne_none_iff.mp hsome).1, t, htype, hw⟩

theorem Coded.typeOf_eq {json : JsonTexts F} {records : List (Row F)} {r row : Row F}
    (h : Coded json records r row) {k : String} {w : Value F} (hw : row.lookup k = some w) :
    typeOf records k = some (candidateType w) := by
  obtain ⟨-, t, htype, hthrough⟩ := codedValue_eq_some ((h k).symm.trans hw)
  rw [htype, candidateType_through hthrough]

theorem Coded.stored {json : JsonTexts F} {records : List (Row F)} {r row : Row F}
    (h : Coded json records r row) : StoredRow json row where
  kept_eq k := by
    cases hlookup : row.lookup k with
    | none =>
      unfold kept
      rw [hlookup]
      exact ite_self _
    | some w =>
      obtain ⟨hplain, t, -, hw⟩ := codedValue_eq_some ((h k).symm.trans hlookup)
      exact kept_eq_some_iff.mpr ⟨hplain, hlookup, (fits_through hw).1⟩
  isJson k w hlookup := by
    obtain ⟨-, t, -, hw⟩ := codedValue_eq_some ((h k).symm.trans hlookup)
    exact (fits_through hw).2.1
  fits k w t' hlookup := by
    obtain ⟨-, t, -, hw⟩ := codedValue_eq_some ((h k).symm.trans hlookup)
    exact (fits_through hw).2.2 t'

theorem StoredRow.held {json : JsonTexts F} {row : Row F} (h : StoredRow json row) :
    Held json row row := by
  intro k
  rw [h.kept_eq]
  cases row.lookup k with
  | none => exact .none
  | some v => exact .some (.same v)

theorem StoredRow.fitsRow {json : JsonTexts F} {row : Row F} (h : StoredRow json row)
    (types : String → Option DataType) : FitsRow json types row :=
  fun k v hv => h.fits k v _ ((h.kept_eq k).symm.trans hv)

def rowsOf (json : JsonTexts F) (batches : List (RecordBatch F)) : List (Row F) :=
  batches.flatMap (recordBatchToRecords json)

def ParquetFile.rows (json : JsonTexts F) (file : ParquetFile F) : List (Row F) :=
  rowsOf json (file.getD [])

theorem rows_some (json : JsonTexts F) (batches : List (RecordBatch F)) :
    ParquetFile.rows json (some batches) = rowsOf json batches := rfl

theorem rowsOf_singleton (json : JsonTexts F) (batch : RecordBatch F) :
    rowsOf json [batch] = recordBatchToRecords json batch := List.flatMap_singleton _ _

theorem rowsOf_concat (json : JsonTexts F) (batches : List (RecordBatch F)) (batch : RecordBatch F) :
    rowsOf json (batches ++ [batch]) = rowsOf json batches ++ recordBatchToRecords json batch := by
  rw [rowsOf, List.flatMap_append, List.flatMap_singleton]
  rfl

structure Written (json : JsonTexts F) (batches : List (RecordBatch F)) : Prop where
  made : ∀ batch ∈ batches, ∃ records : List (Row F), recordsToRecordBatch json records = .ok batch
  alike : ∀ batch ∈ batches, ∀ batch' ∈ batches, batch.schema = batch'.schema

theorem Written.stored {json : JsonTexts F} {batches : List (RecordBatch F)}
    (h : Written json batches) {row : Row F} (hrow : row ∈ rowsOf json batches) :
    StoredRow json row := by
  obtain ⟨batch, hbatch, hrow⟩ := List.mem_flatMap.mp hrow
  obtain ⟨records, hmade⟩ := h.made batch hbatch
  obtain ⟨r, -, hcoded⟩ := exists_of_forall₂ (records_coded hmade) hrow
  exact hcoded.stored

theorem Written.typeOf_eq {json : JsonTexts F} {batches : List (RecordBatch F)}
    (h : Written json batches) {batch : RecordBatch F} (hbatch : batch ∈ batches)
    {newBatch : RecordBatch F} {records : List (Row F)}
    (hnew : recordsToRecordBatch json records = .ok newBatch)
    (hschema : batch.schema = newBatch.schema) {row : Row F} (hrow : row ∈ rowsOf json batches)
    {k : String} {w : Value F} (hw : row.lookup k = some w) :
    typeOf records k = some (candidateType w) := by
  obtain ⟨batch', hbatch', hrow⟩ := List.mem_flatMap.mp hrow
  obtain ⟨records', hmade⟩ := h.made batch' hbatch'
  obtain ⟨r, -, hcoded⟩ := exists_of_forall₂ (records_coded hmade) hrow
  rw [typeOf_of_schema hnew hmade (hschema.symm.trans (h.alike _ hbatch _ hbatch'))]
  exact hcoded.typeOf_eq hw

theorem written_nil (json : JsonTexts F) : Written json [] :=
  ⟨fun _ h => (nomatch h), fun _ h => (nomatch h)⟩

theorem written_singleton {json : JsonTexts F} {batch : RecordBatch F} {records : List (Row F)}
    (h : recordsToRecordBatch json records = .ok batch) : Written json [batch] where
  made := List.forall_mem_singleton.mpr ⟨records, h⟩
  alike _ hb _ hb' := by rw [List.mem_singleton.mp hb, List.mem_singleton.mp hb']

theorem Written.concat {json : JsonTexts F} {batches : List (RecordBatch F)}
    (h : Written json batches) {batch newBatch : RecordBatch F} (hbatch : batch ∈ batches)
    (hschema : batch.schema = newBatch.schema) {records : List (Row F)}
    (hnew : recordsToRecordBatch json records = .ok newBatch) :
    Written json (batches ++ [newBatch]) where
  made b hb := by
    rcases List.mem_append.mp hb with hold | hlast
    · exact h.made b hold
    · rw [List.mem_singleton.mp hlast]
      exact ⟨records, hnew⟩
  alike b hb b' hb' := by
    have hsame : ∀ b ∈ batches ++ [newBatch], b.schema = newBatch.schema := by
      intro b hb
      rcases List.mem_append.mp hb with hold | hlast
      · rw [h.alike b hold batch hbatch, hschema]
      · rw [List.mem_singleton.mp hlast]
    rw [hsame b hb, hsame b' hb']

-- ---- Calls

structure Call (F : Type) where
  faults : Faults
  records : List (Row F)

def Call.result (json : JsonTexts F) (file : ParquetFile F) (call : Call F) : Except String Unit :=
  (writeRecordsToParquet json call.faults file call.records).1

def Call.after (json : JsonTexts F) (file : ParquetFile F) (call : Call F) : ParquetFile F :=
  (writeRecordsToParquet json call.faults file call.records).2

/-- A call that fails leaves the file as it is, and one that succeeds leaves the rows of the
file, followed by those of its own. -/
def Keeps (json : JsonTexts F) (file : ParquetFile F) (call : Call F) : Prop :=
  (call.result json file ≠ .ok () → call.after json file = file) ∧
    (call.result json file = .ok () →
      List.Forall₂ (Held json) (file.rows json ++ call.records) ((call.after json file).rows json))

/-- The file is found if there are rows in it, and the values of the records fit in the
columns. -/
def Appends (json : JsonTexts F) (file : ParquetFile F) (call : Call F) : Prop :=
  (call.records ≠ [] → file.rows json ≠ [] → call.faults.stat = false ∧ call.faults.read = none) ∧
    ∀ r ∈ call.records, FitsRow json (typeOf (file.rows json ++ call.records)) r

omit [Float64 F] in
theorem existingBatches_eq (faults : Faults) (file : ParquetFile F) :
    existingBatches faults file =
      if faults.stat = false ∧ faults.read = none then file.getD [] else [] := by
  unfold existingBatches readRawRecordBatches
  cases file <;> cases hstat : faults.stat <;> cases hread : faults.read <;> simp

theorem result_ok_cases {json : JsonTexts F} {file : ParquetFile F} {call : Call F}
    (hrecords : call.records ≠ []) (h : call.result json file = .ok ()) :
    ∃ newBatch batches, recordsToRecordBatch json call.records = .ok newBatch ∧
      batchesToWrite json (existingBatches call.faults file) newBatch call.records = .ok batches ∧
      call.after json file = some batches := by
  unfold Call.result Call.after writeRecordsToParquet at *
  rw [if_neg (mt List.isEmpty_iff.mp hrecords)] at h ⊢
  cases hreplacement : replacement json call.faults file call.records with
  | error err =>
    rw [hreplacement] at h
    cases h
  | ok batches =>
    unfold replacement at hreplacement
    obtain ⟨-, -, hreplacement⟩ := bind_eq_ok hreplacement
    obtain ⟨newBatch, hnew, hreplacement⟩ := bind_eq_ok hreplacement
    obtain ⟨batches', hbatches, hreplacement⟩ := bind_eq_ok hreplacement
    obtain ⟨-, -, hreplacement⟩ := bind_eq_ok hreplacement
    obtain ⟨-, -, hreplacement⟩ := bind_eq_ok hreplacement
    cases hreplacement
    exact ⟨newBatch, batches, hnew, hbatches, rfl⟩

theorem batchesToWrite_cases {json : JsonTexts F} {existing batches : List (RecordBatch F)}
    {newBatch : RecordBatch F} {records : List (Row F)}
    (h : batchesToWrite json existing newBatch records = .ok batches) :
    (existing = [] ∧ batches = [newBatch]) ∨
      (∃ first ∈ existing, first.schema = newBatch.schema ∧ batches = existing ++ [newBatch]) ∨
      (existing ≠ [] ∧ ∃ batch,
        recordsToRecordBatch json (rowsOf json existing ++ records) = .ok batch ∧
          batches = [batch]) := by
  unfold batchesToWrite at h
  cases existing with
  | nil =>
    cases h
    exact .inl ⟨rfl, rfl⟩
  | cons first rest =>
    dsimp only at h
    split at h
    · rename_i hschema
      cases h
      exact .inr (.inl ⟨first, List.mem_cons_self, hschema, rfl⟩)
    · obtain ⟨batch, hbatch, h⟩ := bind_eq_ok h
      cases h
      exact .inr (.inr ⟨List.cons_ne_nil _ _, batch, hbatch, rfl⟩)

theorem Call.after_of_empty {json : JsonTexts F} {file : ParquetFile F} {call : Call F}
    (h : call.records = []) : call.after json file = file :=
  congrArg Prod.snd (if_pos (List.isEmpty_iff.mpr h))

theorem Call.after_of_error {json : JsonTexts F} {file : ParquetFile F} {call : Call F}
    (h : call.result json file ≠ .ok ()) : call.after json file = file := by
  unfold Call.result Call.after writeRecordsToParquet at *
  split
  · rfl
  · rename_i hsome
    rw [if_neg hsome] at h
    cases hreplacement : replacement json call.faults file call.records with
    | error err => rfl
    | ok batches =>
      rw [hreplacement] at h
      exact absurd rfl h

theorem rows_after_cases {json : JsonTexts F} {file : ParquetFile F}
    (hfile : Written json (file.getD [])) {call : Call F} (hrecords : call.records ≠ [])
    (hfound : call.faults.stat = false ∧ call.faults.read = none)
    (hok : call.result json file = .ok ()) :
    (∃ newBatch, recordsToRecordBatch json call.records = .ok newBatch ∧
      (call.after json file).rows json = file.rows json ++ recordBatchToRecords json newBatch ∧
      ∀ row ∈ file.rows json, ∀ k w, row.lookup k = some w →
        typeOf call.records k = some (candidateType w)) ∨
      ∃ batch, recordsToRecordBatch json (file.rows json ++ call.records) = .ok batch ∧
        (call.after json file).rows json = recordBatchToRecords json batch := by
  obtain ⟨newBatch, batches, hnew, hbatches, hafter⟩ := result_ok_cases hrecords hok
  rw [existingBatches_eq, if_pos hfound] at hbatches
  rw [hafter, rows_some]
  rcases batchesToWrite_cases hbatches with
    ⟨hnil, rfl⟩ | ⟨first, hfirst, hschema, rfl⟩ | ⟨-, batch, hbatch, rfl⟩
  · have hrows : file.rows json = [] := by
      rw [ParquetFile.rows, hnil]
      rfl
    rw [hrows, rowsOf_singleton, List.nil_append]
    exact .inl ⟨newBatch, hnew, rfl, fun _ h => nomatch h⟩
  · refine .inl ⟨newBatch, hnew, rowsOf_concat json _ newBatch, fun row hrow k w hw => ?_⟩
    exact hfile.typeOf_eq hfirst hnew hschema hrow hw
  · exact .inr ⟨batch, hbatch, rowsOf_singleton json batch⟩

theorem Written.after {json : JsonTexts F} {file : ParquetFile F}
    (h : Written json (file.getD [])) (call : Call F) :
    Written json ((call.after json file).getD []) := by
  by_cases hok : call.result json file = .ok ()
  · by_cases hrecords : call.records = []
    · rw [Call.after_of_empty hrecords]
      exact h
    · obtain ⟨newBatch, batches, hnew, hbatches, hafter⟩ := result_ok_cases hrecords hok
      rw [hafter]
      rcases batchesToWrite_cases hbatches with
        ⟨-, rfl⟩ | ⟨first, hfirst, hschema, rfl⟩ | ⟨-, batch, hbatch, rfl⟩
      · exact written_singleton hnew
      · rw [existingBatches_eq] at hfirst ⊢
        split at hfirst
        · rw [if_pos ‹_›]
          exact h.concat hfirst hschema hnew
        · cases hfirst
      · exact written_singleton hbatch
  · rw [Call.after_of_error hok]
    exact h

omit [Float64 F] in
theorem typeOf_int64_iff {records : List (Row F)} {k : String} (hplain : isInternal k = false)
    (hsome : ∃ r ∈ records, ∃ v, r.lookup k = some v) :
    typeOf records k = some .int64 ↔
      ∀ r ∈ records, ∀ v, r.lookup k = some v → candidateType v = .int64 := by
  constructor
  · intro htype r hr v hv
    obtain ⟨t, ht, hwidens⟩ := typeOf_widens hr hv hplain
    cases htype.symm.trans ht
    rcases hwidens with heq | heq | ⟨-, heq⟩
    · exact heq.symm
    · cases heq
    · cases heq
  · exact typeOf_same hplain hsome

omit [Float64 F] in
theorem fitsRow_congr {json : JsonTexts F} {types types' : String → Option DataType} {r : Row F}
    (h : ∀ k n, kept r k = some (.number (.int n)) →
      (types k = some .int64 ↔ types' k = some .int64)) :
    FitsRow json types r ↔ FitsRow json types' r := by
  refine forall₂_congr fun k v => imp_congr_right fun hv => and_congr Iff.rfl ?_
  refine forall_congr' fun n => imp_congr_right fun hn => imp_congr_left ?_
  subst hn
  exact h k n hv

section

variable [BinaryFloat64 F]

theorem forall₂_held_iff {json : JsonTexts F} {records : List (Row F)} {batch : RecordBatch F}
    (hjson : ∀ r ∈ records, JsonRow r) (h : recordsToRecordBatch json records = .ok batch) :
    List.Forall₂ (Held json) records (recordBatchToRecords json batch) ↔
      ∀ r ∈ records, FitsRow json (typeOf records) r :=
  forall₂_iff_forall (records_coded h) fun r hr _ hcoded => held_iff hr (hjson r hr) hcoded

theorem forall₂_held_after_iff {json : JsonTexts F} {file : ParquetFile F}
    (hfile : Written json (file.getD [])) {call : Call F} (hrecords : call.records ≠ [])
    (hjson : ∀ r ∈ call.records, JsonRow r)
    (hfound : call.faults.stat = false ∧ call.faults.read = none)
    (hok : call.result json file = .ok ()) :
    List.Forall₂ (Held json) (file.rows json ++ call.records) ((call.after json file).rows json) ↔
      ∀ r ∈ call.records, FitsRow json (typeOf (file.rows json ++ call.records)) r := by
  rcases rows_after_cases hfile hrecords hfound hok with
    ⟨newBatch, hnew, hafter, htypes⟩ | ⟨batch, hbatch, hafter⟩
  · have hrows : ∀ row ∈ file.rows json, Held json row row :=
      fun row hrow => (hfile.stored hrow).held
    rw [hafter, forall₂_append_iff rfl, and_iff_right (List.forall₂_same.mpr hrows),
      forall₂_held_iff hjson hnew]
    refine forall₂_congr fun r hr => fitsRow_congr fun k n hn => ?_
    obtain ⟨hplain, hlookup, -⟩ := kept_eq_some_iff.mp hn
    have hown := typeOf_int64_iff hplain ⟨r, hr, _, hlookup⟩
    rw [hown, typeOf_int64_iff hplain ⟨r, List.mem_append_right _ hr, _, hlookup⟩]
    constructor
    · intro hall r' hr' v hv
      rcases List.mem_append.mp hr' with hrow | hr'
      · have htype := htypes r' hrow k v hv
        exact (Option.some.inj ((hown.mpr hall).symm.trans htype)).symm
      · exact hall r' hr' v hv
    · exact fun hall r' hr' => hall r' (List.mem_append_right _ hr')
  · have hjsonAll : ∀ r ∈ file.rows json ++ call.records, JsonRow r := by
      intro r hr
      rcases List.mem_append.mp hr with hrow | hr
      · exact (hfile.stored hrow).isJson
      · exact hjson r hr
    rw [hafter, forall₂_held_iff hjsonAll hbatch, List.forall_mem_append]
    exact and_iff_right fun row hrow => (hfile.stored hrow).fitsRow _

omit [BinaryFloat64 F] in
theorem rows_after_lost {json : JsonTexts F} {file : ParquetFile F} {call : Call F}
    (hrecords : call.records ≠ []) (hlost : ¬(call.faults.stat = false ∧ call.faults.read = none))
    (hok : call.result json file = .ok ()) :
    ∃ newBatch, recordsToRecordBatch json call.records = .ok newBatch ∧
      (call.after json file).rows json = recordBatchToRecords json newBatch := by
  obtain ⟨newBatch, batches, hnew, hbatches, hafter⟩ := result_ok_cases hrecords hok
  rw [existingBatches_eq, if_neg hlost] at hbatches
  cases hbatches
  refine ⟨newBatch, hnew, ?_⟩
  rw [hafter, rows_some, rowsOf_singleton]

theorem keeps_iff {json : JsonTexts F} {file : ParquetFile F} (hfile : Written json (file.getD []))
    {call : Call F} (hjson : ∀ r ∈ call.records, JsonRow r) :
    Keeps json file call ↔ (call.result json file = .ok () → Appends json file call) := by
  refine (and_iff_right Call.after_of_error).trans (imp_congr_right fun hok => ?_)
  by_cases hrecords : call.records = []
  · rw [Call.after_of_empty hrecords, hrecords, List.append_nil]
    refine iff_of_true (List.forall₂_same.mpr fun row hrow => (hfile.stored hrow).held) ⟨?_, ?_⟩
    · exact fun h => absurd hrecords h
    · rw [hrecords]
      exact fun _ h => nomatch h
  by_cases hfound : call.faults.stat = false ∧ call.faults.read = none
  · refine Iff.trans ?_ (and_iff_right fun _ _ => hfound).symm
    exact forall₂_held_after_iff hfile hrecords hjson hfound hok
  · obtain ⟨newBatch, hnew, hafter⟩ := rows_after_lost hrecords hfound hok
    rw [hafter]
    by_cases hrows : file.rows json = []
    · unfold Appends
      rw [hrows, List.nil_append, forall₂_held_iff hjson hnew]
      exact (and_iff_right fun _ h => absurd rfl h).symm
    · refine iff_of_false (fun h => ?_) fun h => hfound (h.1 hrecords hrows)
      -- there are fewer rows than before and in the call together
      have hlength := h.length_eq
      rw [List.length_append, ← (records_coded hnew).length_eq] at hlength
      have hpos := List.length_pos_iff.mpr hrows
      omega

/-- In a run of calls on a new path, every call keeps what the file holds and adds its rows
exactly if every one that succeeds finds the rows of the file and has values that fit. -/
theorem calls_keep_iff {json : JsonTexts F} {calls : List (Call F)}
    (hjson : ∀ call ∈ calls, ∀ r ∈ call.records, JsonRow r) :
    EveryStep (fun file call => call.after json file) (Keeps json) none calls ↔
      EveryStep (fun file call => call.after json file)
        (fun file call => call.result json file = .ok () → Appends json file call) none calls :=
  have hstep : ∀ file : ParquetFile F, Written json (file.getD []) → ∀ call ∈ calls,
      Written json ((call.after json file).getD []) := fun _ hfile call _ => hfile.after call
  everyStep_iff hstep (fun _ hfile call hcall => keeps_iff hfile (hjson call hcall))
    (written_nil json)

end

-- ---- A file that could not be read

def numberTexts : JsonTexts F where
  toText := Value.toJson
  fromText s := (parseInt s).map fun n => .number (.int n)

def numberRow (n : Int) : Row F := (∅ : Row F).insert "a" (.number (.int n))

omit [Float64 F] in
theorem eq_of_lookup_numberRow {n : Int} {k : String} {v : Value F}
    (h : (numberRow n).lookup k = some v) : v = .number (.int n) := by
  unfold numberRow at h
  by_cases hk : k = "a"
  · rw [hk, AList.lookup_insert] at h
    exact (Option.some.inj h).symm
  · rw [AList.lookup_insert_ne hk, AList.lookup_empty] at h
    cases h

omit [Float64 F] in
theorem fits_numberRow {json : JsonTexts F} {n : Int} (hn : n ≤ maxI64)
    (types : String → Option DataType) : FitsRow json types (numberRow n) := by
  intro k v hv
  cases eq_of_lookup_numberRow (kept_eq_some_iff.mp hv).2.1
  refine ⟨(fun _ h => nomatch h), ?_⟩
  rintro _ ⟨⟩ -
  exact hn

theorem json_numberRow {n : Int} (hn : InRange64 n) : JsonRow (numberRow n : Row F) := by
  intro k v hv
  cases eq_of_lookup_numberRow hv
  refine ⟨?_, (fun _ h => nomatch h)⟩
  rintro _ ⟨⟩
  exact hn

def twoCalls (faults : Faults) : List (Call F) := [⟨.none, [numberRow 1]⟩, ⟨faults, [numberRow 2]⟩]

theorem twoCalls_keep :
    EveryStep (fun file call => call.after numberTexts file) (Keeps numberTexts) none
      (twoCalls (F := Double) .none) := by
  refine (calls_keep_iff ?_).mpr ⟨fun _ => ⟨fun _ _ => ⟨rfl, rfl⟩, ?_⟩,
    fun _ => ⟨fun _ _ => ⟨rfl, rfl⟩, ?_⟩, trivial⟩
  · refine List.forall_mem_cons.mpr ⟨?_, List.forall_mem_singleton.mpr ?_⟩
    · exact List.forall_mem_singleton.mpr (json_numberRow ⟨by decide, by decide⟩)
    · exact List.forall_mem_singleton.mpr (json_numberRow ⟨by decide, by decide⟩)
  · exact List.forall_mem_singleton.mpr (fits_numberRow (by decide) _)
  · exact List.forall_mem_singleton.mpr (fits_numberRow (by decide) _)

/-- The second call cannot open the file, and puts its own row in the place of the first. -/
theorem unread_row_overwritten :
    ¬EveryStep (fun file call => call.after (numberTexts : JsonTexts ℚ) file) (Keeps numberTexts) none
      (twoCalls { Faults.none with read := some "Too many open files" }) := by
  rintro ⟨-, ⟨-, hkeeps⟩, -⟩
  have hlength := (hkeeps rfl).length_eq
  exact absurd hlength (by decide)

end Rekuiper.Connectors
