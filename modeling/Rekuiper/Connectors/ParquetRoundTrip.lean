import Rekuiper.Connectors.ParquetAppend

/-!
# What is read from a Parquet file

Records whose columns are of one kind each come back as they were written, in any number of
calls, if every call has a column to write, its values fit, and it writes no null in a column
that has anything but texts by then. A null makes such a column one of texts.
-/

namespace Rekuiper.Connectors

open Lib

variable {F : Type} [Float64 F]

-- ---- Columns of one kind

def OfKind : DataType → Value F → Prop
  | .boolean, v => ∃ b, v = .bool b
  | .int64, v => ∃ n, v = .number (.int n) ∧ InRange64 n
  | .float64, v => ∃ f, v = .number (.float f) ∧ Float64.isFinite f = true
  | .utf8, v => ∃ s, v = .string s

/-- Each column has values of one kind, apart from nulls. -/
def Uniform (records : List (Row F)) : Prop :=
  ∀ k, ∃ t, ∀ r ∈ records, ∀ v, kept r k = some v → OfKind t v

theorem Uniform.mono {records records' : List (Row F)} (h : Uniform records)
    (hsub : ∀ r ∈ records', r ∈ records) : Uniform records' := by
  intro k
  obtain ⟨t, ht⟩ := h k
  exact ⟨t, fun r hr => ht r (hsub r hr)⟩

theorem OfKind.candidateType {t : DataType} {v : Value F} (h : OfKind t v) :
    candidateType v = t := by
  cases t with
  | boolean =>
    obtain ⟨b, rfl⟩ := h
    rfl
  | int64 =>
    obtain ⟨n, rfl, -⟩ := h
    rfl
  | float64 =>
    obtain ⟨f, rfl, -⟩ := h
    rfl
  | utf8 =>
    obtain ⟨s, rfl⟩ := h
    rfl

theorem OfKind.through {json : JsonTexts F} {t : DataType} {v : Value F} (h : OfKind t v)
    (hfits : Fits json (some .int64) v) : through json (some v) t = some v := by
  cases t with
  | boolean =>
    obtain ⟨b, rfl⟩ := h
    rfl
  | int64 =>
    obtain ⟨n, rfl, hrange⟩ := h
    change some (Value.number (.int (Int64.ofInt n).toInt)) = _
    rw [(toInt_ofInt_iff hrange).mpr (hfits.2 n rfl rfl)]
  | float64 =>
    obtain ⟨f, rfl, hfinite⟩ := h
    exact if_pos hfinite
  | utf8 =>
    obtain ⟨s, rfl⟩ := h
    exact congrArg some (hfits.1 s rfl)

def Same (r row : Row F) : Prop := ∀ k, row.lookup k = kept r k

omit [Float64 F] in
theorem Same.kept_eq {r row : Row F} (h : Same r row) (k : String) : kept row k = kept r k := by
  cases hkept : kept r k with
  | none =>
    unfold kept
    rw [h k, hkept]
    exact ite_self _
  | some v =>
    obtain ⟨hplain, -, hnull⟩ := kept_eq_some_iff.mp hkept
    exact kept_eq_some_iff.mpr ⟨hplain, (h k).trans hkept, hnull⟩

/-- Every column has a type from which each of its values comes out as it was. -/
def Settled (json : JsonTexts F) (records : List (Row F)) : Prop :=
  ∀ k, isInternal k = false → ∃ t, ∀ r ∈ records, ∀ v, r.lookup k = some v →
    candidateType v = t ∧ (v.isNull = false → through json (some v) t = some v)

theorem Settled.mono {json : JsonTexts F} {records records' : List (Row F)}
    (h : Settled json records) (hsub : ∀ r ∈ records', r ∈ records) : Settled json records' := by
  intro k hplain
  obtain ⟨t, ht⟩ := h k hplain
  exact ⟨t, fun r hr => ht r (hsub r hr)⟩

theorem Settled.same {json : JsonTexts F} {records : List (Row F)} (h : Settled json records)
    {r row : Row F} (hr : r ∈ records) (hcoded : Coded json records r row) : Same r row := by
  intro k
  rw [hcoded k, codedValue_eq]
  cases hkept : kept r k with
  | none => cases typeOf records k <;> simp
  | some v =>
    obtain ⟨hplain, hlookup, hnull⟩ := kept_eq_some_iff.mp hkept
    obtain ⟨t, ht⟩ := h k hplain
    have htype : typeOf records k = some t :=
      typeOf_same hplain ⟨r, hr, v, hlookup⟩ fun r' hr' v' hv' => (ht r' hr' v' hv').1
    rw [htype, Option.bind_some]
    exact (ht r hr v hlookup).2 hnull

theorem Settled.forall₂_same {json : JsonTexts F} {records : List (Row F)}
    (h : Settled json records) {batch : RecordBatch F}
    (hbatch : recordsToRecordBatch json records = .ok batch) :
    List.Forall₂ Same records (recordBatchToRecords json batch) :=
  (forall₂_iff_forall (records_coded hbatch) fun _ hr _ hcoded =>
    iff_true_intro (h.same hr hcoded)).mpr fun _ _ => trivial

-- ---- Calls

/-- One of several calls in which nothing fails. -/
def writes (json : JsonTexts F) (file : ParquetFile F) (records : List (Row F)) : ParquetFile F :=
  (writeRecordsToParquet json .none file records).2

/-- All calls succeed, and what is read from the file are the rows of all of them. -/
def FileReadsBack (json : JsonTexts F) (chunks : List (List (Row F))) : Prop :=
  EveryStep (writes json)
      (fun file records => (writeRecordsToParquet json .none file records).1 = .ok ()) none chunks ∧
    ∃ rows, readParquetFile json .none (chunks.foldl (writes json) none) = .ok rows ∧
      List.Forall₂ Same chunks.flatten rows

/-- A call after those of the `earlier` records whose rows come back, and leave the others as
they are. -/
structure Preserves (json : JsonTexts F) (earlier records : List (Row F)) : Prop where
  columns : records ≠ [] → HasColumn records
  fits : ∀ r ∈ records, FitsRow json (fun _ => some .int64) r
  nulls : ∀ r ∈ records, ∀ k, isInternal k = false → r.lookup k = some .null →
    ∀ r' ∈ earlier ++ records, ∀ v, kept r' k = some v → ∃ s, v = .string s

theorem Preserves.settled {json : JsonTexts F} {earlier records rows : List (Row F)}
    (h : Preserves json earlier records) (huniform : Uniform (earlier ++ records))
    (hstored : ∀ row ∈ rows, StoredRow json row) (hsame : List.Forall₂ Same earlier rows) :
    Settled json (rows ++ records) := by
  -- what a row or record has under a key is null, or something that is to be written and fits
  have hvalue : ∀ r ∈ rows ++ records, ∀ k v, isInternal k = false → r.lookup k = some v →
      (v = .null ∧ r ∈ records) ∨
        ((∃ r' ∈ earlier ++ records, kept r' k = some v) ∧ Fits json (some .int64) v) := by
    intro r hr k v hplain hv
    rcases List.mem_append.mp hr with hrow | hr
    · obtain ⟨r', hr', hrow'⟩ := exists_of_forall₂ hsame hrow
      exact .inr ⟨⟨r', List.mem_append_left _ hr', (hrow' k).symm.trans hv⟩,
        (hstored r hrow).fits k v _ hv⟩
    · cases hnull : v.isNull with
      | true =>
        refine .inl ⟨?_, hr⟩
        cases v <;> first | rfl | cases hnull
      | false =>
        have hkept : kept r k = some v := kept_eq_some_iff.mpr ⟨hplain, hv, hnull⟩
        exact .inr ⟨⟨r, List.mem_append_right _ hr, hkept⟩, h.fits r hr k v hkept⟩
  intro k hplain
  by_cases hnull : ∃ r ∈ records, r.lookup k = some .null
  · obtain ⟨r, hr, hnull⟩ := hnull
    refine ⟨.utf8, fun r' hr' v hv => ?_⟩
    rcases hvalue r' hr' k v hplain hv with ⟨rfl, -⟩ | ⟨⟨r'', hr'', hkept⟩, hfits⟩
    · exact ⟨rfl, fun h => nomatch h⟩
    · obtain ⟨s, rfl⟩ := h.nulls r hr k hplain hnull r'' hr'' v hkept
      exact ⟨rfl, fun _ => congrArg some (hfits.1 s rfl)⟩
  · obtain ⟨t, ht⟩ := huniform k
    refine ⟨t, fun r' hr' v hv => ?_⟩
    rcases hvalue r' hr' k v hplain hv with ⟨rfl, hr⟩ | ⟨⟨r'', hr'', hkept⟩, hfits⟩
    · exact absurd ⟨r', hr, hv⟩ hnull
    · have hkind := ht r'' hr'' v hkept
      exact ⟨hkind.candidateType, fun _ => hkind.through hfits⟩

omit [Float64 F] in
theorem HasColumn.mono {records records' : List (Row F)} (h : HasColumn records)
    (hsub : ∀ r ∈ records, r ∈ records') : HasColumn records' := by
  obtain ⟨r, hr, k, v, hv, hplain⟩ := h
  exact ⟨r, hsub r hr, k, v, hv, hplain⟩

theorem writes_ok_iff {json : JsonTexts F} {file : ParquetFile F} {records : List (Row F)}
    (hrecords : records ≠ []) :
    (writeRecordsToParquet json .none file records).1 = .ok () ↔ HasColumn records := by
  constructor
  · intro hok
    have hresult : Call.result json file ⟨.none, records⟩ = .ok () := hok
    obtain ⟨newBatch, -, hnew, -⟩ := result_ok_cases hrecords hresult
    exact recordsToRecordBatch_ok_iff.mp ⟨newBatch, hnew⟩
  · intro hcolumn
    have hbatch : ∀ rows : List (Row F),
        ∃ batch, recordsToRecordBatch json (rows ++ records) = .ok batch := fun rows =>
      recordsToRecordBatch_ok_iff.mpr (hcolumn.mono fun _ hr => List.mem_append_right rows hr)
    obtain ⟨newBatch, hnew⟩ := hbatch []
    rw [List.nil_append] at hnew
    have hbatches : ∃ batches,
        batchesToWrite json (existingBatches .none file) newBatch records = .ok batches := by
      cases existingBatches .none file with
      | nil => exact ⟨_, rfl⟩
      | cons first rest =>
        unfold batchesToWrite
        dsimp only
        split
        · exact ⟨_, rfl⟩
        · obtain ⟨batch, hbatch⟩ := hbatch ((first :: rest).flatMap (recordBatchToRecords json))
          rw [hbatch]
          exact ⟨[batch], rfl⟩
    obtain ⟨batches, hbatches⟩ := hbatches
    have hreplacement : replacement json .none file records = .ok batches := by
      change (recordsToRecordBatch json records >>= fun newBatch =>
        batchesToWrite json (existingBatches .none file) newBatch records >>= fun batches =>
          .ok batches) = _
      rw [hnew]
      change (batchesToWrite json (existingBatches .none file) newBatch records >>= _) = _
      rw [hbatches]
      rfl
    unfold writeRecordsToParquet
    rw [if_neg (mt List.isEmpty_iff.mp hrecords), hreplacement]

theorem rows_writes_cases {json : JsonTexts F} {file : ParquetFile F} {records : List (Row F)}
    (hfile : Written json (file.getD [])) (hrecords : records ≠ [])
    (hok : (writeRecordsToParquet json .none file records).1 = .ok ()) :
    (∃ newBatch, recordsToRecordBatch json records = .ok newBatch ∧
      (writes json file records).rows json = file.rows json ++ recordBatchToRecords json newBatch ∧
      ∀ row ∈ file.rows json, ∀ k w, row.lookup k = some w →
        typeOf records k = some (candidateType w)) ∨
      ∃ batch, recordsToRecordBatch json (file.rows json ++ records) = .ok batch ∧
        (writes json file records).rows json = recordBatchToRecords json batch :=
  have hresult : Call.result json file ⟨.none, records⟩ = .ok () := hok
  rows_after_cases hfile hrecords ⟨rfl, rfl⟩ hresult

theorem Written.writes {json : JsonTexts F} {file : ParquetFile F}
    (h : Written json (file.getD [])) (records : List (Row F)) :
    Written json ((writes json file records).getD []) := h.after ⟨.none, records⟩

theorem Written.foldl_writes {json : JsonTexts F} {file : ParquetFile F}
    (h : Written json (file.getD [])) (chunks : List (List (Row F))) :
    Written json ((chunks.foldl (Connectors.writes json) file).getD []) :=
  List.foldlRecOn (motive := fun file : ParquetFile F => Written json (file.getD [])) chunks _ h
    fun _ h records _ => h.writes records

-- ---- Runs that preserve

structure Holds (json : JsonTexts F) (earlier : List (Row F)) (file : ParquetFile F) : Prop where
  written : Written json (file.getD [])
  same : List.Forall₂ Same earlier (file.rows json)

theorem Holds.writes {json : JsonTexts F} {earlier records : List (Row F)} {file : ParquetFile F}
    (h : Holds json earlier file) (hpreserves : Preserves json earlier records)
    (huniform : Uniform (earlier ++ records)) :
    (writeRecordsToParquet json .none file records).1 = .ok () ∧
      Holds json (earlier ++ records) (writes json file records) := by
  by_cases hrecords : records = []
  · subst hrecords
    exact ⟨rfl, by rw [List.append_nil]; exact h⟩
  have hok : (writeRecordsToParquet json .none file records).1 = .ok () :=
    (writes_ok_iff hrecords).mpr (hpreserves.columns hrecords)
  have hsettled : Settled json (file.rows json ++ records) :=
    hpreserves.settled huniform (fun _ hrow => h.written.stored hrow) h.same
  refine ⟨hok, h.written.writes records, ?_⟩
  rcases rows_writes_cases h.written hrecords hok with
    ⟨newBatch, hnew, hafter, -⟩ | ⟨batch, hbatch, hafter⟩
  · rw [hafter, forall₂_append_iff h.same.length_eq]
    exact ⟨h.same, (hsettled.mono fun r => List.mem_append_right _).forall₂_same hnew⟩
  · rw [hafter]
    have hrows : List.Forall₂ (fun r row : Row F => ∀ k, kept row k = kept r k)
        (earlier ++ records) (file.rows json ++ records) := by
      rw [forall₂_append_iff h.same.length_eq]
      exact ⟨h.same.imp fun _ _ hsame => hsame.kept_eq, List.forall₂_same.mpr fun _ _ _ => rfl⟩
    exact forall₂_comp (fun r row row' hkept hsame k => (hsame k).trans (hkept k)) hrows
      (hsettled.forall₂_same hbatch)

theorem Holds.foldl_writes {json : JsonTexts F} {chunks : List (List (Row F))}
    {earlier : List (Row F)} {file : ParquetFile F} (h : Holds json earlier file)
    (huniform : Uniform (earlier ++ chunks.flatten))
    (hpreserves : EveryStep (fun earlier records => earlier ++ records) (Preserves json) earlier
      chunks) :
    EveryStep (Connectors.writes json)
        (fun file records => (writeRecordsToParquet json .none file records).1 = .ok ()) file chunks ∧
      Holds json (earlier ++ chunks.flatten) (chunks.foldl (Connectors.writes json) file) := by
  induction chunks generalizing earlier file with
  | nil => exact ⟨trivial, by rw [List.flatten_nil, List.append_nil]; exact h⟩
  | cons records chunks ih =>
    rw [List.flatten_cons, ← List.append_assoc] at huniform ⊢
    obtain ⟨hhead, hrest⟩ := hpreserves
    obtain ⟨hok, hholds⟩ := h.writes hhead (huniform.mono fun r => List.mem_append_left _)
    obtain ⟨hoks, hfinal⟩ := ih hholds huniform hrest
    exact ⟨⟨hok, hoks⟩, hfinal⟩

-- ---- Nulls among other values

omit [Float64 F] in
theorem typeOf_utf8 {records : List (Row F)} {r : Row F} {k : String} {v : Value F}
    (hr : r ∈ records) (hv : r.lookup k = some v) (hplain : isInternal k = false)
    (hcandidate : candidateType v = .utf8) : typeOf records k = some .utf8 := by
  obtain ⟨t, htype, hwidens⟩ := typeOf_widens hr hv hplain
  rw [hcandidate] at hwidens
  rcases hwidens with rfl | rfl | ⟨h, -⟩
  · exact htype
  · exact htype
  · cases h

/-- The first rows have nothing but texts under a key. -/
def TextsUpTo (k : String) (m : Nat) (rows : List (Row F)) : Prop :=
  m ≤ rows.length ∧ ∀ row ∈ rows.take m, ∀ w, row.lookup k = some w → candidateType w = .utf8

theorem length_writes {json : JsonTexts F} {file : ParquetFile F} {records : List (Row F)}
    (hfile : Written json (file.getD []))
    (hok : (writeRecordsToParquet json .none file records).1 = .ok ()) :
    ((writes json file records).rows json).length = (file.rows json).length + records.length := by
  by_cases hrecords : records = []
  · subst hrecords
    rfl
  rcases rows_writes_cases hfile hrecords hok with
    ⟨newBatch, hnew, hafter, -⟩ | ⟨batch, hbatch, hafter⟩
  · rw [hafter, List.length_append, ← (records_coded hnew).length_eq]
  · rw [hafter, ← (records_coded hbatch).length_eq, List.length_append]

theorem textsUpTo_of_null {json : JsonTexts F} {file : ParquetFile F} {records : List (Row F)}
    (hfile : Written json (file.getD []))
    (hok : (writeRecordsToParquet json .none file records).1 = .ok ()) {r : Row F}
    (hr : r ∈ records) {k : String} (hplain : isInternal k = false)
    (hnull : r.lookup k = some .null) :
    TextsUpTo k ((file.rows json).length + records.length) ((writes json file records).rows json) := by
  refine ⟨(length_writes hfile hok).ge, fun row hrow w hw => ?_⟩
  replace hrow := List.mem_of_mem_take hrow
  rcases rows_writes_cases hfile (List.ne_nil_of_mem hr) hok with
    ⟨newBatch, hnew, hafter, htypes⟩ | ⟨batch, hbatch, hafter⟩
  · have htype : typeOf records k = some .utf8 := typeOf_utf8 hr hnull hplain rfl
    rw [hafter] at hrow
    rcases List.mem_append.mp hrow with hold | hown
    · exact Option.some.inj ((htypes row hold k w hw).symm.trans htype)
    · obtain ⟨r', -, hcoded⟩ := exists_of_forall₂ (records_coded hnew) hown
      exact Option.some.inj ((hcoded.typeOf_eq hw).symm.trans htype)
  · have htype : typeOf (file.rows json ++ records) k = some .utf8 :=
      typeOf_utf8 (List.mem_append_right _ hr) hnull hplain rfl
    rw [hafter] at hrow
    obtain ⟨r', -, hcoded⟩ := exists_of_forall₂ (records_coded hbatch) hrow
    exact Option.some.inj ((hcoded.typeOf_eq hw).symm.trans htype)

theorem TextsUpTo.writes {json : JsonTexts F} {file : ParquetFile F} {k : String} {m : Nat}
    (hfile : Written json (file.getD [])) (h : TextsUpTo k m (file.rows json))
    (records : List (Row F)) : TextsUpTo k m ((writes json file records).rows json) := by
  by_cases hok : (writeRecordsToParquet json .none file records).1 = .ok ()
  · by_cases hrecords : records = []
    · subst hrecords
      exact h
    rcases rows_writes_cases hfile hrecords hok with
      ⟨newBatch, -, hafter, -⟩ | ⟨batch, hbatch, hafter⟩
    · rw [hafter]
      refine ⟨by rw [List.length_append]; exact h.1.trans (Nat.le_add_right _ _), ?_⟩
      rw [List.take_append_of_le_length h.1]
      exact h.2
    · rw [hafter]
      have hcoded := records_coded hbatch
      refine ⟨?_, fun row' hrow' w' hw' => ?_⟩
      · rw [← hcoded.length_eq, List.length_append]
        exact h.1.trans (Nat.le_add_right _ _)
      have htake := List.forall₂_take m hcoded
      rw [List.take_append_of_le_length h.1] at htake
      obtain ⟨row, hrow, hcodedRow⟩ := exists_of_forall₂ htake hrow'
      obtain ⟨hplain, t, htype, hthrough⟩ := codedValue_eq_some ((hcodedRow k).symm.trans hw')
      cases hw : row.lookup k with
      | none =>
        rw [hw, through_none] at hthrough
        cases hthrough
      | some w =>
        have hall : row ∈ file.rows json ++ records :=
          List.mem_append_left _ (List.mem_of_mem_take hrow)
        have hutf8 := typeOf_utf8 hall hw hplain (h.2 row hrow w hw)
        exact Option.some.inj ((hcodedRow.typeOf_eq hw').symm.trans hutf8)
  · have hresult : Call.result json file ⟨.none, records⟩ ≠ .ok () := hok
    have hkept : Connectors.writes json file records = file := Call.after_of_error hresult
    rw [hkept]
    exact h

theorem TextsUpTo.foldl_writes {json : JsonTexts F} {file : ParquetFile F} {k : String} {m : Nat}
    (hfile : Written json (file.getD [])) (h : TextsUpTo k m (file.rows json))
    (chunks : List (List (Row F))) :
    TextsUpTo k m ((chunks.foldl (Connectors.writes json) file).rows json) := by
  induction chunks generalizing file with
  | nil => exact h
  | cons records chunks ih => exact ih (hfile.writes records) (h.writes hfile records)

-- ---- What is read back

/-- Calls one after the other of which each preserves its rows and those before. -/
def Preserved (json : JsonTexts F) (chunks : List (List (Row F))) : Prop :=
  EveryStep (fun earlier records => earlier ++ records) (Preserves json) [] chunks

theorem preserves_of_reads {json : JsonTexts F} {file : ParquetFile F}
    {earlier records more rows : List (Row F)} (hfile : Written json (file.getD []))
    (hlength : (file.rows json).length = earlier.length)
    (hok : (writeRecordsToParquet json .none file records).1 = .ok ())
    (hstored : ∀ row ∈ rows, StoredRow json row)
    (htexts : ∀ k m, TextsUpTo k m ((writes json file records).rows json) → TextsUpTo k m rows)
    (hsame : List.Forall₂ Same (earlier ++ records ++ more) rows)
    (huniform : Uniform (earlier ++ records)) : Preserves json earlier records where
  columns hrecords := (writes_ok_iff hrecords).mp hok
  fits r hr k v hv := by
    have hmem : r ∈ earlier ++ records ++ more :=
      List.mem_append_left _ (List.mem_append_right _ hr)
    obtain ⟨row, hrow, hsameRow⟩ := exists_of_forall₂_left hsame hmem
    exact (hstored row hrow).fits k v _ ((hsameRow k).trans hv)
  nulls r hr k hplain hnull r' hr' v hv := by
    have hfirst := htexts k _ (textsUpTo_of_null hfile hok hr hplain hnull)
    rw [hlength, ← List.length_append] at hfirst
    have htake := List.forall₂_take (earlier ++ records).length hsame
    rw [List.take_left] at htake
    obtain ⟨row, hrow, hsameRow⟩ := exists_of_forall₂_left htake hr'
    have hutf8 := hfirst.2 row hrow v ((hsameRow k).trans hv)
    obtain ⟨t, ht⟩ := huniform k
    have hkind := ht r' hr' v hv
    rw [hkind.candidateType] at hutf8
    rw [hutf8] at hkind
    exact hkind

theorem preserved_of_reads {json : JsonTexts F} {chunks : List (List (Row F))}
    {earlier : List (Row F)} {file : ParquetFile F} (hfile : Written json (file.getD []))
    (hlength : (file.rows json).length = earlier.length)
    (hok : EveryStep (writes json)
      (fun file records => (writeRecordsToParquet json .none file records).1 = .ok ()) file chunks)
    (hsame : List.Forall₂ Same (earlier ++ chunks.flatten)
      ((chunks.foldl (writes json) file).rows json))
    (huniform : Uniform (earlier ++ chunks.flatten)) :
    EveryStep (fun earlier records => earlier ++ records) (Preserves json) earlier chunks := by
  induction chunks generalizing earlier file with
  | nil => trivial
  | cons records chunks ih =>
    obtain ⟨hhead, hrest⟩ := hok
    have hwritten := hfile.writes records
    rw [List.flatten_cons, ← List.append_assoc] at hsame huniform
    refine ⟨?_, ih hwritten ?_ hrest hsame huniform⟩
    · refine preserves_of_reads hfile hlength hhead ?_ ?_ hsame
        (huniform.mono fun r => List.mem_append_left _)
      · exact fun row hrow => (hwritten.foldl_writes chunks).stored hrow
      · exact fun k m htexts => htexts.foldl_writes hwritten chunks
    · rw [length_writes hfile hhead, hlength, List.length_append]

/-- Records of uniform columns that are written in any number of calls are read back exactly if
every call preserves its rows and those before. -/
theorem parquet_reads_back_iff {json : JsonTexts F} {chunks : List (List (Row F))}
    (hne : chunks.flatten ≠ []) (huniform : Uniform chunks.flatten) :
    FileReadsBack json chunks ↔ Preserved json chunks := by
  constructor
  · rintro ⟨hok, rows, hread, hsame⟩
    have hstart : Written json ((none : ParquetFile F).getD []) := written_nil json
    refine preserved_of_reads hstart rfl hok ?_ huniform
    obtain ⟨batches, hbatches, hrows⟩ := bind_eq_ok hread
    cases hrows
    cases hfinal : chunks.foldl (writes json) none with
    | none =>
      rw [hfinal] at hbatches
      cases hbatches
    | some final =>
      rw [hfinal] at hbatches
      cases hbatches
      exact hsame
  · intro hpreserved
    have hstart : Holds json [] (none : ParquetFile F) := ⟨written_nil json, .nil⟩
    obtain ⟨hok, hholds⟩ := hstart.foldl_writes huniform hpreserved
    refine ⟨hok, ?_⟩
    have hsame := hholds.same
    cases hfinal : chunks.foldl (writes json) none with
    | none =>
      rw [hfinal] at hsame
      exact absurd (List.forall₂_nil_right_iff.mp hsame) hne
    | some final =>
      rw [hfinal] at hsame
      exact ⟨_, rfl, hsame⟩

theorem ofKind_numberRow {n : Int} (hn : InRange64 n) {k : String} {v : Value F}
    (hv : kept (numberRow n) k = some v) : OfKind .int64 v := by
  cases eq_of_lookup_numberRow (kept_eq_some_iff.mp hv).2.1
  exact ⟨n, rfl, hn⟩

omit [Float64 F] in
theorem preserves_numberRow {json : JsonTexts F} {n : Int} (hn : n ≤ maxI64)
    (earlier : List (Row F)) : Preserves json earlier [numberRow n] where
  columns _ := ⟨_, List.mem_singleton_self _, "a", .number (.int n), AList.lookup_insert _, rfl⟩
  fits := List.forall_mem_singleton.mpr (fits_numberRow hn _)
  nulls := by
    refine List.forall_mem_singleton.mpr fun k _ hnull => ?_
    cases eq_of_lookup_numberRow hnull

/-- A number in each of two calls. -/
theorem numbers_read_back :
    FileReadsBack (numberTexts : JsonTexts ℚ) [[numberRow 1], [numberRow 2]] := by
  have hne : [[numberRow 1], [numberRow (F := ℚ) 2]].flatten ≠ [] := List.cons_ne_nil _ _
  refine (parquet_reads_back_iff hne fun k => ⟨.int64, ?_⟩).mpr
    ⟨preserves_numberRow (by decide) _, preserves_numberRow (by decide) _, trivial⟩
  refine List.forall_mem_cons.mpr ⟨?_, List.forall_mem_singleton.mpr ?_⟩
  · exact fun v hv => ofKind_numberRow ⟨by decide, by decide⟩ hv
  · exact fun v hv => ofKind_numberRow ⟨by decide, by decide⟩ hv

/-- A null after a number makes the number a text. -/
theorem null_makes_text :
    Uniform [numberRow 1, (∅ : Row ℚ).insert "a" .null] ∧
      ¬FileReadsBack numberTexts [[numberRow 1, (∅ : Row ℚ).insert "a" .null]] := by
  constructor
  · refine fun k => ⟨.int64, List.forall_mem_cons.mpr ⟨?_, List.forall_mem_singleton.mpr ?_⟩⟩
    · exact fun v hv => ofKind_numberRow ⟨by decide, by decide⟩ hv
    · intro v hv
      obtain ⟨-, hlookup, hnull⟩ := kept_eq_some_iff.mp hv
      by_cases hk : k = "a"
      · rw [hk, AList.lookup_insert] at hlookup
        cases hlookup
        cases hnull
      · rw [AList.lookup_insert_ne hk, AList.lookup_empty] at hlookup
        cases hlookup
  · rintro ⟨-, rows, hread, hsame⟩
    have htext : (rows.head?.bind (·.lookup "a")) = some (.string "1") := by
      cases hread
      rfl
    cases hsame with
    | cons hfirst _ =>
      have hkept : kept (numberRow 1 : Row ℚ) "a" = some (.number (.int 1)) := rfl
      cases htext.symm.trans ((hfirst "a").trans hkept)

end Rekuiper.Connectors
