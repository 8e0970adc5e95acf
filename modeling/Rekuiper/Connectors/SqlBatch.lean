import Mathlib.Data.List.Dedup
import Rekuiper.Connectors.SqlSink
import Rekuiper.Lib.Outcome

/-!
# Batches of the SQL sink

In every run a batch inserts the rows of its first records, whole statements at a time, with
the columns of the batch. These are the rows of single inserts when the columns are configured
or all records have the same ones; otherwise some NULLs are added.
-/

namespace Rekuiper.Connectors

open Lib
open Lib.Prog (perform)

variable {F : Type}

-- ---- Runs of calls

variable {trace : List (Done (SqlOp F) fun _ => Status)} {result : Status}

theorem trace_andThen {p q : Session F Status} :
    (andThen p q).Trace trace result ↔
      (∃ first second, trace = first ++ second ∧ p.Trace first (.ok ()) ∧ q.Trace second result) ∨
        ∃ err, p.Trace trace (.error err) ∧ result = .error err := by
  rw [andThen, Prog.trace_bind]
  constructor
  · rintro ⟨first, status, second, rfl, hp, hq⟩
    cases status with
    | ok u => exact .inl ⟨first, second, rfl, hp, hq⟩
    | error err =>
      obtain ⟨rfl, rfl⟩ := hq
      exact .inr ⟨err, by rwa [List.append_nil], rfl⟩
  · rintro (⟨first, second, rfl, hp, hq⟩ | ⟨err, hp, rfl⟩)
    · exact ⟨first, .ok (), second, rfl, hp, hq⟩
    · exact ⟨trace, .error err, [], (List.append_nil _).symm, hp, rfl, rfl⟩

@[simp] theorem inserted_execute_ok (dialect : Dialect) (statement : Statement F) :
    inserted [⟨.execute dialect statement, .ok ()⟩] = statement.rows :=
  List.append_nil _

@[simp] theorem inserted_connect (status : Status) :
    inserted [(⟨.connect, status⟩ : Done (SqlOp F) fun _ => Status)] = [] := rfl

theorem executeAll_inserts {dialect : Dialect} {statements : List (Statement F)}
    (h : (executeAll dialect statements).Trace trace result) :
    ∃ j, inserted trace = (statements.take j).flatMap (·.rows) ∧
      (result = .ok () → j = statements.length) ∧ (result ≠ .ok () → j < statements.length) := by
  induction statements generalizing trace with
  | nil =>
    obtain ⟨rfl, rfl⟩ := h
    exact ⟨0, rfl, fun _ => rfl, fun h => absurd rfl h⟩
  | cons statement rest ih =>
    rcases trace_andThen.mp h with ⟨first, second, rfl, hfirst, hrest⟩ | ⟨err, hfirst, rfl⟩
    · obtain rfl := Prog.trace_perform.mp hfirst
      obtain ⟨j, hrows, hok, herr⟩ := ih hrest
      refine ⟨j + 1, ?_, fun h => congrArg _ (hok h), fun h => Nat.succ_lt_succ (herr h)⟩
      exact (inserted_append _ _).trans (congrArg₂ _ (inserted_execute_ok dialect statement) hrows)
    · obtain rfl := Prog.trace_perform.mp hfirst
      exact ⟨0, rfl, (fun h => nomatch h), fun _ => Nat.succ_pos _⟩

section

variable [Float64 F]

-- ---- Columns

omit [Float64 F] in
def columns (config : SqlSinkConfig) (records : List (Row F)) : List String :=
  if config.fields.isEmpty then (records.flatMap columnKeys).dedup.insertionSort (· ≤ ·)
  else config.fields

def batchRow (config : SqlSinkConfig) (records : List (Row F)) : Row F → TableRow F :=
  storedRow config.table (columns config records)

def recordRow (config : SqlSinkConfig) (record : Row F) : TableRow F :=
  batchRow config [record] record

omit [Float64 F] in
theorem nodup_columnKeys (record : Row F) : (columnKeys record).Nodup :=
  (AList.keys_nodup record).filter _

theorem checkFields_ok {fields fields' : List String} (h : checkFields fields = .ok fields') :
    fields' = fields := by
  unfold checkFields at h
  split at h
  · cases h
  · cases h
    rfl

omit [Float64 F] in
theorem recordFields_ok {config : SqlSinkConfig} {record : Row F} {fields : List String}
    (h : recordFields config record = .ok fields) : fields = columns config [record] := by
  unfold recordFields at h
  unfold columns
  split at h
  · rename_i hnone
    obtain ⟨-, -, h⟩ := bind_eq_ok h
    cases h
    rw [if_pos hnone, List.flatMap_singleton, List.dedup_eq_self.mpr (nodup_columnKeys record)]
  · rename_i hsome
    rw [if_neg hsome]
    exact checkFields_ok h

omit [Float64 F] in
theorem batchFields_ok {config : SqlSinkConfig} {records : List (Row F)} {fields : List String}
    (h : batchFields config records = .ok fields) : fields = columns config records := by
  unfold batchFields at h
  unfold columns
  split at h
  · rename_i hnone
    obtain ⟨-, -, h⟩ := bind_eq_ok h
    cases h
    rw [if_pos hnone]
  · rename_i hsome
    rw [if_neg hsome]
    exact checkFields_ok h

theorem recordStatement_rows {config : SqlSinkConfig} {record : Row F} {dialect : Dialect}
    {statement : Statement F} (h : recordStatement config record = .ok (dialect, statement)) :
    statement.rows = [recordRow config record] := by
  unfold recordStatement at h
  obtain ⟨-, -, h⟩ := bind_eq_ok h
  obtain ⟨fields, hfields, h⟩ := bind_eq_ok h
  obtain rfl := recordFields_ok hfields
  split at h
  · obtain ⟨-, rfl⟩ := Prod.mk.inj (Except.ok.inj h)
    split
    · rename_i hempty
      have hnone : columns config [record] = [] := by
        simpa [cells] using hempty
      simp [Statement.rows, recordRow, batchRow, storedRow, hnone]
    · rw [rowStatement_eq, rows_chunkStatement]
      rfl
  · cases h

-- ---- Records one by one

theorem insertRecord_inserts {config : SqlSinkConfig} {record : Row F}
    (h : (insertRecord config record).Trace trace result) :
    (result = .ok () → inserted trace = [recordRow config record]) ∧
      (result ≠ .ok () → inserted trace = []) := by
  unfold insertRecord at h
  split at h
  · rename_i dialect statement hstatement
    rcases trace_andThen.mp h with ⟨first, second, rfl, hfirst, hsecond⟩ | ⟨err, hfirst, rfl⟩
    · obtain rfl := Prog.trace_perform.mp hfirst
      obtain rfl := Prog.trace_perform.mp hsecond
      rw [inserted_append, inserted_connect, List.nil_append]
      cases result with
      | ok u =>
        have hrows := recordStatement_rows hstatement
        exact ⟨fun _ => (inserted_execute_ok dialect statement).trans hrows, fun h => absurd rfl h⟩
      | error err => exact ⟨fun h => (nomatch h), fun _ => rfl⟩
    · obtain rfl := Prog.trace_perform.mp hfirst
      exact ⟨fun h => (nomatch h), fun _ => rfl⟩
  · obtain ⟨rfl, rfl⟩ := h
    exact ⟨fun h => (nomatch h), fun _ => rfl⟩

theorem insertRecords_inserts {config : SqlSinkConfig} {records : List (Row F)}
    (h : (insertRecords config records).Trace trace result) :
    ∃ k, inserted trace = (records.take k).map (recordRow config) ∧
      (result = .ok () → k = records.length) ∧ (result ≠ .ok () → k < records.length) := by
  induction records generalizing trace with
  | nil =>
    obtain ⟨rfl, rfl⟩ := h
    exact ⟨0, rfl, fun _ => rfl, fun h => absurd rfl h⟩
  | cons record records ih =>
    rcases trace_andThen.mp h with ⟨first, second, rfl, hfirst, hrest⟩ | ⟨err, hfirst, rfl⟩
    · obtain ⟨k, hrows, hok, herr⟩ := ih hrest
      refine ⟨k + 1, ?_, fun h => congrArg _ (hok h), fun h => Nat.succ_lt_succ (herr h)⟩
      rw [inserted_append, (insertRecord_inserts hfirst).1 rfl, hrows]
      rfl
    · refine ⟨0, (insertRecord_inserts hfirst).2 (by simp), (fun h => nomatch h), fun _ => ?_⟩
      exact Nat.succ_pos _

def Accepts (config : SqlSinkConfig) (record : Row F) : Prop :=
  ∃ plan, recordStatement config record = .ok plan

/-- Every operation of a run succeeds. -/
def Undisturbed (trace : List (Done (SqlOp F) fun _ => Status)) : Prop :=
  ∀ done ∈ trace, done.2 = .ok ()

theorem insertRecords_accepts {config : SqlSinkConfig} {records : List (Row F)}
    (h : (insertRecords config records).Trace trace (.ok ())) :
    ∀ record ∈ records, Accepts config record := by
  induction records generalizing trace with
  | nil => simp
  | cons record records ih =>
    rcases trace_andThen.mp h with ⟨first, second, rfl, hfirst, hrest⟩ | ⟨err, -, herr⟩
    · refine List.forall_mem_cons.mpr ⟨?_, ih hrest⟩
      unfold insertRecord at hfirst
      split at hfirst
      · exact ⟨_, ‹_›⟩
      · cases hfirst.2
    · cases herr

theorem insertRecords_undisturbed {config : SqlSinkConfig} {records : List (Row F)}
    (haccepts : ∀ record ∈ records, Accepts config record)
    (h : (insertRecords config records).Trace trace result) (hquiet : Undisturbed trace) :
    result = .ok () := by
  induction records generalizing trace with
  | nil => exact h.2
  | cons record records ih =>
    obtain ⟨⟨plan, hplan⟩, haccepts⟩ := List.forall_mem_cons.mp haccepts
    rcases trace_andThen.mp h with ⟨first, second, rfl, -, hrest⟩ | ⟨err, hfirst, rfl⟩
    · exact ih haccepts hrest fun done hdone => hquiet done (List.mem_append_right _ hdone)
    · rw [insertRecord, hplan] at hfirst
      rcases trace_andThen.mp hfirst with ⟨first, second, rfl, -, hlast⟩ | ⟨err', hconnect, -⟩
      · obtain rfl := Prog.trace_perform.mp hlast
        cases hquiet _ (List.mem_append_right _ (List.mem_singleton_self _))
      · obtain rfl := Prog.trace_perform.mp hconnect
        cases hquiet _ (List.mem_singleton_self _)

theorem exists_insertRecords {config : SqlSinkConfig} {records : List (Row F)}
    (haccepts : ∀ record ∈ records, Accepts config record) :
    ∃ trace, (insertRecords config records).Trace trace (.ok ()) := by
  induction records with
  | nil => exact ⟨[], rfl, rfl⟩
  | cons record records ih =>
    obtain ⟨⟨plan, hplan⟩, haccepts⟩ := List.forall_mem_cons.mp haccepts
    obtain ⟨rest, hrest⟩ := ih haccepts
    refine ⟨[⟨.connect, .ok ()⟩, ⟨.execute plan.1 plan.2, .ok ()⟩] ++ rest,
      trace_andThen.mpr (.inl ⟨_, rest, rfl, ?_, hrest⟩)⟩
    rw [insertRecord, hplan]
    exact trace_andThen.mpr (.inl ⟨[_], [_], rfl, Prog.trace_perform.mpr rfl,
      Prog.trace_perform.mpr rfl⟩)

-- ---- What is accepted

theorem checkKeys_ok_iff {keys : List String} :
    checkKeys keys = .ok () ↔ ∀ k ∈ keys, isValidSqlIdentifier k = true := by
  unfold checkKeys
  split
  · rename_i k hfind
    refine iff_of_false (fun h => (nomatch h)) fun hall => ?_
    have hvalid := hall k (List.mem_of_find?_eq_some hfind)
    have hinvalid := List.find?_some hfind
    rw [hvalid] at hinvalid
    cases hinvalid
  · rename_i hfind
    refine iff_of_true rfl fun k hk => ?_
    simpa using List.find?_eq_none.mp hfind k hk

omit [Float64 F] in
theorem batchFields_ok_iff {config : SqlSinkConfig} {records : List (Row F)}
    (hne : records ≠ []) : (∃ fields, batchFields config records = .ok fields) ↔
      ∀ record ∈ records, ∃ fields, recordFields config record = .ok fields := by
  unfold batchFields recordFields
  by_cases hnone : config.fields.isEmpty
  · simp only [if_pos hnone]
    have hkeys : ∀ keys result, (∃ fields : List String, (do checkKeys keys; .ok result) =
        (Except.ok fields : Except String _)) ↔ checkKeys keys = .ok () := by
      intro keys result
      cases checkKeys keys with
      | ok u => exact iff_of_true ⟨result, rfl⟩ rfl
      | error err => exact iff_of_false (fun ⟨_, h⟩ => (nomatch h)) (fun h => (nomatch h))
    simp only [hkeys, checkKeys_ok_iff, List.mem_flatMap]
    exact ⟨fun h record hrecord k hk => h k ⟨record, hrecord, hk⟩,
      fun h k ⟨record, hrecord, hk⟩ => h record hrecord k hk⟩
  · simp only [if_neg hnone]
    obtain ⟨record, hrecord⟩ := List.exists_mem_of_ne_nil records hne
    exact ⟨fun h _ _ => h, fun h => h record hrecord⟩

theorem accepts_iff {config : SqlSinkConfig} {record : Row F} :
    Accepts config record ↔ checkTable config = .ok () ∧
      (∃ fields, recordFields config record = .ok fields) ∧
        (Dialect.ofUrl config.url).isSome = true := by
  constructor
  · rintro ⟨plan, h⟩
    unfold recordStatement at h
    obtain ⟨u, htable, h⟩ := bind_eq_ok h
    obtain ⟨fields, hfields, h⟩ := bind_eq_ok h
    refine ⟨htable, ⟨fields, hfields⟩, ?_⟩
    split at h
    · rename_i dialect hdialect
      rw [hdialect]
      rfl
    · cases h
  · rintro ⟨htable, ⟨fields, hfields⟩, hdialect⟩
    obtain ⟨dialect, hdialect⟩ := Option.isSome_iff_exists.mp hdialect
    unfold Accepts recordStatement
    rw [htable, hfields, hdialect]
    exact ⟨_, rfl⟩

theorem insertRecord_unsupported {config : SqlSinkConfig} {record : Row F}
    (hnone : Dialect.ofUrl config.url = none)
    (h : (insertRecord config record).Trace trace result) : trace = [] ∧ result ≠ .ok () := by
  unfold insertRecord at h
  split at h
  · rename_i hplan
    have := (accepts_iff.mp ⟨_, hplan⟩).2.2
    rw [hnone] at this
    cases this
  · exact ⟨h.1, by simp [h.2]⟩

-- ---- Wider rows

theorem eq_of_sorted_nodup {xs ys : List String} (hxs : xs.Pairwise (· ≤ ·))
    (hys : ys.Pairwise (· ≤ ·)) (hnodupx : xs.Nodup) (hnodupy : ys.Nodup)
    (hmem : ∀ k, k ∈ xs ↔ k ∈ ys) : xs = ys :=
  ((List.perm_ext_iff_of_nodup hnodupx hnodupy).mpr hmem).eq_of_pairwise
    (fun _ _ _ _ hab hba => le_antisymm hab hba) hxs hys

theorem nodup_sorted_dedup (keys : List String) :
    (keys.dedup.insertionSort (· ≤ ·)).Nodup :=
  (List.perm_insertionSort _ _).nodup_iff.mpr (List.nodup_dedup _)

/-- The columns of the rows are the same, up to further ones with NULL. -/
structure Widens (own wide : TableRow F) : Prop where
  table : own.1 = wide.1
  kept : own.2 = wide.2.filter fun cell => cell.1 ∈ own.2.map Prod.fst
  null : ∀ cell ∈ wide.2, cell.1 ∉ own.2.map Prod.fst → cell.2 = .null

def SameColumns (records : List (Row F)) : Prop :=
  ∀ record ∈ records, ∀ other ∈ records, ∀ k, k ∈ columnKeys record ↔ k ∈ columnKeys other

omit [Float64 F] in
theorem mem_columns {config : SqlSinkConfig} {records : List (Row F)}
    (hnone : config.fields.isEmpty = true) {k : String} :
    k ∈ columns config records ↔ ∃ record ∈ records, k ∈ columnKeys record := by
  rw [columns, if_pos hnone, List.mem_insertionSort, List.mem_dedup, List.mem_flatMap]

omit [Float64 F] in
theorem columns_sorted {config : SqlSinkConfig} (hnone : config.fields.isEmpty = true)
    (records : List (Row F)) :
    (columns config records).Pairwise (· ≤ ·) ∧ (columns config records).Nodup := by
  rw [columns, if_pos hnone]
  exact ⟨List.pairwise_insertionSort _ _, nodup_sorted_dedup _⟩

theorem recordRow_eq {config : SqlSinkConfig} {records : List (Row F)} {record : Row F}
    (hrecord : record ∈ records) (hsame : config.fields.isEmpty = false ∨ SameColumns records) :
    recordRow config record = batchRow config records record := by
  have hcolumns : columns config [record] = columns config records := by
    cases hempty : config.fields.isEmpty with
    | false => rw [columns, columns, if_neg (by simp [hempty]), if_neg (by simp [hempty])]
    | true =>
      have hsame := hsame.resolve_left (by simp [hempty])
      obtain ⟨hsorted, hnodup⟩ := columns_sorted hempty [record]
      obtain ⟨hsorted', hnodup'⟩ := columns_sorted hempty records
      refine eq_of_sorted_nodup hsorted hsorted' hnodup hnodup' fun k => ?_
      rw [mem_columns hempty, mem_columns hempty]
      constructor
      · rintro ⟨r, hr, hk⟩
        cases List.mem_singleton.mp hr
        exact ⟨record, hrecord, hk⟩
      · rintro ⟨r, hr, hk⟩
        exact ⟨record, List.mem_singleton_self _, (hsame r hr record hrecord k).mp hk⟩
  rw [recordRow, batchRow, batchRow, hcolumns]

omit [Float64 F] in
theorem lookup_of_not_column {record other : Row F} {k : String}
    (hother : k ∈ columnKeys other) (hnot : k ∉ columnKeys record) : record.lookup k = none := by
  rw [AList.lookup_eq_none]
  intro hkey
  exact hnot (List.mem_filter.mpr ⟨hkey, (List.mem_filter.mp hother).2⟩)

theorem recordRow_widens {config : SqlSinkConfig} {records : List (Row F)} {record : Row F}
    (hrecord : record ∈ records) :
    Widens (recordRow config record) (batchRow config records record) := by
  have hnames : ∀ fields, (storedRow config.table fields record).2.map Prod.fst = fields := by
    intro fields
    simp [storedRow, Function.comp_def]
  cases hempty : config.fields.isEmpty with
  | false =>
    rw [recordRow_eq hrecord (.inl hempty)]
    refine ⟨rfl, (List.filter_eq_self.mpr fun cell hcell => ?_).symm, fun cell hcell hnot => ?_⟩
    · exact decide_eq_true (List.mem_map_of_mem hcell)
    · exact absurd (List.mem_map_of_mem hcell) hnot
  | true =>
    obtain ⟨hsorted, hnodup⟩ := columns_sorted hempty [record]
    obtain ⟨hsorted', hnodup'⟩ := columns_sorted hempty records
    have hsub : columns config [record] =
        (columns config records).filter (· ∈ columns config [record]) := by
      refine eq_of_sorted_nodup hsorted (hsorted'.filter _) hnodup (hnodup'.filter _) fun k => ?_
      rw [List.mem_filter, decide_eq_true_iff]
      refine ⟨fun hk => ⟨?_, hk⟩, fun h => h.2⟩
      obtain ⟨r, hr, hk⟩ := (mem_columns hempty).mp hk
      cases List.mem_singleton.mp hr
      exact (mem_columns hempty).mpr ⟨record, hrecord, hk⟩
    refine ⟨rfl, ?_, ?_⟩
    · rw [recordRow, batchRow, hnames, batchRow, storedRow, storedRow]
      dsimp only
      rw [List.filter_map]
      exact congrArg _ hsub
    · intro cell hcell hnot
      rw [recordRow, batchRow, hnames] at hnot
      obtain ⟨k, hk, rfl⟩ := List.mem_map.mp hcell
      obtain ⟨other, -, hother⟩ := (mem_columns hempty).mp hk
      have hmissing : record.lookup k = none := by
        refine lookup_of_not_column hother fun hown => hnot ?_
        exact (mem_columns hempty).mpr ⟨record, List.mem_singleton_self _, hown⟩
      rw [hmissing]
      rfl

-- ---- Batches

/-- How many records of a batch one statement inserts. -/
def statementSize (config : SqlSinkConfig) (records : List (Row F)) : Nat :=
  if (columns config records).isEmpty then 1 else subBatchSize (columns config records)

theorem subBatchSize_pos (fields : List String) : 0 < subBatchSize fields :=
  Nat.lt_of_lt_of_le Nat.one_pos (Nat.le_max_left _ _)

theorem rows_chunks (table : String) (fields : List String) {n : Nat} (hn : 0 < n) (j : Nat)
    (records : List (Row F)) :
    (((chunks n records).map (chunkStatement table fields)).take j).flatMap (·.rows) =
      (records.take (j * n)).map (storedRow table fields) := by
  rw [← flatten_take_chunks hn, ← List.map_take, List.flatMap_map, List.map_flatten,
    List.flatMap_def]
  congr 1
  exact List.map_congr_left fun chunk _ => rows_chunkStatement table fields chunk

/-- What is inserted by a batch that ends with `result`. -/
def InsertsFirst (config : SqlSinkConfig) (records : List (Row F)) (rows : List (TableRow F))
    (result : Status) : Prop :=
  ∃ k, rows = (records.take k).map (batchRow config records) ∧
    (result = .ok () → k = records.length) ∧
      (result ≠ .ok () → k < records.length ∧ statementSize config records ∣ k)

theorem insertsFirst_none {config : SqlSinkConfig} {records : List (Row F)} (hne : records ≠ [])
    (herr : result ≠ .ok ()) : InsertsFirst config records [] result :=
  ⟨0, rfl, fun h => absurd h herr, fun _ => ⟨List.length_pos_iff.mpr hne, dvd_zero _⟩⟩

theorem insertBatch_inserts {config : SqlSinkConfig} {records : List (Row F)}
    (h : (insertBatch config records).Trace trace result) :
    InsertsFirst config records (inserted trace) result := by
  unfold insertBatch at h
  split at h
  · obtain ⟨rfl, rfl⟩ := h
    exact ⟨0, rfl, fun _ => rfl, fun h => absurd rfl h⟩
  · rename_i record
    split at h
    · obtain ⟨hok, herr⟩ := insertRecord_inserts h
      by_cases hresult : result = .ok ()
      · exact ⟨1, hok hresult, fun _ => rfl, fun h => absurd hresult h⟩
      · rw [herr hresult]
        exact insertsFirst_none (by simp) hresult
    · obtain ⟨rfl, rfl⟩ := h
      exact insertsFirst_none (by simp) (by simp)
  · rename_i hnil hsingle
    have hne : records ≠ [] := hnil
    split at h
    · obtain ⟨rfl, rfl⟩ := h
      exact insertsFirst_none hne (by simp)
    · obtain ⟨rfl, rfl⟩ := h
      exact insertsFirst_none hne (by simp)
    · rename_i fields htable hfields
      obtain rfl := batchFields_ok hfields
      split at h
      · -- no columns: one record after the other
        rename_i hempty
        obtain ⟨k, hrows, hok, herr⟩ := insertRecords_inserts h
        refine ⟨k, ?_, hok, fun hresult => ⟨herr hresult, ?_⟩⟩
        · rw [hrows]
          refine List.map_congr_left fun record hrecord => ?_
          have hmem := List.mem_of_mem_take hrecord
          have hwide : Widens (recordRow config record) (batchRow config records record) :=
            recordRow_widens hmem
          have hnil : (batchRow config records record).2 = [] := by
            simp [batchRow, storedRow, List.isEmpty_iff.mp hempty]
          refine Prod.ext hwide.table ?_
          rw [hwide.kept, hnil]
          rfl
        · rw [statementSize, if_pos hempty]
          exact one_dvd k
      rename_i hempty
      have hsize : statementSize config records = subBatchSize (columns config records) :=
        if_neg hempty
      have hn := subBatchSize_pos (columns config records)
      split at h
      · rcases trace_andThen.mp h with ⟨first, second, rfl, hfirst, hrest⟩ | ⟨err, hfirst, rfl⟩
        · obtain rfl := Prog.trace_perform.mp hfirst
          obtain ⟨j, hrows, hok, herr⟩ := executeAll_inserts hrest
          rw [inserted_append, inserted_connect, List.nil_append, hrows]
          rw [List.length_map] at hok herr
          by_cases hresult : result = .ok ()
          · refine ⟨records.length, ?_, fun _ => rfl, fun h => absurd hresult h⟩
            rw [rows_chunks _ _ hn, hok hresult, ← flatten_take_chunks hn, List.take_length,
              flatten_chunks hn, List.take_length]
            rfl
          · refine ⟨j * subBatchSize (columns config records), rows_chunks _ _ hn j records,
              fun h => absurd h hresult, fun _ => ⟨?_, ?_⟩⟩
            · exact mul_lt_of_lt_length_chunks hn (herr hresult)
            · exact hsize ▸ dvd_mul_left _ _
        · obtain rfl := Prog.trace_perform.mp hfirst
          exact insertsFirst_none hne (by simp)
      · rename_i hnone
        obtain ⟨record, rest, rfl⟩ := List.exists_cons_of_ne_nil hne
        rcases trace_andThen.mp h with ⟨first, second, -, hfirst, -⟩ | ⟨err, hfirst, rfl⟩
        · exact absurd rfl (insertRecord_unsupported hnone hfirst).2
        · rw [(insertRecord_unsupported hnone hfirst).1]
          exact insertsFirst_none hne (by simp)

omit [Float64 F] in
theorem executeAll_undisturbed {dialect : Dialect} {statements : List (Statement F)}
    (h : (executeAll dialect statements).Trace trace result) (hquiet : Undisturbed trace) :
    result = .ok () := by
  induction statements generalizing trace with
  | nil => exact h.2
  | cons statement rest ih =>
    rcases trace_andThen.mp h with ⟨first, second, rfl, -, hrest⟩ | ⟨err, hfirst, -⟩
    · exact ih hrest fun done hdone => hquiet done (List.mem_append_right _ hdone)
    · obtain rfl := Prog.trace_perform.mp hfirst
      cases hquiet _ (List.mem_singleton_self _)

theorem insertBatch_chunks {config : SqlSinkConfig} {records : List (Row F)} {dialect : Dialect}
    (htwo : 1 < records.length) (htable : checkTable config = .ok ())
    (hfields : batchFields config records = .ok (columns config records))
    (hne : (columns config records).isEmpty = false) (hdialect : Dialect.ofUrl config.url = dialect) :
    insertBatch config records = andThen (perform .connect) (executeAll dialect
      ((chunks (subBatchSize (columns config records)) records).map
        (chunkStatement config.table (columns config records)))) := by
  unfold insertBatch
  split
  · exact absurd htwo (by simp)
  · exact absurd htwo (by simp)
  · rw [htable, hfields]
    dsimp only
    rw [if_neg (by simp [hne]), hdialect]

theorem insertBatch_undisturbed {config : SqlSinkConfig} {records : List (Row F)}
    (h : (insertBatch config records).Trace trace result) (hquiet : Undisturbed trace) :
    result = .ok () ↔ ∀ record ∈ records, Accepts config record := by
  have hone : ∀ {records : List (Row F)},
      (insertRecords config records).Trace trace result →
        (result = .ok () ↔ ∀ record ∈ records, Accepts config record) := fun h =>
    ⟨fun hresult => insertRecords_accepts (hresult ▸ h),
      fun haccepts => insertRecords_undisturbed haccepts h hquiet⟩
  unfold insertBatch at h
  split at h
  · exact hone h
  · rename_i record
    split at h
    · refine hone (trace_andThen.mpr ?_)
      cases result with
      | ok u => exact .inl ⟨trace, [], (List.append_nil _).symm, h, rfl, rfl⟩
      | error err => exact .inr ⟨err, h, rfl⟩
    · rename_i err htable
      refine iff_of_false (by simp [h.2]) fun haccepts => ?_
      have hok := (accepts_iff.mp (haccepts record (List.mem_singleton_self _))).1
      rw [htable] at hok
      cases hok
  · rename_i hnil hsingle
    have hne : records ≠ [] := hnil
    obtain ⟨record, hrecord⟩ := List.exists_mem_of_ne_nil records hne
    split at h
    · rename_i err htable
      refine iff_of_false (by simp [h.2]) fun haccepts => ?_
      have hok := (accepts_iff.mp (haccepts record hrecord)).1
      rw [htable] at hok
      cases hok
    · rename_i err htable hfields
      refine iff_of_false (by simp [h.2]) fun haccepts => ?_
      obtain ⟨fields, hok⟩ := (batchFields_ok_iff hne).mpr fun r hr =>
        (accepts_iff.mp (haccepts r hr)).2.1
      rw [hfields] at hok
      cases hok
    · rename_i fields htable hfields
      split at h
      · exact hone h
      split at h
      · rename_i dialect hdialect
        refine iff_of_true ?_ fun r hr => accepts_iff.mpr ⟨htable, ?_, by rw [hdialect]; rfl⟩
        · rcases trace_andThen.mp h with ⟨first, second, rfl, -, hrest⟩ | ⟨err, hfirst, -⟩
          · refine executeAll_undisturbed hrest fun done hdone => ?_
            exact hquiet done (List.mem_append_right _ hdone)
          · obtain rfl := Prog.trace_perform.mp hfirst
            cases hquiet _ (List.mem_singleton_self _)
        · exact (batchFields_ok_iff hne).mp ⟨fields, hfields⟩ r hr
      · exact hone h

/-- A batch inserts the rows of single inserts, up to NULLs in columns that only other records
have, and none of these if the columns are configured or the same; if it fails, the rows of
its first statements are there. It is rejected only if a record would be. -/
theorem insertBatch_spec {config : SqlSinkConfig} {records : List (Row F)}
    (h : (insertBatch config records).Trace trace result) :
    (result = .ok () → inserted trace = records.map (batchRow config records) ∧
      ∀ oneByOne, (insertRecords config records).Trace oneByOne (.ok ()) →
        List.Forall₂ Widens (inserted oneByOne) (inserted trace) ∧
        (config.fields.isEmpty = false ∨ SameColumns records →
          inserted oneByOne = inserted trace)) ∧
    (result ≠ .ok () → ∃ k < records.length, statementSize config records ∣ k ∧
      inserted trace = (records.take k).map (batchRow config records)) ∧
    (Undisturbed trace → (result = .ok () ↔
      ∃ oneByOne, (insertRecords config records).Trace oneByOne (.ok ()))) := by
  obtain ⟨k, hrows, hok, herr⟩ := insertBatch_inserts h
  refine ⟨fun hresult => ?_, fun hresult => ⟨k, (herr hresult).1, (herr hresult).2, hrows⟩,
    fun hquiet => ?_⟩
  · rw [hok hresult, List.take_length] at hrows
    refine ⟨hrows, fun oneByOne hone => ?_⟩
    obtain ⟨n, hrows', hall, -⟩ := insertRecords_inserts hone
    rw [hall rfl, List.take_length] at hrows'
    rw [hrows, hrows']
    refine ⟨?_, fun hsame => List.map_congr_left fun record hrecord => ?_⟩
    · rw [List.forall₂_map_left_iff, List.forall₂_map_right_iff, List.forall₂_same]
      exact fun record hrecord => recordRow_widens hrecord
    · exact recordRow_eq hrecord hsame
  · rw [insertBatch_undisturbed h hquiet]
    exact ⟨exists_insertRecords, fun ⟨_, hone⟩ => insertRecords_accepts hone⟩

theorem exists_half_inserted {config : SqlSinkConfig} {records : List (Row F)}
    {dialect : Dialect} (htable : checkTable config = .ok ())
    (hfields : batchFields config records = .ok (columns config records))
    (hne : (columns config records).isEmpty = false) (hdialect : Dialect.ofUrl config.url = dialect)
    (hlong : subBatchSize (columns config records) < records.length) :
    ∃ trace, (insertBatch config records).Trace trace (.error "connection lost") ∧
      inserted trace ≠ [] := by
  have hn := subBatchSize_pos (columns config records)
  have hrecords : records ≠ [] := List.ne_nil_of_length_pos (by omega)
  have hrest : records.drop (subBatchSize (columns config records)) ≠ [] := by
    simpa using hlong
  rw [insertBatch_chunks (by omega) htable hfields hne hdialect, chunks_eq hn hrecords,
    chunks_eq hn hrest]
  refine ⟨_, trace_andThen.mpr (.inl ⟨[_], _, rfl, Prog.trace_perform.mpr rfl,
    trace_andThen.mpr (.inl ⟨[_], [_], rfl, Prog.trace_perform.mpr rfl,
      trace_andThen.mpr (.inr ⟨"connection lost", Prog.trace_perform.mpr rfl, rfl⟩)⟩)⟩), ?_⟩
  have hfirst := rows_chunkStatement config.table (columns config records)
    (records.take (subBatchSize (columns config records)))
  rw [inserted_append, inserted_append, inserted_connect, List.nil_append]
  refine List.append_ne_nil_of_left_ne_nil ?_ _
  refine (inserted_execute_ok dialect _).trans_ne ?_
  rw [hfirst]
  intro hnone
  exact (List.take_eq_nil_iff.mp (List.map_eq_nil_iff.mp hnone)).elim hn.ne' hrecords

end

def pumpSink : SqlSinkConfig where
  url := "sqlite:plant.db"
  table := "pumps"
  fields := ["id"]

def looseSink : SqlSinkConfig where
  url := "sqlite:plant.db"
  table := "pumps"
  fields := []

def pumpRecord (column : String) : Row ℚ := AList.insert column (.number (.int 1)) ∅

theorem pumps_inserted :
    ∃ trace, (insertBatch pumpSink [pumpRecord "id", pumpRecord "flow"]).Trace trace (.ok ()) ∧
      inserted trace = [("pumps", [("id", .bound (.int 1))]), ("pumps", [("id", .null)])] := by
  have htrace : ∃ trace,
      (insertBatch pumpSink [pumpRecord "id", pumpRecord "flow"]).Trace trace (.ok ()) := by
    rw [@insertBatch_chunks _ _ _ _ .sqlite (by decide) rfl rfl rfl rfl]
    exact ⟨_, trace_andThen.mpr (.inl ⟨[_], _, rfl, Prog.trace_perform.mpr rfl,
      trace_andThen.mpr (.inl ⟨[_], [], rfl, Prog.trace_perform.mpr rfl, rfl, rfl⟩)⟩)⟩
  obtain ⟨trace, htrace⟩ := htrace
  exact ⟨trace, htrace, ((insertBatch_spec htrace).1 rfl).1⟩

/-- A record gets a NULL in the column of another one, and a batch that fails has inserted its
first 256 records. -/
theorem batch_is_not_one_by_one :
    (∃ batch oneByOne,
      (insertBatch looseSink [pumpRecord "id", pumpRecord "flow"]).Trace batch (.ok ()) ∧
      (insertRecords looseSink [pumpRecord "id", pumpRecord "flow"]).Trace oneByOne (.ok ()) ∧
      inserted batch ≠ inserted oneByOne) ∧
    ∃ trace, (insertBatch pumpSink (List.replicate 257 (pumpRecord "id"))).Trace trace
      (.error "connection lost") ∧ inserted trace ≠ [] := by
  constructor
  · have hbatch : ∃ trace,
        (insertBatch looseSink [pumpRecord "id", pumpRecord "flow"]).Trace trace (.ok ()) := by
      rw [@insertBatch_chunks _ _ _ _ .sqlite (by decide) rfl rfl rfl rfl]
      exact ⟨_, trace_andThen.mpr (.inl ⟨[_], _, rfl, Prog.trace_perform.mpr rfl,
        trace_andThen.mpr (.inl ⟨[_], [], rfl, Prog.trace_perform.mpr rfl, rfl, rfl⟩)⟩)⟩
    obtain ⟨batch, hbatch⟩ := hbatch
    have haccepts : ∀ record ∈ [pumpRecord "id", pumpRecord "flow"], Accepts looseSink record := by
      refine List.forall_mem_cons.mpr ⟨⟨_, rfl⟩, List.forall_mem_singleton.mpr ⟨_, rfl⟩⟩
    obtain ⟨oneByOne, hone⟩ := exists_insertRecords haccepts
    refine ⟨batch, oneByOne, hbatch, hone, fun heq => ?_⟩
    obtain ⟨k, hrows, hok, -⟩ := insertBatch_inserts hbatch
    obtain ⟨n, hrows', hok', -⟩ := insertRecords_inserts hone
    rw [hrows, hrows', hok rfl, hok' rfl, List.take_length] at heq
    have hlengths := congrArg (List.map fun row => row.2.length) heq
    revert hlengths
    decide
  · refine @exists_half_inserted _ _ _ _ .sqlite rfl rfl rfl rfl ?_
    rw [List.length_replicate]
    decide

end Rekuiper.Connectors
