import Mathlib.Data.List.Dedup
import Mathlib.Data.List.ReduceOption
import Rekuiper.Connectors.Iotdb

/-!
# Cells of IoTDB tablets

The tablets of a batch have the cells of the tablets of its records, up to those whose type is
not that of the first value in their column.
-/

namespace Rekuiper.Connectors.Iotdb

open Lib

section

variable {F : Type} {config : IotdbConfig} {calls : Calls F} {record : Row F}
  {rows : List (Int × Row F)} {cell : Cell F}

-- ---- Columns

/-- A measurement that the sink writes where a record has it. -/
def IotdbConfig.Writes (config : IotdbConfig) (m : String) : Prop :=
  match config.measurements with
  | some list => m ∈ list ∧ m ≠ config.tsFieldName
  | none => config.writesKey m = true

theorem writes_some {list : List String} (h : config.measurements = some list) {m : String} :
    config.Writes m ↔ m ∈ list ∧ m ≠ config.tsFieldName := by
  simp [IotdbConfig.Writes, h]

theorem writes_none (h : config.measurements = none) {m : String} :
    config.Writes m ↔ config.writesKey m = true := by
  simp [IotdbConfig.Writes, h]

theorem present_eq_some {m : String} {v : Value F} (h : present record m = some v) :
    record.lookup m = some v ∧ v.isNull = false := by
  simpa [present, Option.filter_eq_some_iff] using h

theorem mem_keys_of_present {m : String} {v : Value F} (h : present record m = some v) :
    m ∈ record.keys :=
  AList.mem_keys.mpr (AList.lookup_isSome.mp (by simp [(present_eq_some h).1]))

theorem measured_eq_ok {m : String} {cell : Option (String × Value F)}
    (h : measured record m = .ok cell) : cell = (present record m).map fun v => (m, v) := by
  unfold measured at h
  split at h
  · exact (Except.ok.inj h).symm
  · cases h

theorem mem_columns {columns : List (String × Value F)} (h : config.columns record = .ok columns)
    {m : String} {v : Value F} : (m, v) ∈ columns ↔ config.Writes m ∧ present record m = some v := by
  unfold IotdbConfig.columns at h
  split at h
  · next list hlist =>
    obtain ⟨cells, hcells, hcolumns⟩ := bind_eq_ok h
    have hmap : (list.filter (· != config.tsFieldName)).mapM (measured record) = .ok
        ((list.filter (· != config.tsFieldName)).map fun m => (present record m).map (m, ·)) :=
      mapM_ok fun m hm => by
        obtain ⟨cell, hcell⟩ := ok_of_mapM hcells m hm
        rw [hcell, measured_eq_ok hcell]
    obtain rfl := Except.ok.inj (hcells.symm.trans hmap)
    obtain rfl := Except.ok.inj hcolumns
    rw [writes_some hlist]
    simp [List.reduceOption, List.mem_filterMap]
  · next hlist =>
    obtain rfl := Except.ok.inj h
    rw [writes_none hlist]
    simp only [List.mem_filterMap, mem_sortByKey, List.mem_filter, Option.map_eq_some_iff,
      Prod.mk.injEq]
    constructor
    · rintro ⟨k, ⟨-, hk⟩, v', hv', rfl, rfl⟩
      exact ⟨hk, hv'⟩
    · rintro ⟨hk, hv⟩
      exact ⟨m, ⟨mem_keys_of_present hv, hk⟩, v, hv, rfl, rfl⟩

theorem mem_candidates {row : Int × Row F} (hrow : row ∈ rows) {m : String} {v : Value F}
    (hv : present row.2 m = some v) : m ∈ config.candidates rows ↔ config.Writes m := by
  unfold IotdbConfig.candidates
  split
  · next hlist => simp [writes_some hlist]
  · next hlist =>
    have hkey : m ∈ rows.flatMap fun row => row.2.keys :=
      List.mem_flatMap.mpr ⟨row, hrow, mem_keys_of_present hv⟩
    rw [mem_sortByKey, List.mem_dedup, List.mem_filter, writes_none hlist, and_iff_right hkey]

-- ---- Tablets

theorem mem_cells {tablet : Tablet F} : cell ∈ tablet.cells ↔ tablet.deviceId = cell.device ∧
    ∃ values, (cell.measurement, values) ∈ tablet.measurements.zip tablet.values ∧
      (cell.timestamp, cell.value) ∈ tablet.timestamps.zip values ∧ cell.value.isNull = false := by
  obtain ⟨device, ts, m, v⟩ := cell
  simp only [Tablet.cells, List.mem_flatMap, List.mem_map, List.mem_filter, Prod.exists,
    Cell.mk.injEq]
  constructor
  · rintro ⟨m', values, hvalues, ts', v', ⟨hcell, hnull⟩, hdevice, rfl, rfl, rfl⟩
    exact ⟨hdevice, values, hvalues, hcell, by simpa using hnull⟩
  · rintro ⟨hdevice, values, hvalues, hcell, hnull⟩
    exact ⟨m, values, hvalues, ts, v, ⟨hcell, by simpa using hnull⟩, hdevice, rfl, rfl, rfl⟩

section

variable [Float64 F] {now : Int} {tablet : Tablet F}

theorem buildInsertPayload_ok (h : config.buildInsertPayload calls now record = .ok tablet) :
    trim (config.deviceOf calls record) ≠ "" ∧
      ∃ ts columns, config.resolveTimestamp calls now record = .ok ts ∧
        config.columns record = .ok columns ∧ tablet = {
          deviceId := config.deviceOf calls record
          isAligned := false
          timestamps := [ts]
          measurements := columns.map Prod.fst
          dataTypes := columns.map fun column => inferDataType column.2
          values := columns.map fun column => [column.2] } := by
  unfold IotdbConfig.buildInsertPayload at h
  split at h
  · cases h
  split at h
  · cases h
  next hdevice =>
  obtain ⟨ts, hts, h⟩ := bind_eq_ok h
  obtain ⟨columns, hcolumns, h⟩ := bind_eq_ok h
  split at h
  · cases h
  exact ⟨hdevice, ts, columns, hts, hcolumns, (Except.ok.inj h).symm⟩

theorem mem_cells_single (h : config.buildInsertPayload calls now record = .ok tablet) :
    cell ∈ tablet.cells ↔ config.deviceOf calls record = cell.device ∧
      config.resolveTimestamp calls now record = .ok cell.timestamp ∧
      config.Writes cell.measurement ∧ present record cell.measurement = some cell.value := by
  obtain ⟨-, ts, columns, hts, hcolumns, rfl⟩ := buildInsertPayload_ok h
  rw [mem_cells, hts, ← mem_columns hcolumns, List.zip_map', and_congr_right_iff]
  intro
  constructor
  · rintro ⟨values, hvalues, hcell, -⟩
    obtain ⟨⟨m, v⟩, hmem, heq⟩ := List.mem_map.mp hvalues
    obtain ⟨rfl, rfl⟩ := Prod.mk.inj heq
    obtain ⟨rfl, rfl⟩ := Prod.mk.inj (List.mem_singleton.mp hcell)
    exact ⟨rfl, hmem⟩
  · rintro ⟨hts, hmem⟩
    obtain rfl := Except.ok.inj hts
    exact ⟨[cell.value], List.mem_map.mpr ⟨_, hmem, rfl⟩, List.mem_singleton.mpr rfl,
      (present_eq_some ((mem_columns hcolumns).mp hmem).2).2⟩

end

theorem typedCell_eq_iff {dataType m : String} {v : Value F} (hv : v.isNull = false) :
    typedCell dataType m record = v ↔ present record m = some v ∧ inferDataType v = dataType := by
  have hne : Value.null ≠ v := by
    rintro rfl
    cases hv
  unfold typedCell
  split
  · next w hw =>
    rw [hw]
    split
    · next htype =>
      rw [Option.some.injEq, iff_self_and]
      exact fun h => h ▸ htype
    · next htype =>
      refine iff_of_false hne ?_
      rintro ⟨hsome, hv⟩
      obtain rfl := Option.some.inj hsome
      exact htype hv
  · next hnone =>
    rw [hnone]
    exact iff_of_false hne fun h => nomatch h.1

theorem mem_batchColumns {c : String × String × List (Value F)} :
    c ∈ config.batchColumns rows ↔
      ∃ m ∈ config.candidates rows, ∃ val, firstNonNull rows m = some val ∧
        (m, inferDataType val, rows.map fun row => typedCell (inferDataType val) m row.2) = c := by
  simp [IotdbConfig.batchColumns, column, List.mem_filterMap]

theorem mem_cells_batch {device : String} :
    (∃ tablet, config.batchTablet (device, rows) = some tablet ∧ cell ∈ tablet.cells) ↔
      device = cell.device ∧ config.Writes cell.measurement ∧
        (∃ record, (cell.timestamp, record) ∈ rows ∧
          present record cell.measurement = some cell.value) ∧
        (firstNonNull rows cell.measurement).map inferDataType = some (inferDataType cell.value) := by
  constructor
  · rintro ⟨tablet, htablet, hcell⟩
    unfold IotdbConfig.batchTablet at htablet
    split at htablet
    · cases htablet
    obtain rfl := Option.some.inj htablet
    obtain ⟨hdevice, values, hvalues, hcell, hnull⟩ := mem_cells.mp hcell
    rw [List.zip_map'] at hvalues
    obtain ⟨c, hc, heq⟩ := List.mem_map.mp hvalues
    obtain ⟨m, hm, val, hval, rfl⟩ := mem_batchColumns.mp hc
    obtain ⟨rfl, rfl⟩ := Prod.mk.inj heq
    rw [List.zip_map'] at hcell
    obtain ⟨row, hrow, heq⟩ := List.mem_map.mp hcell
    obtain ⟨hts, hv⟩ := Prod.mk.inj heq
    obtain ⟨hv, htype⟩ := (typedCell_eq_iff hnull).mp hv
    refine ⟨hdevice, (mem_candidates hrow hv).mp hm, ⟨row.2, hts ▸ hrow, hv⟩, ?_⟩
    rw [hval, Option.map_some, htype]
  · rintro ⟨hdevice, hwrites, ⟨record, hrow, hv⟩, htype⟩
    obtain ⟨val, hval, htype⟩ := Option.map_eq_some_iff.mp htype
    have hnull := (present_eq_some hv).2
    have hc := mem_batchColumns.mpr ⟨_, (mem_candidates hrow hv).mpr hwrites, val, hval, rfl⟩
    refine ⟨_, if_neg (by simpa using List.ne_nil_of_mem hc), ?_⟩
    rw [mem_cells, List.zip_map']
    refine ⟨hdevice, _, List.mem_map.mpr ⟨_, hc, rfl⟩, ?_, hnull⟩
    rw [List.zip_map']
    refine List.mem_map.mpr ⟨_, hrow, Prod.ext rfl ?_⟩
    exact (typedCell_eq_iff hnull).mpr ⟨hv, htype.symm⟩

theorem batchTablet_shaped {batch : String × List (Int × Row F)} {tablet : Tablet F}
    (h : config.batchTablet batch = some tablet) : tablet.Shaped := by
  unfold IotdbConfig.batchTablet at h
  split at h
  · cases h
  obtain rfl := Option.some.inj h
  refine ⟨fun values hvalues => ?_, by simp, by simp⟩
  obtain ⟨c, hc, rfl⟩ := List.mem_map.mp hvalues
  obtain ⟨m, -, val, -, rfl⟩ := mem_batchColumns.mp hc
  simp

-- ---- Batches

section

variable [Float64 F]

def IotdbConfig.stamp (config : IotdbConfig) (calls : Calls F) (record : Row F) : Int :=
  (config.resolveTimestamp calls 0 record).toOption.getD 0

theorem resolveTimestamp_clock (h : config.tsFieldName ∈ record) (now now' : Int) :
    config.resolveTimestamp calls now record = config.resolveTimestamp calls now' record := by
  obtain ⟨v, hv⟩ := Option.isSome_iff_exists.mp (AList.lookup_isSome.mpr h)
  unfold IotdbConfig.resolveTimestamp
  rw [hv]
  cases v <;> rfl

/-- A record of which a tablet can be made, with a timestamp of its own. -/
def IotdbConfig.Writable (config : IotdbConfig) (calls : Calls F) (now : Int) (record : Row F) :
    Prop :=
  config.tsFieldName ∈ record ∧ ∃ tablet, config.buildInsertPayload calls now record = .ok tablet

variable {now : Int}

theorem resolveTimestamp_stamp (h : config.Writable calls now record) (now' : Int) :
    config.resolveTimestamp calls now' record = .ok (config.stamp calls record) := by
  obtain ⟨hmem, tablet, htablet⟩ := h
  obtain ⟨-, ts, -, hts, -, -⟩ := buildInsertPayload_ok htablet
  have hany := fun now' => (resolveTimestamp_clock hmem now' now).trans hts
  rw [hany, IotdbConfig.stamp, hany]
  rfl

theorem addRecord_eq (h : config.Writable calls now record) (now' : Int)
    (batches : List (String × List (Int × Row F))) :
    config.addRecord calls now' batches record = .ok (put (config.deviceOf calls record)
      ((batches.lookup (config.deviceOf calls record)).getD [] ++ [(config.stamp calls record, record)])
      batches) := by
  obtain ⟨-, tablet, htablet⟩ := id h
  rw [IotdbConfig.addRecord, if_neg (buildInsertPayload_ok htablet).1, resolveTimestamp_stamp h]
  rfl

theorem deviceBatches_eq {records : List (Row F)} (clock : Nat → Int)
    (h : ∀ record ∈ records, config.Writable calls now record) :
    config.deviceBatches calls clock records = .ok
      (groupOn (fun row => config.deviceOf calls row.2)
        (records.map fun record => (config.stamp calls record, record))) := by
  have hstep : ∀ batches, ∀ x ∈ records.zipIdx,
      config.addRecord calls (clock x.2) batches x.1 = .ok (put (config.deviceOf calls x.1)
        ((batches.lookup (config.deviceOf calls x.1)).getD [] ++ [(config.stamp calls x.1, x.1)])
        batches) := fun batches x hx =>
    addRecord_eq (h x.1 (List.fst_mem_of_mem_zipIdx hx)) (clock x.2) batches
  refine (foldlM_ok hstep).trans (congrArg Except.ok ?_)
  conv_rhs => rw [← List.zipIdx_map_fst 0 records]
  rw [groupOn, List.map_map, List.foldl_map]
  rfl

/-- The type of a column: that of the first value of the measurement among the records of the
device. -/
def IotdbConfig.columnType (config : IotdbConfig) (calls : Calls F) (records : List (Row F))
    (device m : String) : Option String :=
  ((records.filter fun record => config.deviceOf calls record = device).findSome? (present · m)).map
    inferDataType

def IotdbConfig.stampedRows (config : IotdbConfig) (calls : Calls F) (records : List (Row F)) :
    List (Int × Row F) :=
  records.map fun record => (config.stamp calls record, record)

theorem columnType_eq {records : List (Row F)} (device m : String) :
    (firstNonNull ((config.stampedRows calls records).filter fun row =>
      config.deviceOf calls row.2 = device) m).map inferDataType =
        config.columnType calls records device m := by
  simp [firstNonNull, IotdbConfig.stampedRows, IotdbConfig.columnType, List.filter_map,
    List.findSome?_map, Function.comp_def]

/-- A batch of records that can be written one by one is written in well-shaped tablets, and their
cells are those of the single tablets that have the type of their column. -/
theorem batch_cells (config : IotdbConfig) (calls : Calls F) (now : Int) (clock : Nat → Int)
    {records : List (Row F)} (h : ∀ record ∈ records, config.Writable calls now record) :
    ∃ tablets, config.buildBatchInsertPayloads calls clock records = .ok tablets ∧
      (∀ tablet ∈ tablets, tablet.Shaped) ∧
      ∀ cell, (∃ tablet ∈ tablets, cell ∈ tablet.cells) ↔
        (∃ record ∈ records, ∃ tablet, config.buildInsertPayload calls now record = .ok tablet ∧
          cell ∈ tablet.cells) ∧
        config.columnType calls records cell.device cell.measurement =
          some (inferDataType cell.value) := by
  have hbatches := deviceBatches_eq clock h
  refine ⟨(groupOn (fun row => config.deviceOf calls row.2) (config.stampedRows calls records)).filterMap
    config.batchTablet, ?_, ?_, fun cell => ⟨?_, ?_⟩⟩
  · rw [IotdbConfig.buildBatchInsertPayloads, hbatches]
    rfl
  · intro tablet htablet
    obtain ⟨batch, -, hbatch⟩ := List.mem_filterMap.mp htablet
    exact batchTablet_shaped hbatch
  · rintro ⟨tablet, htablet, hcell⟩
    obtain ⟨⟨device, rows⟩, hrows, hbatch⟩ := List.mem_filterMap.mp htablet
    obtain ⟨rfl, hwrites, ⟨record, hrow, hv⟩, htype⟩ :=
      mem_cells_batch.mp ⟨tablet, hbatch, hcell⟩
    rw [group_eq_filter hrows] at hrow htype
    obtain ⟨hrow, hdevice⟩ := List.mem_filter.mp hrow
    obtain ⟨record, hrecord, heq⟩ := List.mem_map.mp hrow
    obtain ⟨hts, rfl⟩ := Prod.mk.inj heq
    obtain ⟨single, hsingle⟩ := (h record hrecord).2
    refine ⟨⟨record, hrecord, single, hsingle, (mem_cells_single hsingle).mpr ?_⟩, ?_⟩
    · refine ⟨of_decide_eq_true hdevice, ?_, hwrites, hv⟩
      rw [resolveTimestamp_stamp (h record hrecord), hts]
    · exact (columnType_eq _ _).symm.trans htype
  · rintro ⟨⟨record, hrecord, single, hsingle, hcell⟩, htype⟩
    obtain ⟨hdevice, hts, hwrites, hv⟩ := (mem_cells_single hsingle).mp hcell
    rw [resolveTimestamp_stamp (h record hrecord), Except.ok.injEq] at hts
    have hrow : (cell.timestamp, record) ∈ config.stampedRows calls records :=
      List.mem_map.mpr ⟨record, hrecord, by rw [hts]⟩
    obtain ⟨rows, hrows, hmem⟩ := exists_group (fun row => config.deviceOf calls row.2) hrow
    obtain ⟨tablet, htablet, hcell⟩ := (@mem_cells_batch F config rows cell _).mpr
      ⟨hdevice, hwrites, ⟨record, hmem, hv⟩, by
        rw [group_eq_filter hrows, columnType_eq, hdevice, htype]⟩
    exact ⟨tablet, List.mem_filterMap.mpr ⟨_, hrows, htablet⟩, hcell⟩

end

end

def speedConfig : IotdbConfig := ⟨"d1", some ["speed"], "ts"⟩

def plainCalls : Calls ℚ := ⟨fun text _ => text, fun _ => ""⟩

def speedRecord (ts : Int) (speed : Value ℚ) : Row ℚ :=
  (AList.insert "speed" speed ∅).insert "ts" (.number (.int ts))

theorem speeds_kept :
    ∃ tablets, speedConfig.buildBatchInsertPayloads plainCalls (fun _ => 0)
        [speedRecord 1000 (.number (.int 120)), speedRecord 2000 (.number (.int 135))] = .ok tablets ∧
      (∀ tablet ∈ tablets, tablet.Shaped) ∧
      ∀ cell, (∃ tablet ∈ tablets, cell ∈ tablet.cells) ↔
        (∃ record ∈ [speedRecord 1000 (.number (.int 120)), speedRecord 2000 (.number (.int 135))],
          ∃ tablet, speedConfig.buildInsertPayload plainCalls 0 record = .ok tablet ∧
            cell ∈ tablet.cells) ∧
        speedConfig.columnType plainCalls
            [speedRecord 1000 (.number (.int 120)), speedRecord 2000 (.number (.int 135))]
            cell.device cell.measurement = some (inferDataType cell.value) := by
  refine batch_cells speedConfig plainCalls 0 (fun _ => 0) fun record hrecord => ?_
  have hmem : ∀ ts v, "ts" ∈ speedRecord ts v := fun _ _ => (AList.mem_insert _).mpr (.inl rfl)
  rcases List.mem_pair.mp hrecord with rfl | rfl
  · exact ⟨hmem _ _, _, rfl⟩
  · exact ⟨hmem _ _, _, rfl⟩

/-- A text in a column of numbers is lost, and alone it is written. -/
theorem offline_lost :
    (∃ tablet, speedConfig.buildInsertPayload plainCalls 0 (speedRecord 2000 (.string "offline")) =
        .ok tablet ∧
      ⟨"d1", 2000, "speed", .string "offline"⟩ ∈ tablet.cells) ∧
    ∃ tablets, speedConfig.buildBatchInsertPayloads plainCalls (fun _ => 0)
        [speedRecord 1000 (.number (.int 120)), speedRecord 2000 (.string "offline")] = .ok tablets ∧
      ∀ tablet ∈ tablets, ⟨"d1", 2000, "speed", .string "offline"⟩ ∉ tablet.cells := by
  refine ⟨⟨_, rfl, List.mem_singleton.mpr rfl⟩, _, rfl, ?_⟩
  intro tablet htablet hcell
  obtain rfl := List.mem_singleton.mp htablet
  cases List.mem_singleton.mp hcell

end Rekuiper.Connectors.Iotdb
