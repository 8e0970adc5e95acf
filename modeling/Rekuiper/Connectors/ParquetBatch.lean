import Rekuiper.Connectors.Parquet
import Rekuiper.Lib.Groups

/-!
# What a batch brings back

The type of a column is a fold over the values under its name, and a row that is read from a
batch has each value as it comes through the type of its column.
-/

namespace Rekuiper.Connectors

open Lib
open Codecs (finiteNumber)

variable {F : Type}

-- ---- The types of columns

def noteType (t : Option DataType) (candidate : DataType) : Option DataType :=
  some ((t.map (mergeType · candidate)).getD candidate)

def candidates (records : List (Row F)) (k : String) : List DataType :=
  (records.filterMap (·.lookup k)).map candidateType

def typeOf (records : List (Row F)) (k : String) : Option DataType :=
  if isInternal k then none else (candidates records k).foldl noteType none

theorem lookup_noteField (types : HashMap String DataType) (k key : String) (v : Value F) :
    (noteField types key v).lookup k =
      if key = k ∧ isInternal k = false then noteType (types.lookup k) (candidateType v)
      else types.lookup k := by
  unfold noteField noteType
  by_cases hkey : key = k
  · subst hkey
    cases hinternal : isInternal key with
    | true => simp
    | false => simp [AList.lookup_insert]
  · rw [if_neg (c := key = k ∧ _) (fun h => hkey h.1)]
    split
    · rfl
    · exact AList.lookup_insert_ne (Ne.symm hkey)

theorem lookup_noteEntries (types : HashMap String DataType) (k : String)
    {entries : List (Sigma fun _ : String => Value F)} (hnodup : entries.NodupKeys) :
    (entries.foldl (fun types e => noteField types e.1 e.2) types).lookup k =
      if isInternal k then types.lookup k
      else ((entries.dlookup k).toList.map candidateType).foldl noteType (types.lookup k) := by
  induction entries generalizing types with
  | nil =>
    rw [List.dlookup_nil]
    exact (ite_self _).symm
  | cons e entries ih =>
    obtain ⟨key, v⟩ := e
    rw [List.nodupKeys_cons] at hnodup
    rw [List.foldl_cons, ih _ hnodup.2, lookup_noteField]
    by_cases hkey : key = k
    · subst hkey
      have hnone : entries.dlookup key = none := List.dlookup_eq_none.mpr hnodup.1
      rw [List.dlookup_cons_eq, hnone]
      cases isInternal key <;> simp
    · rw [List.dlookup_cons_ne _ _ (Ne.symm hkey), if_neg (c := key = k ∧ _) (fun h => hkey h.1)]

theorem lookup_fieldTypes (records : List (Row F)) (k : String) :
    (fieldTypes records).lookup k = typeOf records k := by
  have hfold : ∀ types : HashMap String DataType,
      (records.foldl (fun types r => r.entries.foldl (fun types e => noteField types e.1 e.2)
        types) types).lookup k =
        if isInternal k then types.lookup k
        else (candidates records k).foldl noteType (types.lookup k) := by
    induction records with
    | nil => exact fun types => (ite_self _).symm
    | cons r records ih =>
      intro types
      rw [List.foldl_cons, ih, lookup_noteEntries _ _ r.nodupKeys]
      cases isInternal k with
      | true => rfl
      | false =>
        have hcons : candidates (r :: records) k =
            (r.entries.dlookup k).toList.map candidateType ++ candidates records k := by
          unfold candidates
          change ((r :: records).filterMap (·.lookup k)).map _ = (r.lookup k).toList.map _ ++ _
          rw [List.filterMap_cons]
          cases r.lookup k <;> rfl
        rw [hcons, List.foldl_append]
        rfl
  rw [fieldTypes, hfold, AList.lookup_empty]
  rfl

theorem mem_sortedTypes {records : List (Row F)} {k : String} {dt : DataType} :
    (k, dt) ∈ sortedTypes records ↔ typeOf records k = some dt := by
  rw [sortedTypes, mem_sortByKey, ← lookup_fieldTypes, List.mem_map, ← Option.mem_def,
    AList.mem_lookup_iff]
  constructor
  · rintro ⟨⟨key, t⟩, hmem, heq⟩
    cases heq
    exact hmem
  · exact fun hmem => ⟨⟨k, dt⟩, hmem, rfl⟩

theorem nodup_sortedTypes (records : List (Row F)) :
    ((sortedTypes records).map Prod.fst).Nodup := by
  rw [sortedTypes, ((sortByKey_perm _).map _).nodup_iff, List.map_map]
  exact AList.keys_nodup (fieldTypes records)

theorem lookup_sortedTypes (records : List (Row F)) (k : String) :
    (sortedTypes records).lookup k = typeOf records k := by
  cases htype : typeOf records k with
  | some dt => exact Lib.lookup_of_mem (nodup_sortedTypes records) (mem_sortedTypes.mpr htype)
  | none =>
    refine List.lookup_eq_none_iff.mpr fun e he => bne_iff_ne.mpr ?_
    rintro rfl
    have hsome : typeOf records e.1 = some e.2 := mem_sortedTypes.mp he
    rw [htype] at hsome
    cases hsome

def HasColumn (records : List (Row F)) : Prop :=
  ∃ r ∈ records, ∃ k v, r.lookup k = some v ∧ isInternal k = false

theorem foldl_noteType_ne_none (ts : List DataType) (t : DataType) :
    ts.foldl noteType (some t) ≠ none := by
  induction ts generalizing t with
  | nil => simp
  | cons c ts ih => exact ih _

theorem typeOf_ne_none_iff {records : List (Row F)} {k : String} :
    typeOf records k ≠ none ↔ isInternal k = false ∧ ∃ r ∈ records, ∃ v, r.lookup k = some v := by
  unfold typeOf
  cases hinternal : isInternal k with
  | true => simp
  | false =>
    rw [if_neg (by simp)]
    constructor
    · intro h
      refine ⟨rfl, ?_⟩
      cases hvalues : records.filterMap (·.lookup k) with
      | nil =>
        rw [candidates, hvalues] at h
        exact absurd rfl h
      | cons v rest =>
        have hmem : v ∈ records.filterMap (·.lookup k) := by simp [hvalues]
        obtain ⟨r, hr, hv⟩ := List.mem_filterMap.mp hmem
        exact ⟨r, hr, v, hv⟩
    · rintro ⟨-, r, hr, v, hv⟩
      have hmem : v ∈ records.filterMap (·.lookup k) := List.mem_filterMap.mpr ⟨r, hr, hv⟩
      obtain ⟨first, rest, heq⟩ := List.exists_cons_of_ne_nil (List.ne_nil_of_mem hmem)
      rw [candidates, heq]
      exact foldl_noteType_ne_none _ _

/-- A column of type `t` also has room for the values of a column of type `c`. -/
def WidensTo (c t : DataType) : Prop := t = c ∨ t = .utf8 ∨ c = .int64 ∧ t = .float64

theorem WidensTo.trans {a b c : DataType} (hab : WidensTo a b) (hbc : WidensTo b c) :
    WidensTo a c := by
  unfold WidensTo at *
  cases a <;> cases b <;> cases c <;> simp_all

theorem widensTo_mergeType (existing candidate : DataType) :
    WidensTo existing (mergeType existing candidate) ∧
      WidensTo candidate (mergeType existing candidate) := by
  unfold WidensTo
  cases existing <;> cases candidate <;> decide

theorem foldl_noteType_widens (ts : List DataType) (t : DataType) :
    ∃ t', ts.foldl noteType (some t) = some t' ∧ WidensTo t t' ∧ ∀ c ∈ ts, WidensTo c t' := by
  induction ts generalizing t with
  | nil => exact ⟨t, rfl, .inl rfl, fun c hc => nomatch hc⟩
  | cons c ts ih =>
    obtain ⟨hleft, hright⟩ := widensTo_mergeType t c
    obtain ⟨t', hfold, hwidens, hall⟩ := ih (mergeType t c)
    exact ⟨t', hfold, hleft.trans hwidens,
      List.forall_mem_cons.mpr ⟨hright.trans hwidens, hall⟩⟩

theorem mem_candidates {records : List (Row F)} {k : String} {c : DataType} :
    c ∈ candidates records k ↔ ∃ r ∈ records, ∃ v, r.lookup k = some v ∧ candidateType v = c := by
  constructor
  · intro h
    obtain ⟨v, hv, rfl⟩ := List.mem_map.mp h
    obtain ⟨r, hr, hlookup⟩ := List.mem_filterMap.mp hv
    exact ⟨r, hr, v, hlookup, rfl⟩
  · rintro ⟨r, hr, v, hlookup, rfl⟩
    exact List.mem_map_of_mem (List.mem_filterMap.mpr ⟨r, hr, hlookup⟩)

theorem typeOf_widens {records : List (Row F)} {r : Row F} {k : String} {v : Value F}
    (hr : r ∈ records) (hv : r.lookup k = some v) (hplain : isInternal k = false) :
    ∃ t, typeOf records k = some t ∧ WidensTo (candidateType v) t := by
  have hmem : candidateType v ∈ candidates records k := mem_candidates.mpr ⟨r, hr, v, hv, rfl⟩
  unfold typeOf
  rw [hplain]
  cases hall : candidates records k with
  | nil =>
    rw [hall] at hmem
    cases hmem
  | cons c ts =>
    rw [hall] at hmem
    obtain ⟨t, hfold, hc, hts⟩ := foldl_noteType_widens ts c
    refine ⟨t, hfold, ?_⟩
    rcases List.mem_cons.mp hmem with heq | hrest
    · exact heq ▸ hc
    · exact hts _ hrest

theorem foldl_noteType_same {ts : List DataType} {t : DataType} (h : ∀ c ∈ ts, c = t) :
    ts.foldl noteType (some t) = some t := by
  induction ts with
  | nil => rfl
  | cons c ts ih =>
    obtain ⟨rfl, hts⟩ := List.forall_mem_cons.mp h
    have hmerge : mergeType c c = c := by cases c <;> rfl
    rw [List.foldl_cons, noteType, Option.map_some, Option.getD_some, hmerge]
    exact ih hts

theorem typeOf_same {records : List (Row F)} {k : String} {t : DataType}
    (hplain : isInternal k = false)
    (hsome : ∃ r ∈ records, ∃ v, r.lookup k = some v)
    (hall : ∀ r ∈ records, ∀ v, r.lookup k = some v → candidateType v = t) :
    typeOf records k = some t := by
  obtain ⟨r, hr, v, hv⟩ := hsome
  have hmem : candidateType v ∈ candidates records k := mem_candidates.mpr ⟨r, hr, v, hv, rfl⟩
  have hsame : ∀ c ∈ candidates records k, c = t := by
    intro c hc
    obtain ⟨r', hr', v', hv', rfl⟩ := mem_candidates.mp hc
    exact hall r' hr' v' hv'
  unfold typeOf
  rw [hplain]
  cases hcandidates : candidates records k with
  | nil =>
    rw [hcandidates] at hmem
    cases hmem
  | cons c ts =>
    rw [hcandidates] at hsame
    obtain ⟨rfl, hts⟩ := List.forall_mem_cons.mp hsame
    exact foldl_noteType_same hts

-- ---- Values through a column

section

variable [Float64 F]

def through (json : JsonTexts F) (v : Option (Value F)) : DataType → Option (Value F)
  | .boolean => (booleanCell v).map .bool
  | .int64 => (int64Cell v).map fun n => .number (.int n.toInt)
  | .float64 => (float64Cell v).bind finiteNumber
  | .utf8 => (utf8Cell json v).map (textValue json)

/-- What a record has under a key when it is read back from a batch of `records`. -/
def codedValue (json : JsonTexts F) (records : List (Row F)) (r : Row F) (k : String) :
    Option (Value F) :=
  (typeOf records k).bind (through json (r.lookup k))

/-- A row that is read back for a record of `records`. -/
def Coded (json : JsonTexts F) (records : List (Row F)) (r row : Row F) : Prop :=
  ∀ k, row.lookup k = codedValue json records r k

@[simp] theorem through_none (json : JsonTexts F) (t : DataType) : through json none t = none := by
  cases t <;> rfl

omit [Float64 F] in
theorem textValue_cases (json : JsonTexts F) (s : String) :
    textValue json s = .string s ∨ (∃ items, textValue json s = .array items) ∨
      ∃ fields, textValue json s = .object fields := by
  unfold textValue
  split
  · exact .inr (.inr ⟨_, rfl⟩)
  · exact .inr (.inl ⟨_, rfl⟩)
  · exact .inl rfl

theorem candidateType_through {json : JsonTexts F} {v : Option (Value F)} {w : Value F}
    {t : DataType} (h : through json v t = some w) : candidateType w = t := by
  cases t with
  | boolean =>
    obtain ⟨b, -, rfl⟩ := Option.map_eq_some_iff.mp h
    rfl
  | int64 =>
    obtain ⟨n, -, rfl⟩ := Option.map_eq_some_iff.mp h
    rfl
  | float64 =>
    obtain ⟨f, -, hf⟩ := Option.bind_eq_some_iff.mp h
    unfold finiteNumber at hf
    split at hf
    · cases hf
      rfl
    · cases hf
  | utf8 =>
    obtain ⟨s, -, rfl⟩ := Option.map_eq_some_iff.mp h
    rcases textValue_cases json s with heq | ⟨_, heq⟩ | ⟨_, heq⟩ <;> rw [heq] <;> rfl

theorem value_buildColumn (json : JsonTexts F) (values : List (Option (Value F)))
    (dt : DataType) {i : Nat} {v : Option (Value F)} (hv : values[i]? = some v) :
    (buildColumn json values dt).value json i = through json v dt := by
  cases dt <;> simp [buildColumn, Column.value, through, hv]

theorem lookup_foldl_insertCell {json : JsonTexts F} {fields : List (String × Column F)}
    (hnodup : (fields.map Prod.fst).Nodup) (i : Nat) (k : String) (rowData : Row F)
    (hnew : ∀ f ∈ fields, rowData.lookup f.1 = none) :
    (fields.foldl (insertCell json i) rowData).lookup k =
      ((fields.lookup k).map (·.value json i)).getD (rowData.lookup k) := by
  induction fields generalizing rowData with
  | nil => rfl
  | cons f fields ih =>
    obtain ⟨name, col⟩ := f
    rw [List.map_cons, List.nodup_cons] at hnodup
    obtain ⟨hname, hrest⟩ := List.forall_mem_cons.mp hnew
    have hother : ∀ f ∈ fields, f.1 ≠ name := by
      intro f hf heq
      exact hnodup.1 (List.mem_map.mpr ⟨f, hf, heq⟩)
    have hnone : fields.lookup name = none :=
      List.lookup_eq_none_iff.mpr fun f hf => bne_iff_ne.mpr (hother f hf).symm
    rw [List.foldl_cons, List.lookup_cons, insertCell]
    cases hvalue : col.value json i with
    | none =>
      dsimp only
      rw [ih hnodup.2 _ hrest]
      by_cases hk : k = name
      · subst hk
        rw [hnone, beq_self_eq_true, Option.map_some, hvalue]
        exact hname
      · rw [beq_false_of_ne hk]
    | some v =>
      dsimp only
      rw [ih hnodup.2 _ fun f hf => (AList.lookup_insert_ne (hother f hf)).trans (hrest f hf)]
      by_cases hk : k = name
      · subst hk
        rw [hnone, beq_self_eq_true, Option.map_some, hvalue]
        exact AList.lookup_insert _
      · rw [beq_false_of_ne hk, AList.lookup_insert_ne hk]

theorem RecordBatch.lookup_row {json : JsonTexts F} {batch : RecordBatch F}
    (hnodup : (batch.fields.map Prod.fst).Nodup) (i : Nat) (k : String) :
    (batch.row json i).lookup k = (batch.fields.lookup k).bind (·.value json i) := by
  refine (lookup_foldl_insertCell hnodup i k ∅ fun _ _ => AList.lookup_empty _).trans ?_
  cases batch.fields.lookup k <;> rfl

theorem recordsToRecordBatch_ok_iff {json : JsonTexts F} {records : List (Row F)} :
    (∃ batch, recordsToRecordBatch json records = .ok batch) ↔ HasColumn records := by
  unfold recordsToRecordBatch
  by_cases hempty : (sortedTypes records).isEmpty
  · rw [if_pos hempty]
    refine iff_of_false (fun ⟨_, h⟩ => (nomatch h)) ?_
    rintro ⟨r, hr, k, v, hv, hplain⟩
    obtain ⟨dt, hdt⟩ := Option.ne_none_iff_exists'.mp (typeOf_ne_none_iff.mpr ⟨hplain, r, hr, v, hv⟩)
    have hmem := mem_sortedTypes.mpr hdt
    rw [List.isEmpty_iff.mp hempty] at hmem
    cases hmem
  · rw [if_neg hempty]
    refine iff_of_true ⟨_, rfl⟩ ?_
    obtain ⟨⟨k, dt⟩, hmem⟩ := List.exists_mem_of_ne_nil _ (mt List.isEmpty_iff.mpr hempty)
    have hsome : typeOf records k ≠ none := by
      rw [mem_sortedTypes.mp hmem]
      simp
    obtain ⟨hplain, r, hr, v, hv⟩ := typeOf_ne_none_iff.mp hsome
    exact ⟨r, hr, k, v, hv, hplain⟩

theorem schema_of_batch {json : JsonTexts F} {records : List (Row F)} {batch : RecordBatch F}
    (h : recordsToRecordBatch json records = .ok batch) :
    batch.schema = sortedTypes records := by
  unfold recordsToRecordBatch at h
  split at h
  · cases h
  cases h
  unfold RecordBatch.schema
  rw [List.map_map]
  refine (List.map_congr_left fun e _ => ?_).trans (List.map_id _)
  obtain ⟨name, dt⟩ := e
  cases dt <;> rfl

theorem typeOf_of_schema {json : JsonTexts F} {records records' : List (Row F)}
    {batch batch' : RecordBatch F} (h : recordsToRecordBatch json records = .ok batch)
    (h' : recordsToRecordBatch json records' = .ok batch') (hschema : batch.schema = batch'.schema)
    (k : String) : typeOf records k = typeOf records' k := by
  rw [← lookup_sortedTypes, ← lookup_sortedTypes, ← schema_of_batch h, ← schema_of_batch h',
    hschema]

theorem records_coded {json : JsonTexts F} {records : List (Row F)} {batch : RecordBatch F}
    (h : recordsToRecordBatch json records = .ok batch) :
    List.Forall₂ (Coded json records) records (recordBatchToRecords json batch) := by
  unfold recordsToRecordBatch at h
  split at h
  · cases h
  cases h
  rw [List.forall₂_iff_get]
  refine ⟨by simp [recordBatchToRecords], fun i hi hi' k => ?_⟩
  have hget : records[i]? = some records[i] := List.getElem?_eq_getElem hi
  rw [List.get_eq_getElem, List.get_eq_getElem]
  unfold recordBatchToRecords
  rw [List.getElem_map, List.getElem_range, RecordBatch.lookup_row]
  · change (((sortedTypes records).map fun e => (e.1, buildColumn json (records.map (·.lookup e.1))
      e.2)).lookup k).bind _ = _
    rw [Lib.lookup_mapKeyed (fun name => buildColumn json (records.map (·.lookup name))),
      lookup_sortedTypes, Option.bind_map]
    have hvalue : (records.map (·.lookup k))[i]? = some (records[i].lookup k) := by
      rw [List.getElem?_map, hget, Option.map_some]
    exact congrArg _ (funext fun dt => value_buildColumn json _ dt hvalue)
  · rw [List.map_map]
    exact nodup_sortedTypes records

end

end Rekuiper.Connectors
