import Mathlib.Data.List.Induction
import Rekuiper.Codecs.Fields
import Rekuiper.Sql.Aggregate

/-!
# The values that sinks send

`format_record_for_sink` picks what is sent of a record: the fields of an error, the value under
`dataField`, or the columns that `fields` and `excludeFields` leave. A sink with batching does so
when a record comes and again when its batch is sent.
-/

namespace Rekuiper.Sinks

open Sql (isHidden ofI64)

variable {F : Type}

/-- The options of `CommonSinkOpts` that say what is sent of a row. -/
structure FormatOpts where
  fields : Option (List String)
  excludeFields : Option (List String)
  dataField : Option String
  sendNilField : Bool

def FormatOpts.excludes (opts : FormatOpts) (key : String) : Bool :=
  (opts.excludeFields.getD []).contains key

/-- A `BTreeMap` into which the entries are put one after another. -/
def collect (entries : List (String × Value F)) : List (String × Value F) :=
  entries.foldl (fun map entry => setField entry.1 entry.2 map) []

mutual
def cleanSinkValue (sendNilField : Bool) : Value F → Value F
  | .array items => .array (cleanItems sendNilField items)
  | .object fields => .object (collect (cleanFields sendNilField fields))
  | other => other
def cleanItems (sendNilField : Bool) : List (Value F) → List (Value F)
  | [] => []
  | item :: items => cleanSinkValue sendNilField item :: cleanItems sendNilField items
def cleanFields (sendNilField : Bool) : List (String × Value F) → List (String × Value F)
  | [] => []
  | (key, value) :: fields =>
    if isHidden key || (value.isNull && !sendNilField) then cleanFields sendNilField fields
    else (key, cleanSinkValue sendNilField value) :: cleanFields sendNilField fields
end

/-- The columns that `fields` names, null where there are none. -/
def FormatOpts.pick (opts : FormatOpts) (fields : List String)
    (get : String → Option (Value F)) : List (String × Value F) :=
  fields.map fun name => (name, cleanSinkValue opts.sendNilField ((get name).getD .null))

/-- The entries that are neither left out nor null without `sendNilField`. -/
def FormatOpts.keep (opts : FormatOpts) (leftOut : String → Bool)
    (entries : List (String × Value F)) : List (String × Value F) :=
  entries.filterMap fun entry =>
    if leftOut entry.1 || (entry.2.isNull && !opts.sendNilField) then none
    else some (entry.1, cleanSinkValue opts.sendNilField entry.2)

def formatRecordForSink (opts : FormatOpts) (data : Row F) : Value F :=
  if "__raw_error__" ∈ data then
    .object (collect (["error", "rule_id"].filterMap fun key =>
      (data.lookup key).map fun value => (key, value)))
  else
    match opts.dataField with
    | some name =>
      match data.lookup name with
      | some (.object obj) =>
        match opts.fields with
        | some fields => .object (collect (opts.pick fields fun name => field name obj))
        | none => .object (collect (opts.keep opts.excludes obj))
      | some value => cleanSinkValue opts.sendNilField value
      | none => .null
    | none =>
      match opts.fields with
      | some fields =>
        .object (collect (opts.pick (fields.filter fun name => !opts.excludes name) data.lookup))
      | none =>
        .object (collect (opts.keep (fun key => isHidden key || opts.excludes key)
          (Sql.columnsOf data)))

def rowOf (fields : List (String × Value F)) : Row F :=
  fields.foldl (fun row entry => row.insert entry.1 entry.2) ∅

def formatRecordForSinkVal (opts : FormatOpts) : Value F → Value F
  | .object map => formatRecordForSink opts (rowOf map)
  | other => other

-- ---- Collected entries

theorem collect_snoc (entries : List (String × Value F)) (entry : String × Value F) :
    collect (entries ++ [entry]) = setField entry.1 entry.2 (collect entries) :=
  List.foldl_concat _ _ _ _

theorem collect_sorted (entries : List (String × Value F)) : SortedFields (collect entries) := by
  induction entries using List.reverseRecOn with
  | nil => exact List.Pairwise.nil
  | append_singleton entries entry ih =>
    rw [collect_snoc]
    exact ih.setField _ _

theorem field_append (key : String) (fields fields' : List (String × Value F)) :
    field key (fields ++ fields') = (field key fields).or (field key fields') := by
  unfold field
  rw [List.find?_append]
  cases fields.find? fun entry => entry.1 == key <;> rfl

theorem mem_of_field {key : String} {value : Value F} {fields : List (String × Value F)}
    (h : field key fields = some value) : (key, value) ∈ fields := by
  obtain ⟨⟨k, v⟩, hfind, rfl⟩ := Option.map_eq_some_iff.mp h
  have hkey : k = key := by simpa using List.find?_some hfind
  exact hkey ▸ List.mem_of_find?_eq_some hfind

theorem field_eq_none_iff {key : String} {fields : List (String × Value F)} :
    field key fields = none ↔ ∀ entry ∈ fields, entry.1 ≠ key := by
  simp [field]

theorem field_eq_some_iff {fields : List (String × Value F)}
    (h : ∀ a ∈ fields, ∀ b ∈ fields, a.1 = b.1 → a.2 = b.2) {key : String} {value : Value F} :
    field key fields = some value ↔ (key, value) ∈ fields := by
  refine ⟨mem_of_field, fun hmem => ?_⟩
  cases hfound : field key fields with
  | none => exact absurd rfl (field_eq_none_iff.mp hfound _ hmem)
  | some found => exact congrArg some (h _ (mem_of_field hfound) _ hmem rfl)

theorem field_collect {entries : List (String × Value F)}
    (h : ∀ a ∈ entries, ∀ b ∈ entries, a.1 = b.1 → a.2 = b.2) (key : String) :
    field key (collect entries) = field key entries := by
  induction entries using List.reverseRecOn with
  | nil => rfl
  | append_singleton entries entry ih =>
    have hbefore := ih fun a ha b hb => h a (by simp [ha]) b (by simp [hb])
    rw [collect_snoc, field_append]
    rcases eq_or_ne key entry.1 with rfl | hne
    · rw [field_setField_self]
      cases hvalue : field entry.1 entries with
      | none => simp [field]
      | some value =>
        have hsame := h _ (List.mem_append_left _ (mem_of_field hvalue)) entry (by simp) rfl
        simpa using hsame.symm
    · have hlast : field key [entry] = none := by
        simp [field, Ne.symm hne]
      rw [field_setField_ne hne, hbefore, hlast, Option.or_none]

theorem functional_of_sorted {fields : List (String × Value F)} (h : SortedFields fields) :
    ∀ a ∈ fields, ∀ b ∈ fields, a.1 = b.1 → a.2 = b.2 := by
  intro a ha b hb hkey
  have hvalue := h.field_of_mem ha
  rw [hkey, h.field_of_mem hb] at hvalue
  exact (Option.some.inj hvalue).symm

theorem collect_of_sorted {fields : List (String × Value F)} (h : SortedFields fields) :
    collect fields = fields :=
  (collect_sorted fields).ext h (field_collect (functional_of_sorted h))

theorem mem_collect_iff {entries : List (String × Value F)}
    (h : ∀ a ∈ entries, ∀ b ∈ entries, a.1 = b.1 → a.2 = b.2) {key : String} {value : Value F} :
    (key, value) ∈ collect entries ↔ (key, value) ∈ entries := by
  rw [← field_eq_some_iff (functional_of_sorted (collect_sorted entries)), field_collect h,
    field_eq_some_iff h]

theorem mem_collect {entries : List (String × Value F)} {entry : String × Value F}
    (h : entry ∈ collect entries) : entry ∈ entries := by
  induction entries using List.reverseRecOn with
  | nil => exact h
  | append_singleton entries last ih =>
    have hvalue := (collect_sorted (entries ++ [last])).field_of_mem h
    rw [collect_snoc] at hvalue
    rcases eq_or_ne entry.1 last.1 with hkey | hne
    · rw [hkey, field_setField_self] at hvalue
      rw [Prod.ext hkey (Option.some.inj hvalue).symm]
      simp
    · rw [field_setField_ne hne] at hvalue
      exact List.mem_append_left _ (ih (mem_of_field hvalue))

-- ---- Cleaned values

section
variable {sendNilField : Bool}

theorem isNull_clean (v : Value F) : (cleanSinkValue sendNilField v).isNull = v.isNull := by
  cases v <;> simp [cleanSinkValue, Value.isNull]

structure IsClean (sendNilField : Bool) (entry : String × Value F) : Prop where
  visible : isHidden entry.1 = false
  sent : (entry.2.isNull && !sendNilField) = false
  clean : cleanSinkValue sendNilField entry.2 = entry.2

theorem cleanFields_of_clean {fields : List (String × Value F)}
    (h : ∀ entry ∈ fields, IsClean sendNilField entry) :
    cleanFields sendNilField fields = fields := by
  induction fields with
  | nil => rw [cleanFields]
  | cons entry fields ih =>
    obtain ⟨hentry, hfields⟩ := List.forall_mem_cons.mp h
    obtain ⟨key, value⟩ := entry
    have hvisible : isHidden key = false := hentry.visible
    have hsent : (value.isNull && !sendNilField) = false := hentry.sent
    rw [cleanFields, hvisible, hsent, ih hfields, hentry.clean]
    rfl

mutual
theorem clean_clean (v : Value F) :
    cleanSinkValue sendNilField (cleanSinkValue sendNilField v) = cleanSinkValue sendNilField v := by
  cases v with
  | array items =>
    simp only [cleanSinkValue]
    rw [cleanItems_cleanItems items]
  | object fields =>
    simp only [cleanSinkValue]
    rw [cleanFields_of_clean fun entry hentry => isClean_cleanFields fields entry (mem_collect hentry),
      collect_of_sorted (collect_sorted _)]
  | _ => simp [cleanSinkValue]
theorem cleanItems_cleanItems (items : List (Value F)) :
    cleanItems sendNilField (cleanItems sendNilField items) = cleanItems sendNilField items := by
  cases items with
  | nil => simp [cleanItems]
  | cons item items =>
    simp only [cleanItems]
    rw [clean_clean item, cleanItems_cleanItems items]
theorem isClean_cleanFields (fields : List (String × Value F)) (entry : String × Value F)
    (h : entry ∈ cleanFields sendNilField fields) : IsClean sendNilField entry := by
  cases fields with
  | nil => simp [cleanFields] at h
  | cons first fields =>
    obtain ⟨key, value⟩ := first
    rw [cleanFields] at h
    split at h
    · exact isClean_cleanFields fields entry h
    · next hkept =>
      rw [Bool.or_eq_true, not_or, Bool.not_eq_true, Bool.not_eq_true] at hkept
      rcases List.mem_cons.mp h with rfl | h
      · exact ⟨hkept.1, by rw [isNull_clean]; exact hkept.2, clean_clean value⟩
      · exact isClean_cleanFields fields entry h
end

theorem isClean_of_object {v : Value F} {fields : List (String × Value F)}
    (h : cleanSinkValue sendNilField v = .object fields) :
    ∀ entry ∈ fields, IsClean sendNilField entry := by
  cases v with
  | object fields' =>
    simp only [cleanSinkValue, Value.object.injEq] at h
    intro entry hentry
    exact isClean_cleanFields fields' entry (mem_collect (h ▸ hentry))
  | _ => simp [cleanSinkValue] at h

theorem clean_field_ne {key : String} {value : Value F} {fields : List (String × Value F)}
    (h : (key, value) ∈ fields) : cleanSinkValue sendNilField value ≠ .object fields := by
  intro hvalue
  have hclean : cleanSinkValue sendNilField value = value :=
    (isClean_of_object hvalue (key, value) h).clean
  have hsize : sizeOf value < sizeOf fields := by
    have := List.sizeOf_lt_of_mem h
    simp at this
    omega
  rw [← hclean, hvalue] at hsize
  simp at hsize

end

-- ---- Records of objects

theorem lookup_rowOf {fields : List (String × Value F)} (h : SortedFields fields) (key : String) :
    (rowOf fields).lookup key = field key fields := by
  induction fields using List.reverseRecOn with
  | nil => rfl
  | append_singleton fields entry ih =>
    obtain ⟨hfields, -, hlast⟩ := List.pairwise_append.mp h
    have hrow : rowOf (fields ++ [entry]) = (rowOf fields).insert entry.1 entry.2 :=
      List.foldl_concat _ _ _ _
    rw [hrow, field_append]
    rcases eq_or_ne key entry.1 with rfl | hne
    · have hnone : field entry.1 fields = none := field_eq_none_iff.mpr fun other hother hkey =>
        String.lt_irrefl entry.1 (hkey ▸ hlast other hother entry (List.mem_singleton_self _))
      rw [AList.lookup_insert, hnone, Option.none_or, field_cons, if_pos rfl]
    · rw [AList.lookup_insert_ne hne, ih hfields, field_cons, if_neg (Ne.symm hne)]
      simp [field]

theorem mem_columnsOf {row : Row F} {entry : String × Value F} :
    entry ∈ Sql.columnsOf row ↔ row.lookup entry.1 = some entry.2 := by
  unfold Sql.columnsOf
  rw [List.mem_map]
  constructor
  · rintro ⟨⟨key, value⟩, hentry, rfl⟩
    exact AList.mem_lookup_iff.mpr hentry
  · intro h
    exact ⟨⟨entry.1, entry.2⟩, AList.mem_lookup_iff.mp h, rfl⟩

section
variable {opts : FormatOpts}

theorem field_pick {names : List String} {get : String → Option (Value F)} {key : String} :
    field key (collect (opts.pick names get)) =
      if key ∈ names then some (cleanSinkValue opts.sendNilField ((get key).getD .null))
      else none := by
  unfold FormatOpts.pick
  rw [field_collect]
  · induction names with
    | nil => rfl
    | cons name names ih =>
      rw [List.map_cons, field_cons, ih]
      rcases eq_or_ne name key with rfl | hne
      · simp
      · simp [hne, Ne.symm hne]
  · simp only [List.forall_mem_map]
    rintro a - b - h
    rw [show a = b from h]

theorem mem_keep {leftOut : String → Bool} {entries : List (String × Value F)}
    {entry : String × Value F} : entry ∈ opts.keep leftOut entries ↔
      ∃ value, (entry.1, value) ∈ entries ∧ leftOut entry.1 = false ∧
        (value.isNull && !opts.sendNilField) = false ∧
        entry.2 = cleanSinkValue opts.sendNilField value := by
  unfold FormatOpts.keep
  rw [List.mem_filterMap]
  constructor
  · rintro ⟨⟨key, value⟩, hmem, h⟩
    simp only [Option.ite_none_left_eq_some, Bool.or_eq_true, not_or, Bool.not_eq_true] at h
    obtain ⟨⟨hleft, hsent⟩, hentry⟩ := h
    obtain rfl := Option.some.inj hentry
    exact ⟨value, hmem, hleft, hsent, rfl⟩
  · rintro ⟨value, hmem, hleft, hsent, hvalue⟩
    exact ⟨(entry.1, value), hmem, by simp [hleft, hsent, ← hvalue]⟩

theorem collect_eq_of_mem {entries fields : List (String × Value F)} (hsorted : SortedFields fields)
    (h : ∀ entry, entry ∈ entries ↔ entry ∈ fields) : collect entries = fields := by
  have hfunctional : ∀ a ∈ entries, ∀ b ∈ entries, a.1 = b.1 → a.2 = b.2 := fun a ha b hb =>
    functional_of_sorted hsorted a ((h a).mp ha) b ((h b).mp hb)
  refine (collect_sorted entries).ext hsorted fun key => Option.ext fun value => ?_
  rw [field_collect hfunctional, field_eq_some_iff hfunctional,
    field_eq_some_iff (functional_of_sorted hsorted)]
  exact h _

-- ---- Objects that are formatted again

variable {map : List (String × Value F)}

theorem mem_rowOf (hsorted : SortedFields map) {key : String} :
    key ∈ rowOf map ↔ ∃ value, (key, value) ∈ map := by
  rw [← AList.lookup_isSome, lookup_rowOf hsorted, Option.isSome_iff_exists]
  exact exists_congr fun value => ⟨mem_of_field, fun h => hsorted.field_of_mem h⟩

theorem format_raw_ne (hsorted : SortedFields map) {value : Value F}
    (hraw : ("__raw_error__", value) ∈ map) :
    formatRecordForSinkVal opts (.object map) ≠ .object map := by
  intro h
  rw [formatRecordForSinkVal, formatRecordForSink, if_pos ((mem_rowOf hsorted).mpr ⟨_, hraw⟩),
    Value.object.injEq] at h
  obtain ⟨key, hkey, hvalue⟩ := List.mem_filterMap.mp (mem_collect (h ▸ hraw))
  obtain ⟨found, -, hentry⟩ := Option.map_eq_some_iff.mp hvalue
  obtain rfl : key = "__raw_error__" := congrArg Prod.fst hentry
  simp at hkey

theorem format_dataField_ne {name : String} (hdata : opts.dataField = some name)
    (hsorted : SortedFields map) :
    formatRecordForSinkVal opts (.object map) ≠ .object map := by
  by_cases hraw : "__raw_error__" ∈ rowOf map
  · obtain ⟨value, hvalue⟩ := (mem_rowOf hsorted).mp hraw
    exact format_raw_ne hsorted hvalue
  intro h
  rw [formatRecordForSinkVal, formatRecordForSink, if_neg hraw, hdata] at h
  simp only [lookup_rowOf hsorted] at h
  split at h
  · next obj hobj =>
    have hmem := mem_of_field hobj
    split at h
    · next names hnames =>
      rw [Value.object.injEq] at h
      rw [← h] at hmem
      obtain ⟨name', -, hentry⟩ := List.mem_map.mp (mem_collect hmem)
      rw [Prod.mk.injEq] at hentry
      obtain ⟨rfl, hclean⟩ := hentry
      simp only at hclean
      cases hfield : field name' obj with
      | none => simp [hfield, cleanSinkValue] at hclean
      | some value =>
        rw [hfield] at hclean
        exact clean_field_ne (mem_of_field hfield) hclean
    · next hnames =>
      rw [Value.object.injEq] at h
      rw [← h] at hmem
      obtain ⟨value, hvalue, -, -, hclean⟩ := mem_keep.mp (mem_collect hmem)
      exact clean_field_ne hvalue hclean.symm
  · next value hnot hvalue =>
    cases value with
    | object obj => exact hnot obj rfl
    | _ => simp [cleanSinkValue] at h
  · cases h

theorem collect_pick_eq_iff (opts : FormatOpts) (names : List String) (hsorted : SortedFields map) :
    collect (opts.pick names (rowOf map).lookup) = map ↔
      (∀ key, key ∈ names ↔ ∃ value, (key, value) ∈ map) ∧
        ∀ entry ∈ map, cleanSinkValue opts.sendNilField entry.2 = entry.2 := by
  constructor
  · intro h
    have hfield := fun key => congrArg (field key) h
    simp only [field_pick, lookup_rowOf hsorted] at hfield
    constructor
    · intro key
      have hkey := hfield key
      constructor
      · intro hin
        rw [if_pos hin] at hkey
        exact ⟨_, mem_of_field hkey.symm⟩
      · rintro ⟨value, hvalue⟩
        by_contra hout
        rw [if_neg hout] at hkey
        exact field_eq_none_iff.mp hkey.symm _ hvalue rfl
    · intro entry hentry
      have hkey := hfield entry.1
      rw [hsorted.field_of_mem hentry] at hkey
      exact Option.some.inj (Option.ite_none_right_eq_some.mp hkey).2
  · rintro ⟨hkeys, hclean⟩
    refine (collect_sorted _).ext hsorted fun key => ?_
    rw [field_pick, lookup_rowOf hsorted]
    cases hvalue : field key map with
    | none =>
      refine if_neg fun hin => ?_
      obtain ⟨value, hmem⟩ := (hkeys key).mp hin
      exact field_eq_none_iff.mp hvalue _ hmem rfl
    | some value =>
      have hmem := mem_of_field hvalue
      rw [if_pos ((hkeys key).mpr ⟨value, hmem⟩)]
      exact congrArg some (hclean _ hmem)

theorem collect_keep_eq_iff (opts : FormatOpts) (leftOut : String → Bool)
    (hsorted : SortedFields map) :
    collect (opts.keep (fun key => isHidden key || leftOut key) (Sql.columnsOf (rowOf map))) = map ↔
      ∀ entry ∈ map, (isHidden entry.1 || leftOut entry.1) = false ∧
        (entry.2.isNull && !opts.sendNilField) = false ∧
          cleanSinkValue opts.sendNilField entry.2 = entry.2 := by
  constructor
  · intro h entry hentry
    rw [← h] at hentry
    obtain ⟨value, hvalue, hleft, hsent, hclean⟩ := mem_keep.mp (mem_collect hentry)
    rw [mem_columnsOf, lookup_rowOf hsorted] at hvalue
    rw [h] at hentry
    obtain rfl : entry.2 = value :=
      Option.some.inj ((hsorted.field_of_mem hentry).symm.trans hvalue)
    exact ⟨hleft, hsent, hclean.symm⟩
  · intro h
    refine collect_eq_of_mem hsorted fun entry => ?_
    simp only [mem_keep, mem_columnsOf, lookup_rowOf hsorted]
    constructor
    · rintro ⟨value, hvalue, -, -, hclean⟩
      have hmem := mem_of_field hvalue
      have hentry : entry = (entry.1, value) := Prod.ext rfl (hclean.trans (h _ hmem).2.2)
      exact hentry ▸ hmem
    · intro hentry
      obtain ⟨hleft, hsent, hclean⟩ := h entry hentry
      exact ⟨entry.2, hsorted.field_of_mem hentry, hleft, hsent, hclean.symm⟩

theorem format_selected_iff (hdata : opts.dataField = none) (hsorted : SortedFields map)
    (hraw : ∀ value, ("__raw_error__", value) ∉ map) :
    formatRecordForSinkVal opts (.object map) = .object map ↔
      match opts.fields with
      | some names =>
        (∀ key, (key ∈ names ∧ opts.excludes key = false) ↔ ∃ value, (key, value) ∈ map) ∧
          ∀ entry ∈ map, cleanSinkValue opts.sendNilField entry.2 = entry.2
      | none => ∀ entry ∈ map, (isHidden entry.1 || opts.excludes entry.1) = false ∧
          (entry.2.isNull && !opts.sendNilField) = false ∧
            cleanSinkValue opts.sendNilField entry.2 = entry.2 := by
  have hnotRaw : "__raw_error__" ∉ rowOf map := fun h =>
    let ⟨value, hvalue⟩ := (mem_rowOf hsorted).mp h
    hraw value hvalue
  rw [formatRecordForSinkVal, formatRecordForSink, if_neg hnotRaw, hdata]
  simp only
  cases hnames : opts.fields with
  | some names =>
    simp only [Value.object.injEq]
    rw [collect_pick_eq_iff opts _ hsorted]
    simp
  | none =>
    simp only [Value.object.injEq]
    exact collect_keep_eq_iff opts opts.excludes hsorted

-- ---- Batches

def sentAlone (opts : FormatOpts) (data : Row F) : Value F := formatRecordForSink opts data

/-- What is sent of a record in a batch: `deliver_record` puts it into the buffer, and
`send_action` sends the rows of the buffer. -/
def sentInBatch (opts : FormatOpts) (data : Row F) : Value F :=
  formatRecordForSinkVal opts (formatRecordForSink opts data)

def errorFields : List String := ["error", "rule_id"]

/-- The records that batching leaves as they are. -/
def KeptByBatching (opts : FormatOpts) (data : Row F) : Prop :=
  if "__raw_error__" ∈ data then
    opts.dataField = none ∧
      match opts.fields with
      | some names =>
        (∀ key, (key ∈ names ∧ opts.excludes key = false) ↔ key ∈ errorFields ∧ key ∈ data) ∧
          ∀ key ∈ errorFields, ∀ value, data.lookup key = some value →
            cleanSinkValue opts.sendNilField value = value
      | none => ∀ key ∈ errorFields, ∀ value, data.lookup key = some value →
          opts.excludes key = false ∧ (value.isNull && !opts.sendNilField) = false ∧
            cleanSinkValue opts.sendNilField value = value
  else
    match opts.dataField with
    | some name => ∀ obj, data.lookup name ≠ some (.object obj)
    | none => ∀ names, opts.fields = some names → "__raw_error__" ∈ names →
        opts.excludes "__raw_error__" = true

theorem mem_error {data : Row F} {key : String} {value : Value F} :
    (key, value) ∈ collect (["error", "rule_id"].filterMap fun key =>
      (data.lookup key).map fun value => (key, value)) ↔
        key ∈ errorFields ∧ data.lookup key = some value := by
  have hmem : ∀ entry : String × Value F, (entry ∈ ["error", "rule_id"].filterMap fun key =>
      (data.lookup key).map fun value => (key, value)) ↔
        entry.1 ∈ errorFields ∧ data.lookup entry.1 = some entry.2 := by
    intro entry
    simp only [List.mem_filterMap, Option.map_eq_some_iff]
    constructor
    · rintro ⟨key, hkey, value, hvalue, rfl⟩
      exact ⟨hkey, hvalue⟩
    · rintro ⟨hkey, hvalue⟩
      exact ⟨entry.1, hkey, entry.2, hvalue, rfl⟩
  rw [mem_collect_iff fun a ha b hb hkey => ?_, hmem]
  have ha := ((hmem a).mp ha).2
  have hb := ((hmem b).mp hb).2
  rw [hkey, hb] at ha
  exact (Option.some.inj ha).symm

theorem raw_error_kept_iff {data : Row F} (hraw : "__raw_error__" ∈ data) :
    sentInBatch opts data = sentAlone opts data ↔ KeptByBatching opts data := by
  unfold sentInBatch sentAlone KeptByBatching
  rw [formatRecordForSink, if_pos hraw, if_pos hraw]
  cases hdata : opts.dataField with
  | some name =>
    exact iff_of_false (format_dataField_ne hdata (collect_sorted _)) fun h => by cases h.1
  | none =>
    have hmark : ∀ value : Value F, ("__raw_error__", value) ∉
        collect (["error", "rule_id"].filterMap fun key =>
          (data.lookup key).map fun value => (key, value)) := fun value h =>
      absurd (mem_error.mp h).1 (by decide)
    rw [format_selected_iff hdata (collect_sorted _) hmark, and_iff_right rfl]
    have hvisible : ∀ key ∈ errorFields, isHidden key = false := by decide
    have hentry : ∀ key, key ∈ data ↔ ∃ value, data.lookup key = some value := fun key => by
      rw [← AList.lookup_isSome, Option.isSome_iff_exists]
    cases opts.fields with
    | some names =>
      simp only [Prod.forall, mem_error, exists_and_left, hentry, and_imp]
      exact and_congr_right' (forall_congr' fun key => forall_comm)
    | none =>
      simp only [Prod.forall, mem_error, and_imp, Bool.or_eq_false_iff]
      refine forall_congr' fun key => ⟨fun h hkey value hvalue => ?_, fun h value hkey hvalue => ?_⟩
      · obtain ⟨hleft, hsent, hclean⟩ := h value hkey hvalue
        exact ⟨hleft.2, hsent, hclean⟩
      · obtain ⟨hkept, hsent, hclean⟩ := h hkey value hvalue
        exact ⟨⟨hvisible key hkey, hkept⟩, hsent, hclean⟩

theorem record_kept_iff {data : Row F} (hraw : "__raw_error__" ∉ data) :
    sentInBatch opts data = sentAlone opts data ↔ KeptByBatching opts data := by
  unfold sentInBatch sentAlone KeptByBatching
  rw [formatRecordForSink, if_neg hraw, if_neg hraw]
  cases hdata : opts.dataField with
  | some name =>
    simp only
    split
    · next obj hobj =>
      refine iff_of_false ?_ fun h => h obj hobj
      split
      · exact format_dataField_ne hdata (collect_sorted _)
      · exact format_dataField_ne hdata (collect_sorted _)
    · next value hnot hvalue =>
      refine iff_of_true ?_ fun obj hobj => hnot obj (Option.some.inj (hvalue.symm.trans hobj))
      cases value with
      | object obj => exact absurd rfl (hnot obj)
      | _ => simp [cleanSinkValue, formatRecordForSinkVal]
    · next hvalue => exact iff_of_true rfl fun obj hobj => by simp [hvalue] at hobj
  | none =>
    simp only
    cases hnames : opts.fields with
    | some names =>
      simp only [Option.some.injEq, forall_eq']
      have hkey : ∀ key, key ∈ names.filter (fun name => !opts.excludes name) ↔
          key ∈ names ∧ opts.excludes key = false := fun key => by simp
      have hmem : ∀ key value, (key, value) ∈
          collect (opts.pick (names.filter fun name => !opts.excludes name) data.lookup) ↔
            (key ∈ names ∧ opts.excludes key = false) ∧
              cleanSinkValue opts.sendNilField ((data.lookup key).getD .null) = value := by
        intro key value
        rw [← field_eq_some_iff (functional_of_sorted (collect_sorted _)), field_pick,
          Option.ite_none_right_eq_some, Option.some.injEq, hkey]
      by_cases hmark : "__raw_error__" ∈ names ∧ opts.excludes "__raw_error__" = false
      · refine iff_of_false (format_raw_ne (collect_sorted _) ((hmem _ _).mpr ⟨hmark, rfl⟩)) ?_
        intro h
        simp [hmark] at h
      · refine iff_of_true ?_ fun hin => by simpa [hin] using hmark
        rw [format_selected_iff hdata (collect_sorted _) fun value h => hmark ((hmem _ _).mp h).1,
          hnames]
        simp only [hmem, Prod.forall]
        refine ⟨fun key => by simp, ?_⟩
        rintro key value ⟨-, rfl⟩
        exact clean_clean _
    | none =>
      refine iff_of_true ?_ (by simp)
      have hmem : ∀ entry ∈ collect (opts.keep (fun key => isHidden key || opts.excludes key)
          (Sql.columnsOf data)), (isHidden entry.1 || opts.excludes entry.1) = false ∧
            (entry.2.isNull && !opts.sendNilField) = false ∧
              cleanSinkValue opts.sendNilField entry.2 = entry.2 := by
        intro entry hentry
        obtain ⟨value, -, hleft, hsent, hclean⟩ := mem_keep.mp (mem_collect hentry)
        rw [hclean, isNull_clean, clean_clean]
        exact ⟨hleft, hsent, rfl⟩
      rw [format_selected_iff hdata (collect_sorted _) fun value h => ?_, hnames]
      · exact hmem
      · have hhidden : isHidden "__raw_error__" = true := by decide
        have hleft := (hmem _ h).1
        simp [hhidden] at hleft

/-- Batching leaves just these records as they are. -/
theorem batching_keeps_iff (opts : FormatOpts) (data : Row F) :
    sentInBatch opts data = sentAlone opts data ↔ KeptByBatching opts data := by
  by_cases hraw : "__raw_error__" ∈ data
  · exact raw_error_kept_iff hraw
  · exact record_kept_iff hraw

end

/-- `"dataField": "data"` -/
def dataOpts : FormatOpts where
  fields := none
  excludeFields := none
  dataField := some "data"
  sendNilField := false

/-- `{"data": {"a": 1}}` -/
def dataRecord : Row ℚ := AList.insert "data" (.object [("a", ofI64 1)]) ∅

/-- In a batch the object under `dataField` is looked into once more, and null is sent. -/
theorem dataField_lost_in_batch :
    ¬∀ (opts : FormatOpts) (data : Row ℚ), sentInBatch opts data = sentAlone opts data := by
  intro hall
  have hvalues : (.null : Value ℚ) = .object [("a", ofI64 1)] := hall dataOpts dataRecord
  cases hvalues

end Rekuiper.Sinks
