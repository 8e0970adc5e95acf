import Rekuiper.Pipeline.Record

/-!
# Strict enforcement of a schema

`enforce_stream_schema_checked` works on the record in place. Columns whose names differ in more
than their case do not touch each other, so what it takes or rejects is decided by the record as it
came. A record that it rejects is left without the value that was not taken.
-/

namespace Rekuiper.Pipeline

open Lib Sql

variable {F : Type} [Float64 F]

def enforceFieldInPlace (env : Env F) (declared : StreamField) (data : Row F) :
    Except SchemaMismatchError Unit × Row F :=
  match existingKey data declared.name with
  | some key =>
    let val := (data.lookup key).getD .null
    let data := data.erase key
    if val.isNull then (.ok (), data.insert declared.name (nullField env declared))
    else
      let coerced := coerceValueToType env val declared.fieldType
      if coerced.isNull then (.error ⟨declared.name, declared.fieldType, env.jsonText val⟩, data)
      else (.ok (), data.insert declared.name coerced)
  | none => (.ok (), missingField env data declared)

/-- `enforce_stream_schema_checked`, and the record after it. -/
def enforceInPlace (env : Env F) : List StreamField → Row F →
    Except SchemaMismatchError Unit × Row F
  | [], data => (.ok (), data)
  | declared :: fields, data =>
    match enforceFieldInPlace env declared data with
    | (.ok (), data) => enforceInPlace env fields data
    | (.error err, data) => (.error err, data)

/-- The record has a value for the column that is not null, and its type makes it null. -/
def Rejected (env : Env F) (data : Row F) (declared : StreamField) : Prop :=
  ∃ key value, existingKey data declared.name = some key ∧ data.lookup key = some value ∧
    value.isNull = false ∧ (coerceValueToType env value declared.fieldType).isNull = true

-- ---- One column

omit [Float64 F] in
theorem existingKey_name {data : Row F} {name key : String} (h : existingKey data name = some key) :
    eqIgnoreAsciiCase key name = true := by
  unfold existingKey at h
  split at h
  · cases h
    exact beq_self_eq_true _
  · exact List.find?_some (p := fun key => eqIgnoreAsciiCase key name) h

omit [Float64 F] in
theorem existingKey_lookup {data : Row F} {name key : String}
    (h : existingKey data name = some key) : ∃ value, data.lookup key = some value := by
  unfold existingKey at h
  split at h
  · next hname =>
    cases h
    exact Option.isSome_iff_exists.mp hname
  · have hmem : key ∈ data := AList.mem_keys.mpr (List.mem_of_find?_eq_some h)
    exact Option.isSome_iff_exists.mp (AList.lookup_isSome.mpr hmem)

/-- What a step on one column leaves alone: all that is named otherwise. -/
structure SameElsewhere (name : String) (data data' : Row F) : Prop where
  lookup : ∀ key, eqIgnoreAsciiCase key name = false → data'.lookup key = data.lookup key
  keys : (data'.keys.filter fun key => !eqIgnoreAsciiCase key name) =
    data.keys.filter fun key => !eqIgnoreAsciiCase key name

namespace SameElsewhere

variable {name other : String} {data data' data'' : Row F}

omit [Float64 F] in
theorem refl (name : String) (data : Row F) : SameElsewhere name data data := ⟨fun _ _ => rfl, rfl⟩

omit [Float64 F] in
theorem trans (h : SameElsewhere name data data') (h' : SameElsewhere name data' data'') :
    SameElsewhere name data data'' where
  lookup key hkey := (h'.lookup key hkey).trans (h.lookup key hkey)
  keys := h'.keys.trans h.keys

omit [Float64 F] in
theorem erase {key : String} (hkey : eqIgnoreAsciiCase key name = true) (data : Row F) :
    SameElsewhere name data (data.erase key) where
  lookup k hk := by
    refine AList.lookup_erase_ne ?_
    rintro rfl
    exact absurd hkey (Bool.eq_false_iff.mp hk)
  keys := by
    rw [AList.keys_erase, data.keys_nodup.erase_eq_filter, List.filter_filter]
    refine List.filter_congr fun k _ => ?_
    rcases eq_or_ne k key with rfl | hne
    · simp [hkey]
    · simp [hne]

omit [Float64 F] in
theorem insert (data : Row F) (value : Value F) :
    SameElsewhere name data (data.insert name value) where
  lookup k hk := by
    refine AList.lookup_insert_ne ?_
    rintro rfl
    exact absurd (beq_self_eq_true (toAsciiLowercase k)) (Bool.eq_false_iff.mp hk)
  keys := by
    have hname : eqIgnoreAsciiCase name name = true := beq_self_eq_true _
    rw [AList.keys_insert, List.filter_cons_of_neg (by simp [hname]), ← AList.keys_erase]
    exact (SameElsewhere.erase hname data).keys

omit [Float64 F] in
theorem existingKey (h : SameElsewhere name data data')
    (hother : eqIgnoreAsciiCase name other = false) :
    existingKey data' other = existingKey data other := by
  have hapart : ∀ key, eqIgnoreAsciiCase key other = true → eqIgnoreAsciiCase key name = false := by
    intro key hkey
    rw [eqIgnoreAsciiCase, beq_iff_eq] at hkey
    rwa [eqIgnoreAsciiCase, hkey, BEq.comm]
  have hfind : ∀ data : Row F, (data.keys.find? fun key => eqIgnoreAsciiCase key other) =
      (data.keys.filter fun key => !eqIgnoreAsciiCase key name).find? fun key =>
        eqIgnoreAsciiCase key other := by
    intro data
    rw [List.find?_filter]
    congr 1
    funext key
    cases hkey : eqIgnoreAsciiCase key other with
    | true => simp [hapart key hkey]
    | false => simp
  have hname : eqIgnoreAsciiCase other other = true := beq_self_eq_true _
  unfold Pipeline.existingKey
  rw [h.lookup other (hapart other hname), hfind data', hfind data, h.keys]

omit [Float64 F] in
theorem lookup_existingKey (h : SameElsewhere name data data')
    (hother : eqIgnoreAsciiCase name other = false) {key : String}
    (hkey : Pipeline.existingKey data other = some key) : data'.lookup key = data.lookup key := by
  refine h.lookup key ?_
  have hname := existingKey_name hkey
  rw [eqIgnoreAsciiCase, beq_iff_eq] at hname
  rwa [eqIgnoreAsciiCase, hname, BEq.comm]

end SameElsewhere

theorem missingField_elsewhere (env : Env F) (declared : StreamField) (data : Row F) :
    SameElsewhere declared.name data (missingField env data declared) := by
  unfold missingField
  split
  · exact .insert data _
  · split
    · cases data.lookup "self" with
      | none => exact .refl _ _
      | some value => exact .insert data value
    · exact .refl _ _

theorem enforceField_elsewhere (env : Env F) (declared : StreamField) (data : Row F) :
    SameElsewhere declared.name data (enforceField env data declared) := by
  unfold enforceField
  split
  · next key hkey => exact (SameElsewhere.erase (existingKey_name hkey) data).trans (.insert _ _)
  · exact missingField_elsewhere env declared data

theorem rejected_elsewhere {env : Env F} {data data' : Row F} {name : String} {declared : StreamField}
    (h : SameElsewhere name data data') (hother : eqIgnoreAsciiCase name declared.name = false) :
    Rejected env data' declared ↔ Rejected env data declared := by
  unfold Rejected
  rw [h.existingKey hother]
  refine exists_congr fun key => exists_congr fun value => and_congr_right fun hkey => ?_
  rw [h.lookup_existingKey hother hkey]

theorem enforceFieldInPlace_cases (env : Env F) (declared : StreamField) (data : Row F) :
    (¬Rejected env data declared ∧
        enforceFieldInPlace env declared data = (.ok (), enforceField env data declared)) ∨
      (Rejected env data declared ∧ ∃ key err, existingKey data declared.name = some key ∧
        enforceFieldInPlace env declared data = (.error err, data.erase key)) := by
  cases hkey : existingKey data declared.name with
  | none =>
    refine .inl ⟨?_, ?_⟩
    · rintro ⟨key, value, hkey', -⟩
      rw [hkey] at hkey'
      cases hkey'
    · simp only [enforceFieldInPlace, enforceField, hkey]
  | some key =>
    obtain ⟨value, hvalue⟩ := existingKey_lookup hkey
    have hrejected : Rejected env data declared ↔
        value.isNull = false ∧ (coerceValueToType env value declared.fieldType).isNull = true := by
      unfold Rejected
      simp [hkey, hvalue]
    simp only [enforceFieldInPlace, enforceField, hkey, hvalue, Option.getD_some]
    rw [hrejected]
    cases value.isNull with
    | true => exact .inl ⟨by simp, rfl⟩
    | false =>
      cases (coerceValueToType env value declared.fieldType).isNull with
      | true => exact .inr ⟨⟨rfl, rfl⟩, key, _, rfl, rfl⟩
      | false => exact .inl ⟨by simp, rfl⟩

-- ---- All columns

/-- What comes of the whole check: either no column is rejected and the record is as without the
check, or a rejected one has lost its value. -/
theorem enforceInPlace_cases (env : Env F) {fields : List StreamField}
    (hdistinct : fields.Pairwise fun f g => eqIgnoreAsciiCase f.name g.name = false)
    (data : Row F) :
    ((∀ f ∈ fields, ¬Rejected env data f) ∧
        enforceInPlace env fields data = (.ok (), enforceStreamSchema env data fields)) ∨
      ∃ f ∈ fields, Rejected env data f ∧ ∃ key err data', existingKey data f.name = some key ∧
        enforceInPlace env fields data = (.error err, data') ∧ data'.lookup key = none := by
  induction fields generalizing data with
  | nil => exact .inl ⟨List.forall_mem_nil _, rfl⟩
  | cons declared fields ih =>
    obtain ⟨hapart, hdistinct⟩ := List.pairwise_cons.mp hdistinct
    have hsame := enforceField_elsewhere env declared data
    rcases enforceFieldInPlace_cases env declared data with
      ⟨hnot, hstep⟩ | ⟨hrejected, key, err, hkey, hstep⟩
    · rcases ih hdistinct (enforceField env data declared) with
        ⟨hnone, hrun⟩ | ⟨f, hf, hrejected, key, err, data', hkey, hrun, hlost⟩
      · refine .inl ⟨List.forall_mem_cons.mpr ⟨hnot, fun f hf hrejected => ?_⟩, ?_⟩
        · exact hnone f hf ((rejected_elsewhere hsame (hapart f hf)).mpr hrejected)
        · rw [enforceInPlace, hstep]
          exact hrun
      · refine .inr ⟨f, List.mem_cons_of_mem _ hf,
          (rejected_elsewhere hsame (hapart f hf)).mp hrejected, key, err, data', ?_, ?_, hlost⟩
        · rw [← hsame.existingKey (hapart f hf), hkey]
        · rw [enforceInPlace, hstep]
          exact hrun
    · refine .inr ⟨declared, List.mem_cons_self, hrejected, key, err, data.erase key, hkey, ?_,
        AList.lookup_erase key data⟩
      rw [enforceInPlace, hstep]

/-- The strict check fails exactly if a value that the record has for a declared column is made null
by its type, and otherwise it gives the record that the lenient one gives. The records that it
leaves as they came are the ones that it accepts. -/
theorem strict_enforcement (env : Env F) (fields : List StreamField)
    (hdistinct : fields.Pairwise fun f g => eqIgnoreAsciiCase f.name g.name = false)
    (data : Row F) :
    ((∃ err, (enforceInPlace env fields data).1 = .error err) ↔
        ∃ f ∈ fields, Rejected env data f) ∧
      ((enforceInPlace env fields data).1 = .ok () →
        (enforceInPlace env fields data).2 = enforceStreamSchema env data fields) ∧
      (((∃ err, (enforceInPlace env fields data).1 = .error err) →
          ∀ key, (enforceInPlace env fields data).2.lookup key = data.lookup key) ↔
        ∀ f ∈ fields, ¬Rejected env data f) := by
  rcases enforceInPlace_cases env hdistinct data with
    ⟨hnone, hrun⟩ | ⟨f, hf, hrejected, key, err, data', hkey, hrun, hlost⟩
  · rw [hrun]
    refine ⟨⟨fun ⟨_, herr⟩ => (nomatch herr), fun ⟨f, hf, hrejected⟩ => ?_⟩, fun _ => rfl, ?_⟩
    · exact absurd hrejected (hnone f hf)
    · exact ⟨fun _ => hnone, fun _ ⟨_, herr⟩ => nomatch herr⟩
  · rw [hrun]
    refine ⟨⟨fun _ => ⟨f, hf, hrejected⟩, fun _ => ⟨err, rfl⟩⟩, nofun, fun hintact => ?_,
      fun hnone => absurd hrejected (hnone f hf)⟩
    -- the value of the rejected column is gone
    obtain ⟨value, hvalue⟩ := existingKey_lookup hkey
    have hkept := hintact ⟨err, rfl⟩ key
    rw [hlost, hvalue] at hkept
    cases hkept

def sensorFields : List StreamField := [⟨"b", "bigint", none⟩, ⟨"a", "bigint", none⟩]

/-- A record whose `b` can be taken and whose `a` cannot. -/
def sensorRecord : Row ℚ := (AList.insert "a" (.string "x") ∅).insert "b" (.string "7")

theorem strict_enforcement_sensor :
    (∃ err, (enforceInPlace bareEnv sensorFields sensorRecord).1 = .error err) ↔
      ∃ f ∈ sensorFields, Rejected bareEnv sensorRecord f :=
  (strict_enforcement bareEnv sensorFields (by decide) sensorRecord).1

theorem rejected_record_changed :
    (∃ err, (enforceInPlace bareEnv sensorFields sensorRecord).1 = .error err) ∧
      (((enforceInPlace bareEnv sensorFields sensorRecord).2.lookup "a").bind Value.asStr) = none ∧
      ((sensorRecord.lookup "a").bind Value.asStr) = some "x" ∧
      (((enforceInPlace bareEnv sensorFields sensorRecord).2.lookup "b").bind Value.asStr) = none ∧
      ((sensorRecord.lookup "b").bind Value.asStr) = some "7" := by
  refine ⟨⟨_, rfl⟩, ?_, ?_, ?_, ?_⟩ <;> decide

end Rekuiper.Pipeline
