import Rekuiper.Sql.Independence

/-!
# Names qualified by the stream

In a rule on one stream the records have no object under the stream's name, so that `stream.field`
falls back on the field itself. It does so only if no other value of the record is an object with
the field: in the rows of a join that would be the other stream.
-/

namespace Rekuiper.Sql

open Lib

variable {F : Type}

/-- A value of the row is an object that has the field. -/
def Nests (row : Row F) (leaf : String) : Prop :=
  ∃ key value, row.lookup key = some value ∧ (value.get leaf).isSome = true

/-- A stream with the name of a bound of the window stands for that bound. -/
def boundField (row : Row F) (stream leaf : String) : Option (Value F) :=
  if stream = "window_start" ∨ stream = "window_end" then
    (row.lookup s!"__{stream}__").bind fun bound => bound.get leaf
  else none

variable {row : Row F} {stream leaf : String}

theorem ownedByOther_iff (hstream : row.lookup stream = none) :
    ownedByOther row stream leaf = true ↔ Nests row leaf := by
  unfold ownedByOther Nests
  rw [List.any_eq_true]
  constructor
  · rintro ⟨⟨key, value⟩, hentry, h⟩
    rw [Bool.and_eq_true] at h
    exact ⟨key, value, AList.mem_lookup_iff.mpr hentry, h.2⟩
  · rintro ⟨key, value, hvalue, hleaf⟩
    have hne : key ≠ stream := by
      rintro rfl
      simp [hstream] at hvalue
    exact ⟨⟨key, value⟩, AList.mem_lookup_iff.mp hvalue,
      (Bool.and_eq_true _ _).mpr ⟨by simpa using hne, hleaf⟩⟩

theorem column_stream (hstream : row.lookup stream = none) :
    (column row stream).get leaf = boundField row stream leaf := by
  unfold column boundField
  rw [hstream]
  simp only
  split
  · cases row.lookup s!"__{stream}__" <;> rfl
  · rfl

theorem boundField_nests {value : Value F} (h : boundField row stream leaf = some value) :
    Nests row leaf := by
  unfold boundField at h
  split at h
  · obtain ⟨bound, hbound, hvalue⟩ := Option.bind_eq_some_iff.mp h
    exact ⟨_, bound, hbound, by simp [hvalue]⟩
  · cases h

theorem fieldAccess_stream (hstream : row.lookup stream = none)
    (hdotted : row.lookup s!"{stream}.{leaf}" = none) :
    (¬Nests row leaf → fieldAccess row (.identifier stream) (column row stream) leaf =
        (row.lookup leaf).getD .null) ∧
      (Nests row leaf → fieldAccess row (.identifier stream) (column row stream) leaf =
        (boundField row stream leaf).getD .null) := by
  unfold fieldAccess
  rw [column_stream hstream, ← ownedByOther_iff hstream]
  constructor
  · intro hnests
    have hbound : boundField row stream leaf = none := by
      rw [ownedByOther_iff hstream] at hnests
      exact Option.eq_none_iff_forall_ne_some.mpr fun value h => hnests (boundField_nests h)
    simp [hbound, hdotted, hnests]
  · intro hnests
    cases boundField row stream leaf with
    | some value => rfl
    | none => simp [hdotted, hnests]

section
variable [Float64 F]

/-- A name qualified by the stream is the bare one if no value of the record is an object with the
field. Otherwise it is null, but for a stream with the name of a bound that is such an object. -/
theorem qualified_eq_bare (env : Env F) (row : Row F) (stream leaf : String)
    (hstream : row.lookup stream = none) (hdotted : row.lookup s!"{stream}.{leaf}" = none)
    (hleaf : leaf ≠ "window_start" ∧ leaf ≠ "window_end") :
    (¬Nests row leaf → evalVal env row (.fieldAccess (.identifier stream) leaf) =
        evalVal env row (.identifier leaf)) ∧
      (Nests row leaf → evalVal env row (.fieldAccess (.identifier stream) leaf) =
        .ok ((boundField row stream leaf).getD .null)) := by
  have hqualified : evalVal env row (.fieldAccess (.identifier stream) leaf) =
      .ok (fieldAccess row (.identifier stream) (column row stream) leaf) := by
    simp only [evalVal, evalExpr, pure_bind]
    rfl
  have hbare : evalVal env row (.identifier leaf) = .ok ((row.lookup leaf).getD .null) := by
    have hcolumn : column row leaf = (row.lookup leaf).getD .null := by
      unfold column
      cases row.lookup leaf with
      | some value => rfl
      | none => simp [hleaf]
    rw [← hcolumn]
    simp only [evalVal, evalExpr]
    rfl
  obtain ⟨hown, hother⟩ := fieldAccess_stream hstream hdotted
  rw [hqualified, hbare]
  exact ⟨fun h => congrArg _ (hown h), fun h => congrArg _ (hother h)⟩

end

/-- `{"temperature": 20}` -/
def flatRow : Row ℚ := AList.insert "temperature" (ofI64 20) ∅

/-- `{"temperature": 20, "payload": {"temperature": 5}}` -/
def nestedRow : Row ℚ := AList.insert "payload" (.object [("temperature", ofI64 5)]) flatRow

theorem qualified_eq_bare_flat :
    evalVal numbersEnv flatRow (.fieldAccess (.identifier "demo") "temperature") =
      evalVal numbersEnv flatRow (.identifier "temperature") :=
  (qualified_eq_bare numbersEnv flatRow "demo" "temperature" (by decide) (by decide)
    (by decide)).1 fun h => by
      rw [← ownedByOther_iff (by decide : flatRow.lookup "demo" = none)] at h
      exact absurd h (by decide)

/-- A payload with a field of the same name hides the one of the record. -/
theorem qualified_hidden_by_payload :
    ¬∀ (row : Row ℚ) (stream leaf : String), row.lookup stream = none →
      row.lookup s!"{stream}.{leaf}" = none → leaf ≠ "window_start" ∧ leaf ≠ "window_end" →
      evalVal numbersEnv row (.fieldAccess (.identifier stream) leaf) =
        evalVal numbersEnv row (.identifier leaf) := by
  intro hall
  have hvalues : (.ok .null : Except Failure (Value ℚ)) = .ok (ofI64 20) :=
    hall nestedRow "demo" "temperature" (by decide) (by decide) (by decide)
  cases hvalues

end Rekuiper.Sql
