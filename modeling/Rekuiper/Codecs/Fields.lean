import Rekuiper.Json

/-!
# The fields of an object

A `serde_json` object keeps its fields sorted by their names. So two objects are equal if
they have the same value under each name.
-/

namespace Rekuiper

variable {F : Type} {fields : List (String × Value F)}

/-- The fields are in the order of their names, as `setField` keeps them. -/
def SortedFields (fields : List (String × Value F)) : Prop := fields.Pairwise (·.1 < ·.1)

instance (fields : List (String × Value F)) : Decidable (SortedFields fields) :=
  inferInstanceAs (Decidable (List.Pairwise _ _))

theorem field_setField_self (name : String) (v : Value F) (fields : List (String × Value F)) :
    field name (setField name v fields) = some v := by
  induction fields with
  | nil => simp [setField, field]
  | cons first fields ih =>
    obtain ⟨k, w⟩ := first
    rw [setField]
    split
    · simp [field]
    · split
      · simp [field]
      · rename_i hne _
        simpa [field, List.find?_cons, Ne.symm hne] using ih

theorem field_setField_ne {name key : String} (h : key ≠ name) (v : Value F)
    (fields : List (String × Value F)) : field key (setField name v fields) = field key fields := by
  induction fields with
  | nil => simp [setField, field, Ne.symm h]
  | cons first fields ih =>
    obtain ⟨k, w⟩ := first
    rw [setField]
    split
    · rename_i hk
      simp [field, Ne.symm h, ← hk]
    · split
      · simp [field, List.find?_cons, Ne.symm h]
      · simp only [field, List.find?_cons] at ih ⊢
        split <;> simp_all

theorem mem_setField {name : String} {v : Value F} {entry : String × Value F}
    (h : entry ∈ setField name v fields) : entry.1 = name ∨ entry ∈ fields := by
  induction fields with
  | nil => exact .inl (by rw [List.mem_singleton.mp h])
  | cons first fields ih =>
    obtain ⟨k, w⟩ := first
    rw [setField] at h
    split at h
    · rcases List.mem_cons.mp h with rfl | h
      · exact .inl rfl
      · exact .inr (List.mem_cons_of_mem _ h)
    · split at h
      · rcases List.mem_cons.mp h with rfl | h
        · exact .inl rfl
        · exact .inr h
      · rcases List.mem_cons.mp h with rfl | h
        · exact .inr List.mem_cons_self
        · exact (ih h).imp_right (List.mem_cons_of_mem _)

theorem lt_of_not_lt {a b : String} (hne : a ≠ b) (h : ¬ a < b) : b < a :=
  (Std.lt_trichotomy a b).resolve_left h |>.resolve_left hne

theorem SortedFields.setField (h : SortedFields fields) (name : String) (v : Value F) :
    SortedFields (setField name v fields) := by
  induction fields with
  | nil => exact List.pairwise_singleton _ _
  | cons first fields ih =>
    obtain ⟨k, w⟩ := first
    obtain ⟨hfirst, hrest⟩ := List.pairwise_cons.mp h
    rw [Rekuiper.setField]
    split
    · rename_i hk
      exact List.pairwise_cons.mpr ⟨fun entry hentry => hk ▸ hfirst entry hentry, hrest⟩
    · rename_i hne
      split
      · rename_i hlt
        refine List.pairwise_cons.mpr ⟨fun entry hentry => ?_, h⟩
        rcases List.mem_cons.mp hentry with rfl | hentry
        · exact hlt
        · exact String.lt_trans hlt (hfirst entry hentry)
      · rename_i hlt
        refine List.pairwise_cons.mpr ⟨fun entry hentry => ?_, ih hrest⟩
        rcases mem_setField hentry with heq | hentry
        · rw [heq]
          exact lt_of_not_lt hne hlt
        · exact hfirst entry hentry

theorem field_cons (key k : String) (w : Value F) (fields : List (String × Value F)) :
    field key ((k, w) :: fields) = if k = key then some w else field key fields := by
  rw [field, List.find?_cons]
  by_cases h : k = key
  · simp [h]
  · simp [beq_eq_false_iff_ne.mpr h, h, field]

theorem SortedFields.field_eq_none (h : ∀ entry ∈ fields, key < entry.1) :
    field key fields = none := by
  rw [field, List.find?_eq_none.mpr, Option.map_none]
  intro entry hentry
  have hlt := h entry hentry
  simp only [beq_iff_eq]
  rintro rfl
  exact String.lt_irrefl _ hlt

theorem SortedFields.field_of_mem (h : SortedFields fields) {entry : String × Value F}
    (hentry : entry ∈ fields) : field entry.1 fields = some entry.2 := by
  induction fields with
  | nil => cases hentry
  | cons first fields ih =>
    obtain ⟨hfirst, hfields⟩ := List.pairwise_cons.mp h
    rw [field_cons]
    rcases List.mem_cons.mp hentry with rfl | hentry
    · exact if_pos rfl
    · have hne : first.1 ≠ entry.1 := by
        intro heq
        have hlt := hfirst entry hentry
        rw [heq] at hlt
        exact String.lt_irrefl _ hlt
      rw [if_neg hne, ih hfields hentry]

theorem SortedFields.ext {fields fields' : List (String × Value F)} (h : SortedFields fields)
    (h' : SortedFields fields') (heq : ∀ key, field key fields = field key fields') :
    fields = fields' := by
  induction fields generalizing fields' with
  | nil =>
    cases fields' with
    | nil => rfl
    | cons first rest =>
      obtain ⟨k, w⟩ := first
      have hk := heq k
      rw [field_cons, if_pos rfl] at hk
      simp [field] at hk
  | cons first fields ih =>
    obtain ⟨k, w⟩ := first
    obtain ⟨hfirst, hrest⟩ := List.pairwise_cons.mp h
    cases fields' with
    | nil =>
      have hk := heq k
      rw [field_cons, if_pos rfl] at hk
      simp [field] at hk
    | cons first' fields' =>
      obtain ⟨k', w'⟩ := first'
      obtain ⟨hfirst', hrest'⟩ := List.pairwise_cons.mp h'
      -- the first name is the least one on both sides
      have hk : k = k' := by
        refine Decidable.byContradiction fun hne => ?_
        rcases Decidable.em (k < k') with hlt | hlt
        · have hk := heq k
          rw [field_cons, if_pos rfl, SortedFields.field_eq_none fun entry hentry => ?_] at hk
          · simp at hk
          · rcases List.mem_cons.mp hentry with rfl | hentry
            · exact hlt
            · exact String.lt_trans hlt (hfirst' entry hentry)
        · have hgt := lt_of_not_lt hne hlt
          have hk := heq k'
          rw [field_cons k' k', if_pos rfl, SortedFields.field_eq_none fun entry hentry => ?_] at hk
          · simp at hk
          · rcases List.mem_cons.mp hentry with rfl | hentry
            · exact hgt
            · exact String.lt_trans hgt (hfirst entry hentry)
      subst hk
      have hw := heq k
      rw [field_cons, field_cons, if_pos rfl, if_pos rfl] at hw
      rw [Option.some.inj hw, ih hrest hrest' fun key => ?_]
      have hkey := heq key
      rw [field_cons, field_cons] at hkey
      by_cases hne : k = key
      · subst hne
        rw [SortedFields.field_eq_none hfirst, SortedFields.field_eq_none hfirst']
      · rwa [if_neg hne, if_neg hne] at hkey

theorem setField_setField (name : String) (v w : Value F) {map : List (String × Value F)}
    (h : SortedFields map) : setField name w (setField name v map) = setField name w map := by
  refine ((h.setField name v).setField name w).ext (h.setField name w) fun key => ?_
  by_cases hkey : key = name
  · rw [hkey, field_setField_self, field_setField_self]
  · rw [field_setField_ne hkey, field_setField_ne hkey, field_setField_ne hkey]

end Rekuiper
