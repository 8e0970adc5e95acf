import Rekuiper.Sql.StateWrites

/-!
# Evaluation is confined to the state keys

As long as the rule's state has room for the keys of a run, so that nothing is evicted, the
evaluation of an expression depends on no other entries than those of its footprint, and changes
no others.
-/

namespace Rekuiper.Sql

open Lib

variable {F α β : Type}

theorem look_insert (s : RuleState F) (key : String) (value : Value F) :
    look (s.insert key value) key = some value := AList.lookup_insert _

theorem look_insert_ne (s : RuleState F) {key other : String} (value : Value F)
    (h : other ≠ key) : look (s.insert key value) other = look s other := AList.lookup_insert_ne h

structure KeySpace where
  keys : List String
  fits : keys.length ≤ maxStateKeys

structure Settled (U : KeySpace) (rowValues : HashMap String (Value F)) (s : RuleState F) :
    Prop where
  row : s.rowValues = rowValues
  keys : ∀ key ∈ s.state, key ∈ U.keys

-- ---- One entry

theorem insertEvicting_room {keyOrder : KeyOrder F} {most : Nat} {evictable : String → Bool}
    {U : List String} (hU : U.length ≤ most) {m : HashMap String (Value F)}
    (hm : ∀ key ∈ m, key ∈ U) {key : String} (hkey : key ∈ U) (value : Value F) :
    insertEvicting keyOrder most evictable m key value = m.insert key value := by
  refine if_neg ?_
  rintro ⟨hnew, hfull⟩
  have hnodup : (key :: m.keys).Nodup := List.nodup_cons.mpr ⟨hnew, m.keys_nodup⟩
  have hsub : key :: m.keys ⊆ U := List.cons_subset.mpr ⟨hkey, fun k hk => hm k hk⟩
  have hle := (List.subperm_of_subset hnodup hsub).length_le
  have hlength : m.keys.length = m.entries.length := List.length_map _
  rw [List.length_cons, hlength] at hle
  omega

section
variable {U : KeySpace} {rowValues : HashMap String (Value F)} {φ : Footprint String}

theorem Settled.insert {s : RuleState F} (hs : Settled U rowValues s) {key : String}
    (hkey : key ∈ U.keys) (value : Value F) : Settled U rowValues (s.insert key value) := by
  refine ⟨hs.row, fun k hk => ?_⟩
  rcases AList.mem_insert _ |>.mp hk with rfl | hk
  · exact hkey
  · exact hs.keys k hk

theorem onEntry_confined {key : String} (hwrites : key ∈ φ.writes) (hkey : key ∈ U.keys)
    (f : Option (Value F) → α × Option (Value F)) :
    Confined look (Settled U rowValues) φ
      (onEntry (fun m key value => m.insert key value) key f) := by
  constructor
  · intro s hs
    unfold onEntry
    split
    · exact hs
    · exact hs.insert hkey _
  · intro s _ k hk
    have hne : k ≠ key := fun h => hk (h ▸ hwrites)
    unfold onEntry
    split
    · rfl
    · exact look_insert_ne s _ hne
  · intro s t _ _ hst
    unfold onEntry
    rw [hst key (φ.reads_writes hwrites)]
    split
    · exact ⟨rfl, hst⟩
    · refine ⟨rfl, fun k hk => ?_⟩
      rcases eq_or_ne k key with rfl | hne
      · exact (look_insert s k _).trans (look_insert t k _).symm
      · exact (look_insert_ne s _ hne).trans ((hst k hk).trans (look_insert_ne t _ hne).symm)

theorem entryHas_confined {keyOrder : KeyOrder F} {lowered key : String} (hwrites : key ∈ φ.writes)
    (hkey : key ∈ U.keys) :
    EntryHas (fun {_} x => Confined look (Settled U rowValues) φ x)
      (siteInsert keyOrder lowered) key := by
  intro α f
  refine (onEntry_confined hwrites hkey f).congr fun s hs => ?_
  rcases siteInsert_cases keyOrder lowered with hinsert | ⟨evictable, hinsert⟩
  · rw [hinsert]
  · unfold onEntry
    rw [hinsert]
    split
    · rfl
    · rw [insertEvicting_room U.fits hs.keys hkey]

-- ---- Reading the rule's entries

theorem go_get (s : RuleState F) : (get : Eval F (RuleState F)).go s = (.ok s, s) := rfl

theorem keeps_confined {x : Eval F α} (hx : Keeps x)
    (hsame : ∀ s t, Agree look φ.reads s t → (x.go s).1 = (x.go t).1) :
    Confined look (Settled U rowValues) φ x where
  keeps s hs := (hx s).symm ▸ hs
  frame s _ key _ := congrArg (fun s => look s key) (hx s)
  agree s t _ _ hst := ⟨hsame s t hst, (hx s).symm ▸ (hx t).symm ▸ hst⟩

theorem callRuleId_confined (hkey : "__rule_id__" ∈ φ.reads) (row : Row F) :
    Confined look (Settled U rowValues) φ (callRuleId row : Eval F (Value F)) := by
  refine keeps_confined (callRuleId_keeps row) fun s t hst => ?_
  have hentry : s.state.lookup "__rule_id__" = t.state.lookup "__rule_id__" := hst _ hkey
  unfold callRuleId
  simp only [go_bind, go_get, hentry]
  split <;> rfl

theorem callRuleStart_confined (env : Env F) (hkey : "__rule_start__" ∈ φ.reads) (row : Row F) :
    Confined look (Settled U rowValues) φ (callRuleStart env row : Eval F (Value F)) := by
  refine keeps_confined (callRuleStart_keeps env row) fun s t hst => ?_
  have hentry : s.state.lookup "__rule_start__" = t.state.lookup "__rule_start__" := hst _ hkey
  unfold callRuleStart
  simp only [go_bind, go_get, hentry]
  split <;> rfl

theorem liftExcept_confined (r : Except Failure α) :
    Confined look (Settled U rowValues) φ (liftExcept r : Eval F α) :=
  (Confined.const r).congr fun s _ => go_liftExcept r s

-- ---- Expressions

theorem cached_confined (env : Env F) (e : Expr F)
    {x : Eval F (Value F)}
    (hx : Confined look (Settled U rowValues) φ x) :
    Confined look (Settled U rowValues) φ (cached env e x) := by
  by_cases ha : isAnalyticExpr e = true
  · cases hv : rowValues.lookup (env.debugText e) with
    | some value =>
      refine (Confined.const (.ok value)).congr fun s hs => ?_
      change (cached env e x).go s = _
      rw [cached, go_bind, go_get]
      simp only [ha, hs.row, hv, if_true]
      rfl
    | none =>
      refine hx.congr fun s hs => ?_
      change (cached env e x).go s = _
      rw [cached, go_bind, go_get]
      simp only [ha, hs.row, hv, if_true]
      rfl
  · refine hx.congr fun s _ => ?_
    change (cached env e x).go s = _
    rw [cached, go_bind, go_get]
    simp only [ha, if_false, Bool.false_eq_true]
    rfl

theorem confined_inherited :
    Inherited fun {_} (x : Eval F _) => Confined look (Settled U rowValues) φ x where
  lift := liftExcept_confined
  bind hx hf := hx.bind_of hf
  cached env e _ hx := cached_confined env e hx

theorem evalExpr_confined [Float64 F] (env : Env F) (keyOrder : KeyOrder F) (row : Row F)
    (calls : List (Expr F))
    (hU : ∀ key ∈ (callsFootprint (env.analytics keyOrder) row calls).writes, key ∈ U.keys)
    (e : Expr F) (h : ∀ call ∈ stateCalls e, call ∈ calls) :
    Confined look (Settled U rowValues) (callsFootprint (env.analytics keyOrder) row calls)
      (evalExpr (env.analytics keyOrder) row e) := by
  refine evalExpr_inherits _ _ confined_inherited e fun call hcall => ?_
  have hmem := h call hcall
  have hread : ∀ key ∈ siteRuleKeys call,
      key ∈ (callsFootprint (env.analytics keyOrder) row calls).reads :=
    fun key hkey => ⟨call, hmem, .inr hkey⟩
  exact siteHas_inherits confined_inherited
    (fun key hkey => entryHas_confined ⟨call, hmem, hkey⟩ (hU _ ⟨call, hmem, hkey⟩))
    (fun hkey => callRuleId_confined (hread _ hkey) row)
    fun hkey => callRuleStart_confined _ (hread _ hkey) row

end

end Rekuiper.Sql
