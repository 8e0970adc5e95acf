import Rekuiper.Lib.Sweep
import Rekuiper.Server.Reconcile

/-!
# Reconciled definitions

What the streams or tables of a node are after a reconciliation, name by name, and when
they are those of the manifest.
-/

namespace Rekuiper.Server

open Lib Manifest

variable {F Text : Type}

namespace DefinitionManager

variable (encode : StreamDefinition → Text) (ns noun : String)

theorem lookup_create (m : DefinitionManager Text) (d : StreamDefinition) (ok : Bool)
    (name : String) :
    (m.create encode ns noun d ok).2.definitions.lookup name =
      if name = d.name then (m.definitions.lookup name).or (if ok then some d else none)
      else m.definitions.lookup name := by
  unfold create
  by_cases hmem : d.name ∈ m.definitions
  · rw [if_pos hmem]
    split
    · subst name
      obtain ⟨old, hold⟩ := Option.isSome_iff_exists.mp (AList.lookup_isSome.mpr hmem)
      rw [hold, Option.some_or]
    · rfl
  · rw [if_neg hmem]
    cases ok with
    | false =>
      split
      · exact Option.or_none.symm
      · rfl
    | true =>
      split
      · subst name
        rw [AList.lookup_eq_none.mpr hmem]
        exact AList.lookup_insert _
      · exact AList.lookup_insert_ne ‹_›

theorem lookup_delete (m : DefinitionManager Text) (old : String) (ok : Bool) (name : String) :
    (m.delete ns noun old ok).2.definitions.lookup name =
      if name = old ∧ ok = true then none else m.definitions.lookup name := by
  unfold delete
  by_cases hmem : old ∈ m.definitions
  · rw [if_pos hmem]
    cases ok with
    | false => simp
    | true =>
      by_cases hname : name = old
      · subst name
        simp
      · simp [hname, AList.lookup_erase_ne]
  · rw [if_neg hmem]
    split
    · rename_i h
      rw [h.1, AList.lookup_eq_none.mpr hmem]
    · rfl

end DefinitionManager

/-- The operations change the definitions as those of the managers do. -/
structure DefinitionOps.Lawful (ops : DefinitionOps Text) : Prop where
  lookup_create : ∀ m d ok name, (ops.create m d ok).2.definitions.lookup name =
    if name = d.name then (m.definitions.lookup name).or (if ok then some d else none)
    else m.definitions.lookup name
  lookup_delete : ∀ m old ok name, (ops.delete m old ok).2.definitions.lookup name =
    if name = old ∧ ok = true then none else m.definitions.lookup name

theorem streamOps_lawful (lang : Manifest.Language F) (enc : Encoders F Text) (kv : KvPattern) :
    (streamOps lang enc kv).Lawful where
  lookup_create := DefinitionManager.lookup_create _ _ _
  lookup_delete := DefinitionManager.lookup_delete _ _

theorem tableOps_lawful (lang : Manifest.Language F) (enc : Encoders F Text) (kv : KvPattern) :
    (tableOps lang enc kv).Lawful where
  lookup_create := DefinitionManager.lookup_create _ _ _
  lookup_delete := DefinitionManager.lookup_delete _ _

-- ---- One name

variable {ops : DefinitionOps Text} {declared : HashMap String String}
  {m : DefinitionManager Text}

def entryEffect (ops : DefinitionOps Text) (existing : HashMap String StreamDefinition)
    (entry : Sigma fun _ : String => String) (v : Option StreamDefinition) :
    Option StreamDefinition :=
  let name := entry.1
  match ops.parse entry.2 with
  | .error _ => v
  | .ok stmt =>
    let d := if ops.createOk name then some (declaredDefinition name entry.2 stmt) else none
    match existing.lookup name with
    | some old => if old.sql ≠ entry.2 then (if ops.deleteOk name then none else v).or d else v
    | none => v.or d

theorem reconcileEntry_sweep (h : ops.Lawful) (existing : HashMap String StreamDefinition)
    (entries : List (Sigma fun _ : String => String)) :
    Sweep (fun _ => True) (fun s : DefinitionManager Text × Changes => s.1.definitions.lookup)
      Sigma.fst (reconcileEntry ops existing) (entryEffect ops existing) entries where
  keeps _ _ _ _ := trivial
  own s _ entry _ := by
    unfold reconcileEntry entryEffect
    cases ops.parse entry.2 with
    | error e => rfl
    | ok stmt =>
      cases hold : existing.lookup entry.1 with
      | none => simp [hold, h.lookup_create, declaredDefinition]
      | some old =>
        by_cases hsql : old.sql = entry.2
        · simp [hold, hsql]
        · cases hok : ops.deleteOk entry.1 <;>
            simp [hold, hok, hsql, h.lookup_create, h.lookup_delete, declaredDefinition]
  frame s _ entry _ name hname := by
    unfold reconcileEntry
    cases ops.parse entry.2 with
    | error e => rfl
    | ok stmt =>
      cases hold : existing.lookup entry.1 with
      | none => simp [hold, h.lookup_create, declaredDefinition, hname]
      | some old =>
        by_cases hsql : old.sql = entry.2
        · simp [hold, hsql]
        · simp [hold, hsql, h.lookup_create, h.lookup_delete, declaredDefinition, hname]

theorem removeEntry_sweep (h : ops.Lawful) (declared : HashMap String String)
    (entries : List (Sigma fun _ : String => StreamDefinition)) :
    Sweep (fun _ => True) (fun s : DefinitionManager Text × Changes => s.1.definitions.lookup)
      Sigma.fst (removeEntry ops declared)
      (fun old v => if old.1 ∈ declared then v else if ops.deleteOk old.1 then none else v)
      entries where
  keeps _ _ _ _ := trivial
  own s _ old _ := by
    unfold removeEntry
    by_cases hmem : old.1 ∈ declared
    · simp [hmem]
    · simp [hmem, h.lookup_delete]
  frame s _ old _ name hname := by
    unfold removeEntry
    by_cases hmem : old.1 ∈ declared
    · simp [hmem]
    · simp [hmem, h.lookup_delete, hname]

theorem lookup_reconcileDefinitions (h : ops.Lawful) (declared : HashMap String String)
    (m : DefinitionManager Text) (name : String) :
    (reconcileDefinitions ops declared m).1.definitions.lookup name =
      match declared.lookup name with
      | some ddl => entryEffect ops m.definitions ⟨name, ddl⟩ (m.definitions.lookup name)
      | none => if ops.deleteOk name then none else m.definitions.lookup name := by
  have hdeclared := reconcileEntry_sweep h m.definitions declared.entries
  have hremoved := removeEntry_sweep h declared m.definitions.entries
  unfold reconcileDefinitions
  cases hname : declared.lookup name with
  | some ddl =>
    have hmem : name ∈ declared := AList.lookup_isSome.mp (by rw [hname]; rfl)
    have hentry : ⟨name, ddl⟩ ∈ declared.entries := AList.mem_lookup_iff.mp hname
    have hown := hdeclared.foldl_own (s := (m, ⟨0, 0, 0⟩)) trivial declared.nodupKeys hentry
    by_cases hold : name ∈ m.definitions.entries.map Sigma.fst
    · obtain ⟨⟨_, d⟩, hd, rfl⟩ := List.mem_map.mp hold
      have hlast := hremoved.foldl_own
        (s := declared.entries.foldl (reconcileEntry ops m.definitions) (m, ⟨0, 0, 0⟩))
        trivial m.definitions.nodupKeys hd
      rw [if_pos hmem] at hlast
      exact hlast.trans hown
    · exact (hremoved.foldl_frame trivial hold).trans hown
  | none =>
    have hnot : name ∉ declared := fun hmem => by
      rw [← AList.lookup_isSome, hname] at hmem
      cases hmem
    have hframe := hdeclared.foldl_frame (s := (m, ⟨0, 0, 0⟩)) (k := name) trivial hnot
    by_cases hold : name ∈ m.definitions.entries.map Sigma.fst
    · obtain ⟨⟨_, d⟩, hd, rfl⟩ := List.mem_map.mp hold
      have hlast := hremoved.foldl_own
        (s := declared.entries.foldl (reconcileEntry ops m.definitions) (m, ⟨0, 0, 0⟩))
        trivial m.definitions.nodupKeys hd
      rw [if_neg hnot] at hlast
      rw [hlast, hframe]
    · rw [hremoved.foldl_frame trivial hold, hframe]
      have habsent : m.definitions.lookup name = none := AList.lookup_eq_none.mpr hold
      simp [habsent]

-- ---- Agreement with the manifest

def AsDeclared (declared : HashMap String String) (m : DefinitionManager Text) : Prop :=
  ∀ name, (m.definitions.lookup name).map (·.sql) = declared.lookup name

def WritesSucceed (ops : DefinitionOps Text) (declared : HashMap String String)
    (m : DefinitionManager Text) (name : String) : Prop :=
  match declared.lookup name, m.definitions.lookup name with
  | some ddl, some old =>
    old.sql = ddl ∨ (ops.deleteOk name = true ∧ ops.createOk name = true)
  | some _, none => ops.createOk name = true
  | none, some _ => ops.deleteOk name = true
  | none, none => True

theorem asDeclared_iff (h : ops.Lawful)
    (hparse : ∀ name ddl, declared.lookup name = some ddl → ∃ stmt, ops.parse ddl = .ok stmt) :
    AsDeclared declared (reconcileDefinitions ops declared m).1 ↔
      ∀ name, WritesSucceed ops declared m name := by
  refine forall_congr' fun name => ?_
  rw [lookup_reconcileDefinitions h, WritesSucceed]
  cases hname : declared.lookup name with
  | none =>
    cases m.definitions.lookup name with
    | none => simp
    | some old => cases ops.deleteOk name <;> simp
  | some ddl =>
    obtain ⟨stmt, hstmt⟩ := hparse name ddl hname
    cases hold : m.definitions.lookup name with
    | none =>
      cases hok : ops.createOk name <;> simp [entryEffect, hstmt, hold, hok, declaredDefinition]
    | some old =>
      by_cases hsql : old.sql = ddl
      · simp [entryEffect, hstmt, hold, hsql]
      · cases hdelete : ops.deleteOk name <;> cases hcreate : ops.createOk name <;>
          simp [entryEffect, hstmt, hold, hsql, hdelete, hcreate, declaredDefinition]

theorem reconcileDefinitions_quiet (h : AsDeclared declared m) :
    reconcileDefinitions ops declared m = (m, ⟨0, 0, 0⟩) := by
  have hentries : declared.entries.foldl (reconcileEntry ops m.definitions) (m, ⟨0, 0, 0⟩) =
      (m, ⟨0, 0, 0⟩) := by
    refine foldl_fixed fun entry hentry => ?_
    have hname := h entry.1
    rw [AList.mem_lookup_iff.mpr hentry] at hname
    obtain ⟨old, hold, hsql⟩ := Option.map_eq_some_iff.mp hname
    unfold reconcileEntry
    cases ops.parse entry.2 with
    | error e => rfl
    | ok stmt => simp [hold, hsql]
  unfold reconcileDefinitions
  rw [hentries]
  refine foldl_fixed fun old hold => ?_
  have hname := h old.1
  rw [AList.mem_lookup_iff.mpr hold] at hname
  have hmem : old.1 ∈ declared := AList.lookup_isSome.mp (by rw [← hname]; rfl)
  simp [removeEntry, hmem]

end Rekuiper.Server
