import Rekuiper.Server.Definitions
import Rekuiper.Server.Transfer

/-!
# Import undoes export

What an export writes is read back as it was if every stream and table is what its SQL says
and every rule survives its JSON text. Creating from SQL and importing the object form keep
this; an array of definitions and a manifest need not.
-/

namespace Rekuiper.Server

open Lib Rules Manifest

variable {F Text : Type} {lang : Manifest.Language F} {enc : Encoders F Text}
  {codec : TransferCodec F}

-- ---- Objects

theorem setField_perm {key : String} (value : Value F) {fields : List (String × Value F)}
    (h : key ∉ fields.map Prod.fst) :
    (setField key value fields).Perm ((key, value) :: fields) := by
  induction fields with
  | nil => exact List.Perm.refl _
  | cons first fields ih =>
    obtain ⟨k, v⟩ := first
    rw [List.map_cons, List.mem_cons, not_or] at h
    rw [setField, if_neg h.1]
    split
    · exact List.Perm.refl _
    · exact ((ih h.2).cons (k, v)).trans (List.Perm.swap _ _ _)

theorem insertAll_perm {entries : List (String × Value F)} (h : (entries.map Prod.fst).Nodup) :
    (insertAll entries).Perm entries := by
  suffices hloop : ∀ fields : List (String × Value F), (∀ entry ∈ entries,
      entry.1 ∉ fields.map Prod.fst) →
      (entries.foldl (fun fields entry => setField entry.1 entry.2 fields) fields).Perm
        (entries ++ fields) by
    simpa [insertAll] using hloop [] (by simp)
  induction entries with
  | nil => exact fun fields _ => List.Perm.refl _
  | cons entry entries ih =>
    intro fields hnew
    rw [List.map_cons, List.nodup_cons] at h
    obtain ⟨hentry, hrest⟩ := List.forall_mem_cons.mp hnew
    have hperm := setField_perm entry.2 hentry
    refine (ih h.2 (setField entry.1 entry.2 fields) fun other hother => ?_).trans ?_
    · rw [(hperm.map Prod.fst).mem_iff, List.map_cons, List.mem_cons, not_or]
      exact ⟨fun heq => h.1 (heq ▸ List.mem_map_of_mem hother), hrest other hother⟩
    · exact (hperm.append_left entries).trans List.perm_middle

theorem exported_perm {α : Type} (m : HashMap String α) (value : α → Value F) :
    (insertAll (m.entries.map fun entry => (entry.1, value entry.2))).Perm
      (m.entries.map fun entry => (entry.1, value entry.2)) := by
  refine insertAll_perm ?_
  rw [List.map_map]
  exact m.nodupKeys

def ReadsEntry {α V σ : Type} (P : σ → Prop) (view : σ → String → Option V) (seen : α → V)
    (value : α → Value F) (step : σ → String × Value F → σ) (name : String) (a : α) : Prop :=
  ∀ s, P s → view s name = none →
    P (step s (name, value a)) ∧
      ∀ k, view (step s (name, value a)) k = if k = name then some (seen a) else view s k

theorem foldl_exported {α V σ : Type} {m : HashMap String α} {value : α → Value F} {P : σ → Prop}
    {view : σ → String → Option V} {seen : α → V} {step : σ → String × Value F → σ}
    (hreads : ∀ name a, m.lookup name = some a → ReadsEntry P view seen value step name a)
    {s : σ} (hs : P s) (hempty : ∀ name, view s name = none) :
    let fields := insertAll (m.entries.map fun entry => (entry.1, value entry.2))
    P (fields.foldl step s) ∧ ∀ name, view (fields.foldl step s) name = (m.lookup name).map seen := by
  intro fields
  have hperm := exported_perm m value
  have hfield : ∀ field ∈ fields, ∃ a, m.lookup field.1 = some a ∧ field = (field.1, value a) := by
    intro field hfield
    obtain ⟨entry, hentry, rfl⟩ := List.mem_map.mp (hperm.mem_iff.mp hfield)
    exact ⟨entry.2, AList.mem_lookup_iff.mpr hentry, rfl⟩
  have hkeys : (fields.map Prod.fst).Perm m.keys := by
    refine (hperm.map Prod.fst).trans (List.Perm.of_eq ?_)
    rw [List.map_map]
    rfl
  have hinserting : Inserting P view Prod.fst (fun name => (m.lookup name).map seen) step fields := by
    constructor
    · intro s hs field hmem hnew
      obtain ⟨a, ha, hfield⟩ := hfield field hmem
      rw [hfield]
      exact (hreads field.1 a ha s hs hnew).1
    · intro s hs field hmem hnew k
      obtain ⟨a, ha, hfield⟩ := hfield field hmem
      rw [hfield, (hreads field.1 a ha s hs hnew).2]
      split
      · subst k
        rw [ha]
        rfl
      · rfl
  obtain ⟨hP, hall⟩ := hinserting.foldl (hkeys.nodup_iff.mpr m.keys_nodup) hs fun field _ =>
    hempty field.1
  refine ⟨hP, fun name => ?_⟩
  rw [hall]
  split
  · rfl
  · rename_i hname
    rw [hempty, AList.lookup_eq_none.mpr fun hmem => hname (hkeys.mem_iff.mpr hmem)]
    rfl

theorem foldl_zipIdx {σ α : Type} (f : σ → α → σ) (xs : List α) (s : σ) (n : Nat) :
    (xs.zipIdx n).foldl (fun s x => f s x.1) s = xs.foldl f s := by
  induction xs generalizing s n with
  | nil => rfl
  | cons x xs ih => exact ih (f s x) (n + 1)

-- ---- Streams and tables

/-- The SQL of a definition is read back as that definition. -/
def Kept (parse : String → Except String CreateStmt) (d : StreamDefinition) : Prop :=
  reimported parse d.name d.sql = some d

def DefinitionsKept (parse : String → Except String CreateStmt) (m : DefinitionManager Text) :
    Prop :=
  ∀ name d, m.definitions.lookup name = some d → d.name = name ∧ Kept parse d

theorem create_new (encode : StreamDefinition → Text) (ns noun : String)
    {m : DefinitionManager Text} {d : StreamDefinition} (h : m.definitions.lookup d.name = none) :
    m.create encode ns noun d true =
      (.ok (), ⟨m.definitions.insert d.name d, m.kv.insert (ns, d.name) (encode d)⟩) :=
  if_neg (AList.lookup_eq_none.mp h)

section
variable {parse : String → Except String CreateStmt} (encode : StreamDefinition → Text)
  (ns noun : String) {m target : DefinitionManager Text}

theorem importField_kept {s : Imported (DefinitionManager Text)} {d : StreamDefinition}
    (hkept : Kept parse d) (hnew : s.state.definitions.lookup d.name = none) (i : Nat) :
    importField parse (fun m => m.create encode ns noun) (fun _ => true) s
        ((d.name, (.string d.sql : Value F)), i) =
      ⟨⟨s.state.definitions.insert d.name d, s.state.kv.insert (ns, d.name) (encode d)⟩,
        s.count + 1, s.errors⟩ := by
  unfold importField
  rw [show reimported parse d.name (sqlOf (.string d.sql : Value F)) = some d from hkept]
  simp only [importDefinition, create_new encode ns noun hnew]

theorem importDefinitions_exported (hkept : DefinitionsKept parse m)
    (hempty : target.definitions = ∅) (what : String) {result : Imported (DefinitionManager Text)}
    (hresult : importDefinitions parse (fun m => m.create encode ns noun) codec what
      (fun _ => true) (some (exportDefinitions m)) target = result) :
    result.errors = ∅ ∧
      ∀ name, result.state.definitions.lookup name = m.definitions.lookup name := by
  let step (s : Imported (DefinitionManager Text)) (field : String × Value F) :=
    importField parse (fun m => m.create encode ns noun) (fun _ => true) s (field, 0)
  have hreads : ∀ name d, m.definitions.lookup name = some d →
      ReadsEntry (fun s : Imported (DefinitionManager Text) => s.errors = ∅)
        (fun s => s.state.definitions.lookup) id (fun d => .string d.sql) step name d := by
    intro name d hd s herrors hnew
    obtain ⟨rfl, hsql⟩ := hkept name d hd
    simp only [step, importField_kept encode ns noun hsql hnew]
    refine ⟨herrors, fun k => ?_⟩
    split
    · subst k
      exact AList.lookup_insert _
    · exact AList.lookup_insert_ne ‹_›
  obtain ⟨herrors, hlookup⟩ := foldl_exported hreads (s := ⟨target, 0, ∅⟩) rfl fun name => by
    rw [hempty]
    rfl
  rw [← foldl_zipIdx step _ _ 0] at herrors hlookup
  subst hresult
  exact ⟨herrors, fun name => (hlookup name).trans (congrFun Option.map_id _)⟩

end

-- ---- Rules

/-- The JSON text of a rule, imported under the rule's id, is read back as that rule. -/
def ReadsBack (codec : TransferCodec F) (rule : RuleDefinition F) : Prop :=
  (ruleEntry codec (rule.id, .string (codec.ruleText rule))).bind codec.ruleOfValue = some rule

/-- The definitions of the rules, which tasks have no part in. -/
def ruleDefinition (m : RuleManager F Text) (id : String) : Option (RuleDefinition F) :=
  (m.rules.lookup id).map (·.definition)

def RulesKept (lang : Manifest.Language F) (codec : TransferCodec F)
    (m : RuleManager F Text) : Prop :=
  ∀ id rule, ruleDefinition m id = some rule → rule.id = id ∧
    (∃ stmt, lang.parseSelect rule.sql = .ok stmt) ∧ ReadsBack codec rule

theorem ruleDefinition_setRuleHandle (m : RuleManager F Text) (id : String) (task : Nat)
    (other : String) : ruleDefinition (m.setRuleHandle id task) other = ruleDefinition m other := by
  unfold RuleManager.setRuleHandle ruleDefinition
  cases hrule : m.rules.lookup id with
  | none => rfl
  | some active =>
    have hinsert : ∀ handle : Option Nat,
        ((m.rules.insert id { active with handle }).lookup other).map (·.definition) =
          (m.rules.lookup other).map (·.definition) := by
      intro handle
      by_cases hother : other = id
      · subst other
        rw [AList.lookup_insert, hrule]
        rfl
      · rw [AList.lookup_insert_ne hother]
    dsimp only
    split
    · exact hinsert _
    · exact hinsert _

def importRuleField (lang : Manifest.Language F) (envelope : EnvelopeCodec F Text)
    (codec : TransferCodec F)
    (s : Imported (AppState F Text)) (field : String × Value F) : Imported (AppState F Text) :=
  match ruleEntry codec field with
  | none => s
  | some value => importRule lang envelope codec (fun _ => true) s (value, 0)

theorem foldl_importRule (envelope : EnvelopeCodec F Text) (fields : List (String × Value F))
    (s : Imported (AppState F Text)) :
    (fields.filterMap (ruleEntry codec)).zipIdx.foldl
        (importRule lang envelope codec fun _ => true) s =
      fields.foldl (importRuleField lang envelope codec) s := by
  refine (foldl_zipIdx (fun s value => importRule lang envelope codec (fun _ => true) s (value, 0))
    _ s 0).trans (List.foldl_filterMap.trans ?_)
  refine List.foldl_ext _ _ _ fun s field _ => ?_
  unfold importRuleField
  cases ruleEntry codec field <;> rfl

theorem importRuleField_kept (envelope : EnvelopeCodec F Text) {rule : RuleDefinition F}
    (hparse : ∃ stmt, lang.parseSelect rule.sql = .ok stmt) (hreads : ReadsBack codec rule)
    {s : Imported (AppState F Text)} (hnew : ruleDefinition s.state.ruleManager rule.id = none) :
    ∃ created : RuleManager F Text, created.rules =
        s.state.ruleManager.rules.insert rule.id (freshRule rule "running") ∧
      importRuleField lang envelope codec s (rule.id, .string (codec.ruleText rule)) =
        ⟨{ s.state with ruleManager := created }.spawnRuleTask rule.id, s.count + 1, s.errors⟩ := by
  obtain ⟨stmt, hstmt⟩ := hparse
  obtain ⟨value, hvalue, hrule⟩ := Option.bind_eq_some_iff.mp hreads
  have hmem : rule.id ∉ s.state.ruleManager.rules :=
    AList.lookup_eq_none.mp (Option.map_eq_none_iff.mp hnew)
  refine ⟨(s.state.ruleManager.createFitting envelope rule true).2, ?_, ?_⟩
  · simp [RuleManager.createFitting, hmem, RuleManager.persistRule, RuleManager.write]
  · simp [importRuleField, hvalue, importRule, hrule, hstmt, RuleManager.createFitting, hmem,
      RuleManager.persistRule, RuleManager.write]

def AppState.sources (state : AppState F Text) : DefinitionManager Text × DefinitionManager Text :=
  (state.streamManager, state.tableManager)

theorem importRule_sources (envelope : EnvelopeCodec F Text) (ok : Nat → Bool)
    (s : Imported (AppState F Text)) (item : Value F × Nat) :
    (importRule lang envelope codec ok s item).state.sources = s.state.sources := by
  unfold importRule
  split
  · rfl
  · split
    · rfl
    · split <;> rfl

theorem importRules_sources (envelope : EnvelopeCodec F Text) (ok : Nat → Bool)
    (items : List (Value F × Nat)) (s : Imported (AppState F Text)) :
    (items.foldl (importRule lang envelope codec ok) s).state.sources = s.state.sources :=
  foldl_same (f := fun s : Imported (AppState F Text) => s.state.sources)
    (importRule_sources envelope ok) items s

theorem importRules_exported {envelope : EnvelopeCodec F Text} {m : RuleManager F Text}
    (hkept : RulesKept lang codec m) {target : AppState F Text}
    {result : Imported (AppState F Text)}
    (hresult : (ruleValues codec (some (exportRules codec m))).zipIdx.foldl
      (importRule lang envelope codec fun _ => true) ⟨target, 0, ∅⟩ = result)
    (hempty : target.ruleManager.rules = ∅) :
    result.state.sources = target.sources ∧ result.errors = ∅ ∧
      ∀ id, ruleDefinition result.state.ruleManager id = ruleDefinition m id := by
  have hreads : ∀ id active, m.rules.lookup id = some active →
      ReadsEntry (fun s : Imported (AppState F Text) => s.errors = ∅)
        (fun s => ruleDefinition s.state.ruleManager) (·.definition)
        (fun active => .string (codec.ruleText active.definition))
        (importRuleField lang envelope codec) id active := by
    intro id active hactive s herrors hnew
    obtain ⟨rfl, hparse, hreads⟩ := hkept id active.definition (by rw [ruleDefinition, hactive]; rfl)
    obtain ⟨created, hcreated, hstep⟩ := importRuleField_kept envelope hparse hreads
      hnew
    rw [hstep]
    refine ⟨herrors, fun k => (ruleDefinition_setRuleHandle _ _ _ k).trans ?_⟩
    dsimp only
    unfold ruleDefinition
    rw [hcreated]
    split
    · subst k
      rw [AList.lookup_insert]
      rfl
    · rw [AList.lookup_insert_ne ‹_›]
  have hfold := foldl_exported hreads (s := ⟨target, 0, ∅⟩) rfl fun id => by
    simp [ruleDefinition, hempty]
  have hentries : m.rules.entries.map (fun entry =>
      (entry.2.definition.id, (.string (codec.ruleText entry.2.definition) : Value F))) =
      m.rules.entries.map fun entry =>
        (entry.1, .string (codec.ruleText entry.2.definition)) := by
    refine List.map_congr_left fun entry hentry => ?_
    have hactive : m.rules.lookup entry.1 = some entry.2 := AList.mem_lookup_iff.mpr hentry
    rw [(hkept entry.1 entry.2.definition (by rw [ruleDefinition, hactive]; rfl)).1]
  refine ⟨hresult ▸ importRules_sources envelope _ _ _, ?_⟩
  rw [exportRules, hentries, ruleValues, foldl_importRule] at hresult
  exact hresult ▸ hfold

-- ---- Whole nodes

/-- Everything that is defined is read back from an export as it is. -/
structure Transferable (lang : Manifest.Language F) (codec : TransferCodec F)
    (state : AppState F Text) :
    Prop where
  streams : DefinitionsKept lang.parseCreateStream state.streamManager
  tables : DefinitionsKept lang.parseCreateTable state.tableManager
  rules : RulesKept lang codec state.ruleManager

structure EmptyCatalogue (state : AppState F Text) : Prop where
  streams : state.streamManager.definitions = ∅
  tables : state.tableManager.definitions = ∅
  rules : state.ruleManager.rules = ∅

/-- An import that reports no error and leaves the definitions of another node. -/
structure Restores (result : (ImportCounts × ImportStatus) × AppState F Text)
    (state : AppState F Text) : Prop where
  status : result.1.2 = ⟨∅, ∅, ∅⟩
  streams : ∀ name, result.2.getStream name = state.getStream name
  tables : ∀ name, result.2.getTable name = state.getTable name
  rules : ∀ id, ruleDefinition result.2.ruleManager id = ruleDefinition state.ruleManager id

def allWrites : ImportWrites := ⟨fun _ => true, fun _ => true, fun _ => true⟩

theorem import_restores {state target : AppState F Text} (h : Transferable lang codec state)
    (hempty : EmptyCatalogue target) {payload : Value F}
    (hstreams : payload.get "streams" = some (exportDefinitions state.streamManager))
    (htables : payload.get "tables" = some (exportDefinitions state.tableManager))
    (hrules : payload.get "rules" = some (exportRules codec state.ruleManager)) :
    Restores (processImportPayload lang enc codec allWrites target payload) state := by
  unfold processImportPayload
  rw [hstreams, htables, hrules]
  generalize hstreams : importDefinitions lang.parseCreateStream _ codec _ _ _ _ = streams
  generalize htables : importDefinitions lang.parseCreateTable _ codec _ _ _ _ = tables
  dsimp only
  generalize hrules : List.foldl _ _ _ = rules
  obtain ⟨hs, hstreams⟩ := importDefinitions_exported _ _ _ h.streams hempty.streams _ hstreams
  obtain ⟨ht, htables⟩ := importDefinitions_exported _ _ _ h.tables hempty.tables _ htables
  obtain ⟨hsources, hr, hrules⟩ := importRules_exported h.rules hrules hempty.rules
  obtain ⟨hstreamManager, htableManager⟩ := Prod.ext_iff.mp hsources
  constructor
  · simp only [hs, ht, hr]
  · intro name
    exact (congrArg (·.definitions.lookup name) hstreamManager).trans (hstreams name)
  · intro name
    exact (congrArg (·.definitions.lookup name) htableManager).trans (htables name)
  · exact hrules

theorem import_exportRuleset {state target : AppState F Text} (h : Transferable lang codec state)
    (hempty : EmptyCatalogue target) :
    Restores (processImportPayload lang enc codec allWrites target (exportRuleset codec state))
      state :=
  import_restores h hempty rfl rfl rfl

theorem import_exportData {state target : AppState F Text} (h : Transferable lang codec state)
    (hempty : EmptyCatalogue target) :
    Restores (processImportPayload lang enc codec allWrites target (exportData codec state))
      state :=
  import_restores h hempty rfl rfl rfl

end Rekuiper.Server
