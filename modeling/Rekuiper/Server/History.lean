import Rekuiper.Server.RoundTrip

/-!
# Histories

A node is filled by requests that create streams, tables and rules, by imports, and by
manifests. As long as every definition they bring is one that its SQL gives back, import
undoes export. REST creations from SQL and the object form of an import always bring such
definitions; a manifest brings one only if the DDL creates the name it is declared under.
-/

namespace Rekuiper.Server

open Lib Rules Manifest

variable {F Text : Type} {lang : Manifest.Language F} {enc : Encoders F Text}
  {codec : TransferCodec F}

-- ---- Streams and tables

section
variable {parse : String → Except String CreateStmt} {m : DefinitionManager Text}

theorem kept_parsed {sql : String} {stmt : CreateStmt} (h : parse sql = .ok stmt) :
    Kept parse (parsedDefinition sql stmt) := by
  simp only [Kept, reimported, parsedDefinition, h]

theorem kept_reimported {name sql : String} {d : StreamDefinition}
    (h : reimported parse name sql = some d) : Kept parse d := by
  cases hparse : parse sql with
  | ok stmt =>
    simp only [reimported, hparse, Option.some.injEq] at h
    exact h ▸ kept_parsed hparse
  | error e =>
    simp only [reimported, hparse, Option.ite_none_left_eq_some, Option.some.injEq] at h
    obtain ⟨hname, rfl⟩ := h
    simp [Kept, reimported, bareDefinition, hparse, hname]

theorem DefinitionsKept.create (h : DefinitionsKept parse m) (encode : StreamDefinition → Text)
    (ns noun : String) {d : StreamDefinition} (hd : Kept parse d) (ok : Bool) :
    DefinitionsKept parse (m.create encode ns noun d ok).2 := by
  intro name found hfound
  rw [DefinitionManager.lookup_create] at hfound
  split at hfound
  · subst name
    rcases Option.or_eq_some_iff.mp hfound with hold | ⟨-, hnew⟩
    · exact h _ found hold
    · obtain ⟨-, hsome⟩ := Option.ite_none_right_eq_some.mp hnew
      obtain rfl := Option.some.inj hsome
      exact ⟨rfl, hd⟩
  · exact h name found hfound

theorem DefinitionsKept.delete (h : DefinitionsKept parse m) (ns noun name : String) (ok : Bool) :
    DefinitionsKept parse (m.delete ns noun name ok).2 := by
  intro other found hfound
  rw [DefinitionManager.lookup_delete] at hfound
  exact h other found (Option.ite_none_left_eq_some.mp hfound).2

theorem definitionsKept_deleteAll (h : DefinitionsKept parse m) (ns noun : String)
    (ok : String → Bool) (names : List String) :
    DefinitionsKept parse
      (names.foldl (fun m name => (m.delete ns noun name (ok name)).2) m) :=
  List.foldlRecOn names _ h fun _ h name _ => h.delete ns noun name (ok name)

def ItemsKept (parse : String → Except String CreateStmt) (codec : TransferCodec F)
    (entries : Option (Value F)) : Prop :=
  ∀ items, entries = some (.array items) → ∀ item ∈ items, ∀ d,
    codec.definitionOfValue item = .ok d → Kept parse d

theorem definitionsKept_importDefinition {s : Imported (DefinitionManager Text)}
    (h : DefinitionsKept parse s.state) (encode : StreamDefinition → Text) (ns noun : String)
    {d : StreamDefinition} (hd : Kept parse d) (ok : Bool) :
    DefinitionsKept parse
      (importDefinition (fun m => m.create encode ns noun) s d ok).state := by
  have hcreate := h.create encode ns noun hd ok
  unfold importDefinition
  dsimp only
  split
  · exact h
  · rename_i hresult
    rw [hresult] at hcreate
    exact hcreate

theorem definitionsKept_importDefinitions (h : DefinitionsKept parse m)
    (encode : StreamDefinition → Text) (ns noun what : String) (ok : Nat → Bool)
    {entries : Option (Value F)} (hitems : ItemsKept parse codec entries) :
    DefinitionsKept parse
      (importDefinitions parse (fun m => m.create encode ns noun) codec what ok entries m).state := by
  let motive (s : Imported (DefinitionManager Text)) := DefinitionsKept parse s.state
  unfold importDefinitions
  split
  · rename_i items
    refine List.foldlRecOn (motive := motive) _ _ h fun s hs item hitem => ?_
    unfold importItem
    split
    · exact hs
    · exact definitionsKept_importDefinition hs encode ns noun
        (hitems items rfl item.1 (List.fst_mem_of_mem_zipIdx hitem) _ ‹_›) _
  · refine List.foldlRecOn (motive := motive) _ _ h fun s hs field _ => ?_
    unfold importField
    split
    · exact hs
    · exact definitionsKept_importDefinition hs encode ns noun (kept_reimported ‹_›) _
  · exact h

def NamedAsDeclared (parse : String → Except String CreateStmt)
    (declared : HashMap String String) : Prop :=
  ∀ name ddl stmt, declared.lookup name = some ddl → parse ddl = .ok stmt → stmt.name = name

theorem entryEffect_kept {ops : DefinitionOps Text} {existing : HashMap String StreamDefinition}
    {entry : Sigma fun _ : String => String} {v : Option StreamDefinition} {d : StreamDefinition}
    (h : entryEffect ops existing entry v = some d) :
    v = some d ∨ ∃ stmt, ops.parse entry.2 = .ok stmt ∧ d = declaredDefinition entry.1 entry.2 stmt := by
  unfold entryEffect at h
  cases hparse : ops.parse entry.2 with
  | error e =>
    simp only [hparse] at h
    exact .inl h
  | ok stmt =>
    simp only [hparse] at h
    have hor : ∀ w, w = none ∨ w = v → w.or (if ops.createOk entry.1 then
        some (declaredDefinition entry.1 entry.2 stmt) else none) = some d →
        v = some d ∨ d = declaredDefinition entry.1 entry.2 stmt := by
      rintro w hw hsome
      rcases Option.or_eq_some_iff.mp hsome with hold | ⟨-, hnew⟩
      · rcases hw with rfl | rfl
        · cases hold
        · exact .inl hold
      · exact .inr (Option.some.inj (Option.ite_none_right_eq_some.mp hnew).2).symm
    have hcases : v = some d ∨ d = declaredDefinition entry.1 entry.2 stmt := by
      split at h
      · split at h
        · exact hor _ (by split <;> simp) h
        · exact .inl h
      · exact hor _ (.inr rfl) h
    exact hcases.imp_right fun hd => ⟨stmt, rfl, hd⟩

theorem definitionsKept_reconcile {ops : DefinitionOps Text} (hlawful : ops.Lawful)
    {declared : HashMap String String} (hnamed : NamedAsDeclared ops.parse declared)
    (h : DefinitionsKept ops.parse m) :
    DefinitionsKept ops.parse (reconcileDefinitions ops declared m).1 := by
  intro name d hd
  rw [lookup_reconcileDefinitions hlawful] at hd
  cases hname : declared.lookup name with
  | none =>
    rw [hname] at hd
    exact h name d (Option.ite_none_left_eq_some.mp hd).2
  | some ddl =>
    rw [hname] at hd
    obtain hold | ⟨stmt, hparse, rfl⟩ := entryEffect_kept hd
    · exact h name d hold
    · have hstmt : stmt.name = name := hnamed name ddl stmt hname hparse
      subst hstmt
      exact ⟨rfl, kept_parsed hparse⟩

end

-- ---- Rules

section
variable {m : RuleManager F Text}

theorem ruleDefinition_createFitting {envelope : EnvelopeCodec F Text} {rule found : RuleDefinition F}
    {ok : Bool} {id : String}
    (h : ruleDefinition (m.createFitting envelope rule ok).2 id = some found) :
    ruleDefinition m id = some found ∨ (rule.id = id ∧ rule = found) := by
  unfold RuleManager.createFitting at h
  by_cases hmem : rule.id ∈ m.rules
  · rw [if_pos hmem] at h
    exact .inl h
  · rw [if_neg hmem] at h
    cases ok with
    | false => exact .inl h
    | true =>
      by_cases hid : id = rule.id
      · subst id
        refine .inr ⟨rfl, ?_⟩
        simpa [ruleDefinition, RuleManager.persistRule, RuleManager.write, freshRule] using h
      · refine .inl ?_
        simpa [ruleDefinition, RuleManager.persistRule, RuleManager.write,
          AList.lookup_insert_ne hid] using h

theorem RulesKept.createFitting (h : RulesKept lang codec m) (envelope : EnvelopeCodec F Text)
    {rule : RuleDefinition F} (hparse : ∃ stmt, lang.parseSelect rule.sql = .ok stmt)
    (hreads : ReadsBack codec rule) (ok : Bool) :
    RulesKept lang codec (m.createFitting envelope rule ok).2 := by
  intro id found hfound
  obtain hold | ⟨rfl, rfl⟩ := ruleDefinition_createFitting hfound
  · exact h id found hold
  · exact ⟨rfl, hparse, hreads⟩

theorem RulesKept.createRule (h : RulesKept lang codec m) (envelope : EnvelopeCodec F Text)
    {rule : RuleDefinition F} (hparse : ∃ stmt, lang.parseSelect rule.sql = .ok stmt)
    (hreads : ReadsBack codec rule) (ok : Bool) :
    RulesKept lang codec (m.createRule envelope rule ok).2 := by
  have hcreated := h.createFitting envelope hparse hreads ok
  unfold RuleManager.createRule
  split
  · rename_i hresult
    rwa [hresult] at hcreated
  · rename_i hresult
    rw [hresult] at hcreated
    split
    · exact hcreated
    · exact h

theorem RulesKept.setRuleHandle (h : RulesKept lang codec m) (id : String) (task : Nat) :
    RulesKept lang codec (m.setRuleHandle id task) := by
  intro other found hfound
  rw [ruleDefinition_setRuleHandle] at hfound
  exact h other found hfound

theorem ruleDefinition_stopRule (envelope : EnvelopeCodec F Text) (id : String) (now : Int)
    (ok : Bool) (other : String) :
    ruleDefinition (m.stopRule envelope id now ok).2 other = ruleDefinition m other := by
  unfold RuleManager.stopRule RuleManager.changeStatus ruleDefinition
  cases hrule : m.rules.lookup id with
  | none => rfl
  | some active =>
    cases ok with
    | false => rfl
    | true =>
      by_cases hother : other = id
      · subst other
        simp [RuleManager.persistRule, RuleManager.write, hrule]
      · simp [RuleManager.persistRule, RuleManager.write, AList.lookup_insert_ne hother]

theorem RulesKept.deleteRule (h : RulesKept lang codec m) (id : String) (ok checkpointOk : Bool) :
    RulesKept lang codec (m.deleteRule id ok checkpointOk).2 := by
  intro other found hfound
  refine h other found ?_
  unfold RuleManager.deleteRule at hfound
  cases hrule : m.rules.lookup id with
  | none => simpa [hrule] using hfound
  | some active =>
    cases ok with
    | false => simpa [hrule, RuleManager.unpersistRule, RuleManager.write] using hfound
    | true =>
      by_cases hother : other = id
      · subst other
        simp [hrule, RuleManager.unpersistRule, RuleManager.write, ruleDefinition] at hfound
      · simpa [hrule, RuleManager.unpersistRule, RuleManager.write, ruleDefinition,
          AList.lookup_erase_ne hother] using hfound

theorem RulesKept.deleteAll (h : RulesKept lang codec m) (ok checkpointOk : String → Bool)
    (ids : List String) :
    RulesKept lang codec
      (ids.foldl (fun m id => (m.deleteRule id (ok id) (checkpointOk id)).2) m) :=
  List.foldlRecOn ids _ h fun _ h id _ => h.deleteRule id (ok id) (checkpointOk id)

end

-- ---- Requests

/-- What the requests of a node use: the parsers and validators, and the serialisers. -/
structure Services (F Text : Type) where
  lang : Manifest.Language F
  validateVideoOptions : HashMap String String → Except String Unit
  validateDataTemplate : String → Except String Unit
  formats : Formats F
  enc : Encoders F Text
  codec : TransferCodec F

inductive Request (F : Type)
  | createStream (payload : CreateStreamPayload) (ok : Bool)
  | createTable (payload : CreateStreamPayload) (ok : Bool)
  | createRule (rule : RuleDefinition F) (ok : Bool)
  | importData (payload : Value F) (isPartial : Bool) (kv : KvPattern) (writes : ImportWrites)
  | reconcile (manifest : DeclarativeManifest F) (kv : KvPattern) (now : Int)

def Services.handle (sv : Services F Text) (state : AppState F Text) : Request F → AppState F Text
  | .createStream payload ok =>
    (createStream sv.lang sv.validateVideoOptions sv.enc.definitionText state payload ok).2
  | .createTable payload ok => (createTable sv.lang sv.enc.definitionText state payload ok).2
  | .createRule rule ok =>
    (createRule sv.lang sv.validateDataTemplate sv.enc.envelope state rule ok).2
  | .importData payload isPartial kv writes =>
    (importData sv.lang sv.enc sv.codec kv writes isPartial state payload).2
  | .reconcile manifest kv now =>
    (reconcileManifest sv.lang sv.enc kv now sv.formats manifest state).2

def Services.history (sv : Services F Text) (requests : List (Request F)) : AppState F Text :=
  requests.foldl sv.handle AppState.empty

/-- The definitions that a request brings are given back by their texts. A stream that is
created from SQL, a table, and the object form of an import always are. -/
def Services.Faithful (sv : Services F Text) : Request F → Prop
  | .createStream payload _ => ∀ name, payload.sql = none → payload.name = some name →
    Kept sv.lang.parseCreateStream (bareDefinition name "")
  | .createTable _ _ => True
  | .createRule rule _ => ∀ created, withCompiledGraph rule = .ok created →
    ReadsBack sv.codec created
  | .importData payload _ _ _ =>
    ItemsKept sv.lang.parseCreateStream sv.codec (payload.get "streams") ∧
      ItemsKept sv.lang.parseCreateTable sv.codec (payload.get "tables") ∧
      ∀ value ∈ ruleValues sv.codec (payload.get "rules"), ∀ rule,
        sv.codec.ruleOfValue value = some rule → ReadsBack sv.codec rule
  | .reconcile manifest _ _ =>
    ∀ summary, validateManifest sv.formats sv.lang manifest = .ok summary →
      NamedAsDeclared sv.lang.parseCreateStream manifest.streams ∧
        NamedAsDeclared sv.lang.parseCreateTable manifest.tables ∧
        ∀ rules, manifest.rules.intoRulesMap sv.formats = .ok rules → ∀ id rule,
          rules.lookup id = some rule → ReadsBack sv.codec rule

-- ---- Every request

section
variable {state : AppState F Text}

theorem Transferable.storeStream (h : Transferable lang codec state)
    (definitionText : StreamDefinition → Text) {d : StreamDefinition}
    (hd : Kept lang.parseCreateStream d) (ok : Bool) :
    Transferable lang codec (storeStream definitionText state d ok).2 := by
  have hcreate := h.streams.create definitionText "streams" "Stream" hd ok
  unfold Server.storeStream
  split
  · exact h
  · rename_i hresult
    rw [← DefinitionManager.createStream, hresult] at hcreate
    exact ⟨hcreate, h.tables, h.rules⟩

theorem Transferable.storeTable (h : Transferable lang codec state)
    (definitionText : StreamDefinition → Text) {d : TableDefinition}
    (hd : Kept lang.parseCreateTable d) (ok : Bool) :
    Transferable lang codec (storeTable definitionText state d ok).2 := by
  have hcreate := h.tables.create definitionText "tables" "Table" hd ok
  unfold Server.storeTable
  split
  · exact h
  · rename_i hresult
    rw [← DefinitionManager.createTable, hresult] at hcreate
    exact ⟨h.streams, hcreate, h.rules⟩

theorem Transferable.createStream (h : Transferable lang codec state)
    (validateVideoOptions : HashMap String String → Except String Unit)
    (definitionText : StreamDefinition → Text) {payload : CreateStreamPayload}
    (hbare : ∀ name, payload.sql = none → payload.name = some name →
      Kept lang.parseCreateStream (bareDefinition name "")) (ok : Bool) :
    Transferable lang codec
      (createStream lang validateVideoOptions definitionText state payload ok).2 := by
  unfold Server.createStream
  split
  · unfold createStreamSql
    split
    · exact h
    · split
      · exact h
      · rename_i hparse
        split
        · exact h
        · exact h.storeStream definitionText (kept_parsed hparse) ok
  · rename_i hsql hname
    exact h.storeStream definitionText (hbare _ hsql hname) ok
  · exact h

theorem Transferable.createTable (h : Transferable lang codec state)
    (definitionText : StreamDefinition → Text) (payload : CreateStreamPayload) (ok : Bool) :
    Transferable lang codec (createTable lang definitionText state payload ok).2 := by
  unfold Server.createTable
  split
  · exact h
  · split
    · exact h
    · exact h.storeTable definitionText (kept_parsed ‹_›) ok

theorem Transferable.created (h : Transferable lang codec state) (envelope : EnvelopeCodec F Text)
    {rule : RuleDefinition F} (hparse : ∃ stmt, lang.parseSelect rule.sql = .ok stmt)
    (hreads : ReadsBack codec rule) (ok : Bool) (id : String) :
    Transferable lang codec
      ({ state with ruleManager := (state.ruleManager.createFitting envelope rule ok).2 }.spawnRuleTask
        id) :=
  ⟨h.streams, h.tables, (h.rules.createFitting envelope hparse hreads ok).setRuleHandle id _⟩

theorem Transferable.createRule (h : Transferable lang codec state)
    (validateDataTemplate : String → Except String Unit) (envelope : EnvelopeCodec F Text)
    {rule : RuleDefinition F}
    (hreads : ∀ created, withCompiledGraph rule = .ok created → ReadsBack codec created)
    (ok : Bool) :
    Transferable lang codec (createRule lang validateDataTemplate envelope state rule ok).2 := by
  unfold Server.createRule
  split
  · exact h
  · rename_i created hchecked
    obtain ⟨-, -, -, hcompiled, -, stmt, hstmt, -⟩ := checkedRule_eq_ok.mp hchecked
    have hrules := h.rules.createRule envelope ⟨stmt, hstmt⟩ (hreads created hcompiled) ok
    split
    · rename_i hresult
      rw [hresult] at hrules
      exact ⟨h.streams, h.tables, hrules⟩
    · exact h
    · rename_i hresult
      rw [hresult] at hrules
      dsimp only
      split
      · exact ⟨h.streams, h.tables, hrules.setRuleHandle _ _⟩
      · exact ⟨h.streams, h.tables, hrules⟩

theorem Transferable.resetConfiguration (h : Transferable lang codec state) (kv : KvPattern) :
    Transferable lang codec (resetConfiguration kv state) :=
  ⟨definitionsKept_deleteAll h.streams "streams" "Stream" (fun name => kv (.deleteStream name)) _,
    definitionsKept_deleteAll h.tables "tables" "Table" (fun name => kv (.deleteTable name)) _,
    h.rules.deleteAll (fun id => kv (.deleteRule id)) (fun id => kv (.deleteCheckpoint id)) _⟩

theorem Transferable.importRule {s : Imported (AppState F Text)}
    (h : Transferable lang codec s.state) (envelope : EnvelopeCodec F Text) (ok : Nat → Bool)
    {item : Value F × Nat}
    (hreads : ∀ rule, codec.ruleOfValue item.1 = some rule → ReadsBack codec rule) :
    Transferable lang codec (importRule lang envelope codec ok s item).state := by
  unfold Server.importRule
  split
  · exact h
  · rename_i rule hrule
    split
    · exact h
    · rename_i stmt hstmt
      have hcreated := h.created envelope ⟨stmt, hstmt⟩ (hreads rule hrule) (ok item.2) rule.id
      split
      · exact h
      · rename_i hresult
        rw [hresult] at hcreated
        exact hcreated

theorem Transferable.processImportPayload (h : Transferable lang codec state)
    (enc : Encoders F Text) (writes : ImportWrites) {payload : Value F}
    (hstreams : ItemsKept lang.parseCreateStream codec (payload.get "streams"))
    (htables : ItemsKept lang.parseCreateTable codec (payload.get "tables"))
    (hrules : ∀ value ∈ ruleValues codec (payload.get "rules"), ∀ rule,
      codec.ruleOfValue value = some rule → ReadsBack codec rule) :
    Transferable lang codec (processImportPayload lang enc codec writes state payload).2 := by
  refine List.foldlRecOn (motive := fun s : Imported (AppState F Text) =>
    Transferable lang codec s.state) _ _ ?_ fun s hs item hitem => ?_
  · exact ⟨definitionsKept_importDefinitions h.streams _ _ _ _ _ hstreams,
      definitionsKept_importDefinitions h.tables _ _ _ _ _ htables, h.rules⟩
  · exact hs.importRule enc.envelope writes.rules
      (hrules item.1 (List.fst_mem_of_mem_zipIdx hitem))

theorem Transferable.stopAndDelete (h : Transferable lang codec state) (enc : Encoders F Text)
    (kv : KvPattern) (now : Int) (id : String) :
    Transferable lang codec (stopAndDelete enc kv now state id) := by
  refine ⟨h.streams, h.tables, RulesKept.deleteRule (fun other rule hrule => ?_) id _ _⟩
  rw [ruleDefinition_stopRule] at hrule
  exact h.rules other rule hrule

theorem Transferable.removeOld {s : AppState F Text × ReconcileReport}
    (h : Transferable lang codec s.1) (enc : Encoders F Text) (kv : KvPattern) (now : Int)
    (existing : List String) (key : String) :
    Transferable lang codec (removeOld enc kv now existing s key).1 := by
  unfold Server.removeOld
  split
  · exact h.stopAndDelete enc kv now key
  · exact h

theorem Transferable.removeRule {s : AppState F Text × ReconcileReport}
    (h : Transferable lang codec s.1) (enc : Encoders F Text) (kv : KvPattern) (now : Int)
    (incoming : HashMap String (RuleDefinition F)) (id : String) :
    Transferable lang codec (removeRule enc kv now incoming s id).1 := by
  unfold Server.removeRule
  split
  · exact h
  · obtain ⟨hstreams, htables, hrules⟩ := h.stopAndDelete enc kv now id
    exact ⟨hstreams, htables, hrules⟩

theorem Transferable.reconcileRules (enc : Encoders F Text) (kv : KvPattern) (now : Int)
    (manifest : DeclarativeManifest F) (existing : List String)
    {entries : List (Sigma fun _ : String => RuleDefinition F)}
    (hreads : ∀ entry ∈ entries, ReadsBack codec entry.2)
    {s : AppState F Text × ReconcileReport} (h : Transferable lang codec s.1) :
    Transferable lang codec (reconcileRules lang enc kv now manifest existing entries s).2.1 := by
  induction entries generalizing s with
  | nil => exact h
  | cons entry entries ih =>
    obtain ⟨hentry, hrest⟩ := List.forall_mem_cons.mp hreads
    have hremoved := h.removeOld enc kv now existing entry.1
    rw [Server.reconcileRules]
    split
    · exact ih hrest h
    · dsimp only
      split
      · exact hremoved
      · rename_i stmt hstmt
        obtain ⟨hstreams, htables, hrules⟩ :=
          hremoved.created enc.envelope ⟨stmt, hstmt⟩ hentry (kv (.createRule entry.1)) entry.1
        exact ih hrest ⟨hstreams, htables, hrules⟩

theorem Transferable.reconcileManifest (h : Transferable lang codec state) (enc : Encoders F Text)
    (kv : KvPattern) (now : Int) (formats : Formats F) {manifest : DeclarativeManifest F}
    (hmanifest : ∀ summary, validateManifest formats lang manifest = .ok summary →
      NamedAsDeclared lang.parseCreateStream manifest.streams ∧
        NamedAsDeclared lang.parseCreateTable manifest.tables ∧
        ∀ rules, manifest.rules.intoRulesMap formats = .ok rules → ∀ id rule,
          rules.lookup id = some rule → ReadsBack codec rule) :
    Transferable lang codec (reconcileManifest lang enc kv now formats manifest state).2 := by
  unfold Server.reconcileManifest
  split
  · exact h
  · rename_i summary hvalid
    obtain ⟨hstreams, htables, hrules⟩ := hmanifest summary hvalid
    have hsources : Transferable lang codec (reconcileSources lang enc kv manifest state).1 :=
      ⟨definitionsKept_reconcile (streamOps_lawful lang enc kv) hstreams h.streams,
        definitionsKept_reconcile (tableOps_lawful lang enc kv) htables h.tables, h.rules⟩
    dsimp only
    split
    · exact hsources
    · rename_i incoming hincoming
      have hloop := Transferable.reconcileRules enc kv now manifest
        (state.ruleManager.rules.entries.map fun entry => entry.2.definition.id)
        (fun entry hentry => hrules incoming hincoming entry.1 entry.2
          (AList.mem_lookup_iff.mpr hentry)) hsources
      split
      · rename_i hresult
        rw [hresult] at hloop
        exact hloop
      · rename_i hresult
        rw [hresult] at hloop
        exact List.foldlRecOn (motive := fun s : AppState F Text × ReconcileReport =>
          Transferable lang codec s.1) _ _ hloop fun s hs id _ => hs.removeRule enc kv now incoming id

end

section
variable {sv : Services F Text}

theorem handle_transferable {state : AppState F Text} {request : Request F}
    (h : Transferable sv.lang sv.codec state) (hrequest : sv.Faithful request) :
    Transferable sv.lang sv.codec (sv.handle state request) := by
  cases request with
  | createStream payload ok => exact h.createStream _ _ hrequest ok
  | createTable payload ok => exact h.createTable _ payload ok
  | createRule rule ok => exact h.createRule _ _ hrequest ok
  | importData payload isPartial kv writes =>
    obtain ⟨hstreams, htables, hrules⟩ := hrequest
    cases isPartial with
    | true => exact h.processImportPayload sv.enc writes hstreams htables hrules
    | false =>
      exact (h.resetConfiguration kv).processImportPayload sv.enc writes hstreams htables hrules
  | reconcile manifest kv now =>
    exact h.reconcileManifest sv.enc kv now sv.formats hrequest

theorem empty_transferable : Transferable lang codec (AppState.empty : AppState F Text) :=
  ⟨fun _ _ h => (Option.not_mem_none _ h).elim, fun _ _ h => (Option.not_mem_none _ h).elim,
    fun _ _ h => (Option.not_mem_none _ h).elim⟩

theorem history_transferable {requests : List (Request F)}
    (h : ∀ request ∈ requests, sv.Faithful request) :
    Transferable sv.lang sv.codec (sv.history requests) :=
  List.foldlRecOn requests _ empty_transferable fun _ hstate request hrequest =>
    handle_transferable hstate (h request hrequest)

end

/-- JSON of the rule `r` over `demo`. -/
def demoCodec : TransferCodec ℚ where
  ruleText _ :=
    "\x7b\"id\":\"r\",\"name\":null,\"version\":null,\"sql\":\"SELECT * FROM demo\"," ++
      "\"actions\":[\x7b\"log\":\x7b\x7d\x7d],\"options\":null,\"graph\":null,\"tags\":[]\x7d"
  parseJson _ := some (.object [("actions", .array [.object [("log", .object [])]]),
    ("graph", .null), ("id", .string "r"), ("name", .null), ("options", .null),
    ("sql", .string "SELECT * FROM demo"), ("tags", .array []), ("version", .null)])
  ruleOfValue _ := some (sampleRule "SELECT * FROM demo")
  definitionOfValue _ := .error "invalid type: expected struct StreamDefinition"

def demoServices : Services ℚ (RuleDefinition ℚ × String ⊕ StreamDefinition) where
  lang := demoLanguage
  validateVideoOptions _ := .ok ()
  validateDataTemplate _ := .ok ()
  formats := noFormats
  enc := demoEncoders
  codec := demoCodec

def demoRequests : List (Request ℚ) :=
  [.createStream ⟨some "CREATE STREAM demo", none⟩ true,
    .createRule (sampleRule "SELECT * FROM demo") true]

theorem demoRequests_faithful : ∀ request ∈ demoRequests, demoServices.Faithful request := by
  refine List.forall_mem_cons.mpr ⟨nofun, List.forall_mem_singleton.mpr ?_⟩
  intro created hcreated
  cases hcreated
  rfl

/-- The stream `demo` is declared as `a`. -/
def misnamedStream : DeclarativeManifest ℚ :=
  { DeclarativeManifest.default with streams := AList.singleton "a" "CREATE STREAM demo" }

end Rekuiper.Server
