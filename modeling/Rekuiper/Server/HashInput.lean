import Rekuiper.Codecs.Wire
import Rekuiper.Lib.Framing
import Rekuiper.Lib.Text
import Rekuiper.Server.RoundTrip

/-!
# What the hash of a rule sees

`compute_rule_effective_hash` feeds length-prefixed texts to SHA-256, so the bytes
tell which texts were fed. They do not tell where a text came from: an absent name
or version feeds nothing, tags, DDLs and schema contents are as many texts as there
are, and the case of connection and schema names and the kind, name and file of a
schema are not fed at all. Two inputs with the same bytes are the same if and only
if they have the same shape.
-/

namespace Rekuiper.Server

open Lib Rules Manifest Pipeline Sql Codecs

variable {F Text : Type}

-- ---- The bytes

/-- `update_ctx_str` for each text: its length as `u64`, its bytes. -/
def fedBytes (texts : List String) : List UInt8 := framed (toLeBytes 8) (texts.map utf8Bytes)

/-- What `compute_rule_effective_hash` feeds to SHA-256. -/
def hashInput (lang : Manifest.Language F) (enc : Encoders F Text) (m : DeclarativeManifest F)
    (rule : RuleDefinition F) : List UInt8 := fedBytes (ruleTexts lang enc m rule)

/-- The length of a text is a `usize`. -/
def TextsFit (texts : List String) : Prop := ∀ text ∈ texts, (utf8Bytes text).length < 2 ^ 64

instance (texts : List String) : Decidable (TextsFit texts) :=
  inferInstanceAs (Decidable (∀ text ∈ texts, _))

theorem toLeBytes_tells : TellsLength (toLeBytes 8) 8 (2 ^ 64) where
  width_pos := by decide
  length_eq := length_toLeBytes 8
  inj m n hm hn h := by
    rw [← fromLeBytes_toLeBytes 8 m (by omega), h, fromLeBytes_toLeBytes 8 n (by omega)]

theorem fedBytes_inj {texts texts' : List String} (hfit : TextsFit texts)
    (hfit' : TextsFit texts') (h : fedBytes texts = fedBytes texts') : texts = texts' := by
  have hbytes := toLeBytes_tells.framed_inj (by simpa [TextsFit] using hfit)
    (by simpa [TextsFit] using hfit') h
  have hread : ∀ texts : List String, (texts.map utf8Bytes).map fromUtf8Lossy = texts := by
    intro texts
    simp [Function.comp_def, fromUtf8Lossy_utf8Bytes]
  rw [← hread texts, hbytes, hread]

-- ---- Sources and their DDL

/-- The sources of a statement, FROM first. -/
def statementSources (lang : Manifest.Language F) (sql : String) : List String :=
  match lang.parseSelect sql with
  | .error _ => []
  | .ok stmt => stmt.source :: stmt.joins.map (·.target)

def sourceDdls (declared : HashMap String String) (source : String) : List String :=
  (declared.entries.filter fun entry =>
    eqIgnoreAsciiCase entry.1 (toAsciiLowercase (Manifest.unquote source))).map Sigma.snd

theorem sourceTexts_eq (m : DeclarativeManifest F) (source : String) :
    sourceTexts m source = toAsciiLowercase (Manifest.unquote source) ::
      (sourceDdls m.streams source ++ sourceDdls m.tables source) := rfl

theorem statementTexts_eq (lang : Manifest.Language F) (m : DeclarativeManifest F)
    (sql : String) :
    statementTexts lang m sql = (statementSources lang sql).flatMap (sourceTexts m) := by
  unfold statementTexts statementSources
  cases lang.parseSelect sql <;> rfl

-- ---- Equal rules, whatever the order of their maps

def SameMap {β : Type} (a b : HashMap String β) : Prop := ∀ key, a.lookup key = b.lookup key

structure SameNode (a b : GraphNode F) : Prop where
  nodeCategory : a.nodeCategory = b.nodeCategory
  nodeType : a.nodeType = b.nodeType
  props : SameMap a.props b.props

structure SameGraph (a b : GraphDefinition F) : Prop where
  nodes : ∀ id, Option.Rel SameNode (a.nodes.lookup id) (b.nodes.lookup id)
  sources : a.topo.sources = b.topo.sources
  edges : SameMap a.topo.edges b.topo.edges

structure SameRule (a b : RuleDefinition F) : Prop where
  id : a.id = b.id
  name : a.name = b.name
  version : a.version = b.version
  sql : a.sql = b.sql
  actions : List.Forall₂ SameMap a.actions b.actions
  options : Option.Rel SameMap a.options b.options
  graph : Option.Rel SameGraph a.graph b.graph
  tags : a.tags = b.tags

def definitionValues (rule : RuleDefinition F) : List (Value F) :=
  [.array (rule.actions.map Value.ofMap), (rule.options.map Value.ofMap).getD .null,
    (rule.graph.map GraphDefinition.toValue).getD .null]

def renderedValues (m : DeclarativeManifest F) (rule : RuleDefinition F) : List (Value F) :=
  definitionValues rule ++ m.connections.entries.map Sigma.snd

theorem ofMap_eq (m : HashMap String (Value F)) :
    Value.ofMap m = .object (insertAll (m.entries.map fun entry => (entry.1, entry.2))) := by
  rw [insertAll, List.foldl_map]
  rfl

theorem sameMap_of_ofMap {a b : HashMap String (Value F)} (h : Value.ofMap a = Value.ofMap b) :
    SameMap a b := by
  rw [ofMap_eq, ofMap_eq] at h
  have hfields := Value.object.inj h
  have hperm := (exported_perm a fun v => v).symm.trans
    (hfields ▸ exported_perm b fun v => v)
  have hentries := hperm.map fun entry => (⟨entry.1, entry.2⟩ : Sigma fun _ : String => Value F)
  intro key
  exact AList.perm_lookup (by simpa [Function.comp_def] using hentries)

theorem sameMap_of_mapValues {α : Type} {value : α → Value F} {a b : HashMap String α}
    (h : Value.ofMap (a.mapValues value) = Value.ofMap (b.mapValues value)) (key : String) :
    (a.lookup key).map value = (b.lookup key).map value := by
  rw [← HashMap.lookup_mapValues, ← HashMap.lookup_mapValues]
  exact sameMap_of_ofMap h key

theorem rel_of_map_eq {α β : Type} {R : α → α → Prop} {f : α → β} (hR : ∀ a b, f a = f b → R a b)
    {o o' : Option α} (h : o.map f = o'.map f) : Option.Rel R o o' := by
  cases o with
  | none =>
    cases o' with
    | none => exact .none
    | some b => cases h
  | some a =>
    cases o' with
    | none => cases h
    | some b => exact .some (hR a b (Option.some.inj h))

theorem sameNode_of_toValue {a b : GraphNode F} (h : GraphNode.toValue a = GraphNode.toValue b) :
    SameNode a b := by
  simp only [GraphNode.toValue, Value.object.injEq, List.cons.injEq, Prod.mk.injEq,
    Value.string.injEq, true_and, and_true] at h
  exact ⟨h.2.2, h.1, sameMap_of_ofMap h.2.1⟩

theorem strings_inj {xs ys : List String}
    (h : (Value.array (xs.map .string) : Value F) = .array (ys.map .string)) : xs = ys :=
  List.map_injective_iff.mpr (fun _ _ h => Value.string.inj h) (Value.array.inj h)

theorem sameGraph_of_toValue {a b : GraphDefinition F}
    (h : GraphDefinition.toValue a = GraphDefinition.toValue b) : SameGraph a b := by
  simp only [GraphDefinition.toValue, Value.object.injEq, List.cons.injEq, Prod.mk.injEq,
    true_and, and_true] at h
  obtain ⟨hnodes, hedges, hsources⟩ := h
  refine ⟨fun id => ?_, strings_inj hsources, fun key => ?_⟩
  · exact rel_of_map_eq (fun _ _ => sameNode_of_toValue) (sameMap_of_mapValues hnodes id)
  · have hstrings := sameMap_of_mapValues hedges key
    exact Option.map_injective (fun _ _ => strings_inj) hstrings

theorem sameOptions_of_value {a b : Option (HashMap String (Value F))}
    (h : (a.map Value.ofMap).getD .null = (b.map Value.ofMap).getD .null) :
    Option.Rel SameMap a b := by
  refine rel_of_map_eq (fun _ _ => sameMap_of_ofMap) ?_
  cases a <;> cases b <;> simp_all [ofMap_eq]

theorem sameGraphs_of_value {a b : Option (GraphDefinition F)}
    (h : (a.map GraphDefinition.toValue).getD .null =
      (b.map GraphDefinition.toValue).getD .null) : Option.Rel SameGraph a b := by
  refine rel_of_map_eq (fun _ _ => sameGraph_of_toValue) ?_
  cases a <;> cases b <;> simp_all [GraphDefinition.toValue]

theorem sameActions_of_value {as bs : List (HashMap String (Value F))}
    (h : (Value.array (as.map Value.ofMap) : Value F) = .array (bs.map Value.ofMap)) :
    List.Forall₂ SameMap as bs := by
  have hmaps := Value.array.inj h
  clear h
  induction as generalizing bs with
  | nil =>
    obtain rfl := List.map_eq_nil_iff.mp hmaps.symm
    exact .nil
  | cons a as ih =>
    cases bs with
    | nil => cases hmaps
    | cons b bs =>
      obtain ⟨hfirst, hrest⟩ := List.cons.inj hmaps
      exact .cons (sameMap_of_ofMap hfirst) (ih hrest)

-- ---- Equal inputs and inputs of one shape

section

variable (lang : Manifest.Language F) (m m' : DeclarativeManifest F) (rule rule' : RuleDefinition F)

def ruleDdls (lang : Manifest.Language F) (m : DeclarativeManifest F) (rule : RuleDefinition F) :
    List (List String × List String) :=
  (statementSources lang rule.sql).map fun source =>
    (sourceDdls m.streams source, sourceDdls m.tables source)

/-- Everything the hash is documented to take into account is the same. -/
structure SameInput : Prop where
  definition : SameRule rule rule'
  ddls : ruleDdls lang m rule = ruleDdls lang m' rule'
  connections : m.connections = m'.connections
  schemas : m.schemas = m'.schemas

def schemaShape (entry : Sigma fun _ : String => SchemaDefinition) :
    String × String × String × Option String × Bool :=
  (entry.1, entry.2.name, entry.2.kind, entry.2.file, entry.2.content.isSome)

/-- The same optional parts are there, and what is not fed is the same. -/
structure SameShape : Prop where
  name : rule.name.isSome = rule'.name.isSome
  version : rule.version.isSome = rule'.version.isSome
  tags : rule.tags.length = rule'.tags.length
  ddls : (ruleDdls lang m rule).map (fun ddls => (ddls.1.length, ddls.2.length)) =
    (ruleDdls lang m' rule').map fun ddls => (ddls.1.length, ddls.2.length)
  connections : m.connections.keys = m'.connections.keys
  schemas : m.schemas.entries.map schemaShape = m'.schemas.entries.map schemaShape

end

variable {lang : Manifest.Language F} {enc : Encoders F Text} {m m' : DeclarativeManifest F}
  {rule rule' : RuleDefinition F}

theorem SameInput.shape (h : SameInput lang m m' rule rule') : SameShape lang m m' rule rule' where
  name := by rw [h.definition.name]
  version := by rw [h.definition.version]
  tags := by rw [h.definition.tags]
  ddls := by rw [h.ddls]
  connections := by rw [h.connections]
  schemas := by rw [h.schemas]

def connectionTexts (enc : Encoders F Text) (entry : Sigma fun _ : String => Value F) :
    List String := [toAsciiLowercase entry.1, enc.jsonText entry.2]

def schemaTexts (entry : Sigma fun _ : String => SchemaDefinition) : List String :=
  toAsciiLowercase entry.1 :: entry.2.content.toList

theorem ruleTexts_eq (lang : Manifest.Language F) (enc : Encoders F Text)
    (m : DeclarativeManifest F) (rule : RuleDefinition F) :
    ruleTexts lang enc m rule = [rule.id] ++ rule.name.toList ++ rule.version.toList ++
      (rule.sql :: (definitionValues rule).map enc.jsonText) ++ rule.tags ++
      (statementSources lang rule.sql).flatMap (sourceTexts m) ++
      m.connections.entries.flatMap (connectionTexts enc) ++
      m.schemas.entries.flatMap schemaTexts := by
  rw [← statementTexts_eq]
  rfl

theorem length_toList_eq {α : Type} {o o' : Option α} (h : o.isSome = o'.isSome) :
    o.toList.length = o'.toList.length := by
  cases o <;> cases o' <;> simp_all

theorem toList_inj {α : Type} {o o' : Option α} (h : o.toList = o'.toList) : o = o' := by
  cases o <;> cases o' <;> simp_all

theorem length_sourceTexts (m : DeclarativeManifest F) (sources : List String) :
    (sources.flatMap (sourceTexts m)).length =
      ((sources.map fun source => ((sourceDdls m.streams source).length,
        (sourceDdls m.tables source).length)).map fun counts => counts.1 + counts.2 + 1).sum := by
  simp [List.length_flatMap, sourceTexts_eq, Function.comp_def]

theorem length_schemaTexts (entries : List (Sigma fun _ : String => SchemaDefinition)) :
    (entries.flatMap schemaTexts).length =
      ((entries.map schemaShape).map fun shape => if shape.2.2.2.2 then 2 else 1).sum := by
  induction entries with
  | nil => rfl
  | cons entry entries ih =>
    simp only [List.flatMap_cons, List.length_append, List.map_cons, List.sum_cons, ih]
    congr 1
    cases h : entry.2.content <;> simp [schemaTexts, schemaShape, h]

theorem connections_inj {es es' : List (Sigma fun _ : String => Value F)}
    (hjson : ∀ v ∈ es.map Sigma.snd, ∀ v' ∈ es'.map Sigma.snd,
      enc.jsonText v = enc.jsonText v' → v = v')
    (hkeys : es.map Sigma.fst = es'.map Sigma.fst)
    (h : es.flatMap (connectionTexts enc) = es'.flatMap (connectionTexts enc)) : es = es' := by
  induction es generalizing es' with
  | nil => exact (List.map_eq_nil_iff.mp hkeys.symm).symm
  | cons e es ih =>
    cases es' with
    | nil => cases hkeys
    | cons e' es' =>
      obtain ⟨hkey, hkeys⟩ := List.cons.inj hkeys
      simp only [List.flatMap_cons, connectionTexts, List.cons_append, List.nil_append,
        List.cons.injEq] at h
      have hvalue := hjson e.2 (by simp) e'.2 (by simp) h.2.1
      have hrest := ih (fun v hv v' hv' => hjson v (List.mem_cons_of_mem _ hv) v'
        (List.mem_cons_of_mem _ hv')) hkeys h.2.2
      rw [hrest, Sigma.ext hkey (heq_of_eq hvalue)]

theorem schemas_inj {es es' : List (Sigma fun _ : String => SchemaDefinition)}
    (hshape : es.map schemaShape = es'.map schemaShape)
    (h : es.flatMap schemaTexts = es'.flatMap schemaTexts) : es = es' := by
  induction es generalizing es' with
  | nil => exact (List.map_eq_nil_iff.mp hshape.symm).symm
  | cons e es ih =>
    cases es' with
    | nil => cases hshape
    | cons e' es' =>
      obtain ⟨hfirst, hshapes⟩ := List.cons.inj hshape
      simp only [schemaShape, Prod.mk.injEq] at hfirst
      obtain ⟨hkey, hname, hkind, hfile, hcontent⟩ := hfirst
      simp only [List.flatMap_cons] at h
      obtain ⟨hhead, htail⟩ := List.append_inj h (by
        simp only [schemaTexts, List.length_cons, length_toList_eq hcontent])
      have hcontents := toList_inj (List.cons.inj hhead).2
      obtain ⟨key, name, kind, content, file⟩ := e
      obtain ⟨key', name', kind', content', file'⟩ := e'
      simp only at hkey hname hkind hfile hcontents
      subst hkey hname hkind hfile hcontents
      rw [ih hshapes htail]

theorem ddls_inj {sources : List String}
    (hcounts : sources.map (fun source => ((sourceDdls m.streams source).length,
        (sourceDdls m.tables source).length)) =
      sources.map fun source => ((sourceDdls m'.streams source).length,
        (sourceDdls m'.tables source).length))
    (h : sources.flatMap (sourceTexts m) = sources.flatMap (sourceTexts m')) :
    sources.map (fun source => (sourceDdls m.streams source, sourceDdls m.tables source)) =
      sources.map fun source => (sourceDdls m'.streams source, sourceDdls m'.tables source) := by
  have hcount := List.map_inj_left.mp hcounts
  refine List.map_inj_left.mpr fun source hsource => ?_
  have hpieces := flatMap_pieces_inj (fun source hsource => by
    have hlen := Prod.mk.inj (hcount source hsource)
    simp only [sourceTexts_eq, List.length_cons, List.length_append, hlen.1, hlen.2]) h
  have htexts := hpieces source hsource
  rw [sourceTexts_eq, sourceTexts_eq] at htexts
  obtain ⟨hstreams, htables⟩ := List.append_inj (List.cons.inj htexts).2
    (Prod.mk.inj (hcount source hsource)).1
  rw [hstreams, htables]

theorem sameInput_of_texts
    (hjson : ∀ v ∈ renderedValues m rule, ∀ v' ∈ renderedValues m' rule',
      enc.jsonText v = enc.jsonText v' → v = v')
    (hshape : SameShape lang m m' rule rule')
    (h : ruleTexts lang enc m rule = ruleTexts lang enc m' rule') :
    SameInput lang m m' rule rule' := by
  rw [ruleTexts_eq, ruleTexts_eq] at h
  obtain ⟨h, hschemas⟩ := List.append_inj' h (by
    rw [length_schemaTexts, length_schemaTexts, hshape.schemas])
  obtain ⟨h, hconnections⟩ := List.append_inj' h (by
    have hkeys := congrArg List.length hshape.connections
    simp only [AList.keys, List.keys, List.length_map] at hkeys
    simp [List.length_flatMap, connectionTexts, hkeys])
  obtain ⟨h, hddls⟩ := List.append_inj' h (by
    have hcounts := hshape.ddls
    simp only [ruleDdls, List.map_map, Function.comp_def] at hcounts
    rw [length_sourceTexts, length_sourceTexts, hcounts])
  obtain ⟨h, htags⟩ := List.append_inj' h hshape.tags
  obtain ⟨h, hfixed⟩ := List.append_inj' h (by simp [definitionValues])
  obtain ⟨h, hversion⟩ := List.append_inj' h (length_toList_eq hshape.version)
  obtain ⟨hid, hname⟩ := List.append_inj' h (length_toList_eq hshape.name)
  obtain ⟨hsql, hvalues⟩ := List.cons.inj hfixed
  have hrendered : ∀ v ∈ definitionValues rule, ∀ v' ∈ definitionValues rule',
      enc.jsonText v = enc.jsonText v' → v = v' := fun v hv v' hv' =>
    hjson v (List.mem_append_left _ hv) v' (List.mem_append_left _ hv')
  simp only [definitionValues, List.map_cons, List.map_nil, List.cons.injEq, and_true] at hvalues
  refine ⟨⟨(List.cons.inj hid).1, toList_inj hname, toList_inj hversion, hsql, ?_, ?_, ?_, htags⟩,
    ?_, ?_, ?_⟩
  · exact sameActions_of_value (hrendered _ (by simp [definitionValues]) _
      (by simp [definitionValues]) hvalues.1)
  · exact sameOptions_of_value (hrendered _ (by simp [definitionValues]) _
      (by simp [definitionValues]) hvalues.2.1)
  · exact sameGraphs_of_value (hrendered _ (by simp [definitionValues]) _
      (by simp [definitionValues]) hvalues.2.2)
  · have hcounts := hshape.ddls
    simp only [ruleDdls, List.map_map, Function.comp_def, ← hsql] at hcounts ⊢
    rw [← hsql] at hddls
    exact ddls_inj hcounts hddls
  · refine AList.ext (connections_inj (fun v hv v' hv' => ?_) hshape.connections hconnections)
    exact hjson v (List.mem_append_right _ hv) v' (List.mem_append_right _ hv')
  · exact AList.ext (schemas_inj hshape.schemas hschemas)

/-- What the hash is documented to do: inputs with the same bytes are the same. -/
def DetectsChange (lang : Manifest.Language F) (enc : Encoders F Text)
    (m m' : DeclarativeManifest F) (rule rule' : RuleDefinition F) : Prop :=
  hashInput lang enc m rule = hashInput lang enc m' rule' → SameInput lang m m' rule rule'

/-- A rule with a name, and the rule in which the name became the version. -/
def namedRule : RuleDefinition ℚ := ⟨"r", some "x", none, "SELECT * FROM demo", [], none, none, []⟩

def versionedRule : RuleDefinition ℚ :=
  ⟨"r", none, some "x", "SELECT * FROM demo", [], none, none, []⟩

end Rekuiper.Server
