import Rekuiper.Manifest.Model

/-!
# Loading a directory

A directory is rejected if a file or a rule cannot be read or two files declare one name.
What is loaded otherwise has every rule of every file, unless a list repeats an id or a
rule is declared under a key that is not its id.
-/

namespace Rekuiper.Manifest

open Lib Rules

variable {F α : Type}

-- ---- The rules of one file

variable {formats : Formats F}

def DeclarativeRules.Readable (formats : Formats F) : DeclarativeRules F → Prop
  | .map rules => ∀ key value, rules.lookup key = some value →
      ∃ rule, value.toRuleDefinition formats key = .ok rule
  | .list rules => ∀ rule ∈ rules, rule.id ≠ ""

def DeclarativeRules.Has (formats : Formats F) (rule : RuleDefinition F) :
    DeclarativeRules F → Prop
  | .map rules => ∃ key value, rules.lookup key = some value ∧
      value.toRuleDefinition formats key = .ok rule
  | .list rules => rule ∈ rules

def DeclarativeRules.Names (name : String) : DeclarativeRules F → Prop
  | .map rules => name ∈ rules
  | .list rules => ∃ rule ∈ rules, rule.id = name

def DeclarativeRules.DeclaresAt (formats : Formats F) (name : String) (rule : RuleDefinition F) :
    DeclarativeRules F → Prop
  | .map rules => ∃ value, rules.lookup name = some value ∧
      value.toRuleDefinition formats name = .ok rule
  | .list rules => rule ∈ rules ∧ rule.id = name

theorem insertDeclared_ok_iff (entries : List (Sigma fun _ : String => DeclarativeRuleValue F))
    (acc : HashMap String (RuleDefinition F)) :
    (∃ map, insertDeclared formats entries acc = .ok map) ↔
      ∀ entry ∈ entries, ∃ rule, entry.2.toRuleDefinition formats entry.1 = .ok rule := by
  induction entries generalizing acc with
  | nil => simp [insertDeclared]
  | cons entry entries ih =>
    obtain ⟨id, value⟩ := entry
    cases hrule : value.toRuleDefinition formats id with
    | error e => simp [insertDeclared, hrule, bind, Except.bind]
    | ok rule => simp [insertDeclared, hrule, bind, Except.bind, ih]

theorem lookup_insertDeclared {entries : List (Sigma fun _ : String => DeclarativeRuleValue F)}
    (hnodup : entries.NodupKeys) {acc map : HashMap String (RuleDefinition F)}
    (h : insertDeclared formats entries acc = .ok map) (key : String) :
    map.lookup key =
      match entries.dlookup key with
      | some value => (value.toRuleDefinition formats key).toOption
      | none => acc.lookup key := by
  induction entries generalizing acc with
  | nil =>
    cases h
    rfl
  | cons entry entries ih =>
    obtain ⟨id, value⟩ := entry
    rw [List.nodupKeys_cons] at hnodup
    cases hrule : value.toRuleDefinition formats id with
    | error e => simp [insertDeclared, hrule, bind, Except.bind] at h
    | ok rule =>
      simp only [insertDeclared, hrule, bind, Except.bind] at h
      rw [ih hnodup.2 h]
      by_cases hkey : key = id
      · subst key
        rw [List.dlookup_eq_none.mpr hnodup.1, List.dlookup_cons_eq]
        simp only [hrule, AList.lookup_insert]
        rfl
      · rw [List.dlookup_cons_ne _ _ hkey, AList.lookup_insert_ne hkey]

theorem insertListed_ok_iff (rules : List (RuleDefinition F))
    (acc : HashMap String (RuleDefinition F)) :
    (∃ map, insertListed rules acc = .ok map) ↔ ∀ rule ∈ rules, rule.id ≠ "" := by
  induction rules generalizing acc with
  | nil => simp [insertListed]
  | cons rule rules ih =>
    by_cases hid : rule.id = ""
    · simp [insertListed, hid]
    · simp [insertListed, hid, ih]

theorem lookup_insertListed {rules : List (RuleDefinition F)}
    {acc map : HashMap String (RuleDefinition F)} (h : insertListed rules acc = .ok map)
    (key : String) :
    map.lookup key = (rules.reverse.find? fun rule => rule.id = key).or (acc.lookup key) := by
  induction rules generalizing acc with
  | nil =>
    cases h
    rfl
  | cons rule rules ih =>
    by_cases hid : rule.id = ""
    · simp [insertListed, hid] at h
    · simp only [insertListed, hid, if_false] at h
      rw [ih h, List.reverse_cons, List.find?_append, Option.or_assoc]
      by_cases hkey : key = rule.id
      · subst key
        simp [AList.lookup_insert]
      · rw [AList.lookup_insert_ne hkey]
        simp [Ne.symm hkey]

theorem intoRulesMap_ok_iff (rules : DeclarativeRules F) :
    (∃ map, rules.intoRulesMap formats = .ok map) ↔ rules.Readable formats := by
  cases rules with
  | map rules =>
    simp only [DeclarativeRules.intoRulesMap, insertDeclared_ok_iff, DeclarativeRules.Readable]
    constructor
    · exact fun h key value hvalue => h ⟨key, value⟩ (AList.mem_lookup_iff.mp hvalue)
    · exact fun h entry hentry => h entry.1 entry.2 (AList.mem_lookup_iff.mpr hentry)
  | list rules => exact insertListed_ok_iff rules ∅

theorem lookup_map {rules : HashMap String (DeclarativeRuleValue F)}
    {map : HashMap String (RuleDefinition F)}
    (h : (DeclarativeRules.map rules).intoRulesMap formats = .ok map) {key : String}
    {rule : RuleDefinition F} :
    map.lookup key = some rule ↔
      ∃ value, rules.lookup key = some value ∧ value.toRuleDefinition formats key = .ok rule := by
  rw [lookup_insertDeclared rules.nodupKeys h key, ← AList.lookup]
  cases rules.lookup key with
  | none => simp
  | some value => cases hrule : value.toRuleDefinition formats key <;> simp [hrule, Except.toOption]

theorem lookup_list {rules : List (RuleDefinition F)} {map : HashMap String (RuleDefinition F)}
    (h : (DeclarativeRules.list rules).intoRulesMap formats = .ok map) (key : String) :
    map.lookup key = rules.reverse.find? fun rule => rule.id = key := by
  rw [lookup_insertListed h key]
  simp

theorem mem_rulesMap_iff {rules : DeclarativeRules F} {map : HashMap String (RuleDefinition F)}
    (h : rules.intoRulesMap formats = .ok map) (name : String) :
    name ∈ map ↔ rules.Names name := by
  rw [← AList.lookup_isSome]
  cases rules with
  | map rules =>
    have hreadable := (intoRulesMap_ok_iff _).mp ⟨map, h⟩
    rw [DeclarativeRules.Names, ← AList.lookup_isSome, Option.isSome_iff_exists,
      Option.isSome_iff_exists]
    constructor
    · rintro ⟨rule, hrule⟩
      obtain ⟨value, hvalue, -⟩ := (lookup_map h).mp hrule
      exact ⟨value, hvalue⟩
    · rintro ⟨value, hvalue⟩
      obtain ⟨rule, hrule⟩ := hreadable name value hvalue
      exact ⟨rule, (lookup_map h).mpr ⟨value, hvalue, hrule⟩⟩
  | list rules =>
    rw [lookup_list h, List.find?_isSome]
    simp [DeclarativeRules.Names]

def DeclarativeRules.Distinct (formats : Formats F) : DeclarativeRules F → Prop
  | .map rules => ∀ key value rule, rules.lookup key = some value →
      value.toRuleDefinition formats key = .ok rule → rule.id = key
  | .list rules => ∀ rule ∈ rules, ∀ rule' ∈ rules, rule.id = rule'.id → rule = rule'

theorem declaresAt_of_lookup {rules : DeclarativeRules F}
    {map : HashMap String (RuleDefinition F)} (h : rules.intoRulesMap formats = .ok map)
    {name : String} {rule : RuleDefinition F} (hrule : map.lookup name = some rule) :
    rules.DeclaresAt formats name rule := by
  cases rules with
  | map rules => exact (lookup_map h).mp hrule
  | list rules =>
    rw [lookup_list h] at hrule
    exact ⟨List.mem_reverse.mp (List.mem_of_find?_eq_some hrule),
      by simpa using List.find?_some hrule⟩

theorem distinct_of_declaresAt {rules : DeclarativeRules F}
    (hids : ∀ name rule, rules.DeclaresAt formats name rule → rule.id = name)
    (hone : ∀ name rule rule', rules.DeclaresAt formats name rule →
      rules.DeclaresAt formats name rule' → rule = rule') : rules.Distinct formats := by
  cases rules with
  | map rules => exact fun key value rule hvalue hrule => hids key rule ⟨value, hvalue, hrule⟩
  | list rules =>
    exact fun rule hrule rule' hrule' hid => hone rule.id rule rule' ⟨hrule, rfl⟩ ⟨hrule', hid.symm⟩

theorem distinct_of_kept {rules : DeclarativeRules F}
    {map combined : HashMap String (RuleDefinition F)} (h : rules.intoRulesMap formats = .ok map)
    (hsub : ∀ key rule, map.lookup key = some rule → combined.lookup key = some rule)
    (hkept : ∀ rule, rules.Has formats rule → ∃ key, combined.lookup key = some rule)
    (hids : ∀ key rule, combined.lookup key = some rule → rule.id = key) :
    rules.Distinct formats := by
  cases rules with
  | map rules =>
    intro key value rule hvalue hrule
    exact hids key rule (hsub key rule ((lookup_map h).mpr ⟨value, hvalue, hrule⟩))
  | list rules =>
    intro rule hrule rule' hrule' hid
    obtain ⟨key, hkey⟩ := hkept rule hrule
    obtain ⟨key', hkey'⟩ := hkept rule' hrule'
    rw [← hids key rule hkey] at hkey
    rw [← hids key' rule' hkey', ← hid, hkey] at hkey'
    exact Option.some.inj hkey'

theorem lookup_iff_declaresAt {rules : DeclarativeRules F}
    {map : HashMap String (RuleDefinition F)} (h : rules.intoRulesMap formats = .ok map)
    (hdistinct : rules.Distinct formats) (name : String) (rule : RuleDefinition F) :
    map.lookup name = some rule ↔ rules.DeclaresAt formats name rule := by
  refine ⟨declaresAt_of_lookup h, fun hrule => ?_⟩
  cases rules with
  | map rules => exact (lookup_map h).mpr hrule
  | list rules =>
    have hsome : (map.lookup name).isSome := by
      rw [AList.lookup_isSome, mem_rulesMap_iff h]
      exact ⟨rule, hrule⟩
    obtain ⟨rule', hrule'⟩ := Option.isSome_iff_exists.mp hsome
    obtain ⟨hmem, hid⟩ := declaresAt_of_lookup h hrule'
    rw [hrule', hdistinct rule hrule.1 rule' hmem (hrule.2.trans hid.symm)]

theorem declaresAt_id {rules : DeclarativeRules F} (hdistinct : rules.Distinct formats)
    {name : String} {rule : RuleDefinition F} (hrule : rules.DeclaresAt formats name rule) :
    rule.id = name := by
  cases rules with
  | map rules =>
    obtain ⟨value, hvalue, hrule⟩ := hrule
    exact hdistinct name value rule hvalue hrule
  | list rules => exact hrule.2

theorem kept_of_distinct {rules : DeclarativeRules F} {map : HashMap String (RuleDefinition F)}
    (h : rules.intoRulesMap formats = .ok map) (hdistinct : rules.Distinct formats) :
    (∀ rule, rules.Has formats rule → ∃ key, map.lookup key = some rule) ∧
      ∀ key rule, map.lookup key = some rule → rule.id = key := by
  constructor
  · intro rule hrule
    cases rules with
    | map rules =>
      obtain ⟨key, hkey⟩ := hrule
      exact ⟨key, (lookup_iff_declaresAt h hdistinct _ _).mpr hkey⟩
    | list rules => exact ⟨rule.id, (lookup_iff_declaresAt h hdistinct _ _).mpr ⟨hrule, rfl⟩⟩
  · exact fun key rule hkey => declaresAt_id hdistinct (declaresAt_of_lookup h hkey)

-- ---- Merging

theorem merge_fine_iff (entityType noun file : String) {entries : List (Sigma fun _ : String => α)}
    (hnodup : entries.NodupKeys) (s : Section α) :
    (s.merge entityType noun file entries).2 = [] ↔ ∀ entry ∈ entries, entry.1 ∉ s.seen := by
  induction entries generalizing s with
  | nil => simp [Section.merge]
  | cons entry entries ih =>
    obtain ⟨name, value⟩ := entry
    rw [List.nodupKeys_cons] at hnodup
    unfold Section.merge
    cases hseen : s.seen.lookup name with
    | some prev =>
      have hmem : name ∈ s.seen := AList.lookup_isSome.mp (by rw [hseen]; rfl)
      simp [hmem]
    | none =>
      have hnone : name ∉ s.seen := AList.lookup_eq_none.mp hseen
      simp only [ih hnodup.2, AList.mem_insert, List.forall_mem_cons, hnone, not_false_eq_true,
        true_and, not_or]
      refine forall₂_congr fun entry hentry => and_iff_right ?_
      intro hname
      have hkeys : entry.1 ∈ entries.keys := List.mem_keys_of_mem hentry
      rw [hname] at hkeys
      exact hnodup.1 hkeys

theorem merge_fine {entityType noun file : String} {entries : List (Sigma fun _ : String => α)}
    (hnodup : entries.NodupKeys) {s : Section α}
    (h : (s.merge entityType noun file entries).2 = []) :
    (∀ name, name ∈ (s.merge entityType noun file entries).1.seen ↔
      name ∈ entries.keys ∨ name ∈ s.seen) ∧
    ∀ name, (s.merge entityType noun file entries).1.combined.lookup name =
      (entries.dlookup name).or (s.combined.lookup name) := by
  induction entries generalizing s with
  | nil => simp [Section.merge]
  | cons entry entries ih =>
    obtain ⟨name, value⟩ := entry
    rw [List.nodupKeys_cons] at hnodup
    unfold Section.merge at h ⊢
    cases hseen : s.seen.lookup name with
    | some prev => simp [hseen] at h
    | none =>
      simp only [hseen] at h ⊢
      obtain ⟨hnames, hvalues⟩ := ih hnodup.2 h
      refine ⟨fun other => ?_, fun other => ?_⟩
      · rw [hnames, AList.mem_insert, List.keys_cons, List.mem_cons]
        tauto
      · rw [hvalues]
        by_cases hother : other = name
        · subst other
          rw [List.dlookup_eq_none.mpr hnodup.1, AList.lookup_insert, List.dlookup_cons_eq]
          rfl
        · rw [AList.lookup_insert_ne hother, List.dlookup_cons_ne _ _ hother]

def AllErrors (diagnostics : List ValidationDiagnostic) : Prop :=
  ∀ d ∈ diagnostics, d.level = .error

theorem AllErrors.append {d₁ d₂ : List ValidationDiagnostic} (h₁ : AllErrors d₁)
    (h₂ : AllErrors d₂) : AllErrors (d₁ ++ d₂) :=
  List.forall_mem_append.mpr ⟨h₁, h₂⟩

theorem allErrors_single (entityType id message : String) :
    AllErrors [⟨.error, entityType, id, message⟩] := by
  simp [AllErrors]

theorem merge_errors (entityType noun file : String) (s : Section α)
    (entries : List (Sigma fun _ : String => α)) :
    AllErrors (s.merge entityType noun file entries).2 := by
  induction entries generalizing s with
  | nil => exact fun _ h => absurd h List.not_mem_nil
  | cons entry entries ih =>
    unfold Section.merge
    split
    · exact List.forall_mem_cons.mpr ⟨rfl, ih s⟩
    · exact ih _

inductive Entity
  | connection | schema | stream | table | rule

def DeclarativeManifest.Declares (m : DeclarativeManifest F) (name : String) : Entity → Prop
  | .connection => name ∈ m.connections
  | .schema => name ∈ m.schemas
  | .stream => name ∈ m.streams
  | .table => name ∈ m.tables
  | .rule => m.rules.Names name

def Loading.Seen (l : Loading F) (name : String) : Entity → Prop
  | .connection => name ∈ l.connections.seen
  | .schema => name ∈ l.schemas.seen
  | .stream => name ∈ l.streams.seen
  | .table => name ∈ l.tables.seen
  | .rule => name ∈ l.rules.seen

theorem merge_map_fine_iff (entityType noun file : String) (m : HashMap String α) (s : Section α) :
    (s.merge entityType noun file m.entries).2 = [] ↔ ∀ name ∈ m, name ∉ s.seen := by
  rw [merge_fine_iff entityType noun file m.nodupKeys]
  constructor
  · intro h name hname
    obtain ⟨entry, hentry, rfl⟩ := List.mem_map.mp (AList.mem_keys.mp hname)
    exact h entry hentry
  · exact fun h entry hentry => h entry.1 (AList.mem_keys.mpr (List.mem_keys_of_mem hentry))

variable {l : Loading F} {m : DeclarativeManifest F} {file : String}

theorem addManifest_fine_iff :
    (l.addManifest formats file m).diagnostics = [] ↔
      l.diagnostics = [] ∧ m.rules.Readable formats ∧
        ∀ kind name, m.Declares name kind → ¬ l.Seen name kind := by
  rw [← intoRulesMap_ok_iff]
  cases hmap : m.rules.intoRulesMap formats with
  | error e => simp [Loading.addManifest, Loading.addRules, Loading.report, hmap]
  | ok map =>
    simp only [Loading.addManifest, Loading.addRules, Loading.report, hmap,
      List.append_eq_nil_iff, merge_map_fine_iff, mem_rulesMap_iff hmap]
    constructor
    · rintro ⟨⟨hl, ⟨⟨hconnections, hschemas⟩, hstreams⟩, htables⟩, hrules⟩
      refine ⟨hl, ⟨map, rfl⟩, fun kind name hname => ?_⟩
      cases kind with
      | connection => exact hconnections name hname
      | schema => exact hschemas name hname
      | stream => exact hstreams name hname
      | table => exact htables name hname
      | rule => exact hrules name hname
    · rintro ⟨hl, -, h⟩
      exact ⟨⟨hl, ⟨⟨h .connection, h .schema⟩, h .stream⟩, h .table⟩, h .rule⟩

theorem addManifest_fine (h : (l.addManifest formats file m).diagnostics = []) :
    (∀ kind name, (l.addManifest formats file m).Seen name kind ↔
      m.Declares name kind ∨ l.Seen name kind) ∧
    ∃ map, m.rules.intoRulesMap formats = .ok map ∧
      ∀ key, (l.addManifest formats file m).rules.combined.lookup key =
        (map.lookup key).or (l.rules.combined.lookup key) := by
  obtain ⟨map, hmap⟩ := (intoRulesMap_ok_iff _).mpr (addManifest_fine_iff.mp h).2.1
  simp only [Loading.addManifest, Loading.addRules, Loading.report, hmap,
    List.append_eq_nil_iff] at h
  obtain ⟨⟨-, ⟨⟨hconnections, hschemas⟩, hstreams⟩, htables⟩, hrules⟩ := h
  have hlast := merge_fine map.nodupKeys hrules
  simp only [Loading.addManifest, Loading.addRules, Loading.report, hmap]
  refine ⟨fun kind name => ?_, map, rfl, hlast.2⟩
  cases kind with
  | connection => exact (merge_fine m.connections.nodupKeys hconnections).1 name
  | schema => exact (merge_fine m.schemas.nodupKeys hschemas).1 name
  | stream => exact (merge_fine m.streams.nodupKeys hstreams).1 name
  | table => exact (merge_fine m.tables.nodupKeys htables).1 name
  | rule =>
    refine (hlast.1 name).trans (or_congr_left ?_)
    exact mem_rulesMap_iff hmap name

theorem addFile_errors (h : AllErrors l.diagnostics) (file : File) :
    AllErrors (l.addFile formats file).diagnostics := by
  unfold Loading.addFile
  split
  · exact h.append (allErrors_single _ _ _)
  · rename_i m hm
    cases hmap : m.rules.intoRulesMap formats with
    | ok map =>
      simp only [Loading.addManifest, Loading.addRules, Loading.report, hmap]
      refine (h.append (((AllErrors.append ?_ ?_).append ?_).append ?_)).append ?_
      all_goals apply merge_errors
    | error e =>
      simp only [Loading.addManifest, Loading.addRules, Loading.report, hmap]
      refine (h.append (((AllErrors.append ?_ ?_).append ?_).append ?_)).append
        (allErrors_single _ _ _)
      all_goals apply merge_errors

-- ---- Directories

/-- The file holds a manifest whose rules can be read. -/
def File.Readable (formats : Formats F) (file : File) : Prop :=
  ∃ m, parseFile formats file = .ok m ∧ m.rules.Readable formats

def File.Disjoint (formats : Formats F) (file file' : File) : Prop :=
  ∀ m m', parseFile formats file = .ok m → parseFile formats file' = .ok m' →
    ∀ kind name, m.Declares name kind → ¬ m'.Declares name kind

def File.HasAt (formats : Formats F) (file : File) (key : String) (rule : RuleDefinition F) :
    Prop :=
  ∃ m map, parseFile formats file = .ok m ∧ m.rules.intoRulesMap formats = .ok map ∧
    map.lookup key = some rule

theorem File.HasAt.declares {file : File} {key : String} {rule : RuleDefinition F}
    (h : file.HasAt formats key rule) :
    ∃ m, parseFile formats file = .ok m ∧ m.Declares key .rule := by
  obtain ⟨m, map, hm, hmap, hkey⟩ := h
  refine ⟨m, hm, (mem_rulesMap_iff hmap key).mp (AList.lookup_isSome.mp ?_)⟩
  rw [hkey]
  rfl

/-- What the loading of files has come to: it is fine if they can be read and declare no
name twice, and then it has all that they declare. -/
structure Loaded (formats : Formats F) (files : List File) (l : Loading F) : Prop where
  fine : l.diagnostics = [] ↔
    (∀ file ∈ files, file.Readable formats) ∧ files.Pairwise (File.Disjoint formats)
  seen : l.diagnostics = [] → ∀ kind name, l.Seen name kind ↔
    ∃ file ∈ files, ∃ m, parseFile formats file = .ok m ∧ m.Declares name kind
  rules : l.diagnostics = [] → ∀ key rule, l.rules.combined.lookup key = some rule ↔
    ∃ file ∈ files, file.HasAt formats key rule

theorem Loaded.start : Loaded formats [] (Loading.start : Loading F) where
  fine := by simp [Loading.start]
  seen _ kind name := by
    cases kind <;> simp [Loading.Seen, Loading.start, Section.empty]
  rules _ key rule := by simp [Loading.start, Section.empty]

theorem exists_mem_concat {files : List File} {file : File} {p : File → Prop} :
    (∃ f ∈ files ++ [file], p f) ↔ p file ∨ ∃ f ∈ files, p f := by
  simp [or_and_right, exists_or, or_comm]

theorem Loaded.addFile {files : List File} (h : Loaded formats files l) (file : File) :
    Loaded formats (files ++ [file]) (l.addFile formats file) := by
  unfold Loading.addFile
  cases hparse : parseFile formats file with
  | error e =>
    refine ⟨?_, fun hnone => ?_, fun hnone => ?_⟩
    · simp [Loading.report, File.Readable, hparse]
    all_goals simp [Loading.report] at hnone
  | ok m =>
    have hself : ∀ {p : DeclarativeManifest F → Prop},
        (∃ m', parseFile formats file = .ok m' ∧ p m') ↔ p m := by
      intro p
      rw [hparse]
      simp
    refine ⟨?_, fun hfine kind name => ?_, fun hfine key rule => ?_⟩
    · simp only [addManifest_fine_iff, List.forall_mem_append, List.forall_mem_singleton,
        List.pairwise_append, List.pairwise_singleton, true_and, File.Readable, hself]
      constructor
      · rintro ⟨hl, hreadable, hnew⟩
        obtain ⟨hfiles, hpairs⟩ := h.fine.mp hl
        refine ⟨⟨hfiles, hreadable⟩, hpairs, fun earlier hearlier => ?_⟩
        intro m₁ m₂ hm₁ hm₂ kind name hname hname'
        cases hparse.symm.trans hm₂
        exact hnew kind name hname' ((h.seen hl kind name).mpr ⟨earlier, hearlier, m₁, hm₁, hname⟩)
      · rintro ⟨⟨hfiles, hreadable⟩, hpairs, hdisjoint⟩
        have hl := h.fine.mpr ⟨hfiles, hpairs⟩
        refine ⟨hl, hreadable, fun kind name hname hseen => ?_⟩
        obtain ⟨earlier, hearlier, m₁, hm₁, hname₁⟩ := (h.seen hl kind name).mp hseen
        exact hdisjoint earlier hearlier m₁ m hm₁ hparse kind name hname₁ hname
    · have hl := (addManifest_fine_iff.mp hfine).1
      rw [(addManifest_fine hfine).1, h.seen hl, exists_mem_concat, hself]
    · obtain ⟨hl, -, hnew⟩ := addManifest_fine_iff.mp hfine
      obtain ⟨-, map, hmap, hlookup⟩ := addManifest_fine hfine
      have hfile : file.HasAt formats key rule ↔ map.lookup key = some rule := by
        constructor
        · rintro ⟨m', map', hm', hmap', hkey⟩
          cases hparse.symm.trans hm'
          cases hmap.symm.trans hmap'
          exact hkey
        · exact fun hkey => ⟨m, map, hparse, hmap, hkey⟩
      rw [hlookup, exists_mem_concat, hfile, ← h.rules hl]
      cases hkey : map.lookup key with
      | none => simp
      | some rule' =>
        have hnone : l.rules.combined.lookup key ≠ some rule := by
          intro hold
          obtain ⟨earlier, hearlier, hat⟩ := (h.rules hl key rule).mp hold
          obtain ⟨m₁, hm₁, hname⟩ := hat.declares
          refine hnew .rule key ((mem_rulesMap_iff hmap key).mp ?_)
            ((h.seen hl .rule key).mpr ⟨earlier, hearlier, m₁, hm₁, hname⟩)
          exact AList.lookup_isSome.mp (by rw [hkey]; rfl)
        simp [hnone]

theorem loaded_files (formats : Formats F) (files : List File) :
    Loaded formats files (files.foldl (Loading.addFile formats) .start) := by
  induction files using List.reverseRecOn with
  | nil => exact Loaded.start
  | append_singleton files file ih =>
    rw [List.foldl_append]
    exact ih.addFile file

/-- The files are not combined: the directory, a file or a rule cannot be read, or two files
declare one name. -/
def Directory.Rejected (formats : Formats F) (dir : Directory) : Prop :=
  ∀ files, dir.entries = .ok files →
    ¬ ((∀ file ∈ manifestFiles files, file.Readable formats) ∧
      (manifestFiles files).Pairwise (File.Disjoint formats))

theorem loadFromDir_ok {dir : Directory} {files : List File} (h : dir.entries = .ok files) :
    loadFromDir formats dir =
      let l := (manifestFiles files).foldl (Loading.addFile formats) .start
      if l.diagnostics = [] then .ok l.manifest else .error l.diagnostics := by
  have herrors : ∀ files : List File,
      AllErrors (files.foldl (Loading.addFile formats) .start).diagnostics := by
    intro files
    induction files using List.reverseRecOn with
    | nil => exact fun _ h => absurd h List.not_mem_nil
    | append_singleton files file ih =>
      rw [List.foldl_append]
      exact addFile_errors ih file
  unfold loadFromDir
  rw [h]
  simp only
  cases hdiagnostics : ((manifestFiles files).foldl (Loading.addFile formats) .start).diagnostics with
  | nil => simp
  | cons d rest =>
    have hd := herrors (manifestFiles files) d (by simp [hdiagnostics])
    simp [hd]

theorem loadFromDir_error_iff (dir : Directory) :
    (∃ diagnostics, loadFromDir formats dir = .error diagnostics) ↔ dir.Rejected formats := by
  cases hdir : dir.entries with
  | error e => simp [Directory.Rejected, loadFromDir, hdir]
  | ok files =>
    have hfine := (loaded_files formats (manifestFiles files)).fine
    simp only [Directory.Rejected, hdir, loadFromDir_ok hdir, Except.ok.injEq, forall_eq', ← hfine]
    generalize (manifestFiles files).foldl (Loading.addFile formats) .start = l
    by_cases hnone : l.diagnostics = [] <;> simp [hnone]

def DeclarativeManifest.RuleAt (m : DeclarativeManifest F) (key : String)
    (rule : RuleDefinition F) : Prop :=
  ∃ rules, m.rules = .map rules ∧ rules.lookup key = some (.structured rule)

/-- Every rule of every file is in the combined manifest, and the ids of the rules there are
their keys, and so distinct. -/
def LosesNoRule (formats : Formats F) (dir : Directory) : Prop :=
  ∀ files, dir.entries = .ok files → ∀ m, loadFromDir formats dir = .ok m →
    (∀ file ∈ manifestFiles files, ∀ m', parseFile formats file = .ok m' →
      ∀ rule, m'.rules.Has formats rule → ∃ key, m.RuleAt key rule) ∧
    ∀ key rule, m.RuleAt key rule →
      rule.id = key ∧ ∀ key' rule', m.RuleAt key' rule' → key' ≠ key → rule'.id ≠ rule.id

theorem ruleAt_manifest (l : Loading F) (key : String) (rule : RuleDefinition F) :
    l.manifest.RuleAt key rule ↔ l.rules.combined.lookup key = some rule := by
  unfold DeclarativeManifest.RuleAt Loading.manifest
  simp [HashMap.lookup_mapValues]

theorem kept_iff {files : List File} (h : Loaded formats files l) (hfine : l.diagnostics = []) :
    ((∀ file ∈ files, ∀ m', parseFile formats file = .ok m' →
        ∀ rule, m'.rules.Has formats rule → ∃ key, l.rules.combined.lookup key = some rule) ∧
      ∀ key rule, l.rules.combined.lookup key = some rule →
        rule.id = key ∧ ∀ key' rule', l.rules.combined.lookup key' = some rule' → key' ≠ key →
          rule'.id ≠ rule.id) ↔
      ∀ file ∈ files, ∀ m, parseFile formats file = .ok m → m.rules.Distinct formats := by
  have hreadable := (h.fine.mp hfine).1
  have hmap : ∀ file ∈ files, ∀ m, parseFile formats file = .ok m →
      ∃ map, m.rules.intoRulesMap formats = .ok map := by
    intro file hfile m hm
    obtain ⟨m', hm', hrules⟩ := hreadable file hfile
    cases hm.symm.trans hm'
    exact (intoRulesMap_ok_iff _).mpr hrules
  constructor
  · rintro ⟨hkept, hids⟩ file hfile m hm
    obtain ⟨map, hmap⟩ := hmap file hfile m hm
    refine distinct_of_kept hmap (fun key rule hkey => ?_) (hkept file hfile m hm)
      fun key rule hkey => (hids key rule hkey).1
    exact (h.rules hfine key rule).mpr ⟨file, hfile, m, map, hm, hmap, hkey⟩
  · intro hdistinct
    have hids : ∀ key rule, l.rules.combined.lookup key = some rule → rule.id = key := by
      intro key rule hkey
      obtain ⟨file, hfile, m, map, hm, hmap, hkey⟩ := (h.rules hfine key rule).mp hkey
      exact (kept_of_distinct hmap (hdistinct file hfile m hm)).2 key rule hkey
    constructor
    · intro file hfile m hm rule hrule
      obtain ⟨map, hmap⟩ := hmap file hfile m hm
      obtain ⟨key, hkey⟩ := (kept_of_distinct hmap (hdistinct file hfile m hm)).1 rule hrule
      exact ⟨key, (h.rules hfine key rule).mpr ⟨file, hfile, m, map, hm, hmap, hkey⟩⟩
    · intro key rule hkey
      refine ⟨hids key rule hkey, fun key' rule' hkey' hne => ?_⟩
      rw [hids key rule hkey, hids key' rule' hkey']
      exact hne

/-- Loading loses no rule exactly if the directory is rejected or the rules of each of its
files are distinct. -/
theorem loses_no_rule_iff (formats : Formats F) (dir : Directory) :
    LosesNoRule formats dir ↔
      dir.Rejected formats ∨
        ∀ files, dir.entries = .ok files → ∀ file ∈ manifestFiles files, ∀ m,
          parseFile formats file = .ok m → m.rules.Distinct formats := by
  cases hdir : dir.entries with
  | error e => simp [LosesNoRule, Directory.Rejected, hdir]
  | ok files =>
    have hloaded := loaded_files formats (manifestFiles files)
    simp only [LosesNoRule, Directory.Rejected, hdir, loadFromDir_ok hdir, Except.ok.injEq,
      forall_eq', ← hloaded.fine]
    generalize (manifestFiles files).foldl (Loading.addFile formats) .start = l at hloaded ⊢
    by_cases hfine : l.diagnostics = []
    · simp only [hfine, if_true, Except.ok.injEq, forall_eq', ruleAt_manifest,
        not_true_eq_false, false_or]
      exact kept_iff hloaded hfine
    · simp [hfine]

def repeatedId : DeclarativeManifest ℚ :=
  { DeclarativeManifest.default with
    rules := .list [sampleRule "SELECT a FROM demo", sampleRule "SELECT b FROM demo"] }

def repeatedIdFormats : Formats ℚ where
  fromStr _ _ := .ok repeatedId
  parseRule _ := .error "expected value at line 1 column 1"

def repeatedIdFile : File := ⟨"rules.yaml", .ok "rules: [...]"⟩

theorem repeated_id_loses_rule :
    ¬ LosesNoRule repeatedIdFormats ⟨"rules.d", .ok [repeatedIdFile]⟩ := by
  have hfiles : manifestFiles [repeatedIdFile] = [repeatedIdFile] := by
    have hext : isManifestFile repeatedIdFile = true := by decide
    simp [manifestFiles, hext]
  intro h
  unfold LosesNoRule loadFromDir at h
  simp only [hfiles] at h
  obtain ⟨hkept, -⟩ := h _ rfl _ rfl
  rw [hfiles] at hkept
  obtain ⟨key, rules, hrules, hkey⟩ := hkept repeatedIdFile (List.mem_singleton_self _) repeatedId
    rfl (sampleRule "SELECT a FROM demo") List.mem_cons_self
  cases hrules
  rw [HashMap.lookup_mapValues] at hkey
  obtain ⟨rule, hrule, hstructured⟩ := Option.map_eq_some_iff.mp hkey
  cases hstructured
  have hentry := List.mem_singleton.mp (AList.mem_lookup_iff.mp hrule)
  have hsql : "SELECT a FROM demo" = "SELECT b FROM demo" :=
    congrArg (fun entry => entry.2.sql) hentry
  exact absurd hsql (by decide)

end Rekuiper.Manifest
