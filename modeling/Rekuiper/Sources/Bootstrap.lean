import Rekuiper.Sources.Basic

/-!
# The registry behind the maps

`Registry` is what the maps are to say: which rules are registered for which
streams, and the mask of each. The invariant ties every map to it, and a bootstrap
on a stream with a source keeps the tie.
-/

namespace Rekuiper.Sources

open Lib

-- ---- Unions of masks

def unionMask (rules : List String) (mask : String → Option FieldMask) : Option FieldMask :=
  if rules = [] ∨ ∃ rule ∈ rules, mask rule = none then none
  else some (rules.toFinset.biUnion fun rule => (mask rule).getD ∅)

theorem unionFields_eq_none {entries : List (Sigma fun _ : String => Option FieldMask)}
    (h : ∃ e ∈ entries, e.2 = none) : AppState.unionFields entries = none := by
  induction entries with
  | nil => simp at h
  | cons entry rest ih =>
    obtain ⟨e, he, hnone⟩ := h
    rcases List.mem_cons.mp he with rfl | he
    · simp [AppState.unionFields, hnone]
    · simp [AppState.unionFields, ih ⟨e, he, hnone⟩]

theorem unionFields_eq_some {entries : List (Sigma fun _ : String => Option FieldMask)}
    (h : ∀ e ∈ entries, e.2 ≠ none) :
    ∃ union, AppState.unionFields entries = some union ∧
      ∀ field, field ∈ union ↔ ∃ e ∈ entries, field ∈ e.2.getD ∅ := by
  induction entries with
  | nil => exact ⟨∅, rfl, by simp⟩
  | cons entry rest ih =>
    obtain ⟨hentry, hrest⟩ := List.forall_mem_cons.mp h
    obtain ⟨union, hunion, hmem⟩ := ih hrest
    obtain ⟨fields, hfields⟩ := Option.ne_none_iff_exists'.mp hentry
    refine ⟨fields ∪ union, by simp [AppState.unionFields, hfields, hunion], fun field => ?_⟩
    simp [hmem, hfields]

theorem computeUnionFieldMask_eq {entries : HashMap String (Option FieldMask)}
    {rules : List String} {mask : String → Option FieldMask}
    (hlookup : ∀ rule, entries.lookup rule = if rule ∈ rules then some (mask rule) else none)
    (hne : ∀ rule ∈ rules, mask rule ≠ some ∅) :
    AppState.computeUnionFieldMask entries = unionMask rules mask := by
  have hentries : ∀ e, e ∈ entries.entries ↔ e.1 ∈ rules ∧ e.2 = mask e.1 := by
    rintro ⟨rule, fields⟩
    rw [← AList.mem_lookup_iff, hlookup]
    split <;> simp [*, eq_comm]
  unfold AppState.computeUnionFieldMask unionMask
  by_cases hnil : rules = []
  · have hempty : entries.entries = [] := by
      refine List.eq_nil_iff_forall_not_mem.mpr fun e he => ?_
      simpa [hnil] using ((hentries e).mp he).1
    simp [hnil, hempty]
  obtain ⟨rule, hrule⟩ := List.exists_mem_of_ne_nil rules hnil
  have hentry : ⟨rule, mask rule⟩ ∈ entries.entries := (hentries ⟨rule, mask rule⟩).mpr ⟨hrule, rfl⟩
  have hsome : entries.entries.isEmpty = false := by
    simpa using List.ne_nil_of_mem hentry
  simp only [hsome, Bool.false_eq_true, if_false]
  by_cases hnone : ∃ rule ∈ rules, mask rule = none
  · obtain ⟨rule, hrule, hmask⟩ := hnone
    have hentry : ⟨rule, none⟩ ∈ entries.entries :=
      (hentries ⟨rule, none⟩).mpr ⟨hrule, hmask.symm⟩
    rw [unionFields_eq_none ⟨_, hentry, rfl⟩, if_pos (.inr ⟨rule, hrule, hmask⟩)]
  · have hall : ∀ e ∈ entries.entries, e.2 ≠ none := by
      intro e he heq
      obtain ⟨hmem, hmask⟩ := (hentries e).mp he
      exact hnone ⟨e.1, hmem, hmask ▸ heq⟩
    obtain ⟨union, hunion, hmem⟩ := unionFields_eq_some hall
    have heq : union = rules.toFinset.biUnion fun rule => (mask rule).getD ∅ := by
      ext field
      simp only [hmem, Finset.mem_biUnion, List.mem_toFinset]
      constructor
      · rintro ⟨e, he, hfield⟩
        obtain ⟨hrule, hmask⟩ := (hentries e).mp he
        exact ⟨e.1, hrule, hmask ▸ hfield⟩
      · rintro ⟨rule, hrule, hfield⟩
        exact ⟨⟨rule, mask rule⟩, (hentries _).mpr ⟨hrule, rfl⟩, hfield⟩
    have hunion_ne : union ≠ ∅ := by
      obtain ⟨fields, hfields⟩ := Option.ne_none_iff_exists'.mp (hall _ hentry)
      have hfields' : fields ≠ ∅ := fun hempty => hne rule hrule (by simpa [hempty] using hfields)
      obtain ⟨field, hfield⟩ := Finset.nonempty_iff_ne_empty.mpr hfields'
      refine Finset.ne_empty_of_mem (a := field) ((hmem field).mpr ⟨_, hentry, ?_⟩)
      rw [hfields]
      exact hfield
    rw [hunion, if_neg (not_or.mpr ⟨hnil, hnone⟩), ← heq]
    simp [hunion_ne]

-- ---- The invariant

/-- Which rules are registered for which streams, and the mask a rule asked for
when it was last bootstrapped on a stream. -/
structure Registry where
  registered : String → String → Prop
  mask : String → String → Option FieldMask

/-- Cancel channels: those in the maps belong there, a source's have not been
cancelled, and the number of the next one is unused. -/
structure SendersOk (state : AppState) : Prop where
  source : ∀ key senders, state.streamSourceCancels.lookup key = some senders → senders ≠ [] ∧
    ∀ sender ∈ senders, sender ∉ state.cancelled ∧ ∃ n < state.nextSerial, sender = .source key n
  rule : ∀ rule senders, state.sourceCancels.lookup rule = some senders →
    ∀ sender ∈ senders, ∃ n < state.nextSerial, sender = .rule rule n
  fresh : ∀ key n, state.nextSerial ≤ n → CancelSender.source key n ∉ state.cancelled

/-- What the maps keyed by streams say. -/
structure Inv (registry : Registry) (state : AppState) : Prop where
  active : ∀ rule stream, rule ∈ state.activeRules stream ↔ registry.registered rule stream
  running : ∀ stream, SourceKey.stream stream ∈ state.streamSourceCancels ↔
    ∃ rule, registry.registered rule stream
  masks : ∀ stream rule, (state.ruleMasks stream).lookup rule =
    if rule ∈ state.activeRules stream then some (registry.mask stream rule) else none
  held : ∀ stream, state.streamFieldMasks.lookup stream =
    if state.activeRules stream = [] then none
    else some (AppState.computeUnionFieldMask (state.ruleMasks stream))
  nonempty : ∀ stream, ∀ rule ∈ state.activeRules stream, registry.mask stream rule ≠ some ∅
  senders : SendersOk state

theorem Inv.activeRules_ne_nil {registry : Registry} {state : AppState} {stream : String}
    (h : Inv registry state) (hmem : SourceKey.stream stream ∈ state.streamSourceCancels) :
    state.activeRules stream ≠ [] := by
  obtain ⟨rule, hrule⟩ := (h.running stream).mp hmem
  exact List.ne_nil_of_mem ((h.active rule stream).mpr hrule)

def RuleStreams (registry : Registry) (state : AppState) : Prop :=
  ∀ rule stream, stream ∈ state.streamsOf rule ↔ registry.registered rule stream

theorem mem_insertSet {name other : String} {set : List String} :
    other ∈ AppState.insertSet name set ↔ other = name ∨ other ∈ set := by
  unfold AppState.insertSet
  split
  · constructor
    · exact .inr
    · rintro (rfl | h)
      · assumption
      · exact h
  · exact List.mem_cons

theorem insertSet_ne_nil (name : String) (set : List String) :
    AppState.insertSet name set ≠ [] :=
  List.ne_nil_of_mem (mem_insertSet.mpr (.inl rfl))

def Registry.add (registry : Registry) (rule stream : String) (mask : Option FieldMask) :
    Registry where
  registered r s := (r = rule ∧ s = stream) ∨ registry.registered r s
  mask s r := if r = rule ∧ s = stream then mask else registry.mask s r

theorem Inv.add {registry : Registry} {state state' : AppState} {rule stream : String}
    {mask : Option FieldMask} (h : Inv registry state) (hmask : mask ≠ some ∅)
    (hactive : ∀ s, state'.activeRules s =
      if s = stream then AppState.insertSet rule (state.activeRules s) else state.activeRules s)
    (hmasks : ∀ s, state'.ruleMasks s =
      if s = stream then (state.ruleMasks s).insert rule mask else state.ruleMasks s)
    (hheld : ∀ s, state'.streamFieldMasks.lookup s =
      if s = stream then some (AppState.computeUnionFieldMask (state'.ruleMasks s))
      else state.streamFieldMasks.lookup s)
    (hrunning : ∀ s, SourceKey.stream s ∈ state'.streamSourceCancels ↔
      s = stream ∨ SourceKey.stream s ∈ state.streamSourceCancels)
    (hsenders : SendersOk state') :
    Inv (registry.add rule stream mask) state' where
  active r s := by
    rw [hactive]
    by_cases hs : s = stream
    · subst hs
      simp [mem_insertSet, h.active, Registry.add]
    · simp [hs, h.active, Registry.add]
  running s := by
    rw [hrunning, h.running]
    constructor
    · rintro (rfl | ⟨r, hr⟩)
      · exact ⟨rule, .inl ⟨rfl, rfl⟩⟩
      · exact ⟨r, .inr hr⟩
    · rintro ⟨r, ⟨rfl, rfl⟩ | hr⟩
      · exact .inl rfl
      · exact .inr ⟨r, hr⟩
  masks s r := by
    rw [hmasks, hactive]
    by_cases hs : s = stream
    · subst hs
      by_cases hr : r = rule
      · subst hr
        simp [mem_insertSet, Registry.add]
      · simp [mem_insertSet, hr, Registry.add, h.masks]
    · simp [hs, Registry.add, h.masks]
  held s := by
    rw [hheld, hactive]
    by_cases hs : s = stream
    · subst hs
      simp [insertSet_ne_nil]
    · simp [hs, hmasks, h.held]
  nonempty s r hr := by
    rw [hactive] at hr
    by_cases hnew : r = rule ∧ s = stream
    · simpa [Registry.add, hnew] using hmask
    · have hold : r ∈ state.activeRules s := by
        by_cases hs : s = stream
        · subst hs
          rw [if_pos rfl, mem_insertSet] at hr
          exact hr.resolve_left fun heq => hnew ⟨heq, rfl⟩
        · simpa [hs] using hr
      simpa [Registry.add, hnew] using h.nonempty s r hold
  senders := hsenders

-- ---- Bootstrapping

theorem SendersOk.addSource {state : AppState} (h : SendersOk state) (key : SourceKey) :
    SendersOk (state.addSource key) where
  source k senders hk := by
    by_cases hkey : k = key
    · subst hkey
      rw [AppState.addSource, HashMap.lookup_upsert] at hk
      obtain rfl := Option.some.inj hk
      refine ⟨by simp, fun sender hsender => ?_⟩
      rcases List.mem_append.mp hsender with hsender | hsender
      · cases hold : state.streamSourceCancels.lookup k with
        | none => simp [hold] at hsender
        | some old =>
          rw [hold] at hsender
          obtain ⟨hopen, n, hn, rfl⟩ := (h.source k old hold).2 sender hsender
          exact ⟨hopen, n, Nat.lt_succ_of_lt hn, rfl⟩
      · obtain rfl := List.mem_singleton.mp hsender
        exact ⟨h.fresh k state.nextSerial (Nat.le_refl _), state.nextSerial, Nat.lt_succ_self _, rfl⟩
    · rw [AppState.addSource, HashMap.lookup_upsert_ne _ _ _ hkey] at hk
      obtain ⟨hne, hsenders⟩ := h.source k senders hk
      refine ⟨hne, fun sender hsender => ?_⟩
      obtain ⟨hopen, n, hn, rfl⟩ := hsenders sender hsender
      exact ⟨hopen, n, Nat.lt_succ_of_lt hn, rfl⟩
  rule r senders hr sender hsender := by
    obtain ⟨n, hn, rfl⟩ := h.rule r senders hr sender hsender
    exact ⟨n, Nat.lt_succ_of_lt hn, rfl⟩
  fresh k n hn := h.fresh k n (Nat.le_of_succ_le hn)

theorem SendersOk.addRule {state : AppState} (h : SendersOk state) (stream rule : String) :
    SendersOk (state.addRule stream rule) where
  source k senders hk := by
    obtain ⟨hne, hsenders⟩ := h.source k senders hk
    refine ⟨hne, fun sender hsender => ?_⟩
    obtain ⟨hopen, n, hn, rfl⟩ := hsenders sender hsender
    exact ⟨hopen, n, Nat.lt_succ_of_lt hn, rfl⟩
  rule r senders hr sender hsender := by
    by_cases hrule : r = rule
    · subst hrule
      rw [AppState.addRule, HashMap.lookup_upsert] at hr
      obtain rfl := Option.some.inj hr
      rcases List.mem_append.mp hsender with hsender | hsender
      · cases hold : state.sourceCancels.lookup r with
        | none => simp [hold] at hsender
        | some old =>
          rw [hold] at hsender
          obtain ⟨n, hn, rfl⟩ := h.rule r old hold sender hsender
          exact ⟨n, Nat.lt_succ_of_lt hn, rfl⟩
      · obtain rfl := List.mem_singleton.mp hsender
        exact ⟨state.nextSerial, Nat.lt_succ_self _, rfl⟩
    · rw [AppState.addRule, HashMap.lookup_upsert_ne _ _ _ hrule] at hr
      obtain ⟨n, hn, rfl⟩ := h.rule r senders hr sender hsender
      exact ⟨n, Nat.lt_succ_of_lt hn, rfl⟩
  fresh k n hn := h.fresh k n (Nat.le_of_succ_le hn)

theorem setAttachMeta_eq (state : AppState) (stream : String) (needsMeta : Bool) :
    ∃ attach, (if needsMeta then state.setAttachMeta stream else state) =
      { state with streamAttachMeta := attach } := by
  cases needsMeta with
  | false => exact ⟨state.streamAttachMeta, rfl⟩
  | true =>
    simp only [if_true, AppState.setAttachMeta]
    cases state.streamAttachMeta.lookup stream with
    | none => exact ⟨state.streamAttachMeta, rfl⟩
    | some flag => exact ⟨_, rfl⟩

theorem startSource_eq (state : AppState) (stream rule : String) (needsMeta : Bool)
    {kind : SourceKind} (hkind : kind.starts = true) :
    ∃ attach endpoints, state.startSource stream rule needsMeta (some kind) =
      { state.registerRuleStreamSource stream rule with
        streamAttachMeta := attach, httpPushEndpoints := endpoints } := by
  simp only [AppState.startSource, hkind, if_true]
  cases kind <;> exact ⟨_, _, rfl⟩

theorem activeRules_addRule (state : AppState) (stream rule s : String) :
    (state.addRule stream rule).activeRules s =
      if s = stream then AppState.insertSet rule (state.activeRules s)
      else state.activeRules s := by
  unfold AppState.activeRules AppState.addRule
  rw [HashMap.find_upsert]
  split
  · subst s
    rfl
  · rfl

theorem streamsOf_addRule (state : AppState) (stream rule r : String) :
    (state.addRule stream rule).streamsOf r =
      if r = rule then AppState.insertSet stream (state.streamsOf r) else state.streamsOf r := by
  unfold AppState.streamsOf AppState.addRule
  rw [HashMap.find_upsert]
  split
  · subst r
    rfl
  · rfl

theorem ruleMasks_update (state : AppState) (stream rule : String) (mask : Option FieldMask)
    (s : String) :
    (state.updateStreamFieldMask stream rule mask).ruleMasks s =
      if s = stream then (state.ruleMasks s).insert rule mask else state.ruleMasks s := by
  unfold AppState.ruleMasks AppState.updateStreamFieldMask
  rw [HashMap.find_upsert]
  split
  · subst s
    rfl
  · rfl

theorem held_update (state : AppState) (stream rule : String) (mask : Option FieldMask)
    (s : String) :
    (state.updateStreamFieldMask stream rule mask).streamFieldMasks.lookup s =
      if s = stream then
        some (AppState.computeUnionFieldMask
          ((state.updateStreamFieldMask stream rule mask).ruleMasks s))
      else state.streamFieldMasks.lookup s := by
  by_cases hs : s = stream
  · subst hs
    rw [if_pos rfl]
    exact AList.lookup_insert _
  · rw [if_neg hs]
    exact AList.lookup_insert_ne hs

def Served (state : AppState) (defs : Definitions) (rule stream : String) : Prop :=
  state.Live stream ∨ ∃ kind, defs.resolve stream rule = some kind ∧ kind.starts = true

theorem Inv.live {registry : Registry} {state : AppState} (h : Inv registry state)
    (stream : String) :
    state.Live stream ↔ SourceKey.stream stream ∈ state.streamSourceCancels := by
  rw [← AList.lookup_isSome, Option.isSome_iff_exists]
  constructor
  · rintro ⟨sender, hsender, -⟩
    cases hlookup : state.streamSourceCancels.lookup (.stream stream) with
    | none => simp [HashMap.find, hlookup] at hsender
    | some senders => exact ⟨senders, rfl⟩
  · rintro ⟨senders, hlookup⟩
    obtain ⟨hne, hsenders⟩ := h.senders.source _ _ hlookup
    obtain ⟨sender, hsender⟩ := List.exists_mem_of_ne_nil senders hne
    refine ⟨sender, ?_, (hsenders sender hsender).1⟩
    simpa [HashMap.find, hlookup] using hsender

theorem insertSet_of_mem {name : String} {set : List String} (h : name ∈ set) :
    AppState.insertSet name set = set :=
  if_pos h

theorem RuleStreams.add {registry : Registry} {state state' : AppState} {rule stream : String}
    {mask : Option FieldMask} (h : RuleStreams registry state)
    (hstreams : ∀ r, state'.streamsOf r =
      if r = rule then AppState.insertSet stream (state.streamsOf r) else state.streamsOf r) :
    RuleStreams (registry.add rule stream mask) state' := by
  intro r s
  rw [hstreams]
  by_cases hr : r = rule
  · subst hr
    simp [mem_insertSet, h r s, Registry.add]
  · simp [hr, h r s, Registry.add]

theorem mem_addSource (state : AppState) (key k : SourceKey) :
    k ∈ (state.addSource key).streamSourceCancels ↔ k = key ∨ k ∈ state.streamSourceCancels :=
  AList.mem_insert _

theorem bootstrapStreamSources_inv {registry : Registry} {state : AppState} {defs : Definitions}
    {rule stream : String} {mask : Option FieldMask} (needsMeta : Bool) (h : Inv registry state)
    (hstreams : RuleStreams registry state) (hmask : mask ≠ some ∅)
    (hserved : Served state defs rule stream) :
    Inv (registry.add rule stream mask)
        (state.bootstrapStreamSources defs rule stream needsMeta mask) ∧
      RuleStreams (registry.add rule stream mask)
        (state.bootstrapStreamSources defs rule stream needsMeta mask) := by
  unfold AppState.bootstrapStreamSources
  split
  · -- the rule reads the stream already
    rename_i hmem
    obtain ⟨attach, hattach⟩ := setAttachMeta_eq state stream needsMeta
    simp only [hattach]
    have hregistered := (h.active rule stream).mp hmem
    constructor
    · refine h.add hmask (fun s => ?_) (ruleMasks_update _ stream rule mask)
        (held_update _ stream rule mask) (fun s => ?_) ⟨h.senders.source, h.senders.rule,
          h.senders.fresh⟩
      · split
        · subst s
          exact (insertSet_of_mem hmem).symm
        · rfl
      · constructor
        · exact .inr
        · rintro (rfl | hs)
          · exact (h.running s).mpr ⟨rule, hregistered⟩
          · exact hs
    · refine hstreams.add fun r => ?_
      split
      · subst r
        exact (insertSet_of_mem ((hstreams rule stream).mpr hregistered)).symm
      · rfl
  split
  · -- another rule's source serves the stream
    rename_i hkey
    obtain ⟨attach, hattach⟩ := setAttachMeta_eq (state.addRule stream rule) stream needsMeta
    simp only [hattach]
    have hsenders := h.senders.addRule stream rule
    refine ⟨?_, hstreams.add (streamsOf_addRule state stream rule)⟩
    refine h.add hmask (activeRules_addRule state stream rule) (ruleMasks_update _ stream rule mask)
      (held_update _ stream rule mask) (fun s => ?_) ⟨hsenders.source, hsenders.rule, hsenders.fresh⟩
    constructor
    · exact .inr
    · rintro (rfl | hs)
      · exact hkey
      · exact hs
  · -- a source is started
    rename_i hkey
    obtain ⟨kind, hresolve, hstarts⟩ := hserved.resolve_left fun hlive => hkey ((h.live stream).mp hlive)
    obtain ⟨attach, endpoints, hstart⟩ :=
      startSource_eq (state.updateStreamFieldMask stream rule mask) stream rule needsMeta hstarts
    simp only [hresolve, hstart]
    have hupdated : SendersOk (state.updateStreamFieldMask stream rule mask) :=
      ⟨h.senders.source, h.senders.rule, h.senders.fresh⟩
    have hsenders := (hupdated.addSource (.stream stream)).addRule stream rule
    refine ⟨?_, hstreams.add (streamsOf_addRule _ stream rule)⟩
    refine h.add hmask (activeRules_addRule _ stream rule) (ruleMasks_update _ stream rule mask)
      (held_update _ stream rule mask) (fun s => ?_) ⟨hsenders.source, hsenders.rule, hsenders.fresh⟩
    refine (mem_addSource _ (.stream stream) (.stream s)).trans ?_
    rw [SourceKey.stream.injEq]
    rfl

theorem bootstrapTableSource_inv {registry : Registry} {state : AppState} (table : String)
    (h : Inv registry state) (hstreams : RuleStreams registry state) :
    Inv registry (state.bootstrapTableSource table) ∧
      RuleStreams registry (state.bootstrapTableSource table) := by
  unfold AppState.bootstrapTableSource
  split
  · exact ⟨h, hstreams⟩
  · refine ⟨⟨h.active, fun s => ?_, h.masks, h.held, h.nonempty, h.senders.addSource _⟩, hstreams⟩
    rw [mem_addSource, ← h.running]
    simp

theorem maskForStream_ne (stmt : Statement) (defs : Definitions) (stream : String) :
    stmt.maskForStream defs stream ≠ some ∅ := by
  unfold Statement.maskForStream extractRequiredFields
  split
  · nofun
  · intro h
    have hmem : "ts" ∈ (∅ : FieldMask) := by
      rw [← Option.some.inj h]
      simp
    simp at hmem

def Statement.sources (stmt : Statement) (defs : Definitions) : List String :=
  stmt.source :: stmt.joins.filter fun target => defs.isTable target || target ≠ stmt.source

def Statement.streams (stmt : Statement) (defs : Definitions) : List String :=
  (stmt.sources defs).filter fun name => !defs.isTable name

theorem bootstrapRuleSources_eq (state : AppState) (defs : Definitions) (rule : String)
    (stmt : Statement) :
    state.bootstrapRuleSources defs rule stmt =
      (stmt.sources defs).foldl (fun state name => state.bootstrapSource defs rule stmt name)
        state := by
  unfold AppState.bootstrapRuleSources Statement.sources
  rw [List.foldl_cons, List.foldl_filter]
  congr 1
  funext state target
  cases defs.isTable target <;> by_cases h : target = stmt.source <;> simp [h]

def Registry.addAll (registry : Registry) (defs : Definitions) (rule : String) (stmt : Statement)
    (streams : List String) : Registry where
  registered r s := (r = rule ∧ s ∈ streams) ∨ registry.registered r s
  mask s r := if r = rule ∧ s ∈ streams then stmt.maskForStream defs s else registry.mask s r

theorem addAll_cons (registry : Registry) (defs : Definitions) (rule : String) (stmt : Statement)
    (stream : String) (streams : List String) :
    registry.addAll defs rule stmt (stream :: streams) =
      (registry.add rule stream (stmt.maskForStream defs stream)).addAll defs rule stmt streams := by
  unfold Registry.addAll Registry.add
  congr 1
  · funext r s
    simp only [List.mem_cons, eq_iff_iff]
    tauto
  · funext s r
    by_cases hr : r = rule
    · by_cases hs : s = stream
      · simp [hr, hs]
      · simp [hr, hs]
    · simp [hr]

theorem bootstrapSources_inv {registry : Registry} {state : AppState} {defs : Definitions}
    {rule : String} {stmt : Statement} {names : List String} (h : Inv registry state)
    (hstreams : RuleStreams registry state)
    (hserved : ∀ name ∈ names, defs.isTable name = false → Served state defs rule name) :
    Inv (registry.addAll defs rule stmt (names.filter fun name => !defs.isTable name))
        (names.foldl (fun state name => state.bootstrapSource defs rule stmt name) state) ∧
      RuleStreams (registry.addAll defs rule stmt (names.filter fun name => !defs.isTable name))
        (names.foldl (fun state name => state.bootstrapSource defs rule stmt name) state) := by
  induction names generalizing registry state with
  | nil => simpa [Registry.addAll] using ⟨h, hstreams⟩
  | cons name rest ih =>
    obtain ⟨hname, hrest⟩ := List.forall_mem_cons.mp hserved
    rw [List.foldl_cons]
    cases htable : defs.isTable name with
    | true =>
      obtain ⟨hinv, hstreams'⟩ := bootstrapTableSource_inv name h hstreams
      have hstep : state.bootstrapSource defs rule stmt name = state.bootstrapTableSource name := by
        simp [AppState.bootstrapSource, htable]
      rw [hstep, List.filter_cons_of_neg (by simp [htable])]
      refine ih hinv hstreams' fun other hother hstream => (hrest other hother hstream).imp_left ?_
      rw [h.live, hinv.live, h.running, hinv.running]
      exact id
    | false =>
      obtain ⟨hinv, hstreams'⟩ := bootstrapStreamSources_inv stmt.needsMeta h hstreams
        (maskForStream_ne stmt defs name) (hname htable)
      have hstep : state.bootstrapSource defs rule stmt name =
          state.bootstrapStreamSources defs rule name stmt.needsMeta
            (stmt.maskForStream defs name) := by
        simp [AppState.bootstrapSource, htable]
      rw [hstep, List.filter_cons_of_pos (by simp [htable]), addAll_cons]
      refine ih hinv hstreams' fun other hother hstream => (hrest other hother hstream).imp_left ?_
      rw [h.live, hinv.live, h.running, hinv.running]
      rintro ⟨r, hr⟩
      exact ⟨r, .inr hr⟩

end Rekuiper.Sources
