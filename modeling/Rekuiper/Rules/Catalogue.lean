import Rekuiper.Rules.Manager

/-!
# The catalogue survives a restart

Each operation writes to the store before it changes the memory, so the two agree
after every operation, whichever writes fail, unless a rule is stored whose
dead-letter buffer cannot be made. A daemon that is started on the store then has
the rules that were in memory.
-/

namespace Rekuiper.Rules

open Lib

variable {F Text : Type} {codec : EnvelopeCodec F Text} {m : RuleManager F Text}

/-- An operation, with the writes that succeed and the time. -/
inductive Op (F : Type)
  | create (rule : RuleDefinition F) (ok : Bool)
  | update (rule : RuleDefinition F) (ok : Bool)
  | updateTags (id : String) (update : List String → List String) (ok : Bool)
  | start (id : String) (now : Int) (ok : Bool)
  | stop (id : String) (now : Int) (ok : Bool)
  | restart (id : String) (now : Int) (ok : Bool)
  | halt (id error : String) (now : Int) (ok : Bool)
  | delete (id : String) (ok checkpointOk : Bool)

def outcome {α : Type} (result : Except RuleError α × RuleManager F Text) :
    Option RuleError × RuleManager F Text :=
  match result with
  | (.error e, m) => (some e, m)
  | (.ok _, m) => (none, m)

def apply (codec : EnvelopeCodec F Text) (m : RuleManager F Text) :
    Op F → Option RuleError × RuleManager F Text
  | .create rule ok => outcome (m.createRule codec rule ok)
  | .update rule ok => outcome (m.updateRule codec rule ok)
  | .updateTags id update ok => outcome (m.updateRuleTags codec id update ok)
  | .start id now ok => outcome (m.startRule codec id now ok)
  | .stop id now ok => outcome (m.stopRule codec id now ok)
  | .restart id now ok => outcome (m.restartRule codec id now ok)
  | .halt id error now ok => outcome (m.haltRuleWithError codec id error now ok)
  | .delete id ok checkpointOk => outcome (m.deleteRule id ok checkpointOk)

/-- What happens to a manager: an operation, a task that is handed over, or a
restart of the daemon. -/
inductive Event (F : Type)
  | op (op : Op F)
  | setHandle (id : String) (handle : Nat)
  | daemonRestart

def react (codec : EnvelopeCodec F Text) (m : RuleManager F Text) : Event F → RuleManager F Text
  | .op op => (apply codec m op).2
  | .setHandle id handle => m.setRuleHandle id handle
  | .daemonRestart =>
    ((RuleManager.newWithKv m.kv).loadFromKv codec m.kv).getD (.newWithKv m.kv)

/-- The definition that an operation stores, if the request brought it. -/
def Op.writes (m : RuleManager F Text) : Op F → Option (RuleDefinition F)
  | .create rule ok => if rule.id ∉ m.rules ∧ ok = true then some rule else none
  | .update rule ok => if rule.id ∈ m.rules ∧ ok = true then some rule else none
  | _ => none

def run (codec : EnvelopeCodec F Text) (events : List (Event F)) : RuleManager F Text :=
  events.foldl (react codec) (.newWithKv ∅)

-- ---- What an operation can do

def Stored (codec : EnvelopeCodec F Text) (active : ActiveRule F) (text : Text) : Prop :=
  ∃ status, text = codec.encode active.definition status ∧
    (status = "running" ↔ active.status.status = "running") ∧ active.definition.dlqFits = true

/-- Memory and store agree on a rule id: neither has it, or both have the rule. -/
inductive Agrees (codec : EnvelopeCodec F Text) (id : String) :
    Option (ActiveRule F) → Option Text → Prop
  | absent : Agrees codec id none none
  | present {active : ActiveRule F} {text : Text} (hid : active.definition.id = id)
      (hstored : Stored codec active text) : Agrees codec id (some active) (some text)

def Synced (codec : EnvelopeCodec F Text) (m : RuleManager F Text) : Prop :=
  ∀ id, Agrees codec id (m.rules.lookup id) (m.kv.lookup ("rules", id))

/-- Memory and store agree on `id` afterwards, and nothing else has changed. -/
structure Touches (codec : EnvelopeCodec F Text) (id : String) (m m' : RuleManager F Text) :
    Prop where
  agrees : Agrees codec id (m'.rules.lookup id) (m'.kv.lookup ("rules", id))
  rules : ∀ other, other ≠ id → m'.rules.lookup other = m.rules.lookup other
  kv : ∀ other, other ≠ id → m'.kv.lookup ("rules", other) = m.kv.lookup ("rules", other)

def Atomic (codec : EnvelopeCodec F Text) (m : RuleManager F Text)
    (result : Option RuleError × RuleManager F Text) : Prop :=
  (∃ e, result = (some e, m)) ∨ (∃ m' id, result = (none, m') ∧ Touches codec id m m')

def Op.Fits (m : RuleManager F Text) (op : Op F) : Prop :=
  ∀ rule ∈ op.writes m, rule.dlqFits = true

theorem Agrees.of_memory {id : String} {active : ActiveRule F} {stored : Option Text}
    (h : Agrees codec id (some active) stored) :
    active.definition.id = id ∧ ∃ text, stored = some text ∧ Stored codec active text := by
  cases h with
  | present hid hstored => exact ⟨hid, _, rfl, hstored⟩

theorem Agrees.of_store {id : String} {memory : Option (ActiveRule F)} {text : Text}
    (h : Agrees codec id memory (some text)) :
    ∃ active, memory = some active ∧ active.definition.id = id ∧ Stored codec active text := by
  cases h with
  | present hid hstored => exact ⟨_, rfl, hid, hstored⟩

theorem Synced.keyed (h : Synced codec m) {id : String} {active : ActiveRule F}
    (hlookup : m.rules.lookup id = some active) : active.definition.id = id :=
  (hlookup ▸ h id : Agrees codec id (some active) _).of_memory.1

theorem Touches.synced {m' : RuleManager F Text} {id : String} (h : Synced codec m)
    (htouches : Touches codec id m m') : Synced codec m' := by
  intro other
  by_cases hother : other = id
  · exact hother ▸ htouches.agrees
  · rw [htouches.rules other hother, htouches.kv other hother]
    exact h other

theorem Touches.put {m' : RuleManager F Text} {id : String} {active : ActiveRule F} {text : Text}
    (hid : active.definition.id = id) (hstored : Stored codec active text)
    (hrules : m'.rules = m.rules.insert id active)
    (hkv : m'.kv = m.kv.insert ("rules", id) text) : Touches codec id m m' where
  agrees := by
    rw [hrules, hkv, AList.lookup_insert, AList.lookup_insert]
    exact .present hid hstored
  rules other hother := by rw [hrules, AList.lookup_insert_ne hother]
  kv other hother := by
    have hne : ("rules", other) ≠ ("rules", id) := by simpa using hother
    rw [hkv, AList.lookup_insert_ne hne]

theorem Atomic.of_persist {α : Type} {id status : String} {rule : RuleDefinition F} {ok : Bool}
    {reply : α} {next : KvStore Text → RuleManager F Text} {active : ActiveRule F}
    (hid : active.definition.id = id)
    (hstored : ok = true → Stored codec active (codec.encode rule status))
    (hrules : ∀ kv, (next kv).rules = m.rules.insert id active)
    (hkv : ∀ kv, (next kv).kv = kv) :
    Atomic codec m (outcome
      (match m.persistRule codec id rule status ok with
      | .error e => (.error e, m)
      | .ok kv => ((.ok reply : Except RuleError α), next kv))) := by
  cases ok with
  | false => exact .inl ⟨.kv, rfl⟩
  | true => exact .inr ⟨_, id, rfl, .put hid (hstored rfl) (hrules _) (hkv _)⟩

theorem createRule_atomic {rule : RuleDefinition F} {ok : Bool}
    (hfits : (Op.create rule ok).Fits m) :
    Atomic codec m (outcome (m.createRule codec rule ok)) := by
  unfold RuleManager.createRule RuleManager.createFitting
  by_cases hmem : rule.id ∈ m.rules
  · rw [if_pos hmem]
    exact .inl ⟨_, rfl⟩
  · rw [if_neg hmem]
    cases ok with
    | false => exact .inl ⟨.kv, rfl⟩
    | true =>
      have hrule : rule.dlqFits = true := hfits rule (if_pos ⟨hmem, rfl⟩)
      refine .inr ⟨{ m with
          kv := m.kv.insert ("rules", rule.id) (codec.encode rule "running")
          rules := m.rules.insert rule.id (freshRule rule "running") }, rule.id,
        congrArg outcome (if_pos hrule), .put rfl ⟨_, rfl, Iff.rfl, hrule⟩ rfl rfl⟩

theorem updateRule_atomic {rule : RuleDefinition F} {ok : Bool}
    (hfits : (Op.update rule ok).Fits m) :
    Atomic codec m (outcome (m.updateRule codec rule ok)) := by
  unfold RuleManager.updateRule
  cases hlookup : m.rules.lookup rule.id with
  | none => exact .inl ⟨_, rfl⟩
  | some active =>
    have hmem : rule.id ∈ m.rules := AList.lookup_isSome.mp (by rw [hlookup]; rfl)
    simp only
    by_cases hrunning : active.status.status = "running"
    · simp only [beq_iff_eq.mpr hrunning, if_true]
      refine .of_persist ?_ (fun hok => ⟨_, rfl, ?_, ?_⟩) (fun _ => rfl) (fun _ => rfl)
      · rfl
      · exact iff_of_true rfl hrunning
      · exact hfits rule (if_pos ⟨hmem, hok⟩)
    · simp only [beq_eq_false_iff_ne.mpr hrunning, Bool.false_eq_true, if_false]
      refine .of_persist ?_ (fun hok => ⟨_, rfl, ?_, ?_⟩) (fun _ => rfl) (fun _ => rfl)
      · rfl
      · exact iff_of_false (by decide) hrunning
      · exact hfits rule (if_pos ⟨hmem, hok⟩)

theorem Synced.fits (h : Synced codec m) {id : String} {active : ActiveRule F}
    (hlookup : m.rules.lookup id = some active) : active.definition.dlqFits = true := by
  obtain ⟨-, text, -, status, -, -, hfits⟩ := (hlookup ▸ h id : Agrees codec id _ _).of_memory
  exact hfits

theorem updateRuleTags_atomic (h : Synced codec m) (id : String)
    (update : List String → List String) (ok : Bool) :
    Atomic codec m (outcome (m.updateRuleTags codec id update ok)) := by
  unfold RuleManager.updateRuleTags
  cases hlookup : m.rules.lookup id with
  | none => exact .inl ⟨_, rfl⟩
  | some active =>
    have hid := h.keyed hlookup
    have hrule : active.definition.dlqFits = true := h.fits hlookup
    refine .of_persist ?_ (fun _ => ⟨_, rfl, ?_, ?_⟩) (fun _ => rfl) (fun _ => rfl)
    · exact hid
    · exact Iff.rfl
    · exact hrule

theorem changeStatus_atomic (h : Synced codec m) (id status : String) (aborts : Bool)
    {change : ActiveRule F → ActiveRule F}
    (hchange : ∀ active, (change active).definition = active.definition) (ok : Bool) :
    Atomic codec m (outcome (m.changeStatus codec id status aborts change ok)) := by
  unfold RuleManager.changeStatus
  cases hlookup : m.rules.lookup id with
  | none => exact .inl ⟨_, rfl⟩
  | some active =>
    have hid : (change active).definition.id = id := by rw [hchange, h.keyed hlookup]
    have hfits : (change active).definition.dlqFits = true := by
      rw [hchange]
      exact h.fits hlookup
    cases aborts with
    | true =>
      refine .of_persist ?_ (fun _ => ⟨status, ?_, ?_, ?_⟩) (fun _ => rfl) (fun _ => rfl)
      · exact hid
      · exact congrArg (codec.encode · status) (hchange active).symm
      · exact Iff.rfl
      · exact hfits
    | false =>
      refine .of_persist ?_ (fun _ => ⟨status, ?_, ?_, ?_⟩) (fun _ => rfl) (fun _ => rfl)
      · exact hid
      · exact congrArg (codec.encode · status) (hchange active).symm
      · exact Iff.rfl
      · exact hfits

theorem deleteRule_atomic (id : String) (ok checkpointOk : Bool) :
    Atomic codec m (outcome (m.deleteRule id ok checkpointOk)) := by
  unfold RuleManager.deleteRule
  cases m.rules.lookup id with
  | none => exact .inl ⟨_, rfl⟩
  | some active =>
    cases ok with
    | false => exact .inl ⟨.kv, rfl⟩
    | true =>
      -- the checkpoint lies in another namespace
      have hkv : ∀ other, ((RuleManager.deleteRuleCheckpoint (m.kv.erase ("rules", id)) id
          checkpointOk).toOption.getD (m.kv.erase ("rules", id))).lookup ("rules", other) =
          (m.kv.erase ("rules", id)).lookup ("rules", other) := by
        intro other
        cases checkpointOk with
        | false => rfl
        | true =>
          have hne : ("rules", other) ≠ ("rule_checkpoints", id) := by simp
          exact AList.lookup_erase_ne hne
      refine .inr ⟨_, id, rfl, ?_, fun other hother => ?_, fun other hother => ?_⟩
      · simp only [hkv, AList.lookup_erase]
        exact .absent
      · exact AList.lookup_erase_ne hother
      · have hne : ("rules", other) ≠ ("rules", id) := by simpa using hother
        exact (hkv other).trans (AList.lookup_erase_ne hne)

theorem apply_atomic (h : Synced codec m) {op : Op F} (hfits : op.Fits m) :
    Atomic codec m (apply codec m op) := by
  cases op with
  | create rule ok => exact createRule_atomic hfits
  | update rule ok => exact updateRule_atomic hfits
  | updateTags id update ok => exact updateRuleTags_atomic h id update ok
  | start id now ok => exact changeStatus_atomic h id _ _ (fun _ => by rfl) ok
  | stop id now ok => exact changeStatus_atomic h id _ _ (fun _ => by rfl) ok
  | restart id now ok => exact changeStatus_atomic h id _ _ (fun _ => by rfl) ok
  | halt id error now ok => exact changeStatus_atomic h id _ _ (fun _ => by rfl) ok
  | delete id ok checkpointOk => exact deleteRule_atomic id ok checkpointOk

/-- Where a definition is stored, the operation returns no error. -/
theorem apply_error (h : Synced codec m) {op : Op F} {e : RuleError}
    (herror : (apply codec m op).1 = some e) (hreturns : e ≠ .panicked) :
    (apply codec m op).2 = m := by
  by_cases hfits : op.Fits m
  · have hatomic : Atomic codec m (apply codec m op) := apply_atomic h hfits
    rcases hatomic with ⟨e', he⟩ | ⟨m', id, hok, -⟩
    · rw [he]
    · rw [hok] at herror
      cases herror
  · simp only [Op.Fits, not_forall] at hfits
    obtain ⟨rule, hrule, hunfit⟩ := hfits
    cases op with
    | create stored ok =>
      obtain ⟨⟨hmem, rfl⟩, hstored⟩ := Option.ite_none_right_eq_some.mp hrule
      cases hstored
      have hpanics : (m.createRule codec rule true).1 = .error .panicked := by
        unfold RuleManager.createRule RuleManager.createFitting
        rw [if_neg hmem]
        exact congrArg Prod.fst (if_neg hunfit)
      rw [apply, ← Prod.mk.eta (p := m.createRule codec rule true), hpanics] at herror
      exact absurd (Option.some.inj herror).symm hreturns
    | update stored ok =>
      obtain ⟨⟨hmem, rfl⟩, hstored⟩ := Option.ite_none_right_eq_some.mp hrule
      cases hstored
      obtain ⟨active, hactive⟩ := Option.isSome_iff_exists.mp (AList.lookup_isSome.mpr hmem)
      simp only [apply, RuleManager.updateRule, hactive, RuleManager.persistRule,
        RuleManager.write, if_true] at herror
      split at herror <;> cases herror
    | _ => cases hrule

-- ---- Loading

theorem mem_listAll {kv : KvStore Text} {ns id : String} {text : Text} :
    (id, text) ∈ listAll kv ns ↔ kv.lookup (ns, id) = some text := by
  unfold listAll
  rw [List.mem_mergeSort, List.mem_map, ← Option.mem_def, AList.mem_lookup_iff]
  constructor
  · rintro ⟨⟨⟨ns', id'⟩, text'⟩, hentry, heq⟩
    obtain ⟨hmem, hns⟩ := List.mem_filter.mp hentry
    obtain rfl : ns' = ns := by simpa using hns
    obtain ⟨rfl, rfl⟩ := Prod.mk.inj heq
    exact hmem
  · intro hmem
    exact ⟨⟨(ns, id), text⟩, List.mem_filter.mpr ⟨hmem, by simp⟩, rfl⟩

def reloaded (active : ActiveRule F) : ActiveRule F :=
  freshRule active.definition
    (if active.status.status = "running" then "running" else "stopped")

theorem loadEntry_stored {active : ActiveRule F} {text : Text} (h : Stored codec active text)
    (rules : HashMap String (ActiveRule F)) :
    RuleManager.loadEntry codec rules text =
      rules.insert active.definition.id (reloaded active) := by
  obtain ⟨status, rfl, hstatus, -⟩ := h
  simp only [RuleManager.loadEntry, codec.decode_encode, hstatus, reloaded]

theorem lookup_foldl_loadEntry (h : Synced codec m) (entries : List (String × Text))
    (hentries : ∀ entry ∈ entries, m.kv.lookup ("rules", entry.1) = some entry.2)
    (rules : HashMap String (ActiveRule F)) (id : String) :
    (entries.foldl (fun rules entry => RuleManager.loadEntry codec rules entry.2) rules).lookup id =
      if id ∈ entries.map Prod.fst then (m.rules.lookup id).map reloaded
      else rules.lookup id := by
  induction entries generalizing rules with
  | nil => simp
  | cons entry rest ih =>
    obtain ⟨hentry, hrest⟩ := List.forall_mem_cons.mp hentries
    have hagrees := h entry.1
    rw [hentry] at hagrees
    obtain ⟨active, hlookup, hid, hstored⟩ := hagrees.of_store
    rw [List.foldl_cons, ih hrest, loadEntry_stored hstored, hid, List.map_cons]
    by_cases hmem : id ∈ rest.map Prod.fst
    · rw [if_pos hmem, if_pos (List.mem_cons_of_mem _ hmem)]
    · rw [if_neg hmem]
      by_cases heq : id = entry.1
      · subst heq
        rw [if_pos List.mem_cons_self, AList.lookup_insert, hlookup]
        rfl
      · rw [AList.lookup_insert_ne heq, if_neg fun h => (List.mem_cons.mp h).elim heq hmem]

theorem lookup_restarted (h : Synced codec m) (id : String) :
    (RuleManager.restarted codec m.kv).rules.lookup id = (m.rules.lookup id).map reloaded := by
  refine (lookup_foldl_loadEntry h (listAll m.kv "rules") (fun entry hentry => mem_listAll.mp hentry)
    ∅ id).trans ?_
  split
  · rfl
  · rename_i hnot
    cases hlookup : m.rules.lookup id with
    | none => rfl
    | some active =>
      have hagrees := h id
      rw [hlookup] at hagrees
      obtain ⟨-, text, hkv, -⟩ := hagrees.of_memory
      exact absurd (List.mem_map_of_mem (mem_listAll.mpr hkv)) hnot

theorem reloaded_stored {active : ActiveRule F} {text : Text} (h : Stored codec active text) :
    Stored codec (reloaded active) text := by
  obtain ⟨status, rfl, hstatus, hfits⟩ := h
  refine ⟨status, rfl, hstatus.trans ?_, hfits⟩
  change _ ↔ (if active.status.status = "running" then "running" else "stopped") = "running"
  split
  · exact iff_of_true ‹_› rfl
  · exact iff_of_false ‹_› (by decide)

theorem restarted_synced (h : Synced codec m) :
    Synced codec (RuleManager.restarted codec m.kv) := by
  intro id
  rw [lookup_restarted h]
  have hagrees := h id
  change Agrees codec id _ (m.kv.lookup ("rules", id))
  cases hlookup : m.rules.lookup id with
  | none =>
    rw [hlookup] at hagrees
    exact hagrees
  | some active =>
    rw [hlookup] at hagrees
    obtain ⟨hid, text, hkv, hstored⟩ := hagrees.of_memory
    rw [hkv]
    exact .present hid (reloaded_stored hstored)

theorem loadFromKv_synced (h : Synced codec m) :
    (RuleManager.newWithKv m.kv).loadFromKv codec m.kv =
      some (RuleManager.restarted codec m.kv) := by
  refine if_pos (List.all_eq_true.mpr fun entry hentry => ?_)
  have hagrees := h entry.1
  rw [mem_listAll.mp hentry] at hagrees
  obtain ⟨active, -, -, status, htext, -, hfits⟩ := hagrees.of_store
  rw [htext, codec.decode_encode]
  exact hfits

theorem setRuleHandle_synced (h : Synced codec m) (id : String) (handle : Nat) :
    Synced codec (m.setRuleHandle id handle) := by
  unfold RuleManager.setRuleHandle
  cases hlookup : m.rules.lookup id with
  | none => exact h
  | some active =>
    have hagrees := h id
    rw [hlookup] at hagrees
    obtain ⟨hid, text, hkv, hstored⟩ := hagrees.of_memory
    have hput : ∀ handle aborted, Synced codec
        { m with rules := m.rules.insert id { active with handle }, aborted } := by
      intro handle aborted
      have htouches : Touches codec id m
          { m with rules := m.rules.insert id { active with handle }, aborted } := by
        refine ⟨?_, fun other hother => AList.lookup_insert_ne hother, fun _ _ => rfl⟩
        rw [AList.lookup_insert, hkv]
        exact .present hid hstored
      exact htouches.synced h
    simp only
    split
    · exact hput (some handle) _
    · exact hput none _

-- ---- Runs

/-- The rules a manager has, each with whether it is running. -/
def RuleManager.catalogue (m : RuleManager F Text) (id : String) :
    Option (RuleDefinition F × Bool) :=
  (m.rules.lookup id).map fun active =>
    (active.definition, active.status.status == "running")

/-- No operation of the run stores a definition whose dead-letter buffer cannot be made. -/
def RunFits (codec : EnvelopeCodec F Text) (events : List (Event F)) : Prop :=
  ∀ before op after, events = before ++ .op op :: after → op.Fits (run codec before)

theorem run_synced {events : List (Event F)} (hfits : RunFits codec events) :
    Synced codec (run codec events) := by
  induction events using List.reverseRecOn with
  | nil => exact fun _ => .absent
  | append_singleton before event ih =>
    have hbefore := ih fun first op rest heq =>
      hfits first op (rest ++ [event]) (by rw [heq, List.append_assoc, List.cons_append])
    rw [run, List.foldl_append]
    change Synced codec (react codec (run codec before) event)
    cases event with
    | op op =>
      rcases apply_atomic hbefore (hfits before op [] rfl) with ⟨e, he⟩ | ⟨m', id, hok, htouches⟩
      · rw [react, he]
        exact hbefore
      · rw [react, hok]
        exact htouches.synced hbefore
    | setHandle id handle => exact setRuleHandle_synced hbefore id handle
    | daemonRestart =>
      rw [react, loadFromKv_synced hbefore]
      exact restarted_synced hbefore

theorem catalogue_restarted (h : Synced codec m) :
    (RuleManager.restarted codec m.kv).catalogue = m.catalogue := by
  funext id
  rw [RuleManager.catalogue, lookup_restarted h, Option.map_map, RuleManager.catalogue]
  congr 1
  funext active
  refine Prod.ext rfl ?_
  change ((if active.status.status = "running" then "running" else "stopped") == "running") =
    (active.status.status == "running")
  split <;> simp [*]

/-- An operation that fails changes nothing, and a daemon started on the store has the rules
of the memory, running exactly if they are running there. -/
def SurvivesRestart (codec : EnvelopeCodec F Text) (m : RuleManager F Text) : Prop :=
  (∀ (op : Op F) e, (apply codec m op).1 = some e → e ≠ .panicked → (apply codec m op).2 = m) ∧
    ∃ loaded, (RuleManager.newWithKv m.kv).loadFromKv codec m.kv = some loaded ∧
      loaded.catalogue = m.catalogue

/-- Whatever was done to the manager and whichever writes failed, the catalogue survives, if
no definition was stored whose dead-letter buffer cannot be made. -/
theorem catalogue_survives_restart (codec : EnvelopeCodec F Text) (events : List (Event F))
    (hfits : RunFits codec events) : SurvivesRestart codec (run codec events) :=
  ⟨fun _ _ => apply_error (run_synced hfits), _, loadFromKv_synced (run_synced hfits),
    catalogue_restarted (run_synced hfits)⟩

def plainEnvelope (F : Type) : EnvelopeCodec F (RuleDefinition F × String) :=
  ⟨Prod.mk, some, fun _ _ => rfl⟩

/-- A rule with a dead-letter buffer of `capacity`. -/
def bufferedRule (id : String) (capacity : Int) : RuleDefinition Unit :=
  { bareRule id with
    options := some (AList.singleton "dlq"
      (.object [("buffer_capacity", .number (.int capacity))])) }

def stoppedRun : List (Event Unit) :=
  [.op (.create (bareRule "r1") true), .op (.update (bufferedRule "r1" 5) true),
    .op (.stop "r1" 5 true), .op (.restart "r1" 6 false)]

theorem catalogue_survives_restart_stopped :
    (run (plainEnvelope Unit) stoppedRun).catalogue "r1" = some (bufferedRule "r1" 5, false) ∧
      SurvivesRestart (plainEnvelope Unit) (run (plainEnvelope Unit) stoppedRun) := by
  refine ⟨rfl, catalogue_survives_restart _ _ fun before op after heq => ?_⟩
  have hop : Event.op op ∈ stoppedRun := heq ▸ List.mem_append_right _ List.mem_cons_self
  intro rule hrule
  simp only [stoppedRun, List.mem_cons, Event.op.injEq, List.not_mem_nil, or_false] at hop
  rcases hop with rfl | rfl | rfl | rfl
  · cases (Option.ite_none_right_eq_some.mp hrule).2
    rfl
  · cases (Option.ite_none_right_eq_some.mp hrule).2
    rfl
  · cases hrule
  · cases hrule

/-- The rule is stored, then its creation panics, and so does every start of a daemon. -/
theorem unfit_rule_stays_stored :
    ¬ ∀ events : List (Event Unit),
      SurvivesRestart (plainEnvelope Unit) (run (plainEnvelope Unit) events) := by
  intro h
  obtain ⟨-, loaded, hloaded, -⟩ := h [.op (.create (bufferedRule "r1" (2 ^ 64 - 1)) true)]
  have hall := List.all_eq_true.mp (Option.ite_none_right_eq_some.mp hloaded).1
  have hstored := hall ("r1", (bufferedRule "r1" (2 ^ 64 - 1), "running")) (mem_listAll.mpr rfl)
  exact absurd hstored (by decide)

end Rekuiper.Rules
