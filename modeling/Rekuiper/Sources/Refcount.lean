import Rekuiper.Sources.Bootstrap

/-!
# Sources are counted by the rules that read them

The maps say what the registry says after every call. Two calls break the tie: a
bootstrap on a stream without a source enters a mask and nothing else, and
cancelling a stream's sources leaves the stream with the rules that read it.
-/

namespace Rekuiper.Sources

open Lib

-- ---- Cancelling

def Registry.remove (registry : Registry) (rule stream : String) : Registry where
  registered r s := registry.registered r s ∧ ¬(r = rule ∧ s = stream)
  mask := registry.mask

theorem Inv.remove {registry : Registry} {state state' : AppState} {rule stream : String}
    (h : Inv registry state)
    (hactive : ∀ s, state'.activeRules s =
      if s = stream then (state.activeRules s).filter (· ≠ rule) else state.activeRules s)
    (hmasks : ∀ s r, r ∈ state'.activeRules s ∨ s ≠ stream →
      (state'.ruleMasks s).lookup r = (state.ruleMasks s).lookup r)
    (hgone : ∀ r, r ∉ state'.activeRules stream → (state'.ruleMasks stream).lookup r = none)
    (hheld : ∀ s, state'.streamFieldMasks.lookup s =
      if state'.activeRules s = [] then none
      else some (AppState.computeUnionFieldMask (state'.ruleMasks s)))
    (hrunning : ∀ s, SourceKey.stream s ∈ state'.streamSourceCancels ↔
      SourceKey.stream s ∈ state.streamSourceCancels ∧ state'.activeRules s ≠ [])
    (hsenders : SendersOk state') : Inv (registry.remove rule stream) state' where
  active r s := by
    rw [hactive]
    by_cases hs : s = stream
    · subst hs
      simp [Registry.remove, h.active]
    · simp [hs, h.active, Registry.remove]
  running s := by
    have hactive' : ∀ r, r ∈ state'.activeRules s ↔
        registry.registered r s ∧ ¬(r = rule ∧ s = stream) := by
      intro r
      rw [hactive]
      by_cases hs : s = stream
      · subst hs
        simp [h.active]
      · simp [hs, h.active]
    rw [hrunning, h.running]
    constructor
    · rintro ⟨-, hne⟩
      obtain ⟨r, hr⟩ := List.exists_mem_of_ne_nil _ hne
      exact ⟨r, (hactive' r).mp hr⟩
    · rintro ⟨r, hr⟩
      exact ⟨⟨r, hr.1⟩, List.ne_nil_of_mem ((hactive' r).mpr hr)⟩
  masks s r := by
    by_cases hmem : r ∈ state'.activeRules s
    · have hold : r ∈ state.activeRules s := by
        rw [hactive] at hmem
        split at hmem
        · exact (List.mem_filter.mp hmem).1
        · exact hmem
      rw [hmasks s r (.inl hmem), h.masks, if_pos hold, if_pos hmem]
      rfl
    · rw [if_neg hmem]
      by_cases hs : s = stream
      · subst hs
        exact hgone r hmem
      · rw [hmasks s r (.inr hs), h.masks, if_neg]
        rw [hactive, if_neg hs] at hmem
        exact hmem
  held := hheld
  nonempty s r hr := by
    rw [hactive] at hr
    split at hr
    · exact h.nonempty s r (List.mem_filter.mp hr).1
    · exact h.nonempty s r hr
  senders := hsenders

theorem SendersOk.dropStream {state : AppState} (h : SendersOk state) (stream : String) :
    SendersOk (state.dropStream stream) where
  source key senders hkey := by
    have hne : key ≠ .stream stream := by
      rintro rfl
      rw [show (state.dropStream stream).streamSourceCancels =
        state.streamSourceCancels.erase (.stream stream) from rfl, AList.lookup_erase] at hkey
      cases hkey
    have hold : state.streamSourceCancels.lookup key = some senders := by
      rw [← hkey]
      exact (AList.lookup_erase_ne hne).symm
    obtain ⟨hnil, hsenders⟩ := h.source key senders hold
    refine ⟨hnil, fun sender hsender => ?_⟩
    obtain ⟨hopen, n, hn, rfl⟩ := hsenders sender hsender
    refine ⟨fun hmem => ?_, n, hn, rfl⟩
    rcases List.mem_append.mp hmem with hmem | hmem
    · cases hlookup : state.streamSourceCancels.lookup (.stream stream) with
      | none => simp [HashMap.find, hlookup] at hmem
      | some others =>
        rw [HashMap.find, hlookup] at hmem
        obtain ⟨-, m, -, heq⟩ := (h.source _ others hlookup).2 _ hmem
        exact hne (CancelSender.source.inj heq).1
    · exact hopen hmem
  rule := h.rule
  fresh key n hn hmem := by
    rcases List.mem_append.mp hmem with hmem | hmem
    · cases hlookup : state.streamSourceCancels.lookup (.stream stream) with
      | none => simp [HashMap.find, hlookup] at hmem
      | some others =>
        rw [HashMap.find, hlookup] at hmem
        obtain ⟨-, m, hm, heq⟩ := (h.source _ others hlookup).2 _ hmem
        have := (CancelSender.source.inj heq).2
        have hlt : m < state.nextSerial := hm
        have hle : state.nextSerial ≤ n := hn
        omega
    · exact h.fresh key n hn hmem

theorem activeRules_dropStream (state : AppState) (stream s : String) :
    (state.dropStream stream).activeRules s = if s = stream then [] else state.activeRules s :=
  HashMap.find_erase state.streamActiveRules stream s []

theorem ruleMasks_dropStream (state : AppState) (stream s : String) :
    (state.dropStream stream).ruleMasks s = if s = stream then ∅ else state.ruleMasks s :=
  HashMap.find_erase state.streamRuleFieldMasks stream s ∅

theorem held_dropStream (state : AppState) (stream s : String) :
    (state.dropStream stream).streamFieldMasks.lookup s =
      if s = stream then none else state.streamFieldMasks.lookup s := by
  split
  · subst s
    exact AList.lookup_erase _ _
  · exact AList.lookup_erase_ne ‹_›

theorem mem_dropStream (state : AppState) (stream s : String) :
    SourceKey.stream s ∈ (state.dropStream stream).streamSourceCancels ↔
      s ≠ stream ∧ SourceKey.stream s ∈ state.streamSourceCancels := by
  refine AList.mem_erase.trans ?_
  rw [Ne, SourceKey.stream.injEq]
  rfl

theorem ruleMasks_forgetMask (state : AppState) (rule stream s : String) :
    (state.forgetMask rule stream).ruleMasks s =
      if s = stream then (state.ruleMasks s).erase rule else state.ruleMasks s := by
  unfold AppState.forgetMask AppState.ruleMasks
  cases hlookup : state.streamRuleFieldMasks.lookup stream with
  | none =>
    by_cases hs : s = stream
    · subst hs
      rw [if_pos rfl]
      simp only [HashMap.find, hlookup, Option.getD_none]
      rfl
    · rw [if_neg hs]
  | some masks =>
    simp only [HashMap.find_insert]
    by_cases hs : s = stream
    · subst hs
      simp [HashMap.find, hlookup]
    · rw [if_neg hs, if_neg hs]

theorem held_forgetMask (state : AppState) (rule stream s : String) :
    (state.forgetMask rule stream).streamFieldMasks.lookup s =
      if s = stream then (state.streamFieldMasks.lookup s).map fun _ =>
        AppState.computeUnionFieldMask ((state.ruleMasks s).erase rule)
      else state.streamFieldMasks.lookup s := by
  by_cases hs : s = stream
  · subst hs
    cases hlookup : state.streamFieldMasks.lookup s with
    | none => simp [AppState.forgetMask, hlookup]
    | some mask => simp [AppState.forgetMask, hlookup, AList.lookup_insert]
  · rw [if_neg hs]
    unfold AppState.forgetMask
    cases state.streamFieldMasks.lookup stream with
    | none => rfl
    | some mask => exact AList.lookup_insert_ne hs

theorem Inv.forget {registry : Registry} {state state₁ : AppState} {rule stream : String}
    (h : Inv registry state)
    (hactive : ∀ s, state₁.activeRules s =
      if s = stream then (state.activeRules s).filter (· ≠ rule) else state.activeRules s)
    (hkeeps : (state.activeRules stream).filter (· ≠ rule) = [] → state.activeRules stream = [])
    (hmasks : state₁.streamRuleFieldMasks = state.streamRuleFieldMasks)
    (hheld : state₁.streamFieldMasks = state.streamFieldMasks)
    (hrunning : state₁.streamSourceCancels = state.streamSourceCancels)
    (hsenders : SendersOk state₁) :
    Inv (registry.remove rule stream) (state₁.forgetMask rule stream) := by
  have hactive' : ∀ s, (state₁.forgetMask rule stream).activeRules s =
      if s = stream then (state.activeRules s).filter (· ≠ rule) else state.activeRules s := hactive
  have hmasks' : ∀ s, (state₁.forgetMask rule stream).ruleMasks s =
      if s = stream then (state.ruleMasks s).erase rule else state.ruleMasks s := by
    intro s
    rw [ruleMasks_forgetMask, AppState.ruleMasks, hmasks]
    rfl
  have hnil : ∀ s, (state₁.forgetMask rule stream).activeRules s = [] ↔
      state.activeRules s = [] := by
    intro s
    rw [hactive']
    split
    · subst s
      exact ⟨hkeeps, fun heq => by rw [heq]; rfl⟩
    · rfl
  refine h.remove hactive' (fun s r hr => ?_) (fun r hr => ?_) (fun s => ?_) (fun s => ?_)
    ⟨hsenders.source, hsenders.rule, hsenders.fresh⟩
  · rw [hmasks']
    split
    · subst s
      have hmem := hr.resolve_right (by simp)
      rw [hactive', if_pos rfl] at hmem
      exact AList.lookup_erase_ne (by simpa using (List.mem_filter.mp hmem).2)
    · rfl
  · rw [hmasks', if_pos rfl]
    by_cases hrule : r = rule
    · subst hrule
      exact AList.lookup_erase _ _
    · rw [AList.lookup_erase_ne hrule, h.masks, if_neg]
      intro hmem
      refine hr ?_
      rw [hactive', if_pos rfl]
      exact List.mem_filter.mpr ⟨hmem, by simpa using hrule⟩
  · rw [held_forgetMask, hheld, h.held s]
    by_cases hempty : state.activeRules s = []
    · rw [if_pos hempty, if_pos ((hnil s).mpr hempty)]
      split <;> rfl
    · rw [if_neg hempty, if_neg fun heq => hempty ((hnil s).mp heq), hmasks']
      split
      · subst s
        rw [AppState.ruleMasks, hmasks]
        rfl
      · rfl
  · rw [show (state₁.forgetMask rule stream).streamSourceCancels = state₁.streamSourceCancels
      from rfl, hrunning, Ne, hnil s]
    exact ⟨fun hmem => ⟨hmem, h.activeRules_ne_nil hmem⟩, And.left⟩

theorem Inv.drop {registry : Registry} {state state₁ : AppState} {rule stream : String}
    (h : Inv registry state)
    (hactive : ∀ s, state₁.activeRules s =
      if s = stream then (state.activeRules s).filter (· ≠ rule) else state.activeRules s)
    (hlast : (state.activeRules stream).filter (· ≠ rule) = [])
    (hmasks : state₁.streamRuleFieldMasks = state.streamRuleFieldMasks)
    (hheld : state₁.streamFieldMasks = state.streamFieldMasks)
    (hrunning : state₁.streamSourceCancels = state.streamSourceCancels)
    (hsenders : SendersOk state₁) :
    Inv (registry.remove rule stream) (state₁.dropStream stream) := by
  have hactive' : ∀ s, (state₁.dropStream stream).activeRules s =
      if s = stream then (state.activeRules s).filter (· ≠ rule) else state.activeRules s := by
    intro s
    rw [activeRules_dropStream, hactive]
    split
    · subst s
      exact hlast.symm
    · rfl
  have hmasks' : ∀ s, (state₁.dropStream stream).ruleMasks s =
      if s = stream then ∅ else state.ruleMasks s := by
    intro s
    rw [ruleMasks_dropStream, AppState.ruleMasks, hmasks]
    rfl
  refine h.remove hactive' (fun s r hr => ?_) (fun r _ => ?_) (fun s => ?_) (fun s => ?_)
    (hsenders.dropStream stream)
  · rw [hmasks']
    split
    · subst s
      have hmem := hr.resolve_right (by simp)
      rw [hactive', if_pos rfl, hlast] at hmem
      cases hmem
    · rfl
  · rw [hmasks', if_pos rfl]
    rfl
  · rw [held_dropStream, hheld, hactive', hmasks']
    by_cases hs : s = stream
    · rw [if_pos hs, if_pos hs, hs, hlast, if_pos rfl]
    · rw [if_neg hs, if_neg hs, if_neg hs]
      exact h.held s
  · rw [mem_dropStream, hrunning, hactive']
    by_cases hs : s = stream
    · rw [if_pos hs, hs, hlast]
      exact ⟨fun ⟨hne, _⟩ => absurd rfl hne, fun ⟨_, hne⟩ => absurd rfl hne⟩
    · rw [if_neg hs]
      exact ⟨fun ⟨_, hmem⟩ => ⟨hmem, h.activeRules_ne_nil hmem⟩, fun ⟨hmem, _⟩ => ⟨hs, hmem⟩⟩

theorem activeRules_setRules {state : AppState} {rule stream : String} {rules : List String}
    (hrules : state.activeRules stream = rules) (s : String) :
    (state.setRules stream (rules.filter (· ≠ rule))).activeRules s =
      if s = stream then (state.activeRules s).filter (· ≠ rule) else state.activeRules s := by
  simp only [AppState.activeRules, AppState.setRules, HashMap.find_insert]
  split
  · subst s
    rw [← hrules]
    rfl
  · rfl

theorem releaseStream_inv {registry : Registry} {state : AppState} (h : Inv registry state)
    (rule stream : String) :
    Inv (registry.remove rule stream) (state.releaseStream rule stream) := by
  unfold AppState.releaseStream
  cases hlookup : state.streamActiveRules.lookup stream with
  | none =>
    have hempty : state.activeRules stream = [] := by
      simp [AppState.activeRules, HashMap.find, hlookup]
    refine h.forget (fun s => ?_) (fun _ => hempty) rfl rfl rfl h.senders
    split
    · subst s
      simp [hempty]
    · rfl
  | some rules =>
    have hrules : state.activeRules stream = rules := by
      simp [AppState.activeRules, HashMap.find, hlookup]
    have hsenders : SendersOk (state.setRules stream (rules.filter (· ≠ rule))) :=
      ⟨h.senders.source, h.senders.rule, h.senders.fresh⟩
    simp only
    split
    · rename_i hempty
      refine h.drop (activeRules_setRules hrules) ?_ rfl rfl rfl hsenders
      rw [hrules]
      exact List.isEmpty_iff.mp hempty
    · rename_i hne
      refine h.forget (activeRules_setRules hrules) (fun heq => ?_) rfl rfl rfl hsenders
      rw [hrules] at heq
      exact absurd (by rw [heq]; rfl) hne

theorem ruleStreams_releaseStream (state : AppState) (rule stream : String) :
    (state.releaseStream rule stream).ruleStreams = state.ruleStreams := by
  unfold AppState.releaseStream
  cases state.streamActiveRules.lookup stream with
  | none => rfl
  | some rules =>
    simp only
    split <;> rfl

def Registry.removeAll (registry : Registry) (rule : String) (streams : List String) :
    Registry where
  registered r s := registry.registered r s ∧ ¬(r = rule ∧ s ∈ streams)
  mask := registry.mask

theorem removeAll_cons (registry : Registry) (rule stream : String) (streams : List String) :
    registry.removeAll rule (stream :: streams) =
      (registry.remove rule stream).removeAll rule streams := by
  unfold Registry.removeAll Registry.remove
  congr 1
  funext r s
  simp only [List.mem_cons, eq_iff_iff]
  tauto

theorem releaseStreams_inv {registry : Registry} {state : AppState} (h : Inv registry state)
    (rule : String) (streams : List String) :
    Inv (registry.removeAll rule streams) (streams.foldl (·.releaseStream rule) state) ∧
      (streams.foldl (·.releaseStream rule) state).ruleStreams = state.ruleStreams := by
  induction streams generalizing registry state with
  | nil => exact ⟨by simpa [Registry.removeAll] using h, rfl⟩
  | cons stream rest ih =>
    obtain ⟨hinv, hstreams⟩ := ih (releaseStream_inv h rule stream)
    rw [List.foldl_cons, removeAll_cons]
    exact ⟨hinv, hstreams.trans (ruleStreams_releaseStream state rule stream)⟩

theorem SendersOk.cancelRule {state : AppState} (h : SendersOk state) (rule : String) :
    SendersOk (state.cancel (state.sourceCancels.find rule [])) := by
  have hnot : ∀ key n, CancelSender.source key n ∉ state.sourceCancels.find rule [] := by
    intro key n hmem
    cases hlookup : state.sourceCancels.lookup rule with
    | none => simp [HashMap.find, hlookup] at hmem
    | some senders =>
      rw [HashMap.find, hlookup] at hmem
      obtain ⟨m, -, heq⟩ := h.rule rule senders hlookup _ hmem
      cases heq
  refine ⟨fun key senders hkey => ?_, h.rule, fun key n hn hmem => ?_⟩
  · obtain ⟨hnil, hsenders⟩ := h.source key senders hkey
    refine ⟨hnil, fun sender hsender => ?_⟩
    obtain ⟨hopen, n, hn, rfl⟩ := hsenders sender hsender
    exact ⟨fun hmem => (List.mem_append.mp hmem).elim (hnot key n) hopen, n, hn, rfl⟩
  · exact (List.mem_append.mp hmem).elim (hnot key n) (h.fresh key n hn)

theorem SendersOk.eraseRule {state : AppState} (h : SendersOk state) (rule : String) :
    ∀ r senders, (state.sourceCancels.erase rule).lookup r = some senders →
      ∀ sender ∈ senders, ∃ n < state.nextSerial, sender = .rule r n := by
  intro r senders hr
  by_cases hrule : r = rule
  · rw [hrule, AList.lookup_erase] at hr
    cases hr
  · rw [AList.lookup_erase_ne hrule] at hr
    exact h.rule r senders hr

def Registry.cancelRule (registry : Registry) (rule : String) : Registry where
  registered r s := registry.registered r s ∧ r ≠ rule
  mask := registry.mask

theorem cancelRuleSource_inv {registry : Registry} {state : AppState} (h : Inv registry state)
    (hstreams : RuleStreams registry state) (rule : String) :
    Inv (registry.cancelRule rule) (state.cancelRuleSource rule) ∧
      RuleStreams (registry.cancelRule rule) (state.cancelRuleSource rule) := by
  have hsenders := h.senders.cancelRule rule
  have hcancelled : Inv registry
      { state.cancel (state.sourceCancels.find rule []) with
        sourceCancels := state.sourceCancels.erase rule
        ruleStreams := state.ruleStreams.erase rule } :=
    ⟨h.active, h.running, h.masks, h.held, h.nonempty,
      ⟨hsenders.source, h.senders.eraseRule rule, hsenders.fresh⟩⟩
  obtain ⟨hinv, heq⟩ := releaseStreams_inv hcancelled rule (state.streamsOf rule)
  have hregistry : registry.removeAll rule (state.streamsOf rule) = registry.cancelRule rule := by
    unfold Registry.removeAll Registry.cancelRule
    congr 1
    funext r s
    rw [hstreams rule s, eq_iff_iff]
    constructor
    · rintro ⟨hr, hnot⟩
      exact ⟨hr, fun heq => hnot ⟨heq, heq ▸ hr⟩⟩
    · rintro ⟨hr, hne⟩
      exact ⟨hr, fun hand => hne hand.1⟩
  refine ⟨hregistry ▸ hinv, fun r s => ?_⟩
  have hfind : (state.cancelRuleSource rule).streamsOf r =
      if r = rule then [] else state.streamsOf r := by
    rw [AppState.streamsOf, show (state.cancelRuleSource rule).ruleStreams =
      state.ruleStreams.erase rule from heq]
    exact HashMap.find_erase state.ruleStreams rule r []
  rw [hfind]
  by_cases hr : r = rule
  · simp [hr, Registry.cancelRule]
  · simp [hr, Registry.cancelRule, hstreams r s]

def Registry.cancelStream (registry : Registry) (stream : String) : Registry where
  registered r s := registry.registered r s ∧ s ≠ stream
  mask := registry.mask

theorem cancelStreamSources_inv {registry : Registry} {state : AppState} {stream : String}
    (h : Inv registry state) (hstreams : RuleStreams registry state)
    (hunused : state.activeRules stream = []) :
    Inv (registry.cancelStream stream) (state.cancelStreamSources stream) ∧
      RuleStreams (registry.cancelStream stream) (state.cancelStreamSources stream) := by
  have hnone : ∀ r, ¬registry.registered r stream := by
    intro r hr
    have hmem := (h.active r stream).mpr hr
    rw [hunused] at hmem
    cases hmem
  have hregistry : registry.cancelStream stream = registry := by
    unfold Registry.cancelStream
    congr 1
    funext r s
    rw [eq_iff_iff]
    exact ⟨And.left, fun hr => ⟨hr, fun heq => hnone r (heq ▸ hr)⟩⟩
  rw [hregistry]
  have hactive : ∀ s, (state.cancelStreamSources stream).activeRules s = state.activeRules s := by
    intro s
    refine (activeRules_dropStream state stream s).trans ?_
    split
    · subst s
      exact hunused.symm
    · rfl
  have hmasks : ∀ s r, ((state.cancelStreamSources stream).ruleMasks s).lookup r =
      (state.ruleMasks s).lookup r := by
    intro s r
    rw [AppState.cancelStreamSources, ruleMasks_dropStream]
    split
    · subst s
      rw [h.masks, hunused]
      rfl
    · rfl
  refine ⟨⟨fun r s => ?_, fun s => ?_, fun s r => ?_, fun s => ?_, fun s r hr => ?_,
    h.senders.dropStream stream⟩, hstreams⟩
  · rw [hactive, h.active]
  · refine (mem_dropStream state stream s).trans ?_
    rw [h.running]
    exact ⟨And.right, fun ⟨r, hr⟩ => ⟨fun heq => hnone r (heq ▸ hr), r, hr⟩⟩
  · rw [hmasks, hactive, h.masks]
  · rw [hactive, AppState.cancelStreamSources, held_dropStream, ruleMasks_dropStream]
    by_cases hs : s = stream
    · subst hs
      simp [hunused]
    · rw [if_neg hs, if_neg hs]
      exact h.held s
  · rw [hactive] at hr
    exact h.nonempty s r hr

-- ---- Runs

def Registry.empty : Registry where
  registered _ _ := False
  mask _ _ := none

def Registry.step (registry : Registry) : Op → Registry
  | .bootstrapRule defs rule stmt => registry.addAll defs rule stmt (stmt.streams defs)
  | .cancelRule rule => registry.cancelRule rule
  | .cancelStream stream => registry.cancelStream stream

/-- What a sequence of calls is to leave. -/
def registryOf (ops : List Op) : Registry := ops.foldl Registry.step .empty

def Allowed (state : AppState) : Op → Prop
  | .bootstrapRule defs rule stmt => ∀ stream ∈ stmt.streams defs, Served state defs rule stream
  | .cancelRule _ => True
  | .cancelStream stream => state.activeRules stream = []

def AllowedRun (ops : List Op) : Prop :=
  ∀ before op after, ops = before ++ op :: after → Allowed (run before) op

/-- A source is live for the streams that rules read, the two maps between rules
and streams agree, and a stream's mask is the union of its rules' masks. -/
structure Counted (registry : Registry) (state : AppState) : Prop where
  live : ∀ stream, state.Live stream ↔ state.activeRules stream ≠ []
  streams : ∀ rule stream, rule ∈ state.activeRules stream ↔ stream ∈ state.streamsOf rule
  mask : ∀ stream, state.heldMask stream =
    unionMask (state.activeRules stream) (registry.mask stream)

theorem Inv.counted {registry : Registry} {state : AppState} (h : Inv registry state)
    (hstreams : RuleStreams registry state) : Counted registry state where
  live stream := by
    rw [h.live, h.running]
    constructor
    · rintro ⟨rule, hrule⟩
      exact List.ne_nil_of_mem ((h.active rule stream).mpr hrule)
    · intro hne
      obtain ⟨rule, hrule⟩ := List.exists_mem_of_ne_nil _ hne
      exact ⟨rule, (h.active rule stream).mp hrule⟩
  streams rule stream := by rw [h.active, hstreams rule stream]
  mask stream := by
    rw [AppState.heldMask, HashMap.find, h.held stream]
    by_cases hnil : state.activeRules stream = []
    · simp [hnil, unionMask]
    · rw [if_neg hnil]
      exact computeUnionFieldMask_eq (h.masks stream) (h.nonempty stream)

theorem empty_inv : Inv .empty .empty ∧ RuleStreams .empty .empty := by
  refine ⟨⟨fun rule stream => ?_, fun stream => ?_, fun stream rule => rfl, fun stream => rfl,
    fun stream rule hrule => ?_, ?_⟩, fun rule stream => ?_⟩
  · exact iff_of_false (by nofun) id
  · exact iff_of_false (by nofun) (fun ⟨_, h⟩ => h)
  · cases hrule
  · exact ⟨nofun, nofun, nofun⟩
  · exact iff_of_false (by nofun) id

theorem step_inv {registry : Registry} {state : AppState} {op : Op} (h : Inv registry state)
    (hstreams : RuleStreams registry state) (hallowed : Allowed state op) :
    Inv (registry.step op) (step state op) ∧ RuleStreams (registry.step op) (step state op) := by
  cases op with
  | bootstrapRule defs rule stmt =>
    rw [step, bootstrapRuleSources_eq]
    refine bootstrapSources_inv h hstreams fun name hname hstream => hallowed name ?_
    exact List.mem_filter.mpr ⟨hname, by simp [hstream]⟩
  | cancelRule rule => exact cancelRuleSource_inv h hstreams rule
  | cancelStream stream => exact cancelStreamSources_inv h hstreams hallowed

theorem run_inv {ops : List Op} (hallowed : AllowedRun ops) :
    Inv (registryOf ops) (run ops) ∧ RuleStreams (registryOf ops) (run ops) := by
  induction ops using List.reverseRecOn with
  | nil => exact empty_inv
  | append_singleton before op ih =>
    have hbefore : AllowedRun before := by
      rintro first op' rest rfl
      exact hallowed first op' (rest ++ [op]) (by simp)
    obtain ⟨hinv, hstreams⟩ := ih hbefore
    have hstep := step_inv hinv hstreams (hallowed before op [] rfl)
    simpa [registryOf, run, List.foldl_append] using hstep

/-- In every run of allowed calls, after each call the sources are counted by the
rules that read them. -/
theorem sources_counted (ops : List Op) (hallowed : AllowedRun ops) :
    ∀ before, before <+: ops → Counted (registryOf before) (run before) := by
  rintro before ⟨after, rfl⟩
  have hbefore : AllowedRun before := by
    rintro first op rest rfl
    exact hallowed first op (rest ++ after) (by simp)
  obtain ⟨hinv, hstreams⟩ := run_inv hbefore
  exact hinv.counted hstreams

theorem AllowedRun.snoc {before : List Op} (h : AllowedRun before) (op : Op)
    (hop : Allowed (run before) op) : AllowedRun (before ++ [op]) := by
  intro first op' rest heq
  rcases List.eq_nil_or_concat rest with rfl | ⟨rest, last, rfl⟩
  · obtain ⟨rfl, hlast⟩ := List.append_inj' heq rfl
    obtain rfl := List.singleton_inj.mp hlast
    exact hop
  · have heq' : before ++ [op] = (first ++ op' :: rest) ++ [last] := by simpa using heq
    exact h first op' rest (List.append_inj' heq' rfl).1

def streamsOnly (kind : Option SourceKind) : Definitions where
  isTable _ := false
  timestampField _ := none
  resolve _ _ := kind

/-- `SELECT field FROM stream` -/
def selectField (stream field : String) : Statement where
  source := stream
  joins := []
  calledFunctions := []
  hasWildcard := false
  identifiers := [field]

/-- Two rules share a source, one is bootstrapped again for another field, the
other stops, and a stream nobody reads is dropped. -/
def sharedRun : List Op :=
  [.bootstrapRule (streamsOnly (some .mqtt)) "r1" (selectField "demo" "temperature"),
    .bootstrapRule (streamsOnly (some .mqtt)) "r2" (selectField "demo" "humidity"),
    .bootstrapRule (streamsOnly (some .mqtt)) "r2" (selectField "demo" "pressure"),
    .cancelRule "r1", .cancelStream "other"]

theorem sources_counted_shared : AllowedRun sharedRun ∧
    (run sharedRun).activeRules "demo" = ["r2"] ∧
    ∀ before, before <+: sharedRun → Counted (registryOf before) (run before) := by
  have hserved : ∀ state rule stmt,
      Allowed state (.bootstrapRule (streamsOnly (some .mqtt)) rule stmt) :=
    fun _ _ _ _ _ => .inr ⟨.mqtt, rfl, rfl⟩
  have hstart : AllowedRun [] := fun before op after heq => by simp at heq
  have hallowed : AllowedRun sharedRun :=
    ((((hstart.snoc _ (hserved _ _ _)).snoc _ (hserved _ _ _)).snoc _ (hserved _ _ _)).snoc
      (.cancelRule "r1") trivial).snoc (.cancelStream "other") (by simp only [Allowed]; decide)
  exact ⟨hallowed, by decide, sources_counted sharedRun hallowed⟩

/-- A dropped stream stays with the rules that read it, and a rule on a stream
without a source leaves its mask there. -/
theorem dropped_and_memory_streams_miscounted :
    ¬(∀ ops, Counted (registryOf ops) (run ops)) ∧
    (let ops := [Op.bootstrapRule (streamsOnly (some .mqtt)) "r1" (selectField "demo" "temperature"),
      .cancelStream "demo"]
    "r1" ∉ (run ops).activeRules "demo" ∧ "demo" ∈ (run ops).streamsOf "r1") ∧
    (let ops := [Op.bootstrapRule (streamsOnly none) "r1" (selectField "memory" "temperature")]
    (run ops).activeRules "memory" = [] ∧
      (run ops).heldMask "memory" =
        some {"temperature", "timestamp", "ts", "event_time", "time"}) := by
  refine ⟨fun h => ?_, by decide, by decide⟩
  have hstreams := (h [.bootstrapRule (streamsOnly (some .mqtt)) "r1"
    (selectField "demo" "temperature"), .cancelStream "demo"]).streams "r1" "demo"
  exact absurd (hstreams.mpr (by decide)) (by decide)

end Rekuiper.Sources
