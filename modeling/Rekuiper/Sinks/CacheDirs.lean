import Mathlib.Data.List.Induction
import Mathlib.Data.List.Pairwise
import Rekuiper.Json

/-!
# Cache directories

The cache of an action lives in a directory named after its rule's id, with every
character that is not a letter, a digit, `-` or `_` replaced, and after its place among
the enabled actions. A rule that starts adopts what it finds there. A directory keeps
what the action that owns it left, through updates, deletions and restarts, until another
start of some rule opens it.

The actions of a rule are a list of maps; each map is given as its entries in the order in
which the process iterates them.
-/

namespace Rekuiper.Sinks

open Lib (trim toAsciiLowercase parseBool)

variable {F ι : Type}

def safeChar (c : Char) : Char := if c.isAlphanum ∨ c = '-' ∨ c = '_' then c else '_'

def cacheDir (ruleId : String) (actionIndex : Nat) : String × Nat :=
  (String.ofList (ruleId.toList.map safeChar), actionIndex)

def disabledFlag (v : Value F) : Option Bool := v.asBool.or (v.asStr.bind parseBool)

def isActionDisabled (action : List (String × Value F)) (opts : Value F) : Bool :=
  (((action.lookup "disabled").or (action.lookup "disable")).bind disabledFlag).getD false ||
    (((opts.get "disabled").or (opts.get "disable")).bind disabledFlag).getD false

/-- The actions of a rule that are prepared, in order: `prepare_actions` and
`action_cache_configs` go through the same entries. -/
def preparedEntries (actions : List (List (String × Value F))) : List (String × Value F) :=
  actions.flatMap fun action => action.filter fun entry =>
    !(entry.1 == "disabled" || entry.1 == "disable" || isActionDisabled action entry.2)

def optBool (opts : Value F) (key : String) : Option Bool :=
  match opts.get key with
  | some (.bool b) => some b
  | some (.string s) =>
    match toAsciiLowercase (trim s) with
    | "true" | "1" | "yes" => some true
    | "false" | "0" | "no" => some false
    | _ => none
  | _ => none

/-- `CacheConfig::from_action` gives a configuration. -/
def enablesCache (opts : Value F) : Bool := (optBool opts "enableCache").getD false

/-- A start of a rule, after its creation, an update, or a restart of the process. -/
structure RuleStart (F : Type) where
  ruleId : String
  actions : List (List (String × Value F))

/-- The caches a start opens, each with the rule and the action it is for. What makes two
entries the same action is up to `ident`. -/
def RuleStart.opens (ident : String × Value F → ι) (s : RuleStart F) :
    List ((String × Nat) × (String × ι)) :=
  (preparedEntries s.actions).zipIdx.filterMap fun (entry, idx) =>
    if enablesCache entry.2 then some (cacheDir s.ruleId idx, (s.ruleId, ident entry)) else none

-- ---- Histories

/-- What happens to the directories: a rule starts; a cache opened earlier, the `i`-th,
leaves a record pushed to it in a page of its directory; the records of a directory are
resent or removed. The worker of a rule that was updated or deleted may still write. -/
inductive CacheEvent (F : Type)
  | start (s : RuleStart F)
  | persist (i : Nat)
  | clear (home : String × Nat)

/-- The records in the directories, each with the rule and the action that cached it, and
the caches opened so far. -/
structure Homes (ι : Type) where
  records : List ((String × Nat) × (String × ι))
  opened : List ((String × Nat) × (String × ι))

def Homes.step (ident : String × Value F → ι) (homes : Homes ι) : CacheEvent F → Homes ι
  | .start s => { homes with opened := homes.opened ++ s.opens ident }
  | .persist i => { homes with records := homes.records ++ homes.opened[i]?.toList }
  | .clear home => { homes with records := homes.records.filter fun entry => entry.1 ≠ home }

def Homes.after (ident : String × Value F → ι) (events : List (CacheEvent F)) : Homes ι :=
  events.foldl (Homes.step ident) ⟨[], []⟩

/-- Every record a start adopts was cached by the same action of the same rule. -/
def AdoptsOwn (ident : String × Value F → ι) (events : List (CacheEvent F)) : Prop :=
  ∀ before s rest, events = before ++ .start s :: rest →
    ∀ home owner, (home, owner) ∈ s.opens ident →
      ∀ writer, (home, writer) ∈ (Homes.after ident before).records → writer = owner

def startsOf : List (CacheEvent F) → List (RuleStart F)
  | [] => []
  | .start s :: rest => s :: startsOf rest
  | .persist _ :: rest | .clear _ :: rest => startsOf rest

/-- No cache of one start shares a directory with another action's cache of the other. -/
def KeepsApart (ident : String × Value F → ι) (s t : RuleStart F) : Prop :=
  ∀ home owner other, (home, owner) ∈ s.opens ident → (home, other) ∈ t.opens ident →
    owner = other

section

variable {ident : String × Value F → ι}

theorem startsOf_append (events more : List (CacheEvent F)) :
    startsOf (events ++ more) = startsOf events ++ startsOf more := by
  induction events with
  | nil => rfl
  | cons event events ih => cases event <;> simp [startsOf, ih]

@[simp] theorem startsOf_map (starts : List (RuleStart F)) :
    startsOf (starts.map .start) = starts := by
  induction starts with
  | nil => rfl
  | cons s starts ih => simp [startsOf, ih]

theorem after_concat (events : List (CacheEvent F)) (event : CacheEvent F) :
    Homes.after ident (events ++ [event]) = (Homes.after ident events).step ident event := by
  simp [Homes.after]

theorem opened_after (events : List (CacheEvent F)) :
    (Homes.after ident events).opened = (startsOf events).flatMap (RuleStart.opens ident) := by
  induction events using List.reverseRecOn with
  | nil => rfl
  | append_singleton events event ih =>
    rw [after_concat, startsOf_append]
    cases event <;> simp [Homes.step, startsOf, ih]

theorem records_opened (events : List (CacheEvent F)) :
    ∀ entry ∈ (Homes.after ident events).records, entry ∈ (Homes.after ident events).opened := by
  induction events using List.reverseRecOn with
  | nil => exact nofun
  | append_singleton events event ih =>
    rw [after_concat]
    intro entry hentry
    cases event with
    | start s => exact List.mem_append_left _ (ih entry hentry)
    | clear home => exact ih entry (List.mem_of_mem_filter hentry)
    | persist i =>
      rcases List.mem_append.mp hentry with hentry | hentry
      · exact ih entry hentry
      · exact List.mem_of_getElem? (Option.mem_toList.mp hentry)

theorem records_starts (events : List (CacheEvent F)) (starts : List (RuleStart F)) :
    (Homes.after ident (events ++ starts.map .start)).records =
      (Homes.after ident events).records := by
  induction starts using List.reverseRecOn with
  | nil => simp
  | append_singleton starts s ih =>
    rw [List.map_append, List.map_singleton, ← List.append_assoc, after_concat]
    exact ih

end

/-- Whatever the caches write in between, every start adopts only what the same action of
the same rule left, exactly in the histories of starts in which no two actions, of the
same or of different rules, come to the same directory. -/
theorem adopts_own_iff (ident : String × Value F → ι) (starts : List (RuleStart F)) :
    (∀ events : List (CacheEvent F), startsOf events = starts → AdoptsOwn ident events) ↔
      starts.Pairwise (KeepsApart ident) := by
  constructor
  · intro hown
    refine List.pairwise_iff_forall_sublist.mpr fun {s t} hpair home owner other hs ht => ?_
    obtain ⟨front, back, rfl, hfront, hback⟩ := List.cons_sublist_iff.mp hpair
    obtain ⟨before, between, rfl⟩ := List.append_of_mem hfront
    obtain ⟨later, rest, rfl⟩ := List.append_of_mem (List.singleton_sublist.mp hback)
    -- the cache of `s` leaves a record right after the start, `t` finds it
    have hopened : (home, owner) ∈
        (Homes.after ident ((before ++ [s]).map CacheEvent.start)).opened := by
      rw [opened_after, startsOf_map]
      exact List.mem_flatMap.mpr ⟨s, by simp, hs⟩
    obtain ⟨i, hi⟩ := List.mem_iff_getElem?.mp hopened
    have hleft : (home, owner) ∈ (Homes.after ident
        ((before ++ [s]).map CacheEvent.start ++ [.persist i] ++
          (between ++ later).map CacheEvent.start)).records := by
      rw [records_starts, after_concat, Homes.step, hi]
      exact List.mem_append_right _ (List.mem_singleton_self _)
    refine hown (((before ++ [s]).map CacheEvent.start ++ [.persist i] ++
      (between ++ later).map CacheEvent.start) ++ .start t :: rest.map .start) ?_ _ t _ rfl
      home other ht owner hleft
    simp [startsOf_append, startsOf]
  · rintro hapart events rfl before t rest rfl home other ht owner hrecord
    rw [startsOf_append, List.pairwise_append] at hapart
    have hopened := records_opened before _ hrecord
    rw [opened_after] at hopened
    obtain ⟨s, hs, howner⟩ := List.mem_flatMap.mp hopened
    exact hapart.2.2 s hs t List.mem_cons_self home owner other howner ht

def mqttRule (ruleId : String) : RuleStart Unit :=
  ⟨ruleId, [[("mqtt", .object [("enableCache", .bool true)])]]⟩

/-- The ids `plant.a` and `plant_a` give one directory: the second rule sends what the first
one's destination did not take. -/
theorem ids_share_directory :
    ¬ AdoptsOwn Prod.fst [.start (mqttRule "plant.a"), .persist 0, .start (mqttRule "plant_a")] := by
  intro hown
  have hrule := hown [.start (mqttRule "plant.a"), .persist 0] (mqttRule "plant_a") [] rfl
    ("plant_a", 0) ("plant_a", "mqtt") (by decide) ("plant.a", "mqtt") (by decide)
  revert hrule
  decide

end Rekuiper.Sinks
