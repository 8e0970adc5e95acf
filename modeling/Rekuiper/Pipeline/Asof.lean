import Mathlib.Data.Finset.Card
import Rekuiper.Lib.Latest
import Rekuiper.Pipeline.WindowJoins

/-!
# ASOF joins of a stream

`AsofJoinState` keeps one row for each key, the latest, and pairs a left row with it unless it is
later than the left row. Keys are texts. The specification looks at all rows that were ingested and
at the `ON` condition itself, as the join of a window does.
-/

namespace Rekuiper.Pipeline

open Lib Sql

variable {F : Type}

def maxAsofKeys : Nat := 10000

structure RightEvent (F : Type) where
  target : String
  ts : Int
  row : Row F

-- ---- Ingestion

def targetColumn (join : JoinClause F) : Expr F → Option String
  | .fieldAccess (.identifier parent) leaf =>
    if parent = join.target ∨ join.targetAlias = some parent then some leaf else none
  | _ => none

def rightColumn (join : JoinClause F) : Option String :=
  match join.onCondition with
  | some (.binaryOp left .eq right) => [left, right].findSome? (targetColumn join)
  | _ => none

/-- The entry with the smallest time, of those the first one of the map. -/
def oldestKey (latest : AsofState F) : Option (String × String) :=
  (latest.entries.foldl (fun oldest entry =>
    if oldest.all fun o : (String × String) × Int => entry.2.1 < o.2 then some (entry.1, entry.2.1)
    else oldest) none).map Prod.fst

/-- Puts a row under a key unless a later one is there. -/
def remember (latest : AsofState F) (key : String × String) (ts : Int) (row : Row F) :
    AsofState F :=
  let latest :=
    if (latest.lookup key).isNone ∧ maxAsofKeys ≤ latest.entries.length then
      match oldestKey latest with
      | some oldest => latest.erase oldest
      | none => latest
    else latest
  let entry := (latest.lookup key).getD (ts, row)
  latest.insert key (if ts ≥ entry.1 then (ts, row) else entry)

section
variable [Float64 F]

def extractRightKey (env : Env F) (stmt : SelectStmt F) (join : JoinClause F) (probe : Row F) :
    Except Failure (Option String) :=
  (joinKeyParts env stmt join probe).map fun parts =>
    ((parts.map Prod.fst).or (rightColumn join)).bind fun column =>
      (probe.lookup column).bind scalarize

def ingestJoin (env : Env F) (stmt : SelectStmt F) (event : RightEvent F) (latest : AsofState F)
    (join : JoinClause F) : Except Failure (AsofState F) :=
  if join.target ≠ event.target ∨ isAsof join = false then .ok latest
  else
    (extractRightKey env stmt join (preserved join event.row)).map fun
      | some key => remember latest (event.target, key) event.ts event.row
      | none => latest

def ingestRightEvent (env : Env F) (stmt : SelectStmt F) (latest : AsofState F)
    (event : RightEvent F) : Except Failure (AsofState F) :=
  stmt.joins.foldlM (ingestJoin env stmt event) latest

def ingestAll (env : Env F) (stmt : SelectStmt F) (events : List (RightEvent F)) :
    Except Failure (AsofState F) :=
  events.foldlM (ingestRightEvent env stmt) ∅

-- ---- The keys of an event

def rightKey (join : JoinClause F) (row : Row F) : Option String :=
  (rightColumn join).bind fun column => ((preserved join row).lookup column).bind scalarize

def eventKeys (stmt : SelectStmt F) (event : RightEvent F) : List (String × String) :=
  (stmt.joins.filter fun join => join.target = event.target && isAsof join).filterMap fun join =>
    (rightKey join event.row).map fun key => (event.target, key)

omit [Float64 F] in
theorem targetColumn_eq (stmt : SelectStmt F) (join : JoinClause F) (e : Expr F) :
    targetColumn join e = if side stmt join e = .table then keyColumn e else none := by
  unfold targetColumn
  split
  · rename_i parent leaf
    by_cases hname : parent = join.target ∨ join.targetAlias = some parent
    · simp [side, keyColumn, hname]
    · by_cases hstream : parent = stmt.source ∨ stmt.sourceAlias = some parent <;>
        simp [side, hname, hstream]
  · rename_i hfield
    unfold side
    split
    · rename_i parent leaf
      exact (hfield parent leaf rfl).elim
    · rfl
    · rfl

theorem joinKeyParts_column {env : Env F} {stmt : SelectStmt F} {join : JoinClause F}
    {row : Row F} {column key : String}
    (h : joinKeyParts env stmt join row = .ok (some (column, key))) :
    rightColumn join = some column := by
  unfold joinKeyParts at h
  split at h
  · rename_i left right hon
    have hsides : rightColumn join = [left, right].findSome? (targetColumn join) := by
      rw [rightColumn, hon]
    rw [hsides]
    dsimp only at h
    split at h
    · cases h
    · rename_i tableColumn keyExpr hparts
      have hcolumn : tableColumn = column := by
        cases hvalue : evalVal env row keyExpr with
        | error e =>
          rw [hvalue] at h
          cases h
        | ok value =>
          rw [hvalue] at h
          cases htext : scalarize value <;> simp_all [Except.map]
      subst hcolumn
      simp only [List.findSome?_cons, targetColumn_eq stmt]
      cases hleft : side stmt join left <;> cases hright : side stmt join right <;>
        simp_all
  · cases h

theorem extractRightKey_eq {env : Env F} {stmt : SelectStmt F} {join : JoinClause F}
    {event : RightEvent F} {key : Option String}
    (h : extractRightKey env stmt join (preserved join event.row) = .ok key) :
    key = rightKey join event.row := by
  unfold extractRightKey at h
  cases hparts : joinKeyParts env stmt join (preserved join event.row) with
  | error e =>
    rw [hparts] at h
    cases h
  | ok parts =>
    rw [hparts] at h
    cases h
    cases parts with
    | none => rfl
    | some parts => simp [rightKey, joinKeyParts_column hparts]

theorem ingestRightEvent_eq {env : Env F} {stmt : SelectStmt F} {latest latest' : AsofState F}
    {event : RightEvent F} (h : ingestRightEvent env stmt latest event = .ok latest') :
    latest' = (eventKeys stmt event).foldl (fun latest key =>
      remember latest key event.ts event.row) latest := by
  unfold ingestRightEvent at h
  unfold eventKeys
  generalize stmt.joins = joins at h ⊢
  induction joins generalizing latest with
  | nil =>
    cases h
    rfl
  | cons join joins ih =>
    rw [List.foldlM_cons] at h
    obtain ⟨next, hnext, h⟩ := bind_eq_ok h
    rw [ih h]
    unfold ingestJoin at hnext
    split at hnext
    · rename_i hskip
      cases hnext
      rw [List.filter_cons_of_neg]
      rw [Bool.and_eq_true, decide_eq_true_eq, not_and, Bool.not_eq_true]
      exact fun htarget => hskip.resolve_left (not_not.mpr htarget)
    · rename_i hjoin
      rw [not_or, not_not, Bool.not_eq_false] at hjoin
      rw [List.filter_cons_of_pos (by simp [hjoin.1, hjoin.2]), List.filterMap_cons]
      cases hkey : extractRightKey env stmt join (preserved join event.row) with
      | error e =>
        rw [hkey] at hnext
        cases hnext
      | ok key =>
        rw [hkey] at hnext
        rw [← extractRightKey_eq hkey]
        cases key <;> cases hnext <;> rfl

-- ---- The state below the limit

def kept (old : Option (Int × Row F)) (event : RightEvent F) : Int × Row F :=
  if event.ts ≥ (old.getD (event.ts, event.row)).1 then (event.ts, event.row)
  else old.getD (event.ts, event.row)

omit [Float64 F] in
theorem kept_kept (old : Option (Int × Row F)) (event : RightEvent F) :
    kept (some (kept old event)) event = kept old event := by
  unfold kept
  split <;> simp_all

omit [Float64 F] in
theorem kept_later (best : Option (RightEvent F)) (event : RightEvent F) :
    (later RightEvent.ts best event).map (fun e => (e.ts, e.row)) =
      some (kept (best.map fun e => (e.ts, e.row)) event) := by
  unfold later kept
  cases best with
  | none => simp
  | some b => by_cases h : b.ts ≤ event.ts <;> simp [h]

def Below (keys : Finset (String × String)) (latest : AsofState F) : Prop :=
  keys.card < maxAsofKeys ∧ ∀ key, (latest.lookup key).isSome → key ∈ keys

omit [Float64 F] in
theorem Below.length_lt {keys : Finset (String × String)} {latest : AsofState F}
    (h : Below keys latest) : latest.entries.length < maxAsofKeys := by
  have hsub : latest.keys.toFinset ⊆ keys := by
    intro key hkey
    rw [List.mem_toFinset, ← AList.mem_keys, ← AList.lookup_isSome] at hkey
    exact h.2 key hkey
  have hcard := Finset.card_le_card hsub
  rw [List.toFinset_card_of_nodup (AList.keys_nodup latest)] at hcard
  have hlength : latest.keys.length = latest.entries.length := List.length_map _
  have := h.1
  omega

omit [Float64 F] in
theorem lookup_remember {keys : Finset (String × String)} {latest : AsofState F}
    (hbelow : Below keys latest) (key other : String × String) (event : RightEvent F) :
    (remember latest key event.ts event.row).lookup other =
      if other = key then some (kept (latest.lookup key) event) else latest.lookup other := by
  have hroom := hbelow.length_lt
  unfold remember
  rw [if_neg (by omega)]
  split
  · rename_i hkey
    rw [hkey, AList.lookup_insert]
    rfl
  · rename_i hkey
    rw [AList.lookup_insert_ne hkey]

omit [Float64 F] in
theorem below_remember {keys : Finset (String × String)} {latest : AsofState F}
    (hbelow : Below keys latest) {key : String × String} (hkey : key ∈ keys)
    (event : RightEvent F) : Below keys (remember latest key event.ts event.row) := by
  refine ⟨hbelow.1, fun other hother => ?_⟩
  rw [lookup_remember hbelow] at hother
  split at hother
  · rename_i heq
    exact heq ▸ hkey
  · exact hbelow.2 other hother

omit [Float64 F] in
theorem lookup_rememberAll {keys : Finset (String × String)} {latest : AsofState F}
    {eventKeys : List (String × String)} {event : RightEvent F} (hbelow : Below keys latest)
    (hkeys : ∀ key ∈ eventKeys, key ∈ keys) :
    Below keys (eventKeys.foldl (fun latest key => remember latest key event.ts event.row) latest) ∧
      ∀ key, (eventKeys.foldl (fun latest key => remember latest key event.ts event.row)
        latest).lookup key =
          if key ∈ eventKeys then some (kept (latest.lookup key) event)
          else latest.lookup key := by
  induction eventKeys generalizing latest with
  | nil => simp [hbelow]
  | cons first rest ih =>
    rw [List.forall_mem_cons] at hkeys
    obtain ⟨hnext, hlookup⟩ := ih (below_remember hbelow hkeys.1 event) hkeys.2
    refine ⟨hnext, fun key => ?_⟩
    rw [List.foldl_cons, hlookup, lookup_remember hbelow]
    by_cases hfirst : key = first
    · subst hfirst
      by_cases hrest : key ∈ rest <;> simp [hrest, kept_kept]
    · simp [hfirst]

def newest (stmt : SelectStmt F) (events : List (RightEvent F)) (key : String × String) :
    Option (RightEvent F) :=
  latest RightEvent.ts (events.filter fun event => key ∈ eventKeys stmt event)

theorem newest_snoc (stmt : SelectStmt F) (events : List (RightEvent F)) (event : RightEvent F)
    (key : String × String) :
    newest stmt (events ++ [event]) key =
      if key ∈ eventKeys stmt event then later RightEvent.ts (newest stmt events key) event
      else newest stmt events key := by
  unfold newest
  rw [List.filter_append]
  split
  · rename_i hkey
    rw [List.filter_cons_of_pos (by simpa using hkey), List.filter_nil, latest_snoc]
  · rename_i hkey
    rw [List.filter_cons_of_neg (by simpa using hkey), List.filter_nil, List.append_nil]

theorem ingestAll_snoc {env : Env F} {stmt : SelectStmt F} {events : List (RightEvent F)}
    {event : RightEvent F} {state : AsofState F}
    (h : ingestAll env stmt (events ++ [event]) = .ok state) :
    ∃ before, ingestAll env stmt events = .ok before ∧
      ingestRightEvent env stmt before event = .ok state := by
  unfold ingestAll at h
  rw [List.foldlM_append] at h
  obtain ⟨before, hbefore, h⟩ := bind_eq_ok h
  rw [List.foldlM_cons] at h
  obtain ⟨after, hafter, h⟩ := bind_eq_ok h
  cases h
  exact ⟨before, hbefore, hafter⟩

theorem lookup_ingestAll {env : Env F} {stmt : SelectStmt F} {events : List (RightEvent F)}
    {state : AsofState F} {keys : Finset (String × String)} (hcard : keys.card < maxAsofKeys)
    (hkeys : ∀ event ∈ events, ∀ key ∈ eventKeys stmt event, key ∈ keys)
    (h : ingestAll env stmt events = .ok state) :
    Below keys state ∧
      ∀ key, state.lookup key = (newest stmt events key).map fun e => (e.ts, e.row) := by
  induction events using List.reverseRecOn generalizing state with
  | nil =>
    cases h
    exact ⟨⟨hcard, by simp⟩, fun key => by simp [newest, latest]⟩
  | append_singleton events event ih =>
    obtain ⟨before, hbefore, hafter⟩ := ingestAll_snoc h
    have hearlier : ∀ e ∈ events, ∀ key ∈ eventKeys stmt e, key ∈ keys :=
      fun e he => hkeys e (List.mem_append_left _ he)
    obtain ⟨hbelow, hlookup⟩ := ih hearlier hbefore
    rw [ingestRightEvent_eq hafter]
    obtain ⟨hnext, hall⟩ := lookup_rememberAll hbelow (hkeys event (by simp))
    refine ⟨hnext, fun key => ?_⟩
    rw [hall, newest_snoc]
    split
    · rw [kept_later, hlookup]
    · exact hlookup key

-- ---- The row that a left row is paired with

def asofMatch (env : Env F) (stmt : SelectStmt F) (latest : AsofState F) (leftTs : Int)
    (combined : Row F) (join : JoinClause F) : Except Failure (Option (Int × Row F)) :=
  (joinKeyParts env stmt join combined).map fun parts =>
    (parts.bind fun (_, key) => latest.lookup (join.target, key)).filter
      fun (rightTs, _) => rightTs ≤ leftTs

def pairRow (combined : Row F) (join : JoinClause F) : Option (Int × Row F) → Option (Row F)
  | some (_, row) => some (joinRow combined join row)
  | none => if join.joinType = .leftAsof then some combined else none

theorem asofJoin_eq {env : Env F} {stmt : SelectStmt F} {latest : AsofState F} {leftTs : Int}
    {combined : Row F} {join : JoinClause F} (hasof : isAsof join = true) :
    asofJoin env stmt latest leftTs combined join =
      (asofMatch env stmt latest leftTs combined join).map (pairRow combined join) := by
  unfold asofJoin asofMatch
  rw [hasof]
  cases joinKeyParts env stmt join combined with
  | error e => rfl
  | ok parts =>
    dsimp only [Bool.not_true, Bool.false_eq_true, if_false, Except.map]
    rw [if_neg (by simp)]
    split
    · rename_i hfound
      rw [hfound]
      rfl
    · rename_i hfound
      rw [hfound]
      unfold pairRow
      split <;> rfl

/-- The event is of the joined stream, is not later than the left row, and the `ON` condition
holds. -/
def qualifies (env : Env F) (leftTs : Int) (combined : Row F) (join : JoinClause F)
    (event : RightEvent F) : Bool :=
  event.target = join.target && event.ts ≤ leftTs && matchesOn env join combined event.row

def asofSpec (env : Env F) (events : List (RightEvent F)) (leftTs : Int) (combined : Row F)
    (join : JoinClause F) : Option (RightEvent F) :=
  latest RightEvent.ts (events.filter (qualifies env leftTs combined join))

def specJoin (env : Env F) (events : List (RightEvent F)) (leftTs : Int) (combined : Row F)
    (join : JoinClause F) : Except Failure (Option (Row F)) :=
  .ok (if isAsof join then
    pairRow combined join ((asofSpec env events leftTs combined join).map fun e => (e.ts, e.row))
  else some combined)

def newestOfKey (stmt : SelectStmt F) (events : List (RightEvent F)) (join : JoinClause F)
    (parts : Option (String × String)) : Option (RightEvent F) :=
  parts.bind fun (_, key) => newest stmt events (join.target, key)

/-- The newest event of the left row's key meets the condition unless it is later than the left
row, and no event that qualifies is newer or of the same time and after it. -/
structure NewestQualifies (env : Env F) (stmt : SelectStmt F) (events : List (RightEvent F))
    (leftTs : Int) (combined : Row F) (join : JoinClause F) (parts : Option (String × String)) :
    Prop where
  holds : ∀ m, newestOfKey stmt events join parts = some m → m.ts ≤ leftTs →
    matchesOn env join combined m.row = true
  covers : ∀ before event after, events = before ++ event :: after →
    qualifies env leftTs combined join event = true →
      ∃ m, newestOfKey stmt events join parts = some m ∧ m.ts ≤ leftTs ∧
        (event.ts < m.ts ∨ event.ts = m.ts ∧ m ∈ event :: after)

section Pairing
variable {env : Env F} {stmt : SelectStmt F} {events : List (RightEvent F)} {leftTs : Int}
  {combined : Row F} {join : JoinClause F} {parts : Option (String × String)}

theorem newestOfKey_mem {m : RightEvent F} (h : newestOfKey stmt events join parts = some m) :
    m ∈ events ∧ m.target = join.target := by
  obtain ⟨⟨column, key⟩, -, hm⟩ := Option.bind_eq_some_iff.mp h
  have hmem := mem_of_latest hm
  rw [List.mem_filter, decide_eq_true_eq] at hmem
  refine ⟨hmem.1, ?_⟩
  obtain ⟨other, hother, hkey⟩ := List.mem_filterMap.mp hmem.2
  rw [Option.map_eq_some_iff] at hkey
  obtain ⟨text, -, htext⟩ := hkey
  exact (Prod.mk.inj htext).1

theorem qualifies_iff {event : RightEvent F} :
    qualifies env leftTs combined join event = true ↔
      event.target = join.target ∧ event.ts ≤ leftTs ∧
        matchesOn env join combined event.row = true := by
  simp [qualifies, and_assoc]

theorem mem_tail_or_mem {α : Type} {before after before' after' : List α} {x y : α}
    (h : before ++ x :: after = before' ++ y :: after') : x ∈ after' ∨ y ∈ x :: after := by
  rcases List.append_eq_append_iff.mp h with ⟨mid, rfl, hmid⟩ | ⟨mid, rfl, hmid⟩
  · right
    rw [hmid]
    simp
  · cases mid with
    | nil =>
      right
      rw [List.nil_append] at hmid
      simp [← hmid]
    | cons first rest =>
      left
      rw [List.cons_append, List.cons.injEq] at hmid
      simp [hmid.2]

omit [Float64 F] in
theorem event_ext {m e : RightEvent F} (htarget : m.target = e.target)
    (hpair : (m.ts, m.row) = (e.ts, e.row)) : m = e := by
  obtain ⟨target, ts, row⟩ := m
  obtain ⟨target', ts', row'⟩ := e
  cases hpair
  cases htarget
  rfl

theorem newest_match_eq_some {m : RightEvent F} :
    (newestOfKey stmt events join parts).filter (fun m => m.ts ≤ leftTs) = some m ↔
      newestOfKey stmt events join parts = some m ∧ m.ts ≤ leftTs := by
  rw [Option.filter_eq_some_iff, decide_eq_true_eq]

theorem newestQualifies_of_match
    (h : ((newestOfKey stmt events join parts).filter fun m => m.ts ≤ leftTs).map
        (fun m => (m.ts, m.row)) =
      (asofSpec env events leftTs combined join).map fun e => (e.ts, e.row)) :
    NewestQualifies env stmt events leftTs combined join parts := by
  constructor
  · intro m hm hts
    rw [newest_match_eq_some.mpr ⟨hm, hts⟩, Option.map_some] at h
    obtain ⟨e, he, hpair⟩ := Option.map_eq_some_iff.mp h.symm
    obtain ⟨-, -, -, hqualifies, -, -⟩ := latest_filter_eq_some he
    rw [← (Prod.mk.inj hpair).2]
    exact (qualifies_iff.mp hqualifies).2.2
  · intro before event after hsplit hqualifies
    have hevent : event ∈ events := by simp [hsplit]
    cases hspec : asofSpec env events leftTs combined join with
    | none =>
      have hnone := latest_eq_none_iff.mp hspec
      rw [List.filter_eq_nil_iff] at hnone
      exact (hnone event hevent hqualifies).elim
    | some e =>
      rw [hspec, Option.map_some] at h
      obtain ⟨m, hm, hpair⟩ := Option.map_eq_some_iff.mp h
      obtain ⟨hnewest, hts⟩ := newest_match_eq_some.mp hm
      obtain ⟨before', after', hsplit', he, hle, hlt⟩ := latest_filter_eq_some hspec
      have hme : m = e :=
        event_ext ((newestOfKey_mem hnewest).2.trans (qualifies_iff.mp he).1.symm) hpair
      subst hme
      refine ⟨m, hnewest, hts, ?_⟩
      rcases lt_or_eq_of_le (hle event hevent hqualifies) with hless | hsame
      · exact .inl hless
      · refine .inr ⟨hsame, ?_⟩
        rcases mem_tail_or_mem (hsplit.symm.trans hsplit') with hafter | hmem
        · exact absurd (hlt event hafter hqualifies) (by omega)
        · exact hmem

theorem match_of_newestQualifies (h : NewestQualifies env stmt events leftTs combined join parts) :
    (newestOfKey stmt events join parts).filter (fun m => m.ts ≤ leftTs) =
      asofSpec env events leftTs combined join := by
  -- A newest event that is not later than the left row qualifies.
  have hown : ∀ m, newestOfKey stmt events join parts = some m → m.ts ≤ leftTs →
      m ∈ events ∧ qualifies env leftTs combined join m = true := by
    intro m hm hts
    obtain ⟨hmem, htarget⟩ := newestOfKey_mem hm
    exact ⟨hmem, qualifies_iff.mpr ⟨htarget, hts, h.holds m hm hts⟩⟩
  cases hspec : asofSpec env events leftTs combined join with
  | none =>
    have hnone := latest_eq_none_iff.mp hspec
    rw [List.filter_eq_nil_iff] at hnone
    rw [Option.filter_eq_none_iff]
    intro m hm hts
    obtain ⟨hmem, hqualifies⟩ := hown m hm (by simpa using hts)
    exact hnone m hmem hqualifies
  | some e =>
    obtain ⟨before, after, hsplit, he, hle, hlt⟩ := latest_filter_eq_some hspec
    obtain ⟨m, hm, hts, hcovers⟩ := h.covers before e after hsplit he
    obtain ⟨hmem, hqualifies⟩ := hown m hm hts
    have hmle := hle m hmem hqualifies
    rw [newest_match_eq_some.mpr ⟨hm, hts⟩]
    rcases hcovers with hless | ⟨hsame, hafter⟩
    · omega
    · rcases List.mem_cons.mp hafter with rfl | hafter
      · rfl
      · have := hlt m hafter hqualifies
        omega

theorem asofMatch_eq_iff {state : AsofState F}
    (hstate : ∀ key, state.lookup key = (newest stmt events key).map fun e => (e.ts, e.row)) :
    asofMatch env stmt state leftTs combined join =
        .ok ((asofSpec env events leftTs combined join).map fun e => (e.ts, e.row)) ↔
      ∃ parts, joinKeyParts env stmt join combined = .ok parts ∧
        NewestQualifies env stmt events leftTs combined join parts := by
  have hfound (parts : Option (String × String)) :
      (parts.bind fun (_, key) => state.lookup (join.target, key)).filter
          (fun (rightTs, _) => rightTs ≤ leftTs) =
        ((newestOfKey stmt events join parts).filter fun m => m.ts ≤ leftTs).map
          fun m => (m.ts, m.row) := by
    cases parts with
    | none => rfl
    | some parts =>
      simp only [newestOfKey, Option.bind_some, hstate]
      cases newest stmt events (join.target, parts.2) with
      | none => rfl
      | some m => by_cases hts : m.ts ≤ leftTs <;> simp [Option.filter, hts]
  unfold asofMatch
  cases joinKeyParts env stmt join combined with
  | error e => simp [Except.map]
  | ok parts =>
    simp only [Except.map, hfound, Except.ok.injEq]
    constructor
    · exact fun h => ⟨parts, rfl, newestQualifies_of_match h⟩
    · rintro ⟨_, rfl, h⟩
      rw [match_of_newestQualifies h]

end Pairing

-- ---- The joins of a window

def windowBatch (events : List (RightEvent F)) : List (TaggedRow F) :=
  events.map fun event => ⟨event.target, event.row⟩

/-- The rows' own times are those of the events, and the conditions can be evaluated. -/
structure SameTimes (env : Env F) (events : List (RightEvent F)) (leftTs : Int) (combined : Row F)
    (join : JoinClause F) : Prop where
  right : ∀ event ∈ events, (rowTime event.row).getD 0 = event.ts
  left : (rowTime combined).getD maxI64 = leftTs
  evaluates : ∀ event ∈ events, ∃ holds, onHolds env join combined event.row = .ok holds

section Window
variable {env : Env F} {events : List (RightEvent F)} {leftTs : Int} {combined : Row F}
  {join : JoinClause F}

theorem asofBest_eq (best : Option (RightEvent F))
    (htimes : ∀ event ∈ events, (rowTime event.row).getD 0 = event.ts)
    (hevaluates : ∀ event ∈ events, ∃ holds, onHolds env join combined event.row = .ok holds)
    (htarget : ∀ event ∈ events, event.target = join.target) :
    asofBest env join combined leftTs (events.map RightEvent.row)
        (best.map fun e => (e.ts, joinRow combined join e.row)) =
      .ok (((events.filter (qualifies env leftTs combined join)).foldl (later RightEvent.ts)
        best).map fun e => (e.ts, joinRow combined join e.row)) := by
  induction events generalizing best with
  | nil => rfl
  | cons event rest ih =>
    rw [List.forall_mem_cons] at htimes hevaluates htarget
    rw [List.map_cons, asofBest, htimes.1]
    dsimp only
    split
    · rename_i hlate
      rw [List.filter_cons_of_neg, ih _ htimes.2 hevaluates.2 htarget.2]
      rw [qualifies_iff]
      omega
    · rename_i hts
      rw [onHolds_eq hevaluates.1]
      cases hon : matchesOn env join combined event.row with
      | false =>
        rw [List.filter_cons_of_neg (by simp [qualifies, hon])]
        exact ih _ htimes.2 hevaluates.2 htarget.2
      | true =>
        rw [List.filter_cons_of_pos
          (qualifies_iff.mpr ⟨htarget.1, Int.not_lt.mp hts, hon⟩), List.foldl_cons,
          ← ih _ htimes.2 hevaluates.2 htarget.2]
        cases best with
        | none => rfl
        | some b => by_cases hle : b.ts ≤ event.ts <;> simp [later, hle, bind, Except.bind]

theorem asofStep_eq (h : SameTimes env events leftTs combined join) :
    asofStep env join (rightRows (windowBatch events) join) [] combined =
      .ok (pairRow combined join
        ((asofSpec env events leftTs combined join).map fun e => (e.ts, e.row))).toList := by
  have hrows : rightRows (windowBatch events) join =
      (events.filter fun event => event.target = join.target).map RightEvent.row := by
    simp [rightRows, windowBatch, List.filter_map, Function.comp_def]
  have hsub : ∀ event ∈ events.filter (fun event => event.target = join.target), event ∈ events :=
    fun event hevent => (List.mem_filter.mp hevent).1
  have hqualifies : (events.filter fun event => event.target = join.target).filter
      (qualifies env leftTs combined join) =
        events.filter (qualifies env leftTs combined join) := by
    rw [List.filter_filter]
    refine List.filter_congr fun event _ => ?_
    rw [Bool.eq_iff_iff, Bool.and_eq_true, decide_eq_true_eq]
    exact and_iff_left_of_imp fun h => (qualifies_iff.mp h).1
  have hbest : asofBest env join combined leftTs (rightRows (windowBatch events) join) none =
      .ok ((asofSpec env events leftTs combined join).map
        fun e => (e.ts, joinRow combined join e.row)) := by
    rw [hrows, asofSpec, ← hqualifies]
    exact asofBest_eq none (fun event hevent => h.right event (hsub event hevent))
      (fun event hevent => h.evaluates event (hsub event hevent))
      (fun event hevent => by simpa using (List.mem_filter.mp hevent).2)
  unfold asofStep
  rw [h.left, hbest]
  cases asofSpec env events leftTs combined join with
  | none =>
    by_cases hleft : join.joinType = .leftAsof <;>
      simp [pairRow, hleft, pushCapped, maxJoinFanout, bind, Except.bind, pure, Except.pure]
  | some e => simp [pairRow, pushCapped, maxJoinFanout, bind, Except.bind, pure, Except.pure]

end Window

-- ---- All joins of a statement

/-- What holds at every join that a fold reaches, of the row it comes with. -/
def AlongJoins (step : Row F → JoinClause F → Except Failure (Option (Row F)))
    (holds : Row F → JoinClause F → Prop) : List (JoinClause F) → Row F → Prop
  | [], _ => True
  | join :: joins, combined =>
    holds combined join ∧
      ∀ next, step combined join = .ok (some next) → AlongJoins step holds joins next

omit [Float64 F] in
theorem alongJoins_iff {step step' : Row F → JoinClause F → Except Failure (Option (Row F))}
    {holds holds' : Row F → JoinClause F → Prop}
    (hiff : ∀ combined join, holds combined join ↔ holds' combined join)
    (hstep : ∀ combined join, holds combined join → step combined join = step' combined join)
    (joins : List (JoinClause F)) (combined : Row F) :
    AlongJoins step holds joins combined ↔ AlongJoins step' holds' joins combined := by
  induction joins generalizing combined with
  | nil => exact Iff.rfl
  | cons join joins ih =>
    unfold AlongJoins
    rw [← hiff]
    refine and_congr_right fun hholds => ?_
    rw [hstep combined join hholds]
    exact forall_congr' fun next => imp_congr_right fun _ => ih next

omit [Float64 F] in
theorem foldJoins_eq {step step' : Row F → JoinClause F → Except Failure (Option (Row F))}
    {holds : Row F → JoinClause F → Prop}
    (hstep : ∀ combined join, holds combined join → step combined join = step' combined join)
    {joins : List (JoinClause F)} {combined : Row F}
    (h : AlongJoins step holds joins combined) :
    foldJoins step joins combined = foldJoins step' joins combined := by
  induction joins generalizing combined with
  | nil => rfl
  | cons join joins ih =>
    obtain ⟨hholds, hnext⟩ := h
    have heq := hstep combined join hholds
    unfold foldJoins
    rw [← heq]
    cases hresult : step combined join with
    | error e => rfl
    | ok result =>
      cases result with
      | none => rfl
      | some next => exact ih (hnext next hresult)

/-- A join pairs the row with the row of the specification, which is also the one that the join of
a window takes. -/
structure Pairs (env : Env F) (stmt : SelectStmt F) (events : List (RightEvent F))
    (state : AsofState F) (leftTs : Int) (combined : Row F) (join : JoinClause F) : Prop where
  streamed : asofMatch env stmt state leftTs combined join =
    .ok ((asofSpec env events leftTs combined join).map fun e => (e.ts, e.row))
  joined : asofJoin env stmt state leftTs combined join = specJoin env events leftTs combined join
  windowed : SameTimes env events leftTs combined join →
    (asofStep env join (rightRows (windowBatch events) join) [] combined).map List.head? =
      asofJoin env stmt state leftTs combined join

/-- The left row's key can be evaluated, and its newest event is the one to take. -/
def NewestSuffices (env : Env F) (stmt : SelectStmt F) (events : List (RightEvent F))
    (leftTs : Int) (combined : Row F) (join : JoinClause F) : Prop :=
  ∃ parts, joinKeyParts env stmt join combined = .ok parts ∧
    NewestQualifies env stmt events leftTs combined join parts

theorem pairs_iff {env : Env F} {stmt : SelectStmt F} {events : List (RightEvent F)}
    {state : AsofState F} {leftTs : Int} {combined : Row F} {join : JoinClause F}
    (hasof : isAsof join = true)
    (hstate : ∀ key, state.lookup key = (newest stmt events key).map fun e => (e.ts, e.row)) :
    Pairs env stmt events state leftTs combined join ↔
      NewestSuffices env stmt events leftTs combined join := by
  unfold NewestSuffices
  rw [← asofMatch_eq_iff hstate]
  refine ⟨Pairs.streamed, fun hmatch => ?_⟩
  have hjoined : asofJoin env stmt state leftTs combined join =
      specJoin env events leftTs combined join := by
    rw [asofJoin_eq hasof, hmatch, specJoin, if_pos hasof]
    rfl
  refine ⟨hmatch, hjoined, fun hsame => ?_⟩
  rw [hjoined, asofStep_eq hsame, specJoin, if_pos hasof]
  simp [Except.map]

/-- A streaming `ASOF` join agrees with its specification and with the join of a window exactly if
at each join, over the rows of the specification, the newest event of the left row's key is the one
to take. -/
theorem asof_pairs_iff {env : Env F} {stmt : SelectStmt F} {events : List (RightEvent F)}
    {state : AsofState F} (leftTs : Int) (left : Row F)
    (hkeys : (events.flatMap (eventKeys stmt)).toFinset.card < maxAsofKeys)
    (hstate : ingestAll env stmt events = .ok state) :
    (AlongJoins (asofJoin env stmt state leftTs)
        (fun combined join => isAsof join = true → Pairs env stmt events state leftTs combined join)
        stmt.joins (insertNamespaced left stmt.source stmt.sourceAlias left) ∧
      probeLeftEvent env state stmt leftTs left =
        foldJoins (specJoin env events leftTs) stmt.joins
          (insertNamespaced left stmt.source stmt.sourceAlias left)) ↔
      AlongJoins (specJoin env events leftTs)
        (fun combined join => isAsof join = true →
          NewestSuffices env stmt events leftTs combined join)
        stmt.joins (insertNamespaced left stmt.source stmt.sourceAlias left) := by
  have hlookup := (lookup_ingestAll hkeys (fun event hevent key hkey =>
    List.mem_toFinset.mpr (List.mem_flatMap.mpr ⟨event, hevent, hkey⟩)) hstate).2
  have hstep : ∀ combined join,
      (isAsof join = true → Pairs env stmt events state leftTs combined join) →
        asofJoin env stmt state leftTs combined join =
          specJoin env events leftTs combined join := by
    intro combined join hpairs
    cases hasof : isAsof join with
    | true => exact (hpairs hasof).joined
    | false => simp [asofJoin, specJoin, hasof]
  rw [← alongJoins_iff (fun combined join => imp_congr_right fun hasof =>
    pairs_iff hasof hlookup) hstep]
  exact and_iff_left_of_imp fun hpairs => foldJoins_eq hstep hpairs

end

/-- `SELECT * FROM a ASOF JOIN b ON a.id = b.id` -/
def asofById : SelectStmt ℚ :=
  { SelectStmt.plain [.wildcard] "a" none with
    joins := [⟨.asof, "b", none, some (sameId "a" "b")⟩] }

def keyRow (id : String) : Row ℚ := (∅ : Row ℚ).insert "id" (.string id)

/-- Two rows of `b` with the key of the row of `a`, and two of another key, the last one later. -/
def rowsOfTwoKeys : List (RightEvent ℚ) :=
  [⟨"b", 5, keyRow "x"⟩, ⟨"b", 10, keyRow "x"⟩, ⟨"b", 12, keyRow "y"⟩, ⟨"b", 20, keyRow "y"⟩]

theorem newest_row_paired : ∃ state, ingestAll bareEnv asofById rowsOfTwoKeys = .ok state ∧
    probeLeftEvent bareEnv state asofById 15 (keyRow "x") =
      foldJoins (specJoin bareEnv rowsOfTwoKeys 15) asofById.joins
        (insertNamespaced (keyRow "x") "a" none (keyRow "x")) := by
  refine ⟨_, rfl, ((asof_pairs_iff 15 (keyRow "x") (by decide) rfl).mpr ?_).2⟩
  refine ⟨fun _ => ⟨some ("id", "x"), by decide, ?_, ?_⟩, fun _ _ => trivial⟩
  · intro m hm hts
    cases hm
    decide
  · intro before event after hsplit hqualifies
    rcases before with _ | ⟨_, _ | ⟨_, _ | ⟨_, _ | ⟨_, rest⟩⟩⟩⟩
    · cases hsplit
      exact ⟨_, rfl, by decide, .inl (by decide)⟩
    · cases hsplit
      exact ⟨_, rfl, by decide, .inr ⟨rfl, List.mem_cons_self⟩⟩
    · cases hsplit
      exact absurd hqualifies (by decide)
    · cases hsplit
      exact absurd hqualifies (by decide)
    · simp [rowsOfTwoKeys] at hsplit

/-- Two rows of `b` with the same key, one before and one after the row of `a`. -/
theorem earlier_row_not_paired :
    ¬∀ (events : List (RightEvent ℚ)) (state : AsofState ℚ) (leftTs : Int) (left : Row ℚ),
      (events.flatMap (eventKeys asofById)).toFinset.card < maxAsofKeys →
      ingestAll bareEnv asofById events = .ok state →
        probeLeftEvent bareEnv state asofById leftTs left =
          foldJoins (specJoin bareEnv events leftTs) asofById.joins
            (insertNamespaced left "a" none left) := by
  intro h
  have heq := h [⟨"b", 10, keyRow "x"⟩, ⟨"b", 20, keyRow "x"⟩] _ 15 (keyRow "x") (by decide) rfl
  have hsome := congrArg (Except.map Option.isSome) heq
  revert hsome
  decide

end Rekuiper.Pipeline
