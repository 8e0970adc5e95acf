import Rekuiper.Sql.Independence
import Rekuiper.Sql.StatementWrites

/-!
# How many entries the rule's state holds

`insert_bounded` evicts an entry for a new one when the map is full, and the sequence functions
evict one of their own. `row_number`, `changed_cols` and the `last_hit` functions evict nothing, but
those of the last are not counted. So the bound is kept where the first kind works alone, where the
sequence functions do, and where everything fits anyway.
-/

namespace Rekuiper.Sql

open Lib

variable {F : Type} {keyOrder : KeyOrder F} {m : HashMap String (Value F)}

/-- The entries that the bound of the state is about. -/
def isCounted (key : String) : Bool := !startsWith key "__" && !startsWith key "$$"

def Bounded (m : HashMap String (Value F)) : Prop := HashMap.tally isCounted m ≤ maxStateKeys

def AllCounted (Q : String → Prop) (m : HashMap String (Value F)) : Prop :=
  ∀ key ∈ m, isCounted key = true → Q key

def IsCep (key : String) : Prop := startsWith key "cep:" = true

def ListsKeys (keyOrder : KeyOrder F) : Prop := ∀ m key, key ∈ keyOrder m ↔ key ∈ m

theorem listsKeys_keys : ListsKeys (F := F) AList.keys := fun _ _ => AList.mem_keys.symm

-- ---- Insertions

section
variable {most : Nat} {evictable : String → Bool} {p : String → Bool}

theorem mem_insertEvicting {key k : String} {value : Value F}
    (h : k ∈ insertEvicting keyOrder most evictable m key value) : k = key ∨ k ∈ m := by
  unfold insertEvicting at h
  split at h
  · split at h
    · have h := (AList.mem_insert _).mp h
      exact h.imp_right fun h => (AList.mem_erase.mp h).2
    · exact (AList.mem_insert _).mp h
  · exact (AList.mem_insert _).mp h

theorem tally_insertEvicting (hlists : ListsKeys keyOrder) (hmost : 0 < most)
    (hp : ∀ key ∈ m, p key = evictable key) (h : HashMap.tally p m ≤ most) (key : String)
    (value : Value F) :
    HashMap.tally p (insertEvicting keyOrder most evictable m key value) ≤ most := by
  unfold insertEvicting
  split
  · split
    · next evicted hfind =>
      have hmem : evicted ∈ m := (hlists m evicted).mp (List.mem_of_find?_eq_some hfind)
      have herase := HashMap.tally_erase hmem ((hp evicted hmem).trans (List.find?_some hfind))
      have hinsert := HashMap.tally_insert_le p (m.erase evicted) key value
      omega
    · next hfind =>
      have hnone : HashMap.tally p m = 0 := HashMap.tally_eq_zero fun k hk => by
        rw [hp k hk]
        simpa using List.find?_eq_none.mp hfind k ((hlists m k).mpr hk)
      have hinsert := HashMap.tally_insert_le p m key value
      omega
  · next hroom =>
    by_cases hmem : key ∈ m
    · rwa [HashMap.tally_insert_of_mem hmem]
    · have hlength := HashMap.tally_le_length p m
      have hinsert := HashMap.tally_insert_le p m key value
      have hfree : ¬most ≤ m.entries.length := fun hle => hroom ⟨hmem, hle⟩
      omega

theorem tally_insertEvicting_of_not {key : String} (hkey : p key = false) (value : Value F) :
    HashMap.tally p (insertEvicting keyOrder most evictable m key value) ≤ HashMap.tally p m := by
  unfold insertEvicting
  split
  · split
    · refine (HashMap.tally_insert_of_not hkey value).trans ?_
      unfold HashMap.tally
      rw [AList.keys_erase]
      exact List.erase_sublist.countP_le
    · exact HashMap.tally_insert_of_not hkey value
  · exact HashMap.tally_insert_of_not hkey value

end

theorem bounded_insertBounded (hlists : ListsKeys keyOrder) (h : Bounded m) (key : String)
    (value : Value F) : Bounded (insertBounded keyOrder m key value) :=
  tally_insertEvicting hlists (by decide) (fun _ _ => rfl) h key value

theorem isCounted_cep {key : String} (h : IsCep key) : isCounted key = true := by
  obtain ⟨rest, hrest⟩ := List.isPrefixOf_iff_prefix.mp h
  unfold isCounted startsWith
  rw [← hrest]
  rfl

theorem bounded_insertCep (hlists : ListsKeys keyOrder) (hcep : AllCounted IsCep m) (h : Bounded m)
    (key : String) (value : Value F) : Bounded (insertCep keyOrder m key value) := by
  refine tally_insertEvicting hlists (by decide) (fun k hk => ?_) h key value
  rw [Bool.eq_iff_iff]
  exact ⟨hcep k hk, isCounted_cep⟩

theorem allCounted_siteInsert {Q : String → Prop} {lowered key : String}
    (hkey : isCounted key = true → Q key) (h : AllCounted Q m) (value : Value F) :
    AllCounted Q (siteInsert keyOrder lowered m key value) := by
  intro k hk hcounted
  have hk : k = key ∨ k ∈ m := by
    rcases siteInsert_cases keyOrder lowered with hinsert | ⟨evictable, hinsert⟩
    · rw [hinsert] at hk
      exact (AList.mem_insert _).mp hk
    · rw [hinsert] at hk
      exact mem_insertEvicting hk
  rcases hk with rfl | hk
  · exact hkey hcounted
  · exact h k hk hcounted

theorem bounded_siteInsert_of_not {lowered key : String} (hkey : isCounted key = false)
    (h : Bounded m) (value : Value F) : Bounded (siteInsert keyOrder lowered m key value) := by
  rcases siteInsert_cases keyOrder lowered with hinsert | ⟨evictable, hinsert⟩
  · rw [hinsert]
    exact (HashMap.tally_insert_of_not hkey value).trans h
  · rw [hinsert]
    exact (tally_insertEvicting_of_not hkey value).trans h

-- ---- Steps

abbrev isSequence (lowered : String) : Prop := lowered = "sequence_match" ∨ lowered = "sequence_count"

abbrev insertsBounded (lowered : String) : Prop :=
  ¬isSequence lowered ∧ ¬(lowered = "row_number" ∨ lowered = "changed_cols" ∨
    lowered = "last_hit_count" ∨ lowered = "last_hit_time")

section
variable [Float64 F]

def CountedSites (env : Env F) (stmt : SelectStmt F) (row : Row F) (Q : String → String → Prop) :
    Prop :=
  ∀ call ∈ stmtCalls stmt, ∀ key ∈ siteKeys env row call, isCounted key = true →
    Q (siteName call) key

/-- A record that leaves the state bounded. -/
inductive KeepsBound (env : Env F) (stmt : SelectStmt F) (row : Row F)
    (m : HashMap String (Value F)) : Prop
  /-- Only `insert_bounded` writes counted entries. -/
  | evicting : CountedSites env stmt row (fun name _ => insertsBounded name) →
      stmtFieldKeys row stmt = [] → KeepsBound env stmt row m
  /-- Only sequence functions write counted entries, and they have written all that there are. -/
  | sequences : CountedSites env stmt row (fun name _ => isSequence name) →
      stmtFieldKeys row stmt = [] → AllCounted IsCep m → KeepsBound env stmt row m
  /-- There is room for all keys. -/
  | room (keys : List String) : keys.length ≤ maxStateKeys → AllCounted (· ∈ keys) m →
      CountedSites env stmt row (fun _ key => key ∈ keys) →
      (∀ key ∈ stmtFieldKeys row stmt, key ∈ keys) → KeepsBound env stmt row m

omit [Float64 F] in
theorem callKeys_sequence {env : Env F} {name : String} {args : List (Expr F)}
    {partitionKey key : String} (hname : isSequence (toAsciiLowercase name))
    (h : key ∈ callKeys env name args partitionKey) : IsCep key := by
  unfold callKeys at h
  rcases hname with hname | hname <;>
  · simp [hname, isAccCall] at h
    subst h
    simp only [IsCep, startsWith, List.isPrefixOf_iff_prefix, String.toList_append, List.append_assoc]
    exact List.prefix_append _ _

theorem siteKeys_sequence {env : Env F} {row : Row F} {call : Expr F} {key : String}
    (hname : isSequence (siteName call)) (h : key ∈ siteKeys env row call) : IsCep key := by
  cases call with
  | call name args => exact callKeys_sequence hname h
  | «over» call partitionBy condition =>
    cases call with
    | call name args =>
      obtain ⟨partitionKey, -, h⟩ := h
      exact callKeys_sequence hname h
    | _ => exact absurd h (by simp [siteKeys])
  | _ => exact absurd h (by simp [siteKeys])

theorem statement_keepsBound {env : Env F} (hlists : ListsKeys keyOrder)
    {text : String → Expr F → String} {stmt : SelectStmt F} {names : List String}
    {hasAnalytic : Bool} {row : Row F} {s : RuleState F}
    (hstep : KeepsBound (env.analytics keyOrder) stmt row s.state) (h : Bounded s.state) :
    Bounded ((evalSelectStatelessFast (env.analytics keyOrder) text stmt names hasAnalytic
      row).go s).2.state := by
  cases hstep with
  | evicting hsites hfields =>
    refine statement_preserves (fun call hcall key hkey m value hm => ?_) (by simp [hfields]) s h
    cases hcounted : isCounted key with
    | false => exact bounded_siteInsert_of_not hcounted hm value
    | true =>
      obtain ⟨hsequence, hplain⟩ := hsites call hcall key hkey hcounted
      have hinsert : siteInsert keyOrder (siteName call) = insertBounded keyOrder :=
        (if_neg hsequence).trans (if_neg hplain)
      rw [hinsert]
      exact bounded_insertBounded hlists hm key value
  | sequences hsites hfields hcep =>
    suffices hboth : Preserves (fun m => AllCounted IsCep m ∧ Bounded m)
        (evalSelectStatelessFast (env.analytics keyOrder) text stmt names hasAnalytic row) from
      (hboth s ⟨hcep, h⟩).2
    refine statement_preserves (fun call hcall key hkey m value hm => ?_) (by simp [hfields])
    have hname := hsites call hcall key hkey
    refine ⟨allCounted_siteInsert (fun hcounted => ?_) hm.1 value, ?_⟩
    · exact siteKeys_sequence (hname hcounted) hkey
    cases hcounted : isCounted key with
    | false => exact bounded_siteInsert_of_not hcounted hm.2 value
    | true =>
      have hinsert : siteInsert keyOrder (siteName call) = insertCep keyOrder :=
        if_pos (hname hcounted)
      rw [hinsert]
      exact bounded_insertCep hlists hm.1 hm.2 key value
  | room keys hlength hkeys hsites hfields =>
    suffices hwithin : Preserves (AllCounted (· ∈ keys))
        (evalSelectStatelessFast (env.analytics keyOrder) text stmt names hasAnalytic row) from
      (HashMap.tally_le_of_within (hwithin s hkeys)).trans hlength
    refine statement_preserves (fun call hcall key hkey m value hm => ?_)
      fun key hkey m value hm => ?_
    · exact allCounted_siteInsert (hsites call hcall key hkey) hm value
    · intro k hk hcounted
      rcases (AList.mem_insert _).mp hk with rfl | hk
      · exact hfields _ hkey
      · exact hm k hk hcounted

-- ---- Runs

def stmtStep (env : Env F) (keyOrder : KeyOrder F) (text : String → Expr F → String)
    (stmt : SelectStmt F) (names : List String) (hasAnalytic : Bool) (s : RuleState F)
    (record : Int × Row F) : RuleState F :=
  ((evalSelectStatelessFast (env.at keyOrder record.1) text stmt names hasAnalytic record.2).go s).2

def stmtRun (env : Env F) (keyOrder : KeyOrder F) (text : String → Expr F → String)
    (stmt : SelectStmt F) (names : List String) (hasAnalytic : Bool)
    (records : List (Int × Row F)) : RuleState F :=
  records.foldl (stmtStep env keyOrder text stmt names hasAnalytic) RuleState.new

variable {env : Env F} {text : String → Expr F → String} {stmt : SelectStmt F}
  {names : List String} {hasAnalytic : Bool}

theorem stmtRun_snoc (records : List (Int × Row F)) (record : Int × Row F) :
    stmtRun env keyOrder text stmt names hasAnalytic (records ++ [record]) =
      stmtStep env keyOrder text stmt names hasAnalytic
        (stmtRun env keyOrder text stmt names hasAnalytic records) record :=
  List.foldl_concat _ _ _ _

omit [Float64 F] in
theorem bounded_new : Bounded (RuleState.new (F := F)).state := by
  simp [Bounded, RuleState.new, HashMap.tally]

/-- The state of a rule without a window holds at most `MAX_STATE_KEYS` counted entries, if each
record leaves it bounded. -/
theorem state_bounded (env : Env F) (hlists : ListsKeys keyOrder)
    (text : String → Expr F → String) (stmt : SelectStmt F) (names : List String)
    (hasAnalytic : Bool) (records : List (Int × Row F))
    (hsteps : ∀ before record, before ++ [record] <+: records →
      KeepsBound (env.at keyOrder record.1) stmt record.2
        (stmtRun env keyOrder text stmt names hasAnalytic before).state)
    {reached : List (Int × Row F)} (hreached : reached <+: records) :
    HashMap.tally isCounted (stmtRun env keyOrder text stmt names hasAnalytic reached).state ≤
      maxStateKeys := by
  induction reached using List.reverseRecOn with
  | nil => exact bounded_new
  | append_singleton before record ih =>
    rw [stmtRun_snoc]
    exact statement_keepsBound hlists (hsteps before record hreached)
      (ih ((List.prefix_append _ _).trans hreached))

end

-- ---- Row numbers

section
variable [Float64 F]

/-- `row_number() OVER (PARTITION BY a)` -/
def numberCall : Expr F := .over (.call "row_number" []) (some (.identifier "a")) none

/-- `SELECT row_number() OVER (PARTITION BY a) FROM demo` -/
def numberRows : SelectStmt F :=
  .plain [numberCall] "demo" none

/-- A record whose column `a` is a text of the given length. -/
def textRecord (n : Nat) : Int × Row F :=
  (0, AList.insert "a" (.string (String.ofList (List.replicate n 'x'))) ∅)

def numberKey (env : Env F) (n : Nat) : String :=
  let callId := env.toEkuiperString (.call "row_number" [])
  let partitionKey := valueToKey env (.string (String.ofList (List.replicate n 'x')))
  s!"row_number:{callId}:{partitionKey}"

variable (env : Env F) {text : String → Expr F → String} {names : List String} {hasAnalytic : Bool}

theorem numberKey_injective : Function.Injective (numberKey env) := by
  intro i j h
  have hlength := congrArg (fun key => key.toList.length) h
  simpa [numberKey, valueToKey, toString] using hlength

theorem numberKey_counted (n : Nat) : isCounted (numberKey env n) = true := by
  unfold isCounted startsWith numberKey
  simp only [String.toList_append, List.append_assoc]
  rfl

theorem rowNumber_eq (row : Row F) (values : Eval F (List (Value F)))
    (first : Except Failure (Value F)) (partitionKey : Option String) (skipUpdate : Bool) :
    evalStatefulCall env row "row_number" [] values first partitionKey skipUpdate =
      (let callId := env.toEkuiperString (.call "row_number" [])
       let key := partitionKey.getD ""
       callRowNumber s!"row_number:{callId}:{key}" skipUpdate) := by
  have hlower : toAsciiLowercase "row_number" = "row_number" := by decide
  simp [evalStatefulCall, hlower, isAccCall]

theorem numberCall_go (s : RuleState F) (hrow : s.rowValues = ∅) (n : Nat) :
    ∃ value, (evalExpr env (textRecord n).2 numberCall).go s =
      (.ok value, s.insert (numberKey env n) value) := by
  have hcolumn : column (textRecord (F := F) n).2 "a" =
      .string (String.ofList (List.replicate n 'x')) := by
    simp [column, textRecord, AList.insert, AList.lookup, EmptyCollection.emptyCollection]
  obtain ⟨state, rowValues⟩ := s
  subst hrow
  refine ⟨ofI64 (saturate (counter ⟨state, ∅⟩ (numberKey env n) + 1)), ?_⟩
  simp only [numberCall, evalExpr, cached, evalOpt, hcolumn, rowNumber_eq]
  rfl

theorem numberRows_step (s : RuleState F) (hrow : s.rowValues = ∅) (n : Nat) :
    ∃ value, stmtStep env keyOrder text numberRows names hasAnalytic s (textRecord n) =
      s.insert (numberKey (env.at keyOrder 0) n) value := by
  obtain ⟨value, hvalue⟩ := numberCall_go (env.at keyOrder 0) s hrow n
  refine ⟨value, ?_⟩
  have hmap : ∀ f, (mapMessage f (evalExpr (env.at keyOrder 0) (textRecord n).2 numberCall)).go s =
      (.ok value, s.insert (numberKey (env.at keyOrder 0) n) value) := by
    intro f
    unfold Eval.go mapMessage
    rw [hvalue]
  unfold stmtStep evalSelectStatelessFast evalSelectStatefulWithNames selectBranch
  simp only [numberRows, SelectStmt.plain, List.zipIdx_cons, List.zipIdx_nil, List.foldlM_cons,
    selectField, valueField, tryEvalNumericFast, go_bind, textRecord, numberCall] at hmap ⊢
  simp only [hmap]
  rfl

theorem numberRows_entries (n : Nat) :
    n ≤ HashMap.tally isCounted (stmtRun env keyOrder text numberRows names hasAnalytic
      ((List.range n).map textRecord)).state := by
  suffices hrun : ∀ n, (stmtRun env keyOrder text numberRows names hasAnalytic
      ((List.range n).map textRecord)).rowValues = ∅ ∧ ∀ i < n, numberKey (env.at keyOrder 0) i ∈
        (stmtRun env keyOrder text numberRows names hasAnalytic
          ((List.range n).map textRecord)).state by
    have hlength : ((List.range n).map (numberKey (env.at keyOrder 0))).length = n := by simp
    refine hlength.ge.trans (HashMap.le_tally (List.nodup_range.map (numberKey_injective _)) ?_)
    simp only [List.forall_mem_map, List.mem_range]
    exact fun i hi => ⟨(hrun n).2 i hi, numberKey_counted _ i⟩
  intro n
  induction n with
  | zero => exact ⟨rfl, by simp⟩
  | succ n ih =>
    rw [List.range_succ, List.map_append, List.map_singleton, stmtRun_snoc]
    obtain ⟨value, hvalue⟩ := numberRows_step env _ ih.1 n
    rw [hvalue]
    refine ⟨ih.1, fun i hi => (AList.mem_insert _).mpr ?_⟩
    rcases Nat.lt_succ_iff_lt_or_eq.mp hi with hlt | rfl
    · exact .inr (ih.2 i hlt)
    · exact .inl rfl

end

/-- 10001 partitions of a row number leave 10001 entries. -/
theorem row_numbers_exceed_bound :
    maxStateKeys < HashMap.tally isCounted (stmtRun numbersEnv AList.keys (fun _ _ => "")
      numberRows [] false ((List.range 10001).map textRecord)).state :=
  numberRows_entries numbersEnv 10001

/-- `SELECT lag(a) FROM demo` -/
def lagRows : SelectStmt ℚ := .plain [plainCall "lag"] "demo" none

theorem lagRows_keepsBound (env : Env ℚ) (row : Row ℚ) (m : HashMap String (Value ℚ)) :
    KeepsBound env lagRows row m := by
  refine .evicting (fun call hcall _ _ _ => ?_) rfl
  obtain rfl : call = plainCall "lag" := by
    have hlower : toAsciiLowercase "lag" = "lag" := by decide
    simpa [stmtCalls, stmtExprs, lagRows, SelectStmt.plain, branches, optBranches, evaluatedExprs,
      plainCall, stateCalls, argStateCalls, collectAnalyticExprs, collectArgs, isAnalyticExpr,
      hlower] using hcall
  exact ⟨by decide, by decide⟩

theorem state_bounded_lag :
    HashMap.tally isCounted (stmtRun numbersEnv AList.keys (fun _ _ => "") lagRows [] true
      [twoRecord, twoRecord]).state ≤ maxStateKeys :=
  state_bounded numbersEnv listsKeys_keys _ _ _ _ [twoRecord, twoRecord]
    (fun _ _ _ => lagRows_keepsBound _ _ _) (List.prefix_refl _)

end Rekuiper.Sql
