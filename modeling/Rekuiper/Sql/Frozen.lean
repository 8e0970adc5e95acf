import Rekuiper.Sql.CallRuns
import Rekuiper.Sql.Independence
import Rekuiper.Sql.StateWrites

/-!
# `OVER (WHEN condition)`

A call under `OVER` does not update the state on a row on which the condition of its `WHEN` does not
hold. The accumulators, `lag`, the sequence functions and `row_number` keep to this. `had_changed`,
`changed_col`, `changed_cols` and the `last_hit` functions are not told, and write as ever.
-/

namespace Rekuiper.Sql

open Lib

variable {F : Type} {α : Type}

def Leaves (x : Eval F α) (s : RuleState F) : Prop := ∀ key, look (x.go s).2 key = look s key

section
variable [Float64 F]

-- ---- Operands

/-- What a call under `OVER` gets: the partition key, whether it skips its update, and the
values of the arguments, if it evaluates them. -/
def overOperands (env : Env F) (row : Row F) (name : String) (args : List (Expr F))
    (partitionBy condition : Option (Expr F)) : Eval F (String × Bool × List (Value F)) := do
  let partition ← evalOpt env row partitionBy
  let met ← evalOpt env row condition
  let values ← if argsEvaluated (toAsciiLowercase name) then evalArgs env row args else pure []
  pure ((partition.map (valueToKey env)).getD "",
    (met.map fun v => !(v.asBool.getD false)).getD false, values)

theorem evalStatefulCall_not_evaluated (env : Env F) (row : Row F) {name : String}
    (h : argsEvaluated (toAsciiLowercase name) = false) (args : List (Expr F))
    (values values' : Eval F (List (Value F))) (first : Except Failure (Value F))
    (partitionKey : Option String) (skipUpdate : Bool) :
    evalStatefulCall env row name args values first partitionKey skipUpdate =
      evalStatefulCall env row name args values' first partitionKey skipUpdate := by
  unfold evalStatefulCall
  generalize toAsciiLowercase name = lowered at *
  simp only
  split
  · next hfirst => simp [argsEvaluated_analytic hfirst] at h
  split
  · next hsequence => rcases hsequence with rfl | rfl <;> exact absurd h (by decide)
  split
  · next hcols => exact absurd (hcols.1 ▸ h) (by decide)
  split
  · rfl
  next hrow =>
  split
  · rfl
  next hcount =>
  split
  · rfl
  next htime =>
  split
  · rfl
  next hid =>
  split
  · rfl
  next hstart =>
  cases hcontext : evalContextCall env lowered args first row with
  | some result => rfl
  | none =>
    simp only
    split
    · rfl
    · next haggregate =>
      simp [argsEvaluated_other hcontext haggregate hrow hcount htime hid hstart] at h

omit [Float64 F] in
theorem evalContextCall_none {env : Env F} {row : Row F} {args : List (Expr F)}
    {first : Except Failure (Value F)} {lowered : String} (hmeta : lowered ≠ "meta")
    (hmqtt : lowered ≠ "mqtt") (htime : lowered ≠ "event_time") (hstart : lowered ≠ "window_start")
    (hend : lowered ≠ "window_end") : evalContextCall env lowered args first row = none := by
  simp [evalContextCall, hmeta, hmqtt, htime, hstart, hend]

theorem evalStatefulCall_values (env : Env F) (row : Row F) (name : String) (args : List (Expr F))
    (values : Eval F (List (Value F))) (first : Except Failure (Value F))
    (partitionKey : Option String) (skipUpdate : Bool) :
    evalStatefulCall env row name args values first partitionKey skipUpdate =
      (if argsEvaluated (toAsciiLowercase name) then values else pure []) >>= fun vs =>
        evalStatefulCall env row name args (pure vs) first partitionKey skipUpdate := by
  cases h : argsEvaluated (toAsciiLowercase name) with
  | false =>
    rw [evalStatefulCall_not_evaluated env row h args values (pure [])]
    exact (pure_bind _ _).symm
  | true =>
    rw [if_pos rfl]
    unfold evalStatefulCall
    generalize toAsciiLowercase name = lowered at *
    simp only [pure_bind]
    split
    · rfl
    split
    · rfl
    split
    · rfl
    have hne : ∀ other, argsEvaluated other = false → lowered ≠ other := by
      rintro other hother rfl
      simp [h] at hother
    rw [evalContextCall_none (hne _ (by decide)) (hne _ (by decide)) (hne _ (by decide))
      (hne _ (by decide)) (hne _ (by decide))]
    have haggregate : ["count", "sum", "avg", "min", "max"].contains lowered = false := by
      simp [hne _ (by decide : argsEvaluated "count" = false),
        hne _ (by decide : argsEvaluated "sum" = false),
        hne _ (by decide : argsEvaluated "avg" = false),
        hne _ (by decide : argsEvaluated "min" = false),
        hne _ (by decide : argsEvaluated "max" = false)]
    simp only [hne _ (by decide : argsEvaluated "row_number" = false),
      hne _ (by decide : argsEvaluated "last_hit_count" = false),
      hne _ (by decide : argsEvaluated "last_hit_time" = false),
      hne _ (by decide : argsEvaluated "rule_id" = false),
      hne _ (by decide : argsEvaluated "rule_start" = false), haggregate, if_false,
      Bool.false_eq_true]

theorem evalExpr_over (env : Env F) (row : Row F) (name : String) (args : List (Expr F))
    (partitionBy condition : Option (Expr F)) :
    evalExpr env row (.over (.call name args) partitionBy condition) =
      cached env (.over (.call name args) partitionBy condition)
        (overOperands env row name args partitionBy condition >>= fun operands =>
          evalStatefulCall env row name args (pure operands.2.2) (evalFirst env row args)
            (some operands.1) operands.2.1) := by
  rw [evalExpr]
  refine congrArg _ ?_
  simp only [overOperands, bind_assoc, pure_bind]
  refine bind_congr fun partition => bind_congr fun met => ?_
  rw [evalStatefulCall_values]
  split <;> simp only [bind_assoc, pure_bind]

-- ---- What is written all the same

/-- A column of `had_changed` and `changed_col` stores its value if it has changed. -/
def storeChanged (current : Value F) (previous : Option (Value F)) : Option (Value F) :=
  if current.isNull || previous.any fun p => valuesEqual p current then none else some current

/-- A column of `changed_cols` stores its value if it has changed. -/
def storeColumn (ignoreNull : Bool) (current : Value F) (previous : Option (Value F)) :
    Option (Value F) :=
  if ignoreNull && current.isNull then none
  else if hasChanged previous current then some current else none

def unskipped (env : Env F) (row : Row F) (name : String) (args : List (Expr F))
    (partitionKey : String) (values : List (Value F)) :
    List (String × (Option (Value F) → Option (Value F))) :=
  let lowered := toAsciiLowercase name
  let callId := env.toEkuiperString (.call name args)
  if lowered = "had_changed" ∨ lowered = "changed_col" then
    (changedArgs values).zipIdx.map fun col =>
      (s!"{lowered}:{callId}:{col.2}:{partitionKey}", storeChanged col.1)
  else if lowered = "changed_cols" ∧ 2 ≤ args.length then
    ((args.drop 2).zipIdx.zip (values.drop 2)).map fun col =>
      (columnKey callId partitionKey col.1,
        storeColumn ((values[1]?.bind Value.asBool).getD false) col.2)
  else if lowered = "last_hit_count" then
    [(s!"$$last_hit_count:{callId}:{partitionKey}", fun previous =>
      some (ofI64 (saturate ((previous.bind Value.asI64).getD 0 + 1))))]
  else if lowered = "last_hit_time" then
    [(s!"$$last_hit_time:{callId}:{partitionKey}", fun _ =>
      some (ofI64 ((resolveEventTime env row).asI64.getD 0)))]
  else []

omit [Float64 F] in
theorem updateEntry_snd
    (insert : HashMap String (Value F) → String → Value F → HashMap String (Value F))
    (key : String) (f : Update F) (m : HashMap String (Value F)) :
    (updateEntry insert key f m).2 = HashMap.update insert m (key, fun stored => (f stored).2) := by
  unfold updateEntry HashMap.update
  rcases h : f (m.lookup key) with ⟨result, _ | value⟩ <;> simp [h]

theorem storeChanged_eq (current : Value F) :
    storeChanged current = fun stored => (updateChanged current stored).2 := by
  funext stored
  unfold storeChanged updateChanged
  split <;> rfl

theorem changedValues_updates (keyOrder : KeyOrder F) (lowered callId partitionKey : String)
    (cols : List (Value F × Nat)) (m : HashMap String (Value F)) :
    (changedValues keyOrder lowered callId partitionKey cols m).2 =
      (cols.map fun col => (s!"{lowered}:{callId}:{col.2}:{partitionKey}",
        storeChanged col.1)).foldl (HashMap.update (insertBounded keyOrder)) m := by
  induction cols generalizing m with
  | nil => rfl
  | cons col cols ih =>
    obtain ⟨current, idx⟩ := col
    rw [List.map_cons, List.foldl_cons, ← ih, storeChanged_eq, ← updateEntry_snd]
    rfl

theorem changedCols_updates (callId partitionKey lead : String) (ignoreNull : Bool) (idx : Nat)
    (args : List (Expr F)) (values : List (Value F)) (result : List (String × Value F))
    (s : RuleState F) :
    ((changedCols callId partitionKey lead ignoreNull idx args values result).go s).2.state =
      (((args.zipIdx idx).zip values).map fun col => (columnKey callId partitionKey col.1,
        storeColumn ignoreNull col.2)).foldl
          (HashMap.update fun m key value => m.insert key value) s.state := by
  induction args generalizing idx values result s with
  | nil => 
    rw [changedCols]
    · rfl
    · simp
  | cons arg args ih =>
    cases values with
    | nil =>
      rw [changedCols]
      · rfl
      · simp
    | cons value values =>
      rw [changedCols_cons, List.zipIdx_cons, List.zip_cons_cons, List.map_cons, List.foldl_cons]
      cases hskip : ignoreNull && value.isNull with
      | true =>
        have hnone : HashMap.update (fun m key value => m.insert key value) s.state
            (columnKey callId partitionKey (arg, idx), storeColumn ignoreNull value) = s.state := by
          simp [HashMap.update, storeColumn, hskip]
        rw [hnone]
        exact ih ..
      | false =>
        rw [if_neg Bool.false_ne_true, go_onEntry_bind]
        unfold HashMap.update storeColumn columnKey
        simp only [hskip, Bool.false_eq_true, if_false]
        cases hchanged : hasChanged (look s (columnKey callId partitionKey (arg, idx))) value with
        | true =>
          unfold look columnKey at hchanged
          simp only [look, hchanged, if_true]
          exact ih ..
        | false =>
          unfold look columnKey at hchanged
          simp only [look, hchanged, Bool.false_eq_true, if_false]
          exact ih ..

omit [Float64 F] in
theorem onState_state (x : StateM (HashMap String (Value F)) α) (s : RuleState F) :
    ((onState x).go s).2.state = (x s.state).2 := rfl

omit [Float64 F] in
theorem updateEntry_skipped
    {insert : HashMap String (Value F) → String → Value F → HashMap String (Value F)}
    {key : String} {f : Update F} (h : ∀ stored, (f stored).2 = none)
    (m : HashMap String (Value F)) : (updateEntry insert key f m).2 = m := by
  rw [updateEntry_snd]
  simp [HashMap.update, h]

theorem evalLag_skipped (env : Env F) (args : List (Value F)) (stored : Option (Value F)) :
    (evalLag env args true stored).2 = none := by
  unfold evalLag
  split
  · rfl
  split
  · rfl
  simp only
  split <;> rfl

theorem evalSequenceCep_skipped (env : Env F) (lowered : String) (args : List (Value F))
    (eventTs : Int) (stored : Option (Value F)) :
    (evalSequenceCep env lowered args eventTs true stored).2 = none := by
  unfold evalSequenceCep
  simp only
  split <;> rfl

theorem evalAnalytic_skipped (env : Env F) (keyOrder : KeyOrder F) {name : String}
    (h : ¬(name = "had_changed" ∨ name = "changed_col")) (args : List (Value F))
    (callId partitionKey : String) (eventTime : Option Int) (m : HashMap String (Value F)) :
    (evalAnalytic env keyOrder ⟨name, args, callId, partitionKey, true, eventTime⟩ m).2 = m := by
  unfold evalAnalytic
  simp only
  split
  · exact updateEntry_skipped (fun _ => rfl) m
  split
  · exact updateEntry_skipped (evalLag_skipped env args) m
  · exact updateEntry_skipped (evalSequenceCep_skipped env name args _) m

theorem evalChanged_updates (keyOrder : KeyOrder F) (lowered : String) (args : List (Value F))
    (callId partitionKey : String) (m : HashMap String (Value F)) :
    (evalChanged keyOrder lowered args callId partitionKey m).2 =
      ((changedArgs args).zipIdx.map fun col => (s!"{lowered}:{callId}:{col.2}:{partitionKey}",
        storeChanged col.1)).foldl (HashMap.update (insertBounded keyOrder)) m := by
  rw [← changedValues_updates]
  unfold evalChanged
  split
  · next h =>
    obtain rfl := List.isEmpty_iff.mp h
    rfl
  · rfl

theorem callChangedCols_state (callId partitionKey : String) (args : List (Expr F))
    (values : List (Value F)) (s : RuleState F) :
    ((callChangedCols callId partitionKey args values).go s).2.state =
      ((changedCols callId partitionKey ((values[0]?.bind Value.asStr).getD "")
        ((values[1]?.bind Value.asBool).getD false) 0 (args.drop 2) (values.drop 2) []).go
          s).2.state := by
  unfold callChangedCols
  rw [go_bind]
  split
  · next h => exact congrArg _ (congrArg Prod.snd h).symm
  · next h => exact congrArg _ (congrArg Prod.snd h).symm

theorem skippedCall_state (env : Env F) (keyOrder : KeyOrder F) (row : Row F) (name : String)
    (args : List (Expr F)) (values : List (Value F)) (first : Except Failure (Value F))
    (partitionKey : String) (s : RuleState F) :
    ((evalStatefulCall (env.analytics keyOrder) row name args (pure values) first
      (some partitionKey) true).go s).2.state =
        (unskipped (env.analytics keyOrder) row name args partitionKey values).foldl
          (HashMap.update (siteInsert keyOrder (toAsciiLowercase name))) s.state := by
  unfold evalStatefulCall unskipped
  generalize toAsciiLowercase name = lowered at *
  simp only [pure_bind, Option.getD_some, callAnalytic_eq]
  split
  · next h =>
    by_cases hchanged : lowered = "had_changed" ∨ lowered = "changed_col"
    · rw [if_pos hchanged, siteInsert_changed hchanged, ← evalChanged_updates]
      have hanalytic : ¬isAccCall lowered = true ∧ ¬lowered = "lag" := by
        rcases hchanged with rfl | rfl <;> decide
      rw [onState_state]
      unfold evalAnalytic
      simp only [hanalytic.1, hanalytic.2, hchanged, if_true, if_false, Bool.false_eq_true]
    · have hother : lowered ≠ "changed_cols" ∧ lowered ≠ "last_hit_count" ∧
          lowered ≠ "last_hit_time" := by
        refine ⟨?_, ?_, ?_⟩ <;>
        · rintro rfl
          exact absurd h (by decide)
      simp only [hchanged, hother, false_and, if_false, List.foldl_nil]
      exact evalAnalytic_skipped env keyOrder hchanged values _ _ _ _
  next hfirst =>
  simp only [not_or] at hfirst
  split
  · next h =>
    have hchanged : ¬(lowered = "had_changed" ∨ lowered = "changed_col") := by
      simp [hfirst]
    have hother : lowered ≠ "changed_cols" ∧ lowered ≠ "last_hit_count" ∧
        lowered ≠ "last_hit_time" := by
      rcases h with rfl | rfl <;> decide
    simp only [hchanged, hother, false_and, if_false, List.foldl_nil]
    exact evalAnalytic_skipped env keyOrder hchanged values _ _ _ _
  next hsequence =>
  simp only [hfirst, or_self, if_false]
  split
  · next h =>
    rw [siteInsert_plain (by simp [h.1])]
    exact (callChangedCols_state _ _ _ _ s).trans (changedCols_updates ..)
  split
  · next h =>
    subst h
    split
    · rfl
    · rfl
  split
  · next h =>
    rw [siteInsert_plain (by simp [h])]
    rfl
  split
  · next h =>
    rw [siteInsert_plain (by simp [h])]
    rfl
  split
  · exact congrArg _ (callRuleId_keeps row s)
  split
  · exact congrArg _ (callRuleStart_keeps _ row s)
  split
  · exact congrArg _ (Keeps.lift _ s)
  split
  · exact congrArg _ (Keeps.lift _ s)
  · exact congrArg _ (Keeps.lift _ s)

-- ---- Calls that happen to write nothing new

/-- A column for which `had_changed` and `changed_col` store nothing, or what there is. -/
def IsKnown (current : Value F) (stored : Option (Value F)) : Prop :=
  current.isNull = true ∨ (stored.any fun p => valuesEqual p current) = true ∨
    stored = some current

/-- A column for which `changed_cols` stores nothing, or what there is. -/
def IsKnownColumn (ignoreNull : Bool) (current : Value F) (stored : Option (Value F)) : Prop :=
  (ignoreNull && current.isNull) = true ∨ hasChanged stored current = false ∨ stored = some current

/-- A call with the given partition key and arguments changes no entry of a state, although it may
not have been told to skip its update. -/
def Quiet (env : Env F) (row : Row F) (name : String) (args : List (Expr F)) (s : RuleState F)
    (partitionKey : String) (values : List (Value F)) : Prop :=
  let lowered := toAsciiLowercase name
  let callId := env.toEkuiperString (.call name args)
  if lowered = "had_changed" ∨ lowered = "changed_col" then
    ∀ col ∈ (changedArgs values).zipIdx,
      IsKnown col.1 (look s s!"{lowered}:{callId}:{col.2}:{partitionKey}")
  else if lowered = "changed_cols" ∧ 2 ≤ args.length then
    ∀ col ∈ (args.drop 2).zipIdx.zip (values.drop 2),
      IsKnownColumn ((values[1]?.bind Value.asBool).getD false) col.2
        (look s (columnKey callId partitionKey col.1))
  else if lowered = "last_hit_count" then
    look s s!"$$last_hit_count:{callId}:{partitionKey}" = some (ofI64 maxI64)
  else if lowered = "last_hit_time" then
    look s s!"$$last_hit_time:{callId}:{partitionKey}" =
      some (ofI64 ((resolveEventTime env row).asI64.getD 0))
  else True

theorem idle_storeChanged {m : HashMap String (Value F)} {key : String} {current : Value F} :
    HashMap.Idle m (key, storeChanged current) ↔ IsKnown current (m.lookup key) := by
  unfold HashMap.Idle IsKnown storeChanged
  generalize m.lookup key = stored
  simp only [Bool.or_eq_true]
  split
  · next h => simpa using h.imp_right .inl
  · next h =>
    rw [not_or] at h
    simp [h, eq_comm]

theorem idle_storeColumn {m : HashMap String (Value F)} {key : String} {ignoreNull : Bool}
    {current : Value F} : HashMap.Idle m (key, storeColumn ignoreNull current) ↔
      IsKnownColumn ignoreNull current (m.lookup key) := by
  unfold HashMap.Idle IsKnownColumn storeColumn
  generalize m.lookup key = stored
  simp only
  split
  · next h => simp [h]
  split
  · next h hchanged => simp [h, hchanged, eq_comm]
  · next h hchanged => simp [h, hchanged]

omit [Float64 F] in
theorem counter_fixed (stored : Option (Value F)) :
    some (ofI64 (saturate ((stored.bind Value.asI64).getD 0 + 1))) = stored ↔
      stored = some (ofI64 maxI64) := by
  constructor
  · intro h
    generalize hn : saturate ((stored.bind Value.asI64).getD 0 + 1) = n at h
    subst h
    have hle : n ≤ maxI64 := hn ▸ max_le (by decide) (min_le_left _ _)
    have hasI64 : (ofI64 n : Value F).asI64 = some n := by
      simp [ofI64, Value.asI64, Number.asI64, hle]
    rw [Option.bind_some, hasI64, Option.getD_some] at hn
    have hmax : n = maxI64 := by
      unfold saturate minI64 maxI64 at *
      omega
    rw [hmax]
  · rintro rfl
    rfl

theorem quiet_iff (env : Env F) (row : Row F) (name : String) (args : List (Expr F))
    (s : RuleState F) (partitionKey : String) (values : List (Value F)) :
    Quiet env row name args s partitionKey values ↔
      ∀ w ∈ unskipped env row name args partitionKey values, HashMap.Idle s.state w := by
  unfold Quiet unskipped
  simp only
  split
  · simp only [List.forall_mem_map, idle_storeChanged]
    rfl
  split
  · simp only [List.forall_mem_map, idle_storeColumn]
    rfl
  split
  · rw [List.forall_mem_singleton]
    exact (counter_fixed _).symm.trans (or_iff_right (Option.some_ne_none _)).symm
  split
  · rw [List.forall_mem_singleton]
    exact eq_comm.trans (or_iff_right (Option.some_ne_none _)).symm
  · simp

omit [Float64 F] in
theorem siteInsert_same (keyOrder : KeyOrder F) (lowered : String) (m : HashMap String (Value F))
    (key : String) (value : Value F) (h : m.lookup key = some value) (k : String) :
    (siteInsert keyOrder lowered m key value).lookup k = m.lookup k := by
  have hmem : key ∈ m := AList.lookup_isSome.mp (by simp [h])
  have hinsert : siteInsert keyOrder lowered m key value = m.insert key value := by
    rcases siteInsert_cases keyOrder lowered with hplain | ⟨evictable, hevicting⟩
    · rw [hplain]
    · rw [hevicting]
      exact if_neg fun hnew => hnew.1 hmem
  rw [hinsert]
  rcases eq_or_ne k key with rfl | hne
  · rw [AList.lookup_insert, h]
  · exact AList.lookup_insert_ne hne

omit [Float64 F] in
theorem siteInsert_room (keyOrder : KeyOrder F) (lowered : String) {m : HashMap String (Value F)}
    (h : m.entries.length < maxStateKeys) (key : String) (value : Value F) :
    siteInsert keyOrder lowered m key value = m.insert key value := by
  unfold siteInsert
  split
  · exact if_neg fun hfull => absurd hfull.2 (not_le.mpr h)
  split
  · rfl
  · exact if_neg fun hfull => absurd hfull.2 (not_le.mpr h)

theorem unskipped_keys (env : Env F) (row : Row F) (name : String) (args : List (Expr F))
    (partitionKey : String) {values : List (Value F)}
    (hlength : argsEvaluated (toAsciiLowercase name) = true → values.length = args.length) :
    ((unskipped env row name args partitionKey values).map Prod.fst).Sublist
      (callKeys env name args partitionKey) := by
  unfold unskipped callKeys
  generalize toAsciiLowercase name = lowered at *
  simp only
  split
  · next h =>
    have hother : ¬isAccCall lowered = true ∧ ¬lowered = "lag" := by
      rcases h with rfl | rfl <;> decide
    rw [if_neg hother.1, if_neg hother.2, List.map_map]
    have hidx : (changedArgs values).zipIdx.map Prod.snd = List.range (changedArgs values).length := by
      rw [List.zipIdx_map_snd, List.range_eq_range']
    change List.Sublist ((changedArgs values).zipIdx.map
      ((fun idx => s!"{lowered}:{env.toEkuiperString (.call name args)}:{idx}:{partitionKey}") ∘
        Prod.snd)) _
    rw [← List.map_map, hidx]
    have hvalues := hlength (by rcases h with rfl | rfl <;> decide)
    refine (List.range_sublist.mpr ?_).map _
    exact (changedArgs_length values).trans hvalues.le
  split
  · next h =>
    have hother : ¬isAccCall lowered = true ∧ ¬lowered = "lag" ∧
        ¬(lowered = "sequence_match" ∨ lowered = "sequence_count") := by
      rw [h.1]
      decide
    have hvalues := hlength (by rw [h.1]; decide)
    rw [if_neg hother.1, if_neg hother.2.1, if_neg hother.2.2, List.map_map]
    change List.Sublist (((args.drop 2).zipIdx.zip (values.drop 2)).map
      (columnKey (env.toEkuiperString (.call name args)) partitionKey ∘ Prod.fst)) _
    rw [← List.map_map, List.map_fst_zip (by simp [hvalues])]
    exact List.Sublist.refl _
  split
  · next h =>
    subst h
    simp [isAccCall]
  split
  · next h =>
    subst h
    simp [isAccCall]
  · exact List.nil_sublist _

theorem unskipped_length (env : Env F) (row : Row F) (name : String) (args : List (Expr F))
    (partitionKey : String) {values : List (Value F)} (hlength : values.length ≤ args.length) :
    (unskipped env row name args partitionKey values).length ≤ args.length + 1 := by
  have hchanged := changedArgs_length values
  unfold unskipped
  simp only
  split
  · simp
    omega
  split
  · simp
    omega
  split
  · simp
  split
  · simp
  · simp

-- ---- Calls under `OVER`

variable {env : Env F} {keyOrder : KeyOrder F} {row : Row F} {name : String} {args : List (Expr F)}
  {partitionKey : String} {values : List (Value F)} {s : RuleState F}

theorem quiet_congr {t : RuleState F} (h : ∀ key, look t key = look s key) :
    Quiet env row name args t partitionKey values ↔ Quiet env row name args s partitionKey values := by
  unfold Quiet
  simp only [h]

theorem skippedCall_leaves (first : Except Failure (Value F))
    (h : Quiet (env.analytics keyOrder) row name args s partitionKey values) :
    Leaves (evalStatefulCall (env.analytics keyOrder) row name args (pure values) first
      (some partitionKey) true) s := by
  intro key
  unfold look
  rw [skippedCall_state]
  exact HashMap.lookup_updates_idle (siteInsert_same keyOrder _) ((quiet_iff ..).mp h) key

theorem quiet_of_leaves (first : Except Failure (Value F))
    (hlength : values.length ≤ args.length)
    (hevaluated : argsEvaluated (toAsciiLowercase name) = true → values.length = args.length)
    (hroom : s.state.entries.length + args.length < maxStateKeys)
    (hnodup : (callKeys (env.analytics keyOrder) name args partitionKey).Nodup)
    (h : Leaves (evalStatefulCall (env.analytics keyOrder) row name args (pure values) first
      (some partitionKey) true) s) :
    Quiet (env.analytics keyOrder) row name args s partitionKey values := by
  rw [quiet_iff]
  have hkeys := unskipped_keys (env.analytics keyOrder) row name args partitionKey hevaluated
  have hwrites := unskipped_length (env.analytics keyOrder) row name args partitionKey hlength
  refine HashMap.idle_of_lookup_updates (hnodup.sublist hkeys)
    (fun m hm => siteInsert_room keyOrder (toAsciiLowercase name) (by omega)) fun key => ?_
  have hkey := h key
  unfold look at hkey
  rwa [skippedCall_state] at hkey

def WhenHolds (env : Env F) (row : Row F) (partitionBy : Option (Expr F)) (condition : Expr F)
    (s : RuleState F) : Prop :=
  ((do
    let _ ← evalOpt env row partitionBy
    evalExpr env row condition).go s).1 = .ok (.bool true)

theorem overOperands_ok {partitionBy : Option (Expr F)} {condition : Expr F} {skipUpdate : Bool}
    (hnot : ¬WhenHolds env row partitionBy condition s)
    (h : ((overOperands env row name args partitionBy (some condition)).go s).1 =
      .ok (partitionKey, skipUpdate, values)) :
    skipUpdate = true ∧ values.length ≤ args.length ∧
      (argsEvaluated (toAsciiLowercase name) = true → values.length = args.length) := by
  unfold WhenHolds at hnot
  unfold overOperands at h
  rw [go_bind] at h hnot
  rcases hpartition : (evalOpt env row partitionBy).go s with ⟨_ | partition, s₁⟩
  · rw [hpartition] at h
    cases h
  rw [hpartition] at h hnot
  unfold evalOpt at h
  simp only [bind_assoc, pure_bind] at h
  rw [go_bind] at h
  rcases hmet : (evalExpr env row condition).go s₁ with ⟨_ | met, s₂⟩
  · rw [hmet] at h
    cases h
  simp only [hmet] at h hnot
  have hskip : met.asBool.getD false = false := by
    cases met with
    | bool b =>
      cases b with
      | true => exact absurd rfl hnot
      | false => rfl
    | _ => rfl
  split at h
  · next hevaluated =>
    rw [go_bind] at h
    rcases hvalues : (evalArgs env row args).go s₂ with ⟨_ | vs, s₃⟩
    · rw [hvalues] at h
      cases h
    rw [hvalues] at h
    cases h
    have hlength := evalArgs_length (congrArg Prod.fst hvalues)
    exact ⟨by simp [hskip], hlength.le, fun _ => hlength⟩
  · next hnotEvaluated =>
    cases h
    exact ⟨by simp [hskip], Nat.zero_le _, fun h => absurd h hnotEvaluated⟩

/-- The call takes its value on the row from before, or its operands leave the state as it is and
the call itself has nothing new to write. -/
def StaysFrozen (env : Env F) (row : Row F) (name : String) (args : List (Expr F))
    (partitionBy : Option (Expr F)) (condition : Expr F) (s : RuleState F) : Prop :=
  let e := Expr.over (.call name args) partitionBy (some condition)
  let operands := overOperands env row name args partitionBy (some condition)
  (isAnalyticExpr e = true ∧ (s.rowValues.lookup (env.debugText e)).isSome = true) ∨
    (Leaves operands s ∧ ∀ partitionKey skipUpdate values,
      (operands.go s).1 = .ok (partitionKey, skipUpdate, values) →
        Quiet env row name args s partitionKey values)

omit [Float64 F] in
theorem cached_go (env : Env F) (e : Expr F) (x : Eval F (Value F)) (s : RuleState F) :
    ((isAnalyticExpr e = true ∧ (s.rowValues.lookup (env.debugText e)).isSome = true) ∧
        ((cached env e x).go s).2 = s) ∨
      (¬(isAnalyticExpr e = true ∧ (s.rowValues.lookup (env.debugText e)).isSome = true) ∧
        (cached env e x).go s = x.go s) := by
  unfold cached
  rw [go_bind]
  change (_ ∧ (Eval.go (if isAnalyticExpr e then _ else _) s).2 = s) ∨
    (_ ∧ Eval.go (if isAnalyticExpr e then _ else _) s = _)
  split
  · next h =>
    cases hvalue : s.rowValues.lookup (env.debugText e) with
    | some value => exact .inl ⟨by simp [h], rfl⟩
    | none => exact .inr ⟨by simp, rfl⟩
  · next h => exact .inr ⟨by simp [h], rfl⟩

/-- When a call under `OVER` leaves the rule's state as it is on a row on which its `WHEN` does not
hold. The converse is for operands that leave it as it is themselves, where nothing has to be
evicted and the columns of the call have different keys. -/
theorem over_when_leaves_state (env : Env F) (keyOrder : KeyOrder F) (row : Row F) (name : String)
    (args : List (Expr F)) (partitionBy : Option (Expr F)) (condition : Expr F) (s : RuleState F)
    (hnot : ¬WhenHolds (env.analytics keyOrder) row partitionBy condition s) :
    (StaysFrozen (env.analytics keyOrder) row name args partitionBy condition s →
      Leaves (evalExpr (env.analytics keyOrder) row
        (.over (.call name args) partitionBy (some condition))) s) ∧
    (Leaves (overOperands (env.analytics keyOrder) row name args partitionBy (some condition)) s →
      s.state.entries.length + args.length < maxStateKeys →
      (∀ partitionKey, (callKeys (env.analytics keyOrder) name args partitionKey).Nodup) →
      Leaves (evalExpr (env.analytics keyOrder) row
        (.over (.call name args) partitionBy (some condition))) s →
      StaysFrozen (env.analytics keyOrder) row name args partitionBy condition s) := by
  rw [evalExpr_over]
  unfold StaysFrozen Leaves
  simp only
  rcases cached_go (env.analytics keyOrder) (.over (.call name args) partitionBy (some condition))
    (overOperands (env.analytics keyOrder) row name args partitionBy (some condition) >>=
      fun operands => evalStatefulCall (env.analytics keyOrder) row name args (pure operands.2.2)
        (evalFirst (env.analytics keyOrder) row args) (some operands.1) operands.2.1) s with
    ⟨hcached, hgo⟩ | ⟨hcached, hgo⟩
  · rw [hgo]
    exact ⟨fun _ _ => rfl, fun _ _ _ _ => .inl hcached⟩
  rw [hgo, go_bind, or_iff_right hcached]
  rcases hoperands : (overOperands (env.analytics keyOrder) row name args partitionBy
    (some condition)).go s with ⟨e | ⟨partitionKey, skipUpdate, values⟩, s₁⟩
  · exact ⟨fun h => h.1, fun _ _ _ h => ⟨h, fun _ _ _ h => by cases h⟩⟩
  obtain ⟨hskip, hlength, hevaluated⟩ := overOperands_ok hnot (congrArg Prod.fst hoperands)
  subst hskip
  simp only [Except.ok.injEq, Prod.mk.injEq, and_imp]
  refine ⟨fun hsame hquiet key => ?_, fun hsame hroom hnodup h => ⟨hsame, ?_⟩⟩
  · refine Eq.trans ?_ (hsame key)
    exact skippedCall_leaves _ ((quiet_congr hsame).mpr (hquiet _ _ _ rfl rfl rfl)) key
  · rintro _ _ _ rfl - rfl
    have hroom₁ := HashMap.length_le_of_lookup hsame
    have hleaves : Leaves (evalStatefulCall (env.analytics keyOrder) row name args (pure values)
        (evalFirst (env.analytics keyOrder) row args) (some partitionKey) true) s₁ := fun key =>
      (h key).trans (hsame key).symm
    exact (quiet_congr hsame).mp
      (quiet_of_leaves _ hlength hevaluated (by omega) (hnodup _) hleaves)

theorem not_whenHolds_false (env : Env F) (row : Row F) (s : RuleState F) :
    ¬WhenHolds env row none (.literal (.bool false)) s := by
  intro h
  have hvalue : (Except.ok (.bool false) : Except Failure (Value F)) = .ok (.bool true) := h
  cases hvalue

end

/-- `name(args) OVER (WHEN false)` -/
def overNever (name : String) (args : List (Expr ℚ)) : Expr ℚ :=
  .over (.call name args) none (some (.literal (.bool false)))

theorem over_when_leaves_state_count :
    Leaves (evalAt numbersEnv AList.keys (overNever "acc_count" [.identifier "a"]) twoRecord)
      RuleState.new := by
  refine (over_when_leaves_state numbersEnv AList.keys twoRecord.2 "acc_count" [.identifier "a"]
    none (.literal (.bool false)) RuleState.new (not_whenHolds_false _ _ _)).1
      (.inr ⟨fun _ => rfl, fun _ _ _ _ => ?_⟩)
  have hlower : toAsciiLowercase "acc_count" = "acc_count" := by decide
  simp [Quiet, hlower]

/-- A column of `had_changed` is stored all the same. -/
theorem had_changed_not_frozen :
    ¬WhenHolds (numbersEnv.at AList.keys 0) twoRecord.2 none (.literal (.bool false))
        RuleState.new ∧
      ¬Leaves (evalAt numbersEnv AList.keys
        (overNever "had_changed" [.literal (.bool true), .identifier "a"]) twoRecord)
          RuleState.new := by
  refine ⟨not_whenHolds_false _ _ _, fun h => ?_⟩
  have hkey := h "had_changed:Call:\x7b name:had_changed, args:[true, a] \x7d:0:"
  have hstored : (look ((evalAt numbersEnv AList.keys
      (overNever "had_changed" [.literal (.bool true), .identifier "a"]) twoRecord).go
        RuleState.new).2 "had_changed:Call:\x7b name:had_changed, args:[true, a] \x7d:0:").isSome =
      true := by decide
  rw [hkey] at hstored
  exact absurd hstored (by decide)

end Rekuiper.Sql
