import Rekuiper.Sql.CallRuns
import Rekuiper.Sql.Independence
import Rekuiper.Sql.SlidingAccs

/-!
# Running aggregates

`acc_count`, `acc_sum`, `acc_min` and `acc_max` keep what the aggregate of the rows so far is. A sum
that leaves `i64` is kept as `NULL`, and no later one is a number, while the batch sum of the same
rows is.
-/

namespace Rekuiper.Sql

open Lib

variable {F : Type}

def eachUpTo {α β : Type} (f : List α → β) (l : List α) : List β :=
  l.zipIdx.map fun (_, i) => f (l.take (i + 1))

theorem eachUpTo_snoc {α β : Type} (f : List α → β) (l : List α) (x : α) :
    eachUpTo f (l ++ [x]) = eachUpTo f l ++ [f (l ++ [x])] := by
  have hbefore : (l.zipIdx.map fun y => f ((l ++ [x]).take (y.2 + 1))) =
      l.zipIdx.map fun y => f (l.take (y.2 + 1)) := by
    apply List.map_congr_left
    rintro ⟨y, i⟩ hmem
    rw [List.take_append_of_le_length (List.mem_zipIdx' hmem).1]
  have hlast : (l ++ [x]).take (l.length + 1) = l ++ [x] := List.take_of_length_le (by simp)
  simp [eachUpTo, List.zipIdx_append, hbefore, hlast]

theorem getElem?_eachUpTo {α β : Type} (f : List α → β) (l : List α) (n : Nat) :
    (eachUpTo f l)[n]? = if n < l.length then some (f (l.take (n + 1))) else none := by
  by_cases hn : n < l.length <;> simp [eachUpTo, hn]

/-- `NULL` and the integers of `i64` -/
def IsInteger (v : Value F) : Prop := v = .null ∨ ∃ n, InI64 n ∧ v = ofI64 n

/-- A run of integers, no more than a batch may have rows (`isize::MAX`). For `acc_sum` the sum is in
`i64` after every row. -/
structure RunFits (name : String) (values : List (Value F)) : Prop where
  integers : ∀ v ∈ values, IsInteger v
  length : values.length ≤ maxI64
  sums : name = "acc_sum" → ∀ n ≤ values.length, InI64 (intSum (values.take n))

theorem RunFits.prefix {name : String} {values : List (Value F)} {value : Value F}
    (h : RunFits name (values ++ [value])) : RunFits name values where
  integers v hv := h.integers v (List.mem_append_left _ hv)
  length := by
    have := h.length
    simp only [List.length_append, List.length_singleton, Nat.cast_add] at this
    exact le_trans (Int.le_add_of_nonneg_right (by decide)) this
  sums hname n hn := by
    have htake : (values ++ [value]).take n = values.take n := List.take_append_of_le_length hn
    rw [← htake]
    exact h.sums hname n (le_trans hn (by simp))

theorem RunFits.total {values : List (Value F)} (h : RunFits "acc_sum" values) :
    InI64 (intSum values) := by
  simpa using h.sums rfl values.length le_rfl

def numbersIn (values : List (Value F)) : List (Value F) := values.filter Value.isNumber

theorem numbersIn_null (values : List (Value F)) : numbersIn (values ++ [.null]) = numbersIn values := by
  simp [numbersIn, Value.isNumber]

theorem numbersIn_int (values : List (Value F)) (n : Int) :
    numbersIn (values ++ [ofI64 n]) = numbersIn values ++ [ofI64 n] := by
  simp [numbersIn, Value.isNumber, ofI64]

theorem nonNull_eq {values : List (Value F)} (h : ∀ v ∈ values, IsInteger v) :
    values.filter (fun v => !v.isNull) = numbersIn values := by
  refine List.filter_congr ?_
  rintro v hv
  rcases h v hv with rfl | ⟨n, -, rfl⟩ <;> rfl

section
variable [Float64 F] {env : Env F} {keyOrder : KeyOrder F} {callId partitionKey : String}

def accKey (name callId partitionKey : String) : String := s!"{name}:{callId}:{partitionKey}"

/-- One turn of an accumulator of one argument, outside any `WHEN` -/
def accCall (env : Env F) (keyOrder : KeyOrder F) (name callId partitionKey : String)
    (value : Value F) : StateM (HashMap String (Value F)) (Value F) :=
  evalAnalytic env keyOrder
    { name, args := [value], callId, partitionKey, skipUpdate := false, eventTime := none }

theorem accCall_eq {name : String} (h : isAccCall name = true) (value : Value F) :
    accCall env keyOrder name callId partitionKey value =
      updateEntry (insertBounded keyOrder) (accKey name callId partitionKey)
        (accUpdate env name [value]) := by
  have hupdate : evalAccCall env name [value] false = accUpdate env name [value] := by
    funext stored
    rfl
  simp [accCall, evalAnalytic, h, hupdate, accKey]

-- ---- One call

/-- An accumulator that keeps an aggregate of the numbers so far, once there are any. -/
structure Accumulates (env : Env F) (name : String) (g : List (Value F) → Value F) : Prop where
  isAcc : isAccCall name = true
  null : ∀ stored, accUpdate env name [.null] stored = (stored.getD (g []), none)
  number : ∀ values n, RunFits name (values ++ [ofI64 n]) →
    ∀ stored, stored = (if (numbersIn values).isEmpty then none else some (g (numbersIn values))) →
      (accUpdate env name [ofI64 n] stored).1 = g (numbersIn values ++ [ofI64 n]) ∧
        (accUpdate env name [ofI64 n]).next stored = some (g (numbersIn values ++ [ofI64 n]))

theorem Accumulates.results {name : String} {g : List (Value F) → Value F}
    (h : Accumulates env name g) {values results : List (Value F)} {m : HashMap String (Value F)}
    (hrun : CallRun (accKey name callId partitionKey) (accCall env keyOrder name callId partitionKey)
      values results m) (hfits : RunFits name values) :
    results = eachUpTo (fun before => g (numbersIn before)) values := by
  refine (hrun.results_of (fun value => accCall_eq h.isAcc value) (RunFits name)
    (fun values stored =>
      stored = if (numbersIn values).isEmpty then none else some (g (numbersIn values)))
    (eachUpTo fun before => g (numbersIn before)) (fun _ _ => RunFits.prefix) rfl rfl ?_ hfits).2
  rintro before stored value hgood hstored
  rw [eachUpTo_snoc]
  rcases hgood.integers value (by simp) with rfl | ⟨n, -, rfl⟩
  · rw [numbersIn_null, Update.next, h.null]
    refine ⟨hstored, ?_⟩
    rw [hstored]
    by_cases hnone : numbersIn before = [] <;> simp [hnone]
  · obtain ⟨hresult, hnext⟩ := h.number before n hgood stored hstored
    rw [numbersIn_int, hresult, hnext]
    exact ⟨by simp, rfl⟩

theorem accumulates_count : Accumulates env "acc_count" fun numbers => ofI64 numbers.length where
  isAcc := rfl
  null stored := rfl
  number values n h stored hstored := by
    have hlength : ((numbersIn values).length : Int) + 1 ≤ maxI64 := by
      have hle : (numbersIn values).length ≤ values.length := List.length_filter_le _ _
      have hmost := h.length
      simp only [List.length_append, List.length_singleton, Nat.cast_add, Nat.cast_one] at hmost
      omega
    have hcount : (stored.bind Value.asI64).getD 0 = ((numbersIn values).length : Int) := by
      rw [hstored]
      by_cases hnone : numbersIn values = []
      · simp [hnone]
      · have hint : (ofI64 ((numbersIn values).length : Int) : Value F).asI64 =
            some ((numbersIn values).length : Int) := if_pos (by omega)
        simp [hnone, hint]
    have hsaturate : saturate (((numbersIn values).length : Int) + 1) =
        ((numbersIn values).length : Int) + 1 :=
      saturate_of_inI64 ⟨le_trans (by decide) (Int.add_nonneg (Int.natCast_nonneg _) (by decide)),
        hlength⟩
    have hturn : accUpdate env "acc_count" [ofI64 n] stored =
        (ofI64 (((numbersIn values).length : Int) + 1),
          some (ofI64 (((numbersIn values).length : Int) + 1))) := by
      rw [← hsaturate, ← hcount]
      rfl
    simp [Update.next, hturn]

omit [Float64 F] in
theorem sumI64_numbersIn {values : List (Value F)} (h : RunFits "acc_sum" values) :
    sumI64 (numbersIn values) = some (intSum values) := by
  induction values using List.reverseRecOn with
  | nil => rfl
  | append_singleton values value ih =>
    rw [intSum_append, intSum_singleton]
    rcases h.integers value (by simp) with rfl | ⟨n, hn, rfl⟩
    · rw [numbersIn_null, ih h.prefix]
      exact congrArg some (Int.add_zero _).symm
    · have hint : (ofI64 n : Value F).asI64 = some n := if_pos hn.2
      have htotal := h.total
      rw [intSum_append, intSum_singleton, hint, Option.getD_some] at htotal
      rw [numbersIn_int, sumI64_concat, ih h.prefix, hint]
      simp [checkedAdd, htotal.1, htotal.2]

theorem sumValues_numbersIn {values : List (Value F)} (h : RunFits "acc_sum" values)
    (hne : numbersIn values ≠ []) : sumValues (numbersIn values) = ofI64 (intSum values) := by
  rw [sumValues_eq _ hne, sumI64_numbersIn h]
  rfl

theorem accumulates_sum : Accumulates env "acc_sum" sumValues where
  isAcc := rfl
  null stored := rfl
  number values n h stored hstored := by
    have hint : (ofI64 n : Value F).asI64 = some n := by
      rcases h.integers (ofI64 n) (by simp) with hnull | ⟨m, hm, heq⟩
      · cases hnull
      · cases heq
        exact if_pos hm.2
    have htotal := h.total
    have hsum := sumValues_numbersIn h (by simp [numbersIn_int])
    rw [intSum_append, intSum_singleton, hint, Option.getD_some] at htotal hsum
    rw [numbersIn_int] at hsum
    have hturn : accUpdate env "acc_sum" [ofI64 n] stored =
        (ofI64 (intSum values + n), some (ofI64 (intSum values + n))) := by
      rw [hstored]
      by_cases hnone : numbersIn values = []
      · have hzero : intSum values = 0 := by
          have := sumI64_numbersIn h.prefix
          rw [hnone] at this
          exact (Option.some.inj this).symm
        rw [hnone, hzero, Int.zero_add]
        rfl
      · have hbefore := sumValues_numbersIn h.prefix hnone
        have hstoredInt : (ofI64 (intSum values) : Value F).asI64 = some (intSum values) :=
          if_pos h.prefix.total.2
        have hadd : addValues (ofI64 (intSum values)) (ofI64 n : Value F) =
            ofI64 (intSum values + n) := by
          simp [addValues, hstoredInt, hint, checkedAdd, htotal.1, htotal.2]
        rw [List.isEmpty_eq_false_iff.mpr hnone, hbefore, ← hadd]
        rfl
    simp [Update.next, hturn, hsum]

theorem extreme_snoc (wanted : Ordering) {values : List (Value F)} (hne : values ≠ [])
    (value : Value F) : extreme wanted (values ++ [value]) =
      if compareValues value (extreme wanted values) = some wanted then value
      else extreme wanted values := by
  obtain ⟨first, rest, rfl⟩ := List.exists_cons_of_ne_nil hne
  simp only [extreme, List.cons_append, List.foldl_append, List.foldl_cons, List.foldl_nil]
  exact if_congr Iff.rfl rfl rfl

theorem accumulates_extreme {name : String} {wanted : Ordering} (hname : isAccCall name = true)
    (hupdate : accUpdate env name = accExtreme wanted) :
    Accumulates env name (extreme wanted) where
  isAcc := hname
  null stored := by
    rw [hupdate]
    rfl
  number values n h stored hstored := by
    have hnull : (ofI64 n : Value F).isNull = false := rfl
    rw [Update.next, hupdate, hstored]
    by_cases hnone : numbersIn values = []
    · simp [hnone, accExtreme, hnull, extreme]
    · rw [List.isEmpty_eq_false_iff.mpr hnone, extreme_snoc wanted hnone]
      simp only [accExtreme, hnull, Bool.false_eq_true, if_false]
      split <;> simp [*]

-- ---- Batches

def runningBatches : List (String × (Env F → List (Expr F) → List (Row F) →
    Except Failure (Value F))) :=
  [("acc_count", aggCount), ("acc_sum", aggSum), ("acc_min", aggMin), ("acc_max", aggMax)]

/-- Each result of a run of the accumulator is the aggregate of the rows up to there. -/
def AgreesWithBatch (env : Env F) (keyOrder : KeyOrder F) (callId partitionKey : String)
    (batch : String × (Env F → List (Expr F) → List (Row F) → Except Failure (Value F)))
    (arg : Expr F) (rows : List (Row F)) (values : List (Value F)) : Prop :=
  ∀ results m, CallRun (accKey batch.1 callId partitionKey)
      (accCall env keyOrder batch.1 callId partitionKey) values results m →
    results.length = values.length ∧
      ∀ n result, results[n]? = some result → batch.2 env [arg] (rows.take (n + 1)) = .ok result

variable {arg : Expr F} {value : Row F → Value F} {rows : List (Row F)}

theorem aggValues_rows {aggregate : List (Value F) → Value F} (harg : arg ≠ .wildcard)
    (hvalues : ∀ row ∈ rows, evalVal env row arg = .ok (value row)) :
    aggValues aggregate env [arg] rows = .ok (aggregate (rows.map value)) := by
  rw [aggValues, mapM_ok hvalues]
  · rfl
  · exact harg

theorem aggCount_rows (harg : arg ≠ .wildcard)
    (hvalues : ∀ row ∈ rows, evalVal env row arg = .ok (value row)) :
    aggCount env [arg] rows = .ok (ofI64 ((rows.map value).countP fun v => !v.isNull)) := by
  rw [aggCount, mapM_ok hvalues]
  · rfl
  · exact fun h _ => harg h

theorem extremeValues_integers (wanted : Ordering) {values : List (Value F)}
    (h : ∀ v ∈ values, IsInteger v) :
    extremeValues wanted values = extreme wanted (numbersIn values) := by
  have htwice : (numbersIn values).filter Value.isNumber = numbersIn values := by simp [numbersIn]
  rw [extremeValues, nonNull_eq h, htwice, ite_self]

theorem batch_numbers {batch : String × (Env F → List (Expr F) → List (Row F) →
      Except Failure (Value F))} (hbatch : batch ∈ runningBatches) (harg : arg ≠ .wildcard) :
    ∃ g, Accumulates env batch.1 g ∧
      ∀ rows, (∀ row ∈ rows, evalVal env row arg = .ok (value row)) →
        (∀ v ∈ rows.map value, IsInteger v) →
          batch.2 env [arg] rows = .ok (g (numbersIn (rows.map value))) := by
  simp only [runningBatches, List.mem_cons, List.not_mem_nil, or_false] at hbatch
  rcases hbatch with rfl | rfl | rfl | rfl
  · refine ⟨_, accumulates_count, fun rows hvalues hints => ?_⟩
    refine (aggCount_rows harg hvalues).trans ?_
    rw [List.countP_eq_length_filter, nonNull_eq hints]
  · exact ⟨_, accumulates_sum, fun rows hvalues _ => aggValues_rows harg hvalues⟩
  · refine ⟨_, accumulates_extreme rfl rfl, fun rows hvalues hints => ?_⟩
    rw [← extremeValues_integers .lt hints]
    exact aggValues_rows harg hvalues
  · refine ⟨_, accumulates_extreme rfl rfl, fun rows hvalues hints => ?_⟩
    rw [← extremeValues_integers .gt hints]
    exact aggValues_rows harg hvalues

/-- An accumulator agrees with the batch where its run fits. -/
theorem running_agrees (env : Env F) (keyOrder : KeyOrder F) (callId partitionKey : String)
    {batch : String × (Env F → List (Expr F) → List (Row F) → Except Failure (Value F))}
    (hbatch : batch ∈ runningBatches) (harg : arg ≠ .wildcard)
    (hvalues : ∀ row ∈ rows, evalVal env row arg = .ok (value row))
    (hfits : RunFits batch.1 (rows.map value)) :
    AgreesWithBatch env keyOrder callId partitionKey batch arg rows (rows.map value) := by
  rintro results m hrun
  obtain ⟨g, haccumulates, hrows⟩ := @batch_numbers F _ env arg value _ hbatch harg
  obtain rfl := haccumulates.results hrun hfits
  refine ⟨by simp [eachUpTo], fun n result hresult => ?_⟩
  rw [getElem?_eachUpTo, Option.ite_none_right_eq_some] at hresult
  rw [hrows _ fun row hrow => hvalues row (List.mem_of_mem_take hrow),
    ← Option.some.inj hresult.2, List.map_take]
  rintro v hv
  rw [List.map_take] at hv
  exact hfits.integers v (List.mem_of_mem_take hv)

end

/-- `{"a": v}` -/
def valueRow (v : Value ℚ) : Row ℚ := AList.insert "a" v ∅

theorem evalVal_valueRow (v : Value ℚ) :
    evalVal numbersEnv (valueRow v) (.identifier "a") = .ok v := by
  have hcolumn : column (valueRow v) "a" = v := by
    have hlookup : (valueRow v).lookup "a" = some v := AList.lookup_insert _
    simp [column, hlookup]
  rw [← hcolumn]
  simp only [evalVal, evalExpr]
  rfl

/-- The results `2`, `2` and `7` of `acc_sum` over `2`, `NULL` and `5` -/
theorem running_agrees_of_three :
    AgreesWithBatch numbersEnv AList.keys "c" "" ("acc_sum", aggSum) (.identifier "a")
        ([ofI64 2, .null, ofI64 5].map valueRow) [ofI64 2, .null, ofI64 5] ∧
      ∃ m, CallRun (accKey "acc_sum" "c" "") (accCall numbersEnv AList.keys "acc_sum" "c" "")
        [ofI64 2, .null, ofI64 5] [ofI64 2, ofI64 2, ofI64 7] m := by
  have hfits : RunFits "acc_sum" ([ofI64 2, .null, ofI64 5] : List (Value ℚ)) := by
    refine ⟨?_, by decide, ?_⟩
    · rintro v hv
      simp only [List.mem_cons, List.not_mem_nil, or_false] at hv
      rcases hv with rfl | rfl | rfl
      · exact .inr ⟨2, ⟨by decide, by decide⟩, rfl⟩
      · exact .inl rfl
      · exact .inr ⟨5, ⟨by decide, by decide⟩, rfl⟩
    · rintro - n hn
      have hcases : n = 0 ∨ n = 1 ∨ n = 2 ∨ n = 3 := by
        simp only [List.length_cons, List.length_nil] at hn
        omega
      rcases hcases with rfl | rfl | rfl | rfl <;> exact ⟨by decide, by decide⟩
  constructor
  · refine @running_agrees ℚ _ _ (fun row => column row "a") _ numbersEnv AList.keys "c" ""
      ("acc_sum", aggSum) (by simp [runningBatches]) (by simp) ?_ hfits
    rintro row hrow
    obtain ⟨v, -, rfl⟩ := List.mem_map.mp hrow
    rw [evalVal_valueRow]
    rfl
  · have hrun : ∃ results m, CallRun (accKey "acc_sum" "c" "")
        (accCall numbersEnv AList.keys "acc_sum" "c" "")
        ([] ++ [ofI64 2] ++ [.null] ++ [ofI64 5]) results m :=
      ⟨_, _, .call (.call (.call (.start (AList.lookup_empty _)) rfl) rfl) rfl⟩
    obtain ⟨results, m, hrun⟩ := hrun
    obtain rfl := accumulates_sum.results hrun hfits
    exact ⟨m, hrun⟩

/-- The accumulator gives `NULL`, the batch a number. -/
theorem running_overflows :
    ¬AgreesWithBatch numbersEnv AList.keys "c" "" ("acc_sum", aggSum) (.identifier "a")
      ([ofI64 maxI64, ofI64 1].map valueRow) [ofI64 maxI64, ofI64 1] := by
  intro h
  let call := accCall numbersEnv AList.keys "acc_sum" "c" ""
  have hrun : CallRun (accKey "acc_sum" "c" "") call ([] ++ [ofI64 maxI64] ++ [ofI64 1])
      ([] ++ [(call (ofI64 maxI64) ∅).1] ++ [(call (ofI64 1) (call (ofI64 maxI64) ∅).2).1])
      (call (ofI64 1) (call (ofI64 maxI64) ∅).2).2 :=
    .call (.call (.start (AList.lookup_empty _)) rfl) rfl
  have hlast := (h _ _ hrun).2 1 _ rfl
  have hbatch : aggSum numbersEnv [.identifier "a"] ([ofI64 maxI64, ofI64 1].map valueRow) =
      .ok (sumValues [ofI64 maxI64, ofI64 1]) := by
    simp [aggSum, aggValues, evalVal_valueRow]
    rfl
  have hnull : (call (ofI64 1) (call (ofI64 maxI64) ∅).2).1 = .null := by
    simp only [call]
    rw [accCall_eq rfl, updateEntry_fst, accCall_eq rfl]
    exact (congrArg (fun stored => (accUpdate numbersEnv "acc_sum" [ofI64 1] stored).1)
      (updateEntry_lookup _ _)).trans rfl
  rw [hnull, List.take_of_length_le (by simp)] at hlast
  cases hbatch.symm.trans hlast

end Rekuiper.Sql
