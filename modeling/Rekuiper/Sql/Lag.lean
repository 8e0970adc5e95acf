import Rekuiper.Sql.CallRuns
import Rekuiper.Sql.Independence

/-!
# lag

A call of `lag` keeps the last values that it has recorded, as many as its offset but not more than
ten thousand, and looks back no further than that.
-/

namespace Rekuiper.Sql

open Lib

variable {F : Type}

def lastOf (k : Nat) (l : List α) : List α := l.drop (l.length - k)

theorem length_lastOf (k : Nat) (l : List α) : (lastOf k l).length = min k l.length := by
  simp only [lastOf, List.length_drop]
  omega

theorem lastOf_snoc {k : Nat} (hk : 0 < k) (l : List α) (x : α) :
    (lastOf k l).drop ((lastOf k l).length + 1 - k) ++ [x] = lastOf k (l ++ [x]) := by
  rw [length_lastOf]
  simp only [lastOf, List.drop_drop, List.length_append, List.length_singleton]
  rw [List.drop_append_of_le_length (by omega)]
  congr 2
  omega

def eachAfter {α β : Type} (f : List α → β) (l : List α) : List β :=
  l.zipIdx.map fun (_, i) => f (l.take i)

theorem eachAfter_snoc {α β : Type} (f : List α → β) (l : List α) (x : α) :
    eachAfter f (l ++ [x]) = eachAfter f l ++ [f l] := by
  have hbefore : (l.zipIdx.map fun y => f ((l ++ [x]).take y.2)) =
      l.zipIdx.map fun y => f (l.take y.2) := by
    apply List.map_congr_left
    rintro ⟨y, i⟩ hmem
    rw [List.take_append_of_le_length (Nat.le_of_lt (List.mem_zipIdx' hmem).1)]
  simp [eachAfter, List.zipIdx_append, hbefore]

/-- The value so many positions back among those recorded. -/
def lagged (offset : Nat) (default : Value F) (recorded : List (Value F)) : Value F :=
  (recorded.reverse[offset - 1]?).getD default

def recorded (ignoreNull : Bool) (values : List (Value F)) : List (Value F) :=
  values.filter fun v => !(ignoreNull && v.isNull)

theorem recorded_snoc (ignoreNull : Bool) (values : List (Value F)) (value : Value F) :
    recorded ignoreNull (values ++ [value]) =
      if ignoreNull && value.isNull then recorded ignoreNull values
      else recorded ignoreNull values ++ [value] := by
  cases hskip : ignoreNull && value.isNull <;> simp [recorded, hskip, -Bool.not_and]

theorem lagged_replicate {k : Nat} (hk : 0 < k) (default value : Value F) :
    lagged k default (List.replicate k value) = value := by
  simp [lagged, hk]

theorem lagged_beyond {k offset : Nat} (h : k < offset) (default value : Value F) :
    lagged offset default (List.replicate k value) = default := by
  rw [lagged, List.getElem?_eq_none (by simp; omega)]
  rfl

theorem lagged_lastOf {k : Nat} (hk : 0 < k) (default : Value F) (l : List (Value F)) :
    (if k ≤ (lastOf k l).length then (lastOf k l).getD ((lastOf k l).length - k) .null else default) =
      lagged k default l := by
  rw [length_lastOf, lagged]
  by_cases hle : k ≤ l.length
  · have hmin : min k l.length = k := Nat.min_eq_left hle
    rw [hmin, if_pos (Nat.le_refl k), Nat.sub_self, lastOf, List.getElem?_reverse (by omega)]
    have hindex : l.length - 1 - (k - 1) = l.length - k := by omega
    rw [hindex, List.getD_eq_getElem?_getD, List.getElem?_drop, Nat.add_zero,
      List.getElem?_eq_getElem (by omega)]
    rfl
  · rw [if_neg (by omega), List.getElem?_eq_none (by simp; omega)]
    rfl

section
variable [Float64 F] {env : Env F} {keyOrder : KeyOrder F} {callId partitionKey : String}

/-- The entry in which a call of `lag` keeps its values. -/
def lagKey (callId partitionKey : String) : String := s!"lag:{callId}:{partitionKey}"

/-- One turn of `lag(value, offset, default, ignoreNull)`. -/
def lagCall (env : Env F) (keyOrder : KeyOrder F) (callId partitionKey : String)
    (offset default : Value F) (ignoreNull : Bool) (value : Value F) :
    StateM (HashMap String (Value F)) (Value F) :=
  evalAnalytic env keyOrder
    { name := "lag", args := [value, offset, default, .bool ignoreNull], callId, partitionKey,
      skipUpdate := false, eventTime := none }

def Remembers (k : Nat) (ignoreNull : Bool) (values : List (Value F))
    (stored : Option (Value F)) : Prop :=
  (stored.bind Value.asArray).getD [] = lastOf k (recorded ignoreNull values)

variable {offset default : Value F} {n : Int} {ignoreNull : Bool} {values results : List (Value F)}
  {m : HashMap String (Value F)} {stored : Option (Value F)}

theorem evalLag_remembers (default : Value F) (hoffset : toI64Arg env offset = some n) (hn : 1 ≤ n)
    (h : Remembers (min n.toNat maxLagItems) ignoreNull values stored) (value : Value F) :
    Remembers (min n.toNat maxLagItems) ignoreNull (values ++ [value])
        ((evalLag env [value, offset, default, .bool ignoreNull] false).next stored) ∧
      (evalLag env [value, offset, default, .bool ignoreNull] false stored).1 =
        lagged (min n.toNat maxLagItems) default (recorded ignoreNull values) := by
  have hk : 0 < min n.toNat maxLagItems := by
    have : maxLagItems = 10000 := rfl
    omega
  have hpos : ¬n ≤ 0 := by omega
  unfold Remembers at h ⊢
  unfold Update.next evalLag
  simp only [List.length_cons, List.length_nil, List.getElem?_cons_succ, List.getElem?_cons_zero,
    Option.bind_some, hoffset, Option.getD_some, hpos, Value.asBool, Bool.false_or, h,
    lagged_lastOf hk]
  rw [recorded_snoc]
  cases hskip : ignoreNull && value.isNull with
  | true => simpa using h
  | false => simp [lastOf_snoc hk, Value.asArray]

theorem lagCall_results (hoffset : toI64Arg env offset = some n) (hn : 1 ≤ n)
    (h : CallRun (lagKey callId partitionKey)
      (lagCall env keyOrder callId partitionKey offset default ignoreNull) values results m) :
    results = eachAfter (fun before =>
      lagged (min n.toNat maxLagItems) default (recorded ignoreNull before)) values := by
  refine (h.results (fun value => rfl) (Remembers (min n.toNat maxLagItems) ignoreNull)
    (eachAfter fun before => lagged (min n.toNat maxLagItems) default (recorded ignoreNull before))
    ?_ rfl ?_).2
  · simp [Remembers, recorded, lastOf]
  · intro before stored value hbefore
    obtain ⟨hremembers, hresult⟩ :=
      evalLag_remembers default hoffset hn hbefore value
    exact ⟨hremembers, by rw [eachAfter_snoc, ← hresult]⟩

/-- With an offset above the most values kept, the last of ten thousand and one equal values sees
one of them where there is none so far back. -/
theorem lag_looks_back_too_little (hoffset : toI64Arg env offset = some n) (hn : 10000 < n)
    {value : Value F} (hnull : value.isNull = false) (hdefault : value ≠ default)
    (h : CallRun (lagKey callId partitionKey)
      (lagCall env keyOrder callId partitionKey offset default ignoreNull)
      (List.replicate (maxLagItems + 1) value) results m) :
    results ≠ eachAfter (fun before => lagged n.toNat default (recorded ignoreNull before))
      (List.replicate (maxLagItems + 1) value) := by
  intro heq
  have hmost : maxLagItems = 10000 := rfl
  rw [lagCall_results hoffset (by omega) h] at heq
  have hlast := congrArg (fun l => l[maxLagItems]?) heq
  have hkept : recorded ignoreNull (List.replicate maxLagItems value) =
      List.replicate maxLagItems value := by
    simp [recorded, hnull]
  have hmin : min n.toNat maxLagItems = maxLagItems := by omega
  have hback : lagged maxLagItems default (List.replicate maxLagItems value) = value :=
    lagged_replicate (by decide) default value
  have hnone : lagged n.toNat default (List.replicate maxLagItems value) = default :=
    lagged_beyond (by omega) default value
  simp only [eachAfter, List.getElem?_map, List.getElem?_zipIdx, List.getElem?_replicate, List.take_replicate,
    hmin] at hlast
  simp [hkept, hback, hnone] at hlast
  exact hdefault hlast

/-- `lag` looks back its offset in every run of its calls if it is not above ten thousand. -/
theorem lag_looks_back_iff (env : Env F) (keyOrder : KeyOrder F) (callId partitionKey : String)
    (hoffset : toI64Arg env offset = some n) (hn : 1 ≤ n) (default : Value F) (ignoreNull : Bool) :
    (∀ values results m,
      CallRun (lagKey callId partitionKey)
        (lagCall env keyOrder callId partitionKey offset default ignoreNull) values results m →
      results = eachAfter (fun before => lagged n.toNat default (recorded ignoreNull before))
        values) ↔ n ≤ 10000 := by
  constructor
  · intro hall
    by_contra hlarge
    obtain ⟨value, hnull, hdefault⟩ : ∃ value : Value F, value.isNull = false ∧ value ≠ default := by
      by_cases htrue : default = .bool true
      · exact ⟨.bool false, rfl, by simp [htrue]⟩
      · exact ⟨.bool true, rfl, fun h => htrue h.symm⟩
    obtain ⟨results, m, hrun⟩ := CallRun.exists _
      (lagCall env keyOrder callId partitionKey offset default ignoreNull)
      (List.replicate (maxLagItems + 1) value)
    exact lag_looks_back_too_little hoffset (by omega) hnull hdefault hrun (hall _ results m hrun)
  · intro hsmall values results m hrun
    have hmost : maxLagItems = 10000 := rfl
    have hmin : min n.toNat maxLagItems = n.toNat := by omega
    rw [lagCall_results hoffset hn hrun, hmin]

end

theorem lag_looks_back_two :
    (∀ values results m,
      CallRun (lagKey "lag(a, 2)" "")
        (lagCall numbersEnv AList.keys "lag(a, 2)" "" (ofI64 2) .null true) values results m →
      results = eachAfter (fun before => lagged (2 : Int).toNat .null (recorded true before))
        values) ↔ (2 : Int) ≤ 10000 :=
  lag_looks_back_iff numbersEnv AList.keys "lag(a, 2)" "" rfl (by decide) .null true

theorem lag_10001_looks_back_10000 :
    ¬∀ values results m,
      CallRun (lagKey "lag(a, 10001)" "")
        (lagCall numbersEnv AList.keys "lag(a, 10001)" "" (ofI64 10001) .null false)
        values results m →
      results = eachAfter (fun before => lagged 10001 .null (recorded false before)) values := by
  intro hall
  obtain ⟨results, m, hrun⟩ := CallRun.exists _
    (lagCall numbersEnv AList.keys "lag(a, 10001)" "" (ofI64 10001) .null false)
    (List.replicate (maxLagItems + 1) (.bool true))
  have hoffset : toI64Arg numbersEnv (ofI64 10001) = some 10001 := rfl
  have hdefault : (.bool true : Value ℚ) ≠ .null := nofun
  exact lag_looks_back_too_little hoffset (by decide) rfl hdefault hrun (hall _ results m hrun)

end Rekuiper.Sql
