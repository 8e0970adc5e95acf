import Rekuiper.Sql.Aggregate

/-!
# Windows without rows

`IncrementalWindow`: a window that keeps, for every group, the values of its first row
and one accumulator for every aggregate.
-/

namespace Rekuiper.Sql

open Lib

variable {F S : Type}

/-- What variances and percentiles use: `f64::sqrt` and the quantile sketch. -/
structure Numerics (F S : Type) where
  sqrt : F → F
  sketchNew : S
  sketchInsert : S → F → S
  quantile : S → F → Option F

def noNumerics : Numerics ℚ Unit := ⟨id, (), fun _ _ => (), fun _ _ => none⟩

inductive Acc (F S : Type)
  | count (n : Int)
  | sum (int : Int) (float : F) (intOk any : Bool)
  | avg (total : F) (n : Nat)
  | extreme (best : Option (Value F))
  | welford (kind : AggKind F) (n : Nat) (mean m2 : F)
  | sketch (q : F) (s : S)

section
variable [Float64 F]

namespace Acc

def new (num : Numerics F S) : AggKind F → Acc F S
  | .countAll | .count => .count 0
  | .sum => .sum 0 (Float64.ofInt 0) true false
  | .avg => .avg (Float64.ofInt 0) 0
  | .min | .max => .extreme none
  | .median => .sketch (Float64.div (Float64.ofInt 1) (Float64.ofInt 2)) num.sketchNew
  | .percentile p => .sketch p num.sketchNew
  | kind => .welford kind 0 (Float64.ofInt 0) (Float64.ofInt 0)

def wanted : AggKind F → Ordering
  | .min => .lt
  | _ => .gt

def updateSum (int : Int) (float : F) (intOk any : Bool) (v : Value F) : Acc F S :=
  match v with
  | .number n =>
    let float := Float64.add float n.asF64
    if intOk then
      match n.asI64.bind (checkedAdd int) with
      | some next => .sum next float true true
      | none => .sum int float false true
    else .sum int float false true
  | _ => .sum int float intOk any

def updateExtreme (kind : AggKind F) (best : Option (Value F)) (v : Value F) : Option (Value F) :=
  if v.isNumber then
    match best with
    | none => some v
    | some current => if compareValues v current = some (wanted kind) then some v else best
  else best

def updateWelford (kind : AggKind F) (n : Nat) (mean m2 x : F) : Acc F S :=
  let delta := Float64.sub x mean
  let mean := Float64.add mean (Float64.div delta (Float64.ofInt (n + 1)))
  .welford kind (n + 1) mean (Float64.add m2 (Float64.mul delta (Float64.sub x mean)))

def update (num : Numerics F S) (acc : Acc F S) (kind : AggKind F) (value : Option (Value F)) :
    Acc F S :=
  match acc, kind, value with
  | .count n, .countAll, _ => .count (n + 1)
  | .count n, _, some v => if v.isNull then .count n else .count (n + 1)
  | .sum int float intOk any, _, some v => updateSum int float intOk any v
  | .avg total n, _, some (.number v) => .avg (Float64.add total v.asF64) (n + 1)
  | .extreme best, kind, some v => .extreme (updateExtreme kind best v)
  | .welford own n mean m2, _, some (.number v) => updateWelford own n mean m2 v.asF64
  | .sketch q s, _, some (.number v) => .sketch q (num.sketchInsert s v.asF64)
  | acc, _, _ => acc

def finishWelford (num : Numerics F S) (kind : AggKind F) (n : Nat) (m2 : F) : Value F :=
  let population : F := Float64.div m2 (Float64.ofInt n)
  let sample : F := Float64.div m2 (Float64.ofInt (n - 1 : Nat))
  match kind with
  | .stddev => if n = 0 then .null else ofFloat (num.sqrt population)
  | .stddevs => if n < 2 then .null else ofFloat (num.sqrt sample)
  | .var => if n = 0 then .null else ofFloat population
  | .vars => if n < 2 then .null else ofFloat sample
  | _ => .null

def finish (num : Numerics F S) : Acc F S → Value F
  | .count n => ofI64 n
  | .sum int float intOk any =>
    if !any then .null else if intOk then ofI64 int else ofFloat float
  | .avg total n => if n = 0 then .null else ofFloat (Float64.div total (Float64.ofInt n))
  | .extreme best => best.getD .null
  | .welford kind n _ m2 => finishWelford num kind n m2
  | .sketch q s => ((num.quantile s q).map ofFloat).getD .null

end Acc

-- ---- The window

structure Group (F S : Type) where
  groupValues : List (Value F)
  firsts : List (Value F)
  accs : List (Acc F S)

structure IncrementalWindow (F S : Type) where
  whereClause : Option (Expr F)
  groupBy : List (Expr F)
  groupNames : List String
  plans : List (Plan F)
  orderStmt : SelectStmt F
  groups : List (String × Group F S)

namespace IncrementalWindow

def groupName (e : Expr F) (idx : Nat) : String :=
  match e with
  | .identifier name => name
  | .fieldAccess _ leaf => leaf
  | e => columnName e idx

def tryNew (stmt : SelectStmt F) : Option (IncrementalWindow F S) :=
  (incrementalPlans stmt).map fun plans =>
    { whereClause := stmt.whereClause, groupBy := stmt.groupBy,
      groupNames := stmt.groupBy.zipIdx.map fun (e, idx) => groupName e idx,
      plans, orderStmt := stmt, groups := [] }

/-- What a plain column keeps of the first row; an aggregate keeps nothing. -/
def firstValue (env : Env F) (row : Row F) : Plan F → Except Failure (Value F)
  | .first _ e => groupValue env row e
  | .agg _ _ _ => .ok .null

def newAcc (num : Numerics F S) : Plan F → Acc F S
  | .first _ _ => .count 0
  | .agg _ kind _ => .new num kind

def newGroup (env : Env F) (num : Numerics F S) (w : IncrementalWindow F S) (row : Row F) :
    Except Failure (Group F S) := do
  let groupValues ← w.groupBy.mapM (groupValue env row)
  let firsts ← w.plans.mapM (firstValue env row)
  return { groupValues, firsts, accs := w.plans.map (newAcc num) }

def updateAcc (env : Env F) (num : Numerics F S) (row : Row F) (entry : Plan F × Acc F S) :
    Except Failure (Acc F S) :=
  match entry with
  | (.first _ _, acc) => .ok acc
  | (.agg _ kind none, acc) => .ok (acc.update num kind none)
  | (.agg _ kind (some e), acc) => do
    let value ← groupValue env row e
    return acc.update num kind (some value)

def accepts (env : Env F) (w : IncrementalWindow F S) (row : Row F) : Except Failure Bool :=
  match w.whereClause with
  | some condition => evalBool env row condition
  | none => .ok true

def groupFor (env : Env F) (num : Numerics F S) (w : IncrementalWindow F S) (key : String)
    (row : Row F) : Except Failure (Group F S) :=
  match w.groups.lookup key with
  | some group => .ok group
  | none => newGroup env num w row

/-- Accumulates a row that `WHERE` accepted. -/
def addRow (env : Env F) (num : Numerics F S) (w : IncrementalWindow F S) (row : Row F) :
    Except Failure (IncrementalWindow F S) := do
  let key ← groupKey env w.groupBy row
  let group ← groupFor env num w key row
  let accs ← (w.plans.zip group.accs).mapM (updateAcc env num row)
  return { w with groups := put key { group with accs } w.groups }

def push (env : Env F) (num : Numerics F S) (w : IncrementalWindow F S) (row : Row F) :
    Except Failure (IncrementalWindow F S × Bool) := do
  if ← w.accepts env row then
    let w ← addRow env num w row
    return (w, true)
  else return (w, false)

def planColumn (num : Numerics F S) (row : Row F) : Plan F × Value F × Acc F S → Row F
  | (.first name _, first, _) => row.orInsert name first
  | (.agg name _ _, _, acc) => row.insert name (acc.finish num)

def outputRow (num : Numerics F S) (w : IncrementalWindow F S) (group : Group F S) : Row F :=
  let columns := (w.groupNames.zip group.groupValues).foldl (fun row c => row.insert c.1 c.2) ∅
  (w.plans.zip (group.firsts.zip group.accs)).foldl (planColumn num) columns

/-- Closes the window and gives its output rows. -/
def take (env : Env F) (num : Numerics F S) (w : IncrementalWindow F S) :
    Except Failure (List (Row F) × IncrementalWindow F S) := do
  let out ← applyOrderLimit env w.orderStmt (w.groups.map fun g => outputRow num w g.2)
  return (out, { w with groups := [] })

def pushAll (env : Env F) (num : Numerics F S) (w : IncrementalWindow F S) (rows : List (Row F)) :
    Except Failure (IncrementalWindow F S) :=
  rows.foldlM (fun w row => (push env num w row).map Prod.fst) w

end IncrementalWindow

-- ---- Accumulators and aggregates

/-- `count(*)`, `count`, `sum`, `avg`, `min` and `max`. -/
def AggKind.isBasic : AggKind F → Bool
  | .countAll | .count | .sum | .avg | .min | .max => true
  | _ => false

def AggKind.ofValues (kind : AggKind F) (values : List (Value F)) : Value F :=
  match kind with
  | .countAll => ofI64 values.length
  | .count => ofI64 (values.countP fun v => !v.isNull)
  | .sum => sumValues (values.filter Value.isNumber)
  | .avg => avgValues (values.filter Value.isNumber)
  | .min => extreme .lt (values.filter Value.isNumber)
  | .max => extreme .gt (values.filter Value.isNumber)
  | _ => .null

def accumulated (num : Numerics F S) (kind : AggKind F) (values : List (Value F)) : Acc F S :=
  values.foldl (fun acc v => acc.update num kind (some v)) (.new num kind)

variable (num : Numerics F S)

theorem accumulated_concat (kind : AggKind F) (values : List (Value F)) (v : Value F) :
    accumulated num kind (values ++ [v]) =
      (accumulated num kind values).update num kind (some v) := by
  simp [accumulated]

theorem accumulated_countAll (values : List (Value F)) :
    accumulated num .countAll values = .count values.length := by
  induction values using List.reverseRecOn with
  | nil => rfl
  | append_singleton values v ih => simp [accumulated_concat, ih, Acc.update]

theorem accumulated_count (values : List (Value F)) :
    accumulated num .count values = .count (values.countP fun v => !v.isNull) := by
  induction values using List.reverseRecOn with
  | nil => rfl
  | append_singleton values v ih =>
    rw [accumulated_concat, ih, List.countP_append]
    cases hv : v.isNull <;> simp [Acc.update, hv]

theorem sumF64_concat (values : List (Value F)) (n : Number F) :
    sumF64 (values ++ [.number n]) = Float64.add (sumF64 values) n.asF64 := by
  simp [sumF64, Value.asF64]

/-- The sum of `i64`, unless some value is not one or the sum overflows. -/
def sumI64 (values : List (Value F)) : Option Int :=
  values.foldlM (fun acc v => v.asI64.bind (checkedAdd acc)) 0

omit [Float64 F] in
theorem sumI64_concat (values : List (Value F)) (v : Value F) :
    sumI64 (values ++ [v]) = (sumI64 values).bind fun acc => v.asI64.bind (checkedAdd acc) := by
  simp [sumI64]

omit [Float64 F] in
theorem sumI64_eq (values : List (Value F)) :
    sumI64 values =
      if values.all fun v => v.asI64.isSome then
        (values.filterMap Value.asI64).foldlM checkedAdd 0
      else none := by
  suffices h : ∀ acc : Int, values.foldlM (fun acc v => v.asI64.bind (checkedAdd acc)) acc =
      if values.all fun v => v.asI64.isSome then
        (values.filterMap Value.asI64).foldlM checkedAdd acc
      else none from h 0
  induction values with
  | nil => intro acc; rfl
  | cons v values ih =>
    intro acc
    cases hv : v.asI64 with
    | none => simp [hv]
    | some i =>
      cases hadd : checkedAdd acc i with
      | none => simp [hv, hadd]
      | some next => simp [hv, hadd, ih next]

theorem sumValues_eq (values : List (Value F)) (hne : values ≠ []) :
    sumValues values = ((sumI64 values).map ofI64).getD (ofFloat (sumF64 values)) := by
  simp only [sumValues, List.isEmpty_iff, hne, if_false, sumI64_eq]
  split
  · cases (values.filterMap Value.asI64).foldlM checkedAdd 0 <;> rfl
  · rfl

theorem accumulated_sum (values : List (Value F)) :
    ∃ int intOk, accumulated num .sum values =
        .sum int (sumF64 (values.filter Value.isNumber)) intOk
          !(values.filter Value.isNumber).isEmpty ∧
      sumI64 (values.filter Value.isNumber) = if intOk then some int else none := by
  induction values using List.reverseRecOn with
  | nil => exact ⟨0, true, rfl, rfl⟩
  | append_singleton values v ih =>
    obtain ⟨int, intOk, hacc, hsum⟩ := ih
    rw [accumulated_concat, hacc, List.filter_append]
    cases v with
    | number n =>
      simp only [List.filter_cons, Value.isNumber, if_true, List.filter_nil, sumF64_concat,
        sumI64_concat, hsum, Acc.update, Acc.updateSum]
      cases intOk with
      | false => exact ⟨int, false, by simp, by simp⟩
      | true =>
        cases hadd : n.asI64.bind (checkedAdd int) with
        | none => exact ⟨int, false, by simp, by simpa [Value.asI64] using hadd⟩
        | some next => exact ⟨next, true, by simp, by simpa [Value.asI64] using hadd⟩
    | _ => exact ⟨int, intOk, by simp [Acc.update, Acc.updateSum, Value.isNumber],
        by simpa [Value.isNumber] using hsum⟩

theorem accumulated_avg (values : List (Value F)) :
    accumulated num .avg values =
      .avg (sumF64 (values.filter Value.isNumber)) (values.filter Value.isNumber).length := by
  induction values using List.reverseRecOn with
  | nil => rfl
  | append_singleton values v ih =>
    rw [accumulated_concat, ih, List.filter_append]
    cases v with
    | number n => simp [List.filter_cons, Value.isNumber, Acc.update, sumF64_concat]
    | _ => simp [Value.isNumber, Acc.update]

theorem accumulated_extreme (kind : AggKind F) (hnew : Acc.new num kind = .extreme none)
    (values : List (Value F)) :
    accumulated num kind values =
      .extreme ((values.filter Value.isNumber).foldl
        (fun best v => Acc.updateExtreme kind best v) none) := by
  induction values using List.reverseRecOn with
  | nil => exact hnew
  | append_singleton values v ih =>
    rw [accumulated_concat, ih, List.filter_append, List.foldl_append]
    cases hv : v.isNumber with
    | true => cases kind <;> simp [hv, Acc.update]
    | false => cases kind <;> simp [hv, Acc.update, Acc.updateExtreme]

theorem foldl_updateExtreme (kind : AggKind F) {values : List (Value F)}
    (hnum : ∀ v ∈ values, v.isNumber = true) :
    (values.foldl (fun best v => Acc.updateExtreme kind best v) none).getD .null =
      extreme (Acc.wanted kind) values := by
  cases values with
  | nil => rfl
  | cons v values =>
    simp only [List.forall_mem_cons] at hnum
    suffices h : ∀ best, values.foldl (fun best v => Acc.updateExtreme kind best v) (some best) =
        some (values.foldl
          (fun best v => if compareValues v best = some (Acc.wanted kind) then v else best)
          best) by
      have hv : Acc.updateExtreme kind none v = some v := by simp [Acc.updateExtreme, hnum.1]
      rw [List.foldl_cons, hv, h]
      rfl
    obtain ⟨-, hnum⟩ := hnum
    induction values with
    | nil => intro best; rfl
    | cons w values ih =>
      intro best
      simp only [List.forall_mem_cons] at hnum
      simp only [List.foldl_cons, Acc.updateExtreme, hnum.1, if_true]
      rw [← ih hnum.2]
      congr 1
      split <;> rfl

theorem finish_accumulated {kind : AggKind F} (hkind : kind.isBasic = true)
    (values : List (Value F)) :
    (accumulated num kind values).finish num = kind.ofValues values := by
  have hnum : ∀ v ∈ values.filter Value.isNumber, v.isNumber = true := fun v hv =>
    (List.mem_filter.mp hv).2
  cases kind with
  | countAll => rw [accumulated_countAll]; rfl
  | count => rw [accumulated_count]; rfl
  | sum =>
    obtain ⟨int, intOk, hacc, hsum⟩ := accumulated_sum num values
    rw [hacc]
    cases hvalues : values.filter Value.isNumber with
    | nil => simp [Acc.finish, AggKind.ofValues, hvalues, sumValues]
    | cons v rest =>
      rw [← hvalues]
      simp only [AggKind.ofValues]
      rw [sumValues_eq _ (by simp [hvalues]), hsum]
      cases intOk <;> simp [Acc.finish, hvalues]
  | avg =>
    rw [accumulated_avg]
    cases hvalues : values.filter Value.isNumber <;>
      simp [Acc.finish, AggKind.ofValues, avgValues, hvalues]
  | min =>
    rw [accumulated_extreme num .min rfl]
    exact foldl_updateExtreme .min hnum
  | max =>
    rw [accumulated_extreme num .max rfl]
    exact foldl_updateExtreme .max hnum
  | _ => cases hkind

end

end Rekuiper.Sql
