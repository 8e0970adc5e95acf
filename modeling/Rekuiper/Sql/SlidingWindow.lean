import Rekuiper.Lib.MonotoneQueue
import Rekuiper.Sql.Refinement

/-!
# Sliding windows without rows

`SlidingIncrementalWindow`: accumulators that take a row in when it arrives and out when it
leaves the window. A group keeps the values of the row that opened it, also when that row has
left and when all rows of the group have.
-/

namespace Rekuiper.Sql

open Lib

variable {F : Type}

/-- Queues have their front first. -/
inductive SlidingAcc (F : Type)
  | count (n : Int) (entries : List (Int × Bool))
  | sum (intSum : Int) (floatSum : F) (floatCount validCount : Nat)
    (entries : List (Int × Option Int × Option F))
  | avg (total : F) (n : Nat) (entries : List (Int × Option F))
  | extreme (isMax : Bool) (monoDeque : List (Int × F × Value F))

def popOld {σ α : Type} (cutoffTs : Int) (remove : σ → α → σ) : σ → List (Int × α) →
    σ × List (Int × α)
  | s, [] => (s, [])
  | s, (ts, x) :: rest =>
    if ts < cutoffTs then popOld cutoffTs remove (remove s x) rest else (s, (ts, x) :: rest)

section
variable [Float64 F]

def ahead (isMax : Bool) (f g : F) : Bool := if isMax then Float64.le g f else Float64.le f g

def dominates (isMax : Bool) (entry back : Int × F × Value F) : Bool :=
  ahead isMax entry.2.1 back.2.1

/-- What is kept of a value for a sum: it as `i64` and as `f64`. -/
def sumEntry : Value F → Option Int × Option F
  | .number n => (n.asI64, some n.asF64)
  | _ => (none, none)

namespace SlidingAcc

def new : AggKind F → SlidingAcc F
  | .sum => .sum 0 (Float64.ofInt 0) 0 0 []
  | .avg => .avg (Float64.ofInt 0) 0 []
  | .min => .extreme false []
  | .max => .extreme true []
  | _ => .count 0 []

def pushSum (intSum : Int) (floatSum : F) (floatCount validCount : Nat)
    (entries : List (Int × Option Int × Option F)) (ts : Int) : Option Int × Option F → SlidingAcc F
  | (some i, some f) =>
    .sum (saturate (intSum + i)) (Float64.add floatSum f) floatCount (validCount + 1)
      (entries ++ [(ts, some i, some f)])
  | (none, some f) =>
    .sum intSum (Float64.add floatSum f) (floatCount + 1) (validCount + 1)
      (entries ++ [(ts, none, some f)])
  | (_, none) => .sum intSum floatSum floatCount validCount (entries ++ [(ts, none, none)])

def push (acc : SlidingAcc F) (kind : AggKind F) (ts : Int) (value : Option (Value F)) :
    SlidingAcc F :=
  match acc, kind with
  | .count n entries, .countAll => .count (n + 1) (entries ++ [(ts, true)])
  | .count n entries, _ =>
    let valid := value.any fun v => !v.isNull
    .count (if valid then n + 1 else n) (entries ++ [(ts, valid)])
  | .sum intSum floatSum floatCount validCount entries, _ =>
    pushSum intSum floatSum floatCount validCount entries ts (sumEntry (value.getD .null))
  | .avg total n entries, _ =>
    match value.bind Value.asF64 with
    | some f => .avg (Float64.add total f) (n + 1) (entries ++ [(ts, some f)])
    | none => .avg total n (entries ++ [(ts, none)])
  | .extreme isMax monoDeque, _ =>
    match value with
    | some (.number v) =>
      .extreme isMax (pushBack (dominates isMax) monoDeque (ts, v.asF64, .number v))
    | _ => .extreme isMax monoDeque

def removeSum (s : Int × F × Nat × Nat) : Option Int × Option F → Int × F × Nat × Nat
  | (_, none) => s
  | (some i, some f) => (saturate (s.1 - i), Float64.sub s.2.1 f, s.2.2.1, s.2.2.2 - 1)
  | (none, some f) => (s.1, Float64.sub s.2.1 f, s.2.2.1 - 1, s.2.2.2 - 1)

def resetSum (s : Int × F × Nat × Nat) : Int × F × Nat × Nat :=
  if s.2.2.2 = 0 then (0, Float64.ofInt 0, 0, 0) else s

def removeAvg (s : F × Nat) : Option F → F × Nat
  | some f => (Float64.sub s.1 f, s.2 - 1)
  | none => s

def resetAvg (s : F × Nat) : F × Nat := if s.2 = 0 then (Float64.ofInt 0, 0) else s

def evictBefore (cutoffTs : Int) : SlidingAcc F → SlidingAcc F
  | .count n entries =>
    let (n, entries) := popOld cutoffTs (fun n valid => if valid then n - 1 else n) n entries
    .count n entries
  | .sum intSum floatSum floatCount validCount entries =>
    let (s, entries) :=
      popOld cutoffTs removeSum (intSum, floatSum, floatCount, validCount) entries
    let (intSum, floatSum, floatCount, validCount) := resetSum s
    .sum intSum floatSum floatCount validCount entries
  | .avg total n entries =>
    let (s, entries) := popOld cutoffTs removeAvg (total, n) entries
    let (total, n) := resetAvg s
    .avg total n entries
  | .extreme isMax monoDeque =>
    .extreme isMax (monoDeque.dropWhile fun entry => entry.1 < cutoffTs)

def currentValue : SlidingAcc F → Value F
  | .count n _ => ofI64 n
  | .sum intSum floatSum floatCount validCount _ =>
    if validCount = 0 then .null else if floatCount = 0 then ofI64 intSum else ofFloat floatSum
  | .avg total n _ => if n = 0 then .null else ofFloat (Float64.div total (Float64.ofInt n))
  | .extreme _ monoDeque => (monoDeque.head?.map fun entry => entry.2.2).getD .null

def isActive : SlidingAcc F → Bool
  | .count n _ => 0 < n
  | .sum _ _ _ validCount _ => 0 < validCount
  | .avg _ n _ => 0 < n
  | .extreme _ monoDeque => !monoDeque.isEmpty

end SlidingAcc

-- ---- The window

structure SlidingGroup (F : Type) where
  groupValues : List (Value F)
  firsts : List (Value F)
  accs : List (SlidingAcc F)

structure SlidingIncrementalWindow (F : Type) where
  whereClause : Option (Expr F)
  groupBy : List (Expr F)
  groupNames : List String
  plans : List (Plan F)
  orderStmt : SelectStmt F
  groups : List (String × SlidingGroup F)

def Plan.isInvertible : Plan F → Bool
  | .agg _ kind _ =>
    match kind with
    | .stddev | .stddevs | .var | .vars | .median | .percentile _ => false
    | _ => true
  | .first _ _ => true

namespace SlidingIncrementalWindow

def tryNew (stmt : SelectStmt F) : Option (SlidingIncrementalWindow F) :=
  (IncrementalWindow.tryNew stmt : Option (IncrementalWindow F Unit)).bind fun base =>
    if base.plans.any fun plan => !plan.isInvertible then none
    else
      some { whereClause := base.whereClause, groupBy := base.groupBy,
             groupNames := base.groupNames, plans := base.plans, orderStmt := base.orderStmt,
             groups := [] }

def newAcc : Plan F → SlidingAcc F
  | .first _ _ => .new .count
  | .agg _ kind _ => .new kind

def newGroup (env : Env F) (w : SlidingIncrementalWindow F) (row : Row F) :
    Except Failure (SlidingGroup F) := do
  let groupValues ← w.groupBy.mapM (groupValue env row)
  let firsts ← w.plans.mapM (IncrementalWindow.firstValue env row)
  return { groupValues, firsts, accs := w.plans.map newAcc }

def pushAcc (env : Env F) (ts : Int) (row : Row F) (entry : Plan F × SlidingAcc F) :
    Except Failure (SlidingAcc F) :=
  match entry with
  | (.first _ _, acc) => .ok acc
  | (.agg _ kind none, acc) => .ok (acc.push kind ts none)
  | (.agg _ kind (some e), acc) => do
    let value ← groupValue env row e
    return acc.push kind ts (some value)

def accepts (env : Env F) (w : SlidingIncrementalWindow F) (row : Row F) : Except Failure Bool :=
  match w.whereClause with
  | some condition => evalBool env row condition
  | none => .ok true

def groupFor (env : Env F) (w : SlidingIncrementalWindow F) (key : String) (row : Row F) :
    Except Failure (SlidingGroup F) :=
  match w.groups.lookup key with
  | some group => .ok group
  | none => newGroup env w row

/-- Takes in a row that `WHERE` accepted. -/
def addRow (env : Env F) (w : SlidingIncrementalWindow F) (ts : Int) (row : Row F) :
    Except Failure (SlidingIncrementalWindow F) := do
  let key ← groupKey env w.groupBy row
  let group ← groupFor env w key row
  let accs ← (w.plans.zip group.accs).mapM (pushAcc env ts row)
  return { w with groups := put key { group with accs } w.groups }

def push (env : Env F) (w : SlidingIncrementalWindow F) (ts : Int) (row : Row F) :
    Except Failure (SlidingIncrementalWindow F × Bool) := do
  if ← w.accepts env row then
    let w ← addRow env w ts row
    return (w, true)
  else return (w, false)

def evictBefore (w : SlidingIncrementalWindow F) (cutoffTs : Int) : SlidingIncrementalWindow F :=
  { w with
    groups := w.groups.map fun g =>
      (g.1, { g.2 with accs := g.2.accs.map (SlidingAcc.evictBefore cutoffTs) }) }

def isShown (group : SlidingGroup F) : Bool :=
  group.accs.any SlidingAcc.isActive || group.accs.isEmpty

def planColumn (row : Row F) : Plan F × Value F × SlidingAcc F → Row F
  | (.first name _, first, _) => row.orInsert name first
  | (.agg name _ _, _, acc) => row.insert name acc.currentValue

def outputRow (w : SlidingIncrementalWindow F) (group : SlidingGroup F) : Row F :=
  let columns := (w.groupNames.zip group.groupValues).foldl (fun row c => row.insert c.1 c.2) ∅
  (w.plans.zip (group.firsts.zip group.accs)).foldl planColumn columns

def snapshot (env : Env F) (w : SlidingIncrementalWindow F) : Except Failure (List (Row F)) :=
  applyOrderLimit env w.orderStmt
    ((w.groups.filter fun g => isShown g.2).map fun g => outputRow w g.2)

def slide (env : Env F) (length : Nat) (w : SlidingIncrementalWindow F)
    (arrival : Int × Row F) : Except Failure (SlidingIncrementalWindow F) :=
  (push env (w.evictBefore (saturate (arrival.1 - length))) arrival.1 arrival.2).map Prod.fst

def slideAll (env : Env F) (length : Nat) (w : SlidingIncrementalWindow F)
    (arrivals : List (Int × Row F)) : Except Failure (SlidingIncrementalWindow F) :=
  arrivals.foldlM (slide env length) w

end SlidingIncrementalWindow

end

end Rekuiper.Sql
