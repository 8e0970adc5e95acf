import Rekuiper.Sql.Incremental
import Rekuiper.Sql.Laws
import Rekuiper.Pipeline.Record

/-!
# Accumulators against buffered rows

When an incremental window gives the rows that `eval_window` gives. Both fill the row of
a group column by column; they differ in the group columns, in what a minimum or maximum
looks at, and in how a plain argument is read.
-/

namespace Rekuiper.Sql

open Lib

variable {F S : Type}

-- ---- Columns

inductive Column (F : Type)
  | plain (name : String) (value : Value F)
  | aggregate (name : String) (value : Value F)

namespace Column

def write (row : Row F) : Column F → Row F
  | .plain name value => row.orInsert name value
  | .aggregate name value => row.insert name value

def aggregateNamed (key : String) : List (Column F) → Option (Value F)
  | [] => none
  | .plain _ _ :: rest => aggregateNamed key rest
  | .aggregate name value :: rest =>
    (aggregateNamed key rest).or (if key = name then some value else none)

def plainNamed (key : String) : List (Column F) → Option (Value F)
  | [] => none
  | .plain name value :: rest =>
    (if key = name then some value else none).or (plainNamed key rest)
  | .aggregate _ _ :: rest => plainNamed key rest

theorem lookup_write (columns : List (Column F)) (row : Row F) (key : String) :
    (columns.foldl write row).lookup key =
      (aggregateNamed key columns).or ((row.lookup key).or (plainNamed key columns)) := by
  induction columns generalizing row with
  | nil => simp [aggregateNamed, plainNamed]
  | cons column columns ih =>
    rw [List.foldl_cons, ih]
    cases column with
    | plain name value =>
      simp only [write, HashMap.lookup_orInsert, aggregateNamed, plainNamed, Option.or_assoc]
    | aggregate name value =>
      simp only [write, aggregateNamed, plainNamed]
      by_cases h : key = name
      · subst key
        rw [AList.lookup_insert, if_pos rfl]
        cases aggregateNamed name columns <;> simp
      · rw [AList.lookup_insert_ne h, if_neg h, Option.or_none]

end Column

def SameRow (row row' : Row F) : Prop := ∀ key, row.lookup key = row'.lookup key

theorem sameRow_write {columns : List (Column F)} {row : Row F}
    (h : ∀ key value, row.lookup key = some value →
      (Column.aggregateNamed key columns).isSome ∨ Column.plainNamed key columns = some value) :
    SameRow (columns.foldl Column.write row) (columns.foldl Column.write ∅) := by
  intro key
  rw [Column.lookup_write, Column.lookup_write, AList.lookup_empty, Option.none_or]
  cases hrow : row.lookup key with
  | none => rfl
  | some value =>
    rcases h key value hrow with haggregate | hplain
    · obtain ⟨v, hv⟩ := Option.isSome_iff_exists.mp haggregate
      rw [hv, Option.some_or, Option.some_or]
    · rw [hplain, Option.some_or]

section
variable [Float64 F]

-- ---- Evaluations that return

def valueAt (env : Env F) (e : Expr F) (row : Row F) : Value F :=
  match groupValue env row e with
  | .ok v => v
  | .error _ => .null

def passes (env : Env F) (stmt : SelectStmt F) (row : Row F) : Bool :=
  match passesWhere env stmt row with
  | .ok b => b
  | .error _ => false

def keyAt (env : Env F) (groupBy : List (Expr F)) (row : Row F) : String :=
  String.join (groupBy.map fun e => writeGroupKey env (valueAt env e row))

def windowGroups (env : Env F) (stmt : SelectStmt F) (rows : List (Row F)) :
    List (String × List (Row F)) :=
  groupOn (keyAt env stmt.groupBy) (rows.filter (passes env stmt))

variable {env : Env F} {proj : Projection F} {stmt : SelectStmt F}

theorem groupValue_ok {e : Expr F} {row : Row F} (h : ∃ v, groupValue env row e = .ok v) :
    groupValue env row e = .ok (valueAt env e row) := by
  obtain ⟨v, hv⟩ := h
  rw [valueAt, hv]

theorem passesWhere_ok {row : Row F} (h : ∃ b, passesWhere env stmt row = .ok b) :
    passesWhere env stmt row = .ok (passes env stmt row) := by
  obtain ⟨b, hb⟩ := h
  rw [passes, hb]

theorem groupKey_ok {groupBy : List (Expr F)} {row : Row F}
    (h : ∀ e ∈ groupBy, ∃ v, groupValue env row e = .ok v) :
    groupKey env groupBy row = .ok (keyAt env groupBy row) := by
  unfold groupKey
  rw [mapM_ok fun e he => groupValue_ok (h e he)]
  simp [bind, Except.bind, pure, Except.pure, keyAt, Function.comp_def]

theorem partitionKeyedGroups_ok {groupBy : List (Expr F)} {rows : List (Row F)}
    (h : ∀ row ∈ rows, ∀ e ∈ groupBy, ∃ v, groupValue env row e = .ok v) :
    partitionKeyedGroups env groupBy rows = .ok (groupOn (keyAt env groupBy) rows) := by
  unfold partitionKeyedGroups groupOn
  exact foldlM_ok fun groups row hrow => by
    rw [groupKey_ok (h row hrow)]
    rfl

-- ---- Aggregates of the buffered rows

/-- A minimum or maximum looks at numbers only, unless there is none among the values. -/
def NumbersOrNulls (values : List (Value F)) : Prop :=
  (∃ v ∈ values, v.isNumber = true) ∨ ∀ v ∈ values, v.isNull = true

theorem extremeValues_eq {wanted : Ordering} {values : List (Value F)}
    (h : NumbersOrNulls values) :
    extremeValues wanted values = extreme wanted (values.filter Value.isNumber) := by
  have hsub : (values.filter fun v => !v.isNull).filter Value.isNumber =
      values.filter Value.isNumber := by
    rw [List.filter_filter]
    refine List.filter_congr fun v _ => ?_
    cases v <;> rfl
  unfold extremeValues
  simp only [hsub]
  split
  · rfl
  · rename_i hany
    rcases h with ⟨v, hv, hnumber⟩ | hnull
    · refine absurd (List.any_eq_true.mpr ⟨v, List.mem_filter.mpr ⟨hv, ?_⟩, hnumber⟩) hany
      cases v <;> first | rfl | cases hnumber
    · have hnone : (values.filter fun v => !v.isNull) = [] := by
        simpa using hnull
      rw [hnone, ← hsub, hnone]
      rfl

omit [Float64 F] in
theorem isAggregateCall_of_aggKind {function : String} {kind : AggKind F}
    (h : aggKind (toAsciiLowercase function) = some kind) : isAggregateCall function = true := by
  unfold aggKind at h
  unfold isAggregateCall
  split at h <;> cases h
  all_goals
    rename_i hname
    rw [hname]
    rfl

section
variable {arg : Expr F} {records : List (Row F)} (hwild : arg ≠ .wildcard)
  (hargs : ∀ row ∈ records, evalVal env row arg = .ok (valueAt env arg row))
include hwild hargs

theorem aggCount_ok :
    aggCount env [arg] records =
      .ok (ofI64 ((records.map (valueAt env arg)).countP fun v => !v.isNull)) := by
  have hvalues := mapM_ok hargs
  cases arg with
  | wildcard => exact absurd rfl hwild
  | _ =>
    rw [aggCount, hvalues]
    · rfl
    · nofun

theorem aggValues_ok (result : List (Value F) → Value F) :
    aggValues result env [arg] records = .ok (result (records.map (valueAt env arg))) := by
  have hvalues := mapM_ok hargs
  cases arg with
  | wildcard => exact absurd rfl hwild
  | _ =>
    rw [aggValues, hvalues]
    · rfl
    · nofun

theorem evalAggregateCall_ok {function : String} {kind : AggKind F}
    (hkind : aggKind (toAsciiLowercase function) = some kind) (hbasic : kind.isBasic = true)
    (hextreme : kind = .min ∨ kind = .max → NumbersOrNulls (records.map (valueAt env arg))) :
    evalAggregateCall env proj function [arg] records =
      .ok (kind.ofValues (records.map (valueAt env arg))) := by
  unfold aggKind at hkind
  unfold evalAggregateCall
  split at hkind <;> cases hkind <;> try cases hbasic
  all_goals
    rename_i hname
    rw [hname]
  · exact aggCount_ok hwild hargs
  · exact aggValues_ok hwild hargs _
  · exact aggValues_ok hwild hargs _
  · rw [AggKind.ofValues, ← extremeValues_eq (hextreme (.inl rfl))]
    exact aggValues_ok hwild hargs _
  · rw [AggKind.ofValues, ← extremeValues_eq (hextreme (.inr rfl))]
    exact aggValues_ok hwild hargs _

end

-- ---- The buffered row of a group

/-- A plain column, `count(*)`, `count`, `sum`, `avg`, `min` or `max`. -/
def Plan.isBasic : Plan F → Bool
  | .first _ _ => true
  | .agg _ kind arg =>
    match arg with
    | some _ => kind.isBasic
    | none => match kind with
      | .countAll => true
      | _ => false

def Plan.columnOf (env : Env F) (first : Row F) (group : List (Row F)) : Plan F → Column F
  | .first name e => .plain name (valueAt env e first)
  | .agg name _ none => .aggregate name (ofI64 group.length)
  | .agg name kind (some e) => .aggregate name (kind.ofValues (group.map (valueAt env e)))

/-- The accumulators read what the buffered evaluator reads: a plain column is not `t.*`, an
argument does not fall back on the bounds of the window, and the values of a minimum or
maximum have a number among them or are all `NULL`. -/
def Plan.Comparable (env : Env F) (first : Row F) (group : List (Row F)) : Plan F → Prop
  | .first _ e => (∀ parent, e ≠ .fieldAccess parent "*") ∧ ∃ v, groupValue env first e = .ok v
  | .agg _ _ none => True
  | .agg _ kind (some e) =>
    (∀ row ∈ group, ∃ v, groupValue env row e = .ok v ∧ evalVal env row e = .ok v) ∧
      (kind = .min ∨ kind = .max → NumbersOrNulls (group.map (valueAt env e)))

theorem evalVal_ok {e : Expr F} {row : Row F}
    (h : ∃ v, groupValue env row e = .ok v ∧ evalVal env row e = .ok v) :
    evalVal env row e = .ok (valueAt env e row) := by
  obtain ⟨v, hgroup, heval⟩ := h
  rw [heval, valueAt, hgroup]

theorem aggregateField_fieldAccess {parent : Expr F} {leaf : String} {idx : Nat} {first : Row F}
    {rest : List (Row F)} (hstar : leaf ≠ "*")
    (h : ∃ v, groupValue env first (.fieldAccess parent leaf) = .ok v) (output : Row F) :
    aggregateField env proj stmt (first :: rest) output (.fieldAccess parent leaf, idx) =
      .ok (output.orInsert (selectFieldNameAt stmt idx (.fieldAccess parent leaf))
        (valueAt env (.fieldAccess parent leaf) first)) := by
  have heval : evalVal env first (.fieldAccess parent leaf) = _ := groupValue_ok h
  simp only [aggregateField, HashMap.orInsert, heval]
  split
  · rfl
  · rfl

theorem aggregateField_call {function : String} {args : List (Expr F)} {idx : Nat}
    {records : List (Row F)} {value : Value F} (hcall : isAggregateCall function = true)
    (hvalue : evalAggregateCall env proj function args records = .ok value) (output : Row F) :
    aggregateField env proj stmt records output (.call function args, idx) =
      .ok (output.insert (selectFieldNameAt stmt idx (.call function args)) value) := by
  simp only [aggregateField, hcall, if_true, hvalue]
  rfl

theorem percentileKind_eq {lowered : String} {level : Expr F} {kind : AggKind F}
    (h : percentileKind lowered level = some kind) : ∃ p, kind = .percentile p := by
  unfold percentileKind at h
  split at h
  · split at h
    · simp only [Option.ite_none_right_eq_some] at h
      exact ⟨_, (Option.some.inj h.2).symm⟩
    · cases h
  · cases h

theorem aggregateField_ok {e : Expr F} {idx : Nat} {plan : Plan F} {first : Row F}
    {rest : List (Row F)} (hplan : fieldPlan (selectFieldNameAt stmt idx e) e = some plan)
    (hbasic : plan.isBasic = true) (h : plan.Comparable env first (first :: rest))
    (output : Row F) :
    aggregateField env proj stmt (first :: rest) output (e, idx) =
      .ok ((plan.columnOf env first (first :: rest)).write output) := by
  unfold fieldPlan at hplan
  split at hplan
  · cases hplan
    rfl
  · split at hplan
    · cases hplan
    · cases hplan
      obtain ⟨hstar, hvalue⟩ := h
      exact aggregateField_fieldAccess (fun heq => hstar _ (by rw [heq])) hvalue output
  · split at hplan
    · rename_i hcount
      cases hplan
      refine aggregateField_call (by simp [isAggregateCall, hcount]) ?_ output
      simp only [evalAggregateCall, hcount]
      rfl
    · cases hplan
  · rename_i function arg hwild
    split at hplan
    · cases hplan
    · obtain ⟨kind, hkind, rfl⟩ := Option.map_eq_some_iff.mp hplan
      obtain ⟨hargs, hextreme⟩ := h
      exact aggregateField_call (isAggregateCall_of_aggKind hkind)
        (evalAggregateCall_ok (by simpa using hwild)
          (fun row hrow => evalVal_ok (hargs row hrow)) hkind hbasic hextreme) output
  · rename_i function arg level
    split at hplan
    · cases hplan
    · split at hplan
      · cases hplan
      · obtain ⟨kind, hkind, rfl⟩ := Option.map_eq_some_iff.mp hplan
        obtain ⟨p, rfl⟩ := percentileKind_eq hkind
        cases hbasic
  · cases hplan

theorem foldlM_aggregateField {first : Row F} {rest : List (Row F)}
    {fields : List (Expr F × Nat)} {plans : List (Plan F)}
    (hplans : fields.mapM (fun (e, idx) => fieldPlan (selectFieldNameAt stmt idx e) e) =
      some plans)
    (hbasic : ∀ plan ∈ plans, plan.isBasic = true)
    (h : ∀ plan ∈ plans, plan.Comparable env first (first :: rest)) (output : Row F) :
    fields.foldlM (aggregateField env proj stmt (first :: rest)) output =
      .ok ((plans.map (Plan.columnOf env first (first :: rest))).foldl Column.write output) := by
  induction fields generalizing plans output with
  | nil =>
    cases hplans
    rfl
  | cons entry fields ih =>
    obtain ⟨e, idx⟩ := entry
    rw [List.mapM_cons] at hplans
    obtain ⟨plan, hplan, hplans⟩ := Option.bind_eq_some_iff.mp hplans
    obtain ⟨plans, htail, hplans⟩ := Option.bind_eq_some_iff.mp hplans
    cases hplans
    simp only [List.forall_mem_cons] at hbasic h
    rw [List.foldlM_cons, aggregateField_ok hplan hbasic.1 h.1]
    exact ih htail hbasic.2 h.2 _

/-- The clauses of a statement with an incremental plan. -/
structure Plans (stmt : SelectStmt F) (plans : List (Plan F)) : Prop where
  setOp : stmt.setOp = none
  having : stmt.having = none
  grouped : isGroupedWindow stmt = true
  fields : stmt.fields.zipIdx.mapM (fun (e, idx) => fieldPlan (selectFieldNameAt stmt idx e) e) =
    some plans

theorem plans_of_incrementalPlans {plans : List (Plan F)}
    (h : incrementalPlans stmt = some plans) : Plans stmt plans := by
  unfold incrementalPlans at h
  split at h
  · cases h
  · rename_i hclauses
    simp only [Bool.or_eq_true, Bool.not_eq_true', not_or, Bool.not_eq_true, Option.isSome_eq_false_iff,
      Option.isNone_iff_eq_none, Bool.not_eq_false] at hclauses
    obtain ⟨⟨⟨⟨hset, -⟩, hhaving⟩, hgrouped⟩, -⟩ := hclauses
    exact ⟨hset, hhaving, hgrouped, h⟩

omit [Float64 F] in
theorem branches_single (h : stmt.setOp = none) : branches stmt = [stmt] := by
  cases stmt
  cases h
  rfl

theorem evalAggregate_ok {plans : List (Plan F)} {first : Row F} {rest : List (Row F)}
    (hplans : Plans stmt plans) (hbasic : ∀ plan ∈ plans, plan.isBasic = true)
    (h : ∀ plan ∈ plans, plan.Comparable env first (first :: rest)) :
    evalAggregate env proj stmt (first :: rest) =
      .ok (some ((plans.map (Plan.columnOf env first (first :: rest))).foldl Column.write ∅)) := by
  unfold evalAggregate
  rw [branches_single hplans.setOp, List.mapM_cons, aggregateBranch,
    foldlM_aggregateField hplans.fields hbasic h, hplans.having]
  rfl

-- ---- The accumulated row of a group

section
variable (env) (num : Numerics F S)

def firstAt (row : Row F) : Plan F → Value F
  | .first _ e => valueAt env e row
  | .agg _ _ _ => .null

def accAt (row : Row F) (entry : Plan F × Acc F S) : Acc F S :=
  match entry with
  | (.first _ _, acc) => acc
  | (.agg _ kind none, acc) => acc.update num kind none
  | (.agg _ kind (some e), acc) => acc.update num kind (some (valueAt env e row))

variable (w : IncrementalWindow F S)

def groupOpened (row : Row F) : Group F S where
  groupValues := w.groupBy.map fun e => valueAt env e row
  firsts := w.plans.map (firstAt env row)
  accs := w.plans.map (IncrementalWindow.newAcc num)

def groupWith (row : Row F) (group : Group F S) : Group F S :=
  { group with accs := (w.plans.zip group.accs).map (accAt env num row) }

def groupOfRows : List (Row F) → Group F S :=
  summary (groupOpened env num w) (groupWith env num w) ⟨[], [], []⟩

omit [Float64 F] in
theorem zip_map_self {α β : Type} (f : α → β) (xs : List α) :
    xs.zip (xs.map f) = xs.map fun x => (x, f x) := by
  simpa using List.zip_map' (f := id) (g := f) (l := xs)

theorem foldl_groupWith (rows : List (Row F)) {group : Group F S} {accs : Plan F → Acc F S}
    (h : group.accs = w.plans.map accs) :
    rows.foldl (fun group row => groupWith env num w row group) group =
      ⟨group.groupValues, group.firsts, w.plans.map fun plan =>
        rows.foldl (fun acc row => accAt env num row (plan, acc)) (accs plan)⟩ := by
  induction rows generalizing group accs with
  | nil => simp [← h]
  | cons row rows ih =>
    have hnext : (groupWith env num w row group).accs =
        w.plans.map fun plan => accAt env num row (plan, accs plan) := by
      rw [groupWith, h, zip_map_self, List.map_map]
      rfl
    rw [List.foldl_cons, ih hnext]
    rfl

theorem groupOfRows_cons (first : Row F) (rest : List (Row F)) :
    groupOfRows env num w (first :: rest) =
      ⟨w.groupBy.map fun e => valueAt env e first, w.plans.map (firstAt env first),
        w.plans.map fun plan =>
          (first :: rest).foldl (fun acc row => accAt env num row (plan, acc))
            (IncrementalWindow.newAcc num plan)⟩ :=
  foldl_groupWith env num w (first :: rest) rfl

theorem foldl_countAll (rows : List (Row F)) (n : Int) :
    rows.foldl (fun acc _ => acc.update num .countAll none) (.count n : Acc F S) =
      .count (n + rows.length) := by
  induction rows generalizing n with
  | nil => simp
  | cons row rows ih =>
    rw [List.foldl_cons, Acc.update, ih, List.length_cons]
    congr 1
    push_cast
    ring

theorem planColumn_eq {plan : Plan F} (hbasic : plan.isBasic = true) (first : Row F)
    (rows : List (Row F)) (row : Row F) :
    IncrementalWindow.planColumn num row (plan, firstAt env first plan,
        rows.foldl (fun acc row => accAt env num row (plan, acc))
          (IncrementalWindow.newAcc num plan)) =
      (plan.columnOf env first rows).write row := by
  rcases plan with ⟨name, e⟩ | ⟨name, kind, _ | e⟩
  · rfl
  · cases kind <;> cases hbasic
    have hacc := foldl_countAll num rows 0
    simp only [zero_add] at hacc
    simp only [accAt, IncrementalWindow.newAcc, Acc.new, IncrementalWindow.planColumn, hacc]
    rfl
  · have hacc : rows.foldl (fun acc row => accAt env num row (.agg name kind (some e), acc))
        (IncrementalWindow.newAcc num (.agg name kind (some e))) =
        accumulated num kind (rows.map (valueAt env e)) := by
      rw [accumulated, List.foldl_map]
      rfl
    rw [hacc, IncrementalWindow.planColumn, finish_accumulated num hbasic]
    rfl

def groupColumns (first : Row F) : Row F :=
  (w.groupNames.zip (w.groupBy.map fun e => valueAt env e first)).foldl
    (fun row c => row.insert c.1 c.2) ∅

theorem outputRow_eq (hbasic : ∀ plan ∈ w.plans, plan.isBasic = true) (first : Row F)
    (rest : List (Row F)) :
    w.outputRow num (groupOfRows env num w (first :: rest)) =
      (w.plans.map (Plan.columnOf env first (first :: rest))).foldl Column.write
        (groupColumns env w first) := by
  rw [groupOfRows_cons, IncrementalWindow.outputRow]
  simp only [List.zip_map', zip_map_self, List.foldl_map]
  exact List.foldl_ext _ _ _ fun row plan hplan =>
    planColumn_eq env num (hbasic plan hplan) first (first :: rest) row

-- ---- Pushing rows

variable {env num w}

/-- The expressions that a row is read by return, and so do those that only the first row
of a group is read by. -/
structure Readable (env : Env F) (w : IncrementalWindow F S) (row : Row F) (opens : Prop) :
    Prop where
  keys : ∀ e ∈ w.groupBy, ∃ v, groupValue env row e = .ok v
  args : ∀ name kind e, .agg name kind (some e) ∈ w.plans → ∃ v, groupValue env row e = .ok v
  firsts : opens → ∀ name e, .first name e ∈ w.plans → ∃ v, groupValue env row e = .ok v

theorem newGroup_ok {row : Row F} (h : Readable env w row True) :
    w.newGroup env num row = .ok (groupOpened env num w row) := by
  have hfirsts : ∀ plan ∈ w.plans,
      IncrementalWindow.firstValue env row plan = .ok (firstAt env row plan) := by
    intro plan hplan
    cases plan with
    | first name e => exact groupValue_ok (h.firsts trivial name e hplan)
    | agg name kind arg => rfl
  unfold IncrementalWindow.newGroup
  rw [mapM_ok fun e he => groupValue_ok (h.keys e he), mapM_ok hfirsts]
  rfl

theorem updateAccs_ok {row : Row F} {opens : Prop} (h : Readable env w row opens)
    (accs : List (Acc F S)) :
    (w.plans.zip accs).mapM (IncrementalWindow.updateAcc env num row) =
      .ok ((w.plans.zip accs).map (accAt env num row)) := by
  refine mapM_ok fun entry hentry => ?_
  obtain ⟨plan, acc⟩ := entry
  have hplan : plan ∈ w.plans := (List.of_mem_zip hentry).1
  match plan with
  | .first name e => rfl
  | .agg name kind none => rfl
  | .agg name kind (some e) =>
    simp only [IncrementalWindow.updateAcc, groupValue_ok (h.args name kind e hplan)]
    rfl

theorem addRow_ok {row : Row F}
    (h : Readable env w row (w.groups.lookup (keyAt env w.groupBy row) = none)) :
    w.addRow env num row =
      .ok { w with
        groups := put (keyAt env w.groupBy row)
          (groupWith env num w row
            ((w.groups.lookup (keyAt env w.groupBy row)).getD (groupOpened env num w row)))
          w.groups } := by
  have hgroup : w.groupFor env num (keyAt env w.groupBy row) row =
      .ok ((w.groups.lookup (keyAt env w.groupBy row)).getD (groupOpened env num w row)) := by
    unfold IncrementalWindow.groupFor
    cases hlookup : w.groups.lookup (keyAt env w.groupBy row) with
    | some group => rfl
    | none => exact newGroup_ok ⟨h.keys, h.args, fun _ => h.firsts hlookup⟩
  unfold IncrementalWindow.addRow
  rw [groupKey_ok h.keys]
  simp only [bind, Except.bind, hgroup, updateAccs_ok h]
  rfl

end

-- ---- Order and limit

omit [Float64 F] in
theorem ownedByOther_sameRow {row row' : Row F} (h : SameRow row row') (parent leaf : String) :
    ownedByOther row parent leaf = ownedByOther row' parent leaf := by
  have hmem : ∀ entry, entry ∈ row.entries ↔ entry ∈ row'.entries := by
    rintro ⟨key, value⟩
    rw [← AList.mem_lookup_iff, ← AList.mem_lookup_iff, h key]
  unfold ownedByOther
  rw [Bool.eq_iff_iff, List.any_eq_true, List.any_eq_true]
  exact exists_congr fun entry => and_congr_left fun _ => hmem entry

theorem evalVal_sameRow {row row' : Row F} (h : SameRow row row') (e : Expr F) :
    evalVal env row e = evalVal env row' e := by
  unfold evalVal
  rw [evalExpr_congr env ⟨fun key _ => h key, fun parent leaf _ _ => ownedByOther_sameRow h parent leaf⟩]

theorem compareRows_sameRow (items : List (OrderByItem F × Nat)) {a b a' b' : Row F}
    (ha : SameRow a a') (hb : SameRow b b') :
    compareRows env items a b = compareRows env items a' b' := by
  induction items with
  | nil => rfl
  | cons item items ih =>
    have hvalue : ∀ {row row' : Row F}, SameRow row row' →
        orderValue env row item.1.expr item.2 = orderValue env row' item.1.expr item.2 := by
      intro row row' h
      simp only [orderValue, evalVal_sameRow h, h _]
    simp only [compareRows, hvalue ha, hvalue hb, ih]

theorem applyOrderLimit_outcome {rows rows' : List (Row F)} (h : List.Forall₂ SameRow rows rows') :
    Outcome (List.Forall₂ SameRow) (applyOrderLimit env stmt rows)
      (applyOrderLimit env stmt rows') := by
  refine Outcome.bind (x := orderRows env stmt rows) (R := List.Forall₂ SameRow) ?_
    fun sorted sorted' hsorted => .ok ?_
  · unfold orderRows
    rw [h.length_eq]
    split
    · exact sortBy_outcome (fun a b a' b' ha hb => compareRows_sameRow _ ha hb) h
    · exact .ok h
  · cases stmt.limit with
    | none => exact hsorted
    | some limit => exact List.forall₂_take limit hsorted

-- ---- Whole windows

def Plan.plainNamed (key : String) : List (Plan F) → Option (Expr F)
  | [] => none
  | .first name e :: rest => if key = name then some e else plainNamed key rest
  | .agg _ _ _ :: rest => plainNamed key rest

/-- When both windows give the same rows: no evaluation panics, the plans of every group are
comparable, and every group column shows under the name of an aggregate, or is what the
first plain column of its name is. -/
structure Agrees (env : Env F) (stmt : SelectStmt F) (w : IncrementalWindow F S)
    (rows : List (Row F)) : Prop where
  wheres : ∀ row ∈ rows, ∃ b, passesWhere env stmt row = .ok b
  keys : ∀ row ∈ rows.filter (passes env stmt), ∀ e ∈ stmt.groupBy,
    ∃ v, groupValue env row e = .ok v
  plans : ∀ key first rest, (key, first :: rest) ∈ windowGroups env stmt rows →
    ∀ plan ∈ w.plans, plan.Comparable env first (first :: rest)
  columns : ∀ key first rest, (key, first :: rest) ∈ windowGroups env stmt rows →
    ∀ name value, (groupColumns env w first).lookup name = some value →
      (∃ kind arg, .agg name kind arg ∈ w.plans) ∨
        ∃ e, Plan.plainNamed name w.plans = some e ∧ valueAt env e first = value

variable {num : Numerics F S} {w : IncrementalWindow F S} {rows : List (Row F)}

theorem plainNamed_map (key : String) (first : Row F) (group : List (Row F))
    (plans : List (Plan F)) :
    Column.plainNamed key (plans.map (Plan.columnOf env first group)) =
      (Plan.plainNamed key plans).map fun e => valueAt env e first := by
  induction plans with
  | nil => rfl
  | cons plan plans ih =>
    match plan with
    | .first name e =>
      simp only [List.map_cons, Plan.columnOf, Column.plainNamed, Plan.plainNamed, ih]
      split <;> rfl
    | .agg name kind none => exact ih
    | .agg name kind (some e) => exact ih

theorem aggregateNamed_map {key : String} {plans : List (Plan F)} {kind : AggKind F}
    {arg : Option (Expr F)} (h : .agg key kind arg ∈ plans) (first : Row F)
    (group : List (Row F)) :
    (Column.aggregateNamed key (plans.map (Plan.columnOf env first group))).isSome := by
  induction plans with
  | nil => cases h
  | cons plan plans ih =>
    rcases List.mem_cons.mp h with rfl | hrest
    · cases arg <;> simp [Plan.columnOf, Column.aggregateNamed]
    · match plan with
      | .first name e => exact ih hrest
      | .agg name kind none =>
        simp [Plan.columnOf, Column.aggregateNamed, ih hrest]
      | .agg name kind (some e) =>
        simp [Plan.columnOf, Column.aggregateNamed, ih hrest]

theorem sameRow_group (h : Agrees env stmt w rows) {key : String} {first : Row F}
    {rest : List (Row F)} (hgroup : (key, first :: rest) ∈ windowGroups env stmt rows) :
    SameRow
      ((w.plans.map (Plan.columnOf env first (first :: rest))).foldl Column.write
        (groupColumns env w first))
      ((w.plans.map (Plan.columnOf env first (first :: rest))).foldl Column.write ∅) := by
  refine sameRow_write fun name value hvalue => ?_
  rcases h.columns key first rest hgroup name value hvalue with ⟨kind, arg, hmem⟩ | ⟨e, he, hv⟩
  · exact .inl (aggregateNamed_map hmem first _)
  · refine .inr ?_
    rw [plainNamed_map, he, ← hv]
    rfl

theorem tryNew_eq (h : IncrementalWindow.tryNew stmt = some w) :
    w.whereClause = stmt.whereClause ∧ w.groupBy = stmt.groupBy ∧ w.orderStmt = stmt ∧
      w.groups = [] ∧ Plans stmt w.plans := by
  obtain ⟨plans, hplans, rfl⟩ := Option.map_eq_some_iff.mp h
  exact ⟨rfl, rfl, rfl, rfl, plans_of_incrementalPlans hplans⟩

theorem Agrees.readable {xs ys : List (Row F)} {row : Row F}
    (h : Agrees env stmt w (xs ++ row :: ys)) (hgroupBy : w.groupBy = stmt.groupBy)
    (hpasses : passes env stmt row = true) :
    Readable env w row
      ((groupOn (keyAt env stmt.groupBy) (xs.filter (passes env stmt))).lookup
        (keyAt env stmt.groupBy row) = none) := by
  have hfilter : (xs ++ row :: ys).filter (passes env stmt) =
      xs.filter (passes env stmt) ++ row :: ys.filter (passes env stmt) := by
    rw [List.filter_append, List.filter_cons_of_pos hpasses]
  have hmem : row ∈ (xs ++ row :: ys).filter (passes env stmt) := by simp [hpasses]
  refine ⟨fun e he => h.keys row hmem e (hgroupBy ▸ he), fun name kind e hplan => ?_,
    fun hnew name e hplan => ?_⟩
  · obtain ⟨g, hg, hrow⟩ := exists_group (keyAt env stmt.groupBy) hmem
    cases g with
    | nil => cases hrow
    | cons first rest =>
      obtain ⟨v, hv, -⟩ := (h.plans _ first rest hg _ hplan).1 row hrow
      exact ⟨v, hv⟩
  · obtain ⟨more, hgroup⟩ := head_of_new hnew (ys.filter (passes env stmt))
    rw [← hfilter] at hgroup
    exact (h.plans _ row more hgroup _ hplan).2

def afterRows (env : Env F) (num : Numerics F S) (stmt : SelectStmt F)
    (w : IncrementalWindow F S) (rows : List (Row F)) : IncrementalWindow F S :=
  { w with groups := (windowGroups env stmt rows).map fun g => (g.1, groupOfRows env num w g.2) }

theorem push_afterRows (hnew : IncrementalWindow.tryNew stmt = some w) {xs ys : List (Row F)}
    {row : Row F} (h : Agrees env stmt w (xs ++ row :: ys)) :
    (afterRows env num stmt w xs).push env num row =
      .ok (afterRows env num stmt w (xs ++ [row]), passes env stmt row) := by
  obtain ⟨hwhere, hgroupBy, -⟩ := tryNew_eq hnew
  have haccepts : (afterRows env num stmt w xs).accepts env row =
      .ok (passes env stmt row) := by
    rw [← passesWhere_ok (h.wheres row (by simp)), IncrementalWindow.accepts, passesWhere]
    exact congrArg (fun clause => match clause with
      | some condition => evalBool env row condition
      | none => .ok true) hwhere
  unfold IncrementalWindow.push
  rw [haccepts]
  cases hpasses : passes env stmt row with
  | false =>
    simp only [afterRows, windowGroups, List.filter_append, List.filter_cons, hpasses]
    simp [bind, Except.bind, pure, Except.pure]
  | true =>
    have hread := h.readable hgroupBy hpasses
    have hkey : keyAt env (afterRows env num stmt w xs).groupBy row =
        keyAt env stmt.groupBy row := by rw [← hgroupBy]; rfl
    have hfilter : xs.filter (passes env stmt) ++ [row] =
        (xs ++ [row]).filter (passes env stmt) := by simp [hpasses]
    have hput := put_summary (keyAt env stmt.groupBy) (groupOpened env num w)
      (groupWith env num w) ⟨[], [], []⟩ (xs.filter (passes env stmt)) row
    rw [hfilter] at hput
    have hadd : (afterRows env num stmt w xs).addRow env num row =
        .ok (afterRows env num stmt w (xs ++ [row])) := by
      rw [addRow_ok, hkey]
      · exact congrArg (fun groups => Except.ok { w with groups := groups }) hput
      · refine ⟨hread.keys, hread.args, fun hnone => hread.firsts ?_⟩
        have hnone' : ((windowGroups env stmt xs).map fun g =>
            (g.1, groupOfRows env num w g.2)).lookup (keyAt env w.groupBy row) = none := hnone
        rw [lookup_mapSnd, Option.map_eq_none_iff, hgroupBy] at hnone'
        exact hnone'
    simp only [bind, Except.bind, hadd]
    rfl

theorem pushAll_ok (hnew : IncrementalWindow.tryNew stmt = some w) {xs ys : List (Row F)}
    (h : Agrees env stmt w (xs ++ ys)) :
    w.pushAll env num xs = .ok (afterRows env num stmt w xs) := by
  obtain ⟨-, -, -, hgroups, -⟩ := tryNew_eq hnew
  induction xs using List.reverseRecOn generalizing ys with
  | nil =>
    obtain ⟨_, _, _, _, _, _⟩ := w
    cases hgroups
    rfl
  | append_singleton xs row ih =>
    rw [List.append_assoc] at h
    have hrun := ih h
    unfold IncrementalWindow.pushAll at hrun ⊢
    rw [List.foldlM_append, hrun]
    simp only [bind, Except.bind, List.foldlM_cons, List.foldlM_nil, push_afterRows hnew h]
    rfl

def bufferedRow (env : Env F) (w : IncrementalWindow F S) : List (Row F) → Row F
  | [] => ∅
  | first :: rest => (w.plans.map (Plan.columnOf env first (first :: rest))).foldl Column.write ∅

theorem evalAggregate_group (hplans : Plans stmt w.plans)
    (hbasic : ∀ plan ∈ w.plans, plan.isBasic = true) (h : Agrees env stmt w rows)
    {group : String × List (Row F)} (hgroup : group ∈ windowGroups env stmt rows) :
    evalAggregate env proj stmt group.2 = .ok (some (bufferedRow env w group.2)) := by
  obtain ⟨key, group⟩ := group
  cases group with
  | nil => exact absurd rfl (mem_groupOn hgroup).1
  | cons first rest => exact evalAggregate_ok hplans hbasic (h.plans key first rest hgroup)

theorem projectRows_ok (hplans : Plans stmt w.plans)
    (hbasic : ∀ plan ∈ w.plans, plan.isBasic = true) (h : Agrees env stmt w rows)
    (hne : rows.filter (passes env stmt) ≠ []) :
    projectRows env proj stmt (rows.filter (passes env stmt)) =
      .ok ((windowGroups env stmt rows).map fun g => some (bufferedRow env w g.2)) := by
  unfold projectRows
  rw [hplans.grouped]
  simp only [Bool.not_true, Bool.false_eq_true, if_false]
  split
  · rename_i hempty
    have hone : windowGroups env stmt rows = [("", rows.filter (passes env stmt))] := by
      refine groupOn_const (fun row _ => ?_) hne
      rw [List.isEmpty_iff.mp hempty]
      rfl
    have hmem : ("", rows.filter (passes env stmt)) ∈ windowGroups env stmt rows := by
      rw [hone]
      exact List.mem_singleton_self _
    rw [evalAggregate_group hplans hbasic h hmem, hone]
    rfl
  · rw [partitionKeyedGroups_ok h.keys]
    exact mapM_ok fun group hgroup => evalAggregate_group hplans hbasic h hgroup

theorem evalWindow_eq (hplans : Plans stmt w.plans)
    (hbasic : ∀ plan ∈ w.plans, plan.isBasic = true) (h : Agrees env stmt w rows) :
    evalWindow env proj stmt rows =
      applyOrderLimit env stmt ((windowGroups env stmt rows).map fun g => bufferedRow env w g.2) := by
  unfold evalWindow
  rw [filterM_ok fun row hrow => passesWhere_ok (h.wheres row hrow)]
  simp only [bind, Except.bind, evalWindowFiltered]
  split
  · rename_i hempty
    rw [windowGroups, List.isEmpty_iff.mp hempty]
    unfold applyOrderLimit orderRows
    cases stmt.limit <;> simp [bind, Except.bind, pure, Except.pure]
  · rename_i hne
    rw [projectRows_ok hplans hbasic h (by simpa using hne)]
    simp [List.filterMap_map]

/-- Pushing all rows and closing the window. -/
def IncrementalWindow.outputs (env : Env F) (num : Numerics F S) (w : IncrementalWindow F S)
    (rows : List (Row F)) : Except Failure (List (Row F)) := do
  let w ← w.pushAll env num rows
  let (out, _) ← w.take env num
  return out

theorem outputs_eq (hnew : IncrementalWindow.tryNew stmt = some w) (h : Agrees env stmt w rows) :
    w.outputs env num rows =
      applyOrderLimit env stmt ((windowGroups env stmt rows).map fun g =>
        w.outputRow num (groupOfRows env num w g.2)) := by
  obtain ⟨-, -, horder, -⟩ := tryNew_eq hnew
  have hpush : w.pushAll env num rows = .ok (afterRows env num stmt w rows) :=
    pushAll_ok hnew (show Agrees env stmt w (rows ++ []) by rwa [List.append_nil])
  have hrows : (afterRows env num stmt w rows).groups.map
      (fun g => (afterRows env num stmt w rows).outputRow num g.2) =
      (windowGroups env stmt rows).map fun g => w.outputRow num (groupOfRows env num w g.2) :=
    List.map_map
  unfold IncrementalWindow.outputs IncrementalWindow.take
  rw [hpush]
  simp only [bind, Except.bind, hrows]
  rw [show (afterRows env num stmt w rows).orderStmt = stmt from horder]
  cases applyOrderLimit env stmt _ <;> rfl

/-- On rows on which they agree, the accumulators give what the buffered window gives. -/
theorem incremental_eq_buffered (proj : Projection F) (num : Numerics F S)
    (hnew : IncrementalWindow.tryNew stmt = some w)
    (hbasic : ∀ plan ∈ w.plans, plan.isBasic = true) (h : Agrees env stmt w rows) :
    Outcome (List.Forall₂ SameRow) (w.outputs env num rows) (evalWindow env proj stmt rows) := by
  obtain ⟨-, -, -, -, hplans⟩ := tryNew_eq hnew
  rw [outputs_eq hnew h, evalWindow_eq hplans hbasic h]
  refine applyOrderLimit_outcome ?_
  rw [List.forall₂_map_left_iff, List.forall₂_map_right_iff, List.forall₂_same]
  rintro ⟨key, group⟩ hgroup
  cases group with
  | nil => exact absurd rfl (mem_groupOn hgroup).1
  | cons first rest =>
    rw [outputRow_eq env num w hbasic]
    exact sameRow_group h hgroup

end

/-- `SELECT ... FROM s GROUP BY a, TUMBLINGWINDOW(ss, 10)` -/
def groupedByA (fields : List (Expr ℚ × Option String)) : SelectStmt ℚ :=
  { SelectStmt.plain (fields.map Prod.fst) "s" none with
    fieldAliases := fields.map Prod.snd
    groupBy := [.identifier "a"]
    window := some (.tumblingTime .ss 10) }

/-- `SELECT count(*) AS n` -/
def countByA : SelectStmt ℚ := groupedByA [(.call "count" [.wildcard], some "n")]

/-- `SELECT a, max(b) AS top` -/
def maxByA : SelectStmt ℚ :=
  groupedByA [(.identifier "a", none), (.call "max" [.identifier "b"], some "top")]

def rowAB (a b : Int) : Row ℚ := (AList.singleton "b" (ofI64 b)).insert "a" (ofI64 a)

def noProjection : Projection ℚ :=
  ⟨fun _ _ => .ok none, fun _ _ _ => .ok .null, fun _ _ _ => .ok .null⟩

def maxWindow : IncrementalWindow ℚ Unit where
  whereClause := none
  groupBy := [.identifier "a"]
  groupNames := ["a"]
  plans := [.first "a" (.identifier "a"), .agg "top" .max (some (.identifier "b"))]
  orderStmt := maxByA
  groups := []

theorem incremental_eq_buffered_two :
    IncrementalWindow.tryNew maxByA = some maxWindow ∧
      Outcome (List.Forall₂ SameRow)
        (maxWindow.outputs Pipeline.bareEnv noNumerics [rowAB 1 2, rowAB 1 3])
        (evalWindow Pipeline.bareEnv noProjection maxByA [rowAB 1 2, rowAB 1 3]) := by
  have hgroups : windowGroups Pipeline.bareEnv maxByA [rowAB 1 2, rowAB 1 3] =
      [("v\x1f", [rowAB 1 2, rowAB 1 3])] := rfl
  refine ⟨rfl, incremental_eq_buffered noProjection noNumerics rfl (by decide) ⟨?_, ?_, ?_, ?_⟩⟩
  · exact fun _ _ => ⟨true, rfl⟩
  · rintro row - e he
    cases List.mem_singleton.mp he
    exact ⟨_, rfl⟩
  · intro key first rest hgroup plan hplan
    rw [hgroups] at hgroup
    cases List.mem_singleton.mp hgroup
    simp only [maxWindow, List.mem_cons, List.not_mem_nil, or_false] at hplan
    rcases hplan with rfl | rfl
    · exact ⟨nofun, _, rfl⟩
    · refine ⟨fun row hrow => ?_, fun _ => .inl ⟨ofI64 2, List.mem_cons_self, rfl⟩⟩
      simp only [List.mem_cons, List.not_mem_nil, or_false] at hrow
      rcases hrow with rfl | rfl <;> exact ⟨_, rfl, rfl⟩
  · intro key first rest hgroup name value hvalue
    rw [hgroups] at hgroup
    cases List.mem_singleton.mp hgroup
    by_cases hname : name = "a"
    · subst name
      exact .inr ⟨.identifier "a", rfl, Option.some.inj hvalue⟩
    · rw [show groupColumns Pipeline.bareEnv maxWindow (rowAB 1 2) =
        AList.insert "a" (ofI64 1) ∅ from rfl, AList.lookup_insert_ne hname] at hvalue
      cases hvalue

/-- The group column that the statement does not select is in the row of the accumulators. -/
theorem incremental_adds_group_column :
    (IncrementalWindow.tryNew countByA).map (fun w =>
        (w.outputs Pipeline.bareEnv noNumerics [rowAB 1 2]).map fun out =>
          out.map fun row => (row.lookup "a", row.lookup "n")) =
      some (.ok [(some (ofI64 1), some (ofI64 1))]) ∧
    (evalWindow Pipeline.bareEnv noProjection countByA [rowAB 1 2]).map (fun out =>
        out.map fun row => (row.lookup "a", row.lookup "n")) =
      .ok [(none, some (ofI64 1))] :=
  ⟨rfl, rfl⟩

end Rekuiper.Sql
