import Rekuiper.Sql.SlidingAccs

/-!
# Sliding windows against buffered rows

When the snapshots of a sliding window are what `eval_window` gives for the rows in the window. The
groups are those of all rows that ever passed `WHERE`, so they may come in another order, show
the plain columns of a row that has left, or be hidden although they have rows.
-/

namespace Rekuiper.Sql

open Lib

variable {F : Type}

def kept (cutoffTs : Int) (arrivals : List (Int × Row F)) : List (Int × Row F) :=
  arrivals.filter fun a => cutoffTs ≤ a.1

def InOrder (arrivals : List (Int × Row F)) : Prop := arrivals.Pairwise fun a b => a.1 ≤ b.1

theorem kept_append (cutoffTs : Int) (arrivals more : List (Int × Row F)) :
    kept cutoffTs (arrivals ++ more) = kept cutoffTs arrivals ++ kept cutoffTs more :=
  List.filter_append ..

theorem kept_kept {cutoffTs later : Int} (h : cutoffTs ≤ later) (arrivals : List (Int × Row F)) :
    kept later (kept cutoffTs arrivals) = kept later arrivals := by
  unfold kept
  rw [List.filter_filter]
  refine List.filter_congr fun a _ => ?_
  rw [Bool.eq_iff_iff]
  simp only [Bool.and_eq_true, decide_eq_true_eq]
  omega

theorem evicted_append_kept {arrivals : List (Int × Row F)} (h : InOrder arrivals)
    (cutoffTs : Int) :
    arrivals.filter (fun a => a.1 < cutoffTs) ++ kept cutoffTs arrivals = arrivals := by
  have hnot : kept cutoffTs arrivals = arrivals.filter fun a => !decide (a.1 < cutoffTs) := by
    refine List.filter_congr fun a _ => ?_
    rw [← decide_not, decide_eq_decide]
    omega
  rw [hnot]
  refine filter_append_filter_not (h.imp fun {a b} hab hb => ?_)
  rw [decide_eq_true_eq] at hb ⊢
  omega

section
variable [Float64 F]

namespace SlidingIncrementalWindow

/-- The window that `try_new` starts from. -/
def base (w : SlidingIncrementalWindow F) : IncrementalWindow F Unit where
  whereClause := w.whereClause
  groupBy := w.groupBy
  groupNames := w.groupNames
  plans := w.plans
  orderStmt := w.orderStmt
  groups := []

end SlidingIncrementalWindow

-- ---- The state after a run

section State
variable (env : Env F) (stmt : SelectStmt F) (w : SlidingIncrementalWindow F)

def argAt (arg : Option (Expr F)) (row : Row F) : Value F :=
  match arg with
  | some e => valueAt env e row
  | none => .null

def argsOf (arg : Option (Expr F)) (rows : List (Int × Row F)) : List (Value F) :=
  rows.map fun r => argAt env arg r.2

def planAcc (rows : List (Int × Row F)) : Plan F → SlidingAcc F
  | .first _ _ => .new .count
  | .agg _ kind arg => accOf kind (rows.map fun r => (r.1, argAt env arg r.2))

def groupAfter (cutoffTs : Int) : List (Int × Row F) → SlidingGroup F
  | [] => ⟨[], [], []⟩
  | first :: rest =>
    ⟨w.groupBy.map fun e => valueAt env e first.2, w.plans.map (firstAt env first.2),
      w.plans.map (planAcc env (kept cutoffTs (first :: rest)))⟩

def accepted (arrivals : List (Int × Row F)) : List (Int × Row F) :=
  arrivals.filter fun a => passes env stmt a.2

def slidingGroups (arrivals : List (Int × Row F)) : List (String × List (Int × Row F)) :=
  groupOn (fun a => keyAt env stmt.groupBy a.2) (accepted env stmt arrivals)

def windowAfter (cutoffTs : Int) (arrivals : List (Int × Row F)) : SlidingIncrementalWindow F :=
  { w with
    groups := (slidingGroups env stmt arrivals).map fun g => (g.1, groupAfter env w cutoffTs g.2) }

def liveRows (cutoffTs : Int) (arrivals : List (Int × Row F)) : List (Row F) :=
  (kept cutoffTs (accepted env stmt arrivals)).map Prod.snd

end State

variable {env : Env F} {stmt : SelectStmt F} {w : SlidingIncrementalWindow F}

theorem inOrder_group {arrivals : List (Int × Row F)} (h : InOrder arrivals)
    {g : String × List (Int × Row F)} (hg : g ∈ slidingGroups env stmt arrivals) : InOrder g.2 := by
  rw [group_eq_filter hg]
  exact (h.filter _).filter _

theorem isBasic_of_fieldPlan {name : String} {e : Expr F} {plan : Plan F}
    (h : fieldPlan name e = some plan) (hinvertible : plan.isInvertible = true) :
    plan.isBasic = true := by
  unfold fieldPlan at h
  split at h
  · cases h
    rfl
  · split at h <;> cases h
    rfl
  · split at h <;> cases h
    rfl
  · split at h
    · cases h
    · obtain ⟨kind, -, rfl⟩ := Option.map_eq_some_iff.mp h
      cases kind <;> first | rfl | cases hinvertible
  · split at h
    · cases h
    · split at h
      · cases h
      · obtain ⟨kind, hkind, rfl⟩ := Option.map_eq_some_iff.mp h
        obtain ⟨p, rfl⟩ := percentileKind_eq hkind
        cases hinvertible
  · cases h

theorem mem_mapM_some {α β : Type} {f : α → Option β} {xs : List α} {ys : List β}
    (h : xs.mapM f = some ys) {y : β} (hy : y ∈ ys) : ∃ x ∈ xs, f x = some y := by
  induction xs generalizing ys with
  | nil =>
    cases h
    cases hy
  | cons x xs ih =>
    rw [List.mapM_cons] at h
    obtain ⟨first, hfirst, h⟩ := Option.bind_eq_some_iff.mp h
    obtain ⟨rest, hrest, h⟩ := Option.bind_eq_some_iff.mp h
    cases h
    rcases List.mem_cons.mp hy with rfl | hy
    · exact ⟨x, List.mem_cons_self, hfirst⟩
    · obtain ⟨x', hx', hf⟩ := ih hrest hy
      exact ⟨x', List.mem_cons_of_mem _ hx', hf⟩

theorem tryNew_sliding (h : SlidingIncrementalWindow.tryNew stmt = some w) :
    IncrementalWindow.tryNew stmt = some w.base ∧ w.groups = [] ∧
      ∀ plan ∈ w.plans, plan.isBasic = true := by
  obtain ⟨base, hbase, h⟩ := Option.bind_eq_some_iff.mp h
  rw [Option.ite_none_left_eq_some] at h
  obtain ⟨hinvertible, h⟩ := h
  cases h
  obtain ⟨-, -, -, hgroups, hplans⟩ := tryNew_eq hbase
  refine ⟨?_, rfl, fun plan hplan => ?_⟩
  · rw [hbase, SlidingIncrementalWindow.base, ← hgroups]
  · obtain ⟨field, -, hfield⟩ := mem_mapM_some hplans.fields hplan
    refine isBasic_of_fieldPlan hfield ?_
    rw [Bool.not_eq_true, List.any_eq_false] at hinvertible
    simpa using hinvertible plan hplan

-- ---- Rows that leave

/-- The sums of every group come out right when the rows up to the next cutoff leave. -/
def TakesOut (env : Env F) (stmt : SelectStmt F) (w : SlidingIncrementalWindow F)
    (cutoffTs later : Int) (arrivals : List (Int × Row F)) : Prop :=
  ∀ g ∈ slidingGroups env stmt arrivals, ∀ name kind arg, .agg name kind arg ∈ w.plans →
    kind.TakesOut (argsOf env arg ((kept cutoffTs g.2).filter fun r => r.1 < later))
      (argsOf env arg (kept later g.2))

omit [Float64 F] in
theorem Plan.kind_basic {name : String} {kind : AggKind F} {arg : Option (Expr F)}
    (h : (Plan.agg name kind arg).isBasic = true) : kind.isBasic = true := by
  cases arg with
  | some e => exact h
  | none => cases kind <;> first | rfl | cases h

theorem evict_planAcc {plan : Plan F} {rows : List (Int × Row F)} {cutoffTs later : Int}
    (hbasic : plan.isBasic = true) (hrows : InOrder rows) (hlater : cutoffTs ≤ later)
    (h : ∀ name kind arg, plan = .agg name kind arg →
      kind.TakesOut (argsOf env arg ((kept cutoffTs rows).filter fun r => r.1 < later))
        (argsOf env arg (kept later rows))) :
    (planAcc env (kept cutoffTs rows) plan).evictBefore later =
      planAcc env (kept later rows) plan := by
  cases plan with
  | first name e => rfl
  | agg name kind arg =>
    have hsplit := evicted_append_kept (hrows.filter fun a => cutoffTs ≤ a.1) later
    have houts := h name kind arg rfl
    rw [show rows.filter (fun a => cutoffTs ≤ a.1) = kept cutoffTs rows from rfl,
      kept_kept hlater] at hsplit
    unfold planAcc
    dsimp only
    rw [← hsplit, List.map_append, evict_accOf (Plan.kind_basic hbasic)]
    · intro e he
      obtain ⟨r, hr, rfl⟩ := List.mem_map.mp he
      exact of_decide_eq_true (List.mem_filter.mp hr).2
    · intro e he
      obtain ⟨r, hr, rfl⟩ := List.mem_map.mp he
      exact of_decide_eq_true (List.mem_filter.mp hr).2
    · simpa [argsOf, Function.comp_def] using houts

theorem evictBefore_windowAfter {cutoffTs later : Int} {arrivals : List (Int × Row F)}
    (hbasic : ∀ plan ∈ w.plans, plan.isBasic = true) (horder : InOrder arrivals)
    (hlater : cutoffTs ≤ later) (h : TakesOut env stmt w cutoffTs later arrivals) :
    (windowAfter env stmt w cutoffTs arrivals).evictBefore later =
      windowAfter env stmt w later arrivals := by
  unfold SlidingIncrementalWindow.evictBefore windowAfter
  rw [List.map_map]
  dsimp only
  congr 1
  refine List.map_congr_left fun g hg => ?_
  have hrows := inOrder_group horder hg
  cases hrest : g.2 with
  | nil => simp [hrest, groupAfter]
  | cons first rest =>
    simp only [Function.comp_apply, hrest, groupAfter, List.map_map, Prod.mk.injEq, true_and,
      SlidingGroup.mk.injEq]
    refine List.map_congr_left fun plan hplan => ?_
    rw [Function.comp_apply, ← hrest]
    exact evict_planAcc (hbasic plan hplan) hrows hlater fun name kind arg heq =>
      h g hg name kind arg (heq ▸ hplan)

-- ---- A row that comes in

def rowsOf (env : Env F) (stmt : SelectStmt F) (key : String) (arrivals : List (Int × Row F)) :
    List (Int × Row F) :=
  (accepted env stmt arrivals).filter fun a => keyAt env stmt.groupBy a.2 = key

def TakesIn (env : Env F) (stmt : SelectStmt F) (w : SlidingIncrementalWindow F)
    (cutoffTs : Int) (arrivals : List (Int × Row F)) (row : Row F) : Prop :=
  ∀ name kind arg, .agg name kind arg ∈ w.plans →
    kind.TakesIn
      (argsOf env arg (kept cutoffTs (rowsOf env stmt (keyAt env stmt.groupBy row) arrivals)))
      (argAt env arg row)

theorem lookup_slidingGroups (arrivals : List (Int × Row F)) (key : String) :
    ((slidingGroups env stmt arrivals).lookup key).getD [] = rowsOf env stmt key arrivals := by
  rw [slidingGroups, lookup_groupOn]
  unfold rowsOf
  cases (accepted env stmt arrivals).filter fun a => keyAt env stmt.groupBy a.2 = key <;> rfl

theorem newAcc_eq (plan : Plan F) : SlidingIncrementalWindow.newAcc plan = planAcc env [] plan := by
  cases plan with
  | first name e => rfl
  | agg name kind arg => exact (accOf_nil kind).symm

theorem pushAcc_ok [OrderedFloat64 F] {plan : Plan F} {rows : List (Int × Row F)} {row : Row F}
    (ts : Int) (hbasic : plan.isBasic = true)
    (hread : ∀ name kind e, plan = .agg name kind (some e) → ∃ v, groupValue env row e = .ok v)
    (h : ∀ name kind arg, plan = .agg name kind arg →
      kind.TakesIn (argsOf env arg rows) (argAt env arg row)) :
    SlidingIncrementalWindow.pushAcc env ts row (plan, planAcc env rows plan) =
      .ok (planAcc env (rows ++ [(ts, row)]) plan) := by
  rcases plan with ⟨name, e⟩ | ⟨name, kind, _ | e⟩
  · rfl
  · cases kind <;> cases hbasic
    simp [SlidingIncrementalWindow.pushAcc, planAcc, accOf, SlidingAcc.push]
  · have htakes : kind.TakesIn ((rows.map fun r => (r.1, valueAt env e r.2)).map Prod.snd)
        (valueAt env e row) := by
      simpa [argsOf, argAt, Function.comp_def] using h name kind (some e) rfl
    simp only [SlidingIncrementalWindow.pushAcc, groupValue_ok (hread name kind e rfl), planAcc,
      argAt, List.map_append, List.map_cons, List.map_nil,
      ← push_accOf (Plan.kind_basic hbasic) ts htakes]
    rfl

theorem pushAccs_ok [OrderedFloat64 F] {rows : List (Int × Row F)} {row : Row F} {opens : Prop}
    (ts : Int) (hbasic : ∀ plan ∈ w.plans, plan.isBasic = true)
    (hread : Readable env w.base row opens)
    (h : ∀ name kind arg, .agg name kind arg ∈ w.plans →
      kind.TakesIn (argsOf env arg rows) (argAt env arg row)) :
    (w.plans.zip (w.plans.map (planAcc env rows))).mapM
        (SlidingIncrementalWindow.pushAcc env ts row) =
      .ok (w.plans.map (planAcc env (rows ++ [(ts, row)]))) := by
  have hall : ∀ entry ∈ w.plans.map fun plan => (plan, planAcc env rows plan),
      SlidingIncrementalWindow.pushAcc env ts row entry =
        .ok (planAcc env (rows ++ [(ts, row)]) entry.1) := by
    intro entry hentry
    obtain ⟨plan, hplan, rfl⟩ := List.mem_map.mp hentry
    refine pushAcc_ok ts (hbasic plan hplan) (fun name kind e heq => ?_) fun name kind arg heq => ?_
    · exact hread.args name kind e (heq ▸ hplan)
    · exact h name kind arg (heq ▸ hplan)
  rw [zip_map_self, mapM_ok hall, List.map_map]
  rfl

theorem newGroup_sliding {row : Row F} (h : Readable env w.base row True) :
    w.newGroup env row =
      .ok ⟨w.groupBy.map fun e => valueAt env e row, w.plans.map (firstAt env row),
        w.plans.map (planAcc env [])⟩ := by
  have hfirsts : ∀ plan ∈ w.plans,
      IncrementalWindow.firstValue env row plan = .ok (firstAt env row plan) := by
    intro plan hplan
    cases plan with
    | first name e => exact groupValue_ok (h.firsts trivial name e hplan)
    | agg name kind arg => rfl
  have hkeys : ∀ e ∈ w.groupBy, groupValue env row e = .ok (valueAt env e row) :=
    fun e he => groupValue_ok (h.keys e he)
  have haccs : w.plans.map SlidingIncrementalWindow.newAcc = w.plans.map (planAcc env []) :=
    List.map_congr_left fun plan _ => newAcc_eq plan
  unfold SlidingIncrementalWindow.newGroup
  rw [mapM_ok hkeys, mapM_ok hfirsts, haccs]
  rfl

theorem groupWith_sliding [OrderedFloat64 F] {rows : List (Int × Row F)} {row : Row F} {ts : Int}
    {cutoffTs : Int} (hts : cutoffTs ≤ ts) (hbasic : ∀ plan ∈ w.plans, plan.isBasic = true)
    (hread : Readable env w.base row (rows = []))
    (h : ∀ name kind arg, .agg name kind arg ∈ w.plans →
      kind.TakesIn (argsOf env arg (kept cutoffTs rows)) (argAt env arg row)) :
    ((if rows = [] then w.newGroup env row else .ok (groupAfter env w cutoffTs rows)) >>=
      fun group => do
        let accs ← (w.plans.zip group.accs).mapM (SlidingIncrementalWindow.pushAcc env ts row)
        return { group with accs }) =
          Except.ok (groupAfter env w cutoffTs (rows ++ [(ts, row)])) := by
  have haccs := pushAccs_ok ts hbasic hread h
  have hkept : kept cutoffTs (rows ++ [(ts, row)]) = kept cutoffTs rows ++ [(ts, row)] := by
    rw [kept_append]
    simp [kept, hts]
  cases rows with
  | nil =>
    rw [if_pos rfl, newGroup_sliding ⟨hread.keys, hread.args, fun _ => hread.firsts rfl⟩]
    simp only [bind, Except.bind, pure, Except.pure]
    rw [show (kept cutoffTs ([] : List (Int × Row F))) = [] from rfl] at haccs hkept
    rw [haccs]
    simp only [List.nil_append, groupAfter] at hkept ⊢
    rw [hkept]
  | cons first rest =>
    rw [if_neg (by simp)]
    simp only [bind, Except.bind, pure, Except.pure, groupAfter]
    rw [haccs]
    rw [List.cons_append] at hkept ⊢
    simp only [hkept]

theorem groupFor_sliding {arrivals : List (Int × Row F)} {row : Row F} {cutoffTs : Int}
    (key : String) :
    (windowAfter env stmt w cutoffTs arrivals).groupFor env key row =
      if rowsOf env stmt key arrivals = [] then w.newGroup env row
      else .ok (groupAfter env w cutoffTs (rowsOf env stmt key arrivals)) := by
  have hlookup : (windowAfter env stmt w cutoffTs arrivals).groups.lookup key =
      ((slidingGroups env stmt arrivals).lookup key).map (groupAfter env w cutoffTs) :=
    lookup_mapSnd _ _ _
  unfold SlidingIncrementalWindow.groupFor
  rw [hlookup, ← lookup_slidingGroups]
  cases hgroup : (slidingGroups env stmt arrivals).lookup key with
  | none => rfl
  | some rows =>
    have hne : rows ≠ [] := (mem_groupOn (mem_of_lookup hgroup)).1
    rw [Option.getD_some, if_neg hne]
    rfl

theorem addRow_sliding [OrderedFloat64 F] {arrivals : List (Int × Row F)} {row : Row F}
    {ts cutoffTs : Int} (hts : cutoffTs ≤ ts) (hbasic : ∀ plan ∈ w.plans, plan.isBasic = true)
    (hgroupBy : w.groupBy = stmt.groupBy) (hpasses : passes env stmt row = true)
    (hread : Readable env w.base row
      (rowsOf env stmt (keyAt env stmt.groupBy row) arrivals = []))
    (h : TakesIn env stmt w cutoffTs arrivals row) :
    (windowAfter env stmt w cutoffTs arrivals).addRow env ts row =
      .ok (windowAfter env stmt w cutoffTs (arrivals ++ [(ts, row)])) := by
  have hgroup := groupWith_sliding hts hbasic hread h
  have hkeys : groupKey env (windowAfter env stmt w cutoffTs arrivals).groupBy row =
      .ok (keyAt env stmt.groupBy row) := by
    rw [← hgroupBy]
    exact groupKey_ok hread.keys
  obtain ⟨group, hfor, hgroup⟩ := bind_eq_ok hgroup
  obtain ⟨accs, haccs, hgroup⟩ := bind_eq_ok hgroup
  rw [← groupFor_sliding] at hfor
  have hput : put (keyAt env stmt.groupBy row) { group with accs }
      (windowAfter env stmt w cutoffTs arrivals).groups =
        (windowAfter env stmt w cutoffTs (arrivals ++ [(ts, row)])).groups := by
    have haccepted : accepted env stmt (arrivals ++ [(ts, row)]) =
        accepted env stmt arrivals ++ [(ts, row)] := by
      simp [accepted, hpasses]
    rw [Except.ok.inj hgroup]
    unfold windowAfter
    dsimp only
    rw [put_mapSnd, ← lookup_slidingGroups, slidingGroups, slidingGroups, haccepted, groupOn_concat]
  unfold SlidingIncrementalWindow.addRow
  rw [hkeys]
  simp only [bind, Except.bind, hfor]
  rw [show (windowAfter env stmt w cutoffTs arrivals).plans = w.plans from rfl, haccs]
  simp only [pure, Except.pure, hput]
  rfl

theorem accepts_sliding {cutoffTs : Int} {arrivals : List (Int × Row F)} {row : Row F}
    (hwhere : w.whereClause = stmt.whereClause) (h : ∃ b, passesWhere env stmt row = .ok b) :
    (windowAfter env stmt w cutoffTs arrivals).accepts env row = .ok (passes env stmt row) := by
  rw [← passesWhere_ok h, SlidingIncrementalWindow.accepts, passesWhere, ← hwhere]
  rfl

theorem push_windowAfter [OrderedFloat64 F] {arrivals : List (Int × Row F)} {row : Row F}
    {ts cutoffTs : Int} (hts : cutoffTs ≤ ts)
    (hnew : SlidingIncrementalWindow.tryNew stmt = some w)
    (hwheres : ∃ b, passesWhere env stmt row = .ok b)
    (hread : passes env stmt row = true → Readable env w.base row
      (rowsOf env stmt (keyAt env stmt.groupBy row) arrivals = []))
    (h : passes env stmt row = true → TakesIn env stmt w cutoffTs arrivals row) :
    (windowAfter env stmt w cutoffTs arrivals).push env ts row =
      .ok (windowAfter env stmt w cutoffTs (arrivals ++ [(ts, row)]), passes env stmt row) := by
  obtain ⟨hbase, -, hbasic⟩ := tryNew_sliding hnew
  obtain ⟨hwhere, hgroupBy, -⟩ := tryNew_eq hbase
  unfold SlidingIncrementalWindow.push
  rw [accepts_sliding hwhere hwheres]
  cases hpasses : passes env stmt row with
  | false =>
    have haccepted : accepted env stmt (arrivals ++ [(ts, row)]) = accepted env stmt arrivals := by
      simp [accepted, hpasses]
    simp only [windowAfter, slidingGroups, haccepted]
    rfl
  | true =>
    simp only [bind, Except.bind,
      addRow_sliding hts hbasic hgroupBy hpasses (hread hpasses) (h hpasses)]
    rfl

-- ---- Snapshots

/-- The row that opened a group has the group columns and plain columns of the first row in the
window, some aggregate counts a row, and the aggregates show what they should. -/
structure GroupShows (env : Env F) (w : SlidingIncrementalWindow F) (opener : Row F)
    (live : List (Int × Row F)) : Prop where
  keys : ∀ r ∈ live.head?, ∀ e ∈ w.groupBy, valueAt env e opener = valueAt env e r.2
  plain : ∀ r ∈ live.head?, ∀ name e, .first name e ∈ w.plans →
    valueAt env e opener = valueAt env e r.2
  counts : w.plans = [] ∨ ∃ name kind arg, .agg name kind arg ∈ w.plans ∧
    kind.counts (argsOf env arg live) = true
  shows : ∀ name kind arg, .agg name kind arg ∈ w.plans → kind.Shows (argsOf env arg live)

def shownGroups (env : Env F) (stmt : SelectStmt F) (w : SlidingIncrementalWindow F)
    (cutoffTs : Int) (arrivals : List (Int × Row F)) : List (String × List (Int × Row F)) :=
  (slidingGroups env stmt arrivals).filter fun g => w.plans.isEmpty || !(kept cutoffTs g.2).isEmpty

/-- When a snapshot is what the buffered window gives for the rows in the window: accumulators
without eviction would give that, the groups were opened in the order of their first rows in the
window, and every group with rows shows them. -/
structure Shown (env : Env F) (stmt : SelectStmt F) (w : SlidingIncrementalWindow F)
    (cutoffTs : Int) (arrivals : List (Int × Row F)) : Prop where
  agrees : Agrees env stmt w.base (liveRows env stmt cutoffTs arrivals)
  order : (shownGroups env stmt w cutoffTs arrivals).map Prod.fst =
    (windowGroups env stmt (liveRows env stmt cutoffTs arrivals)).map Prod.fst
  groups : ∀ key opener rest, (key, opener :: rest) ∈ slidingGroups env stmt arrivals →
    kept cutoffTs (opener :: rest) ≠ [] →
      GroupShows env w opener.2 (kept cutoffTs (opener :: rest))

theorem isActive_planAcc {plan : Plan F} (hbasic : plan.isBasic = true)
    (rows : List (Int × Row F)) :
    (planAcc env rows plan).isActive = true ↔
      ∃ name kind arg, plan = .agg name kind arg ∧ kind.counts (argsOf env arg rows) = true := by
  cases plan with
  | first name e => simp [planAcc, SlidingAcc.new, SlidingAcc.isActive]
  | agg name kind arg =>
    rw [planAcc, isActive_accOf (Plan.kind_basic hbasic)]
    simp [argsOf, Function.comp_def]

omit [Float64 F] in
theorem not_counts_nil (kind : AggKind F) : kind.counts [] = false := by
  cases kind <;> rfl

theorem isShown_groupAfter {cutoffTs : Int} {opener : Int × Row F} {rest : List (Int × Row F)}
    (hbasic : ∀ plan ∈ w.plans, plan.isBasic = true)
    (h : kept cutoffTs (opener :: rest) ≠ [] →
      GroupShows env w opener.2 (kept cutoffTs (opener :: rest))) :
    SlidingIncrementalWindow.isShown (groupAfter env w cutoffTs (opener :: rest)) =
      (w.plans.isEmpty || !(kept cutoffTs (opener :: rest)).isEmpty) := by
  rw [SlidingIncrementalWindow.isShown, groupAfter, List.isEmpty_map, Bool.or_comm]
  cases hplans : w.plans.isEmpty with
  | true => rfl
  | false =>
    rw [Bool.false_or, Bool.false_or, Bool.eq_iff_iff, List.any_map, List.any_eq_true]
    constructor
    · rintro ⟨plan, hplan, hactive⟩
      obtain ⟨name, kind, arg, -, hcounts⟩ := (isActive_planAcc (hbasic plan hplan) _).mp hactive
      cases hkept : kept cutoffTs (opener :: rest) with
      | nil =>
        rw [hkept, argsOf, List.map_nil, not_counts_nil] at hcounts
        cases hcounts
      | cons _ _ => rfl
    · intro hlive
      rcases (h (by simpa using hlive)).counts with hnone | ⟨name, kind, arg, hplan, hcounts⟩
      · simp [hnone] at hplans
      · exact ⟨_, hplan, (isActive_planAcc (hbasic _ hplan) _).mpr ⟨name, kind, arg, rfl, hcounts⟩⟩

theorem planColumn_sliding [OrderedFloat64 F] {plan : Plan F} (hplan : plan ∈ w.plans)
    (hbasic : plan.isBasic = true) {opener : Row F} {first : Int × Row F}
    {rest : List (Int × Row F)} (h : GroupShows env w opener (first :: rest)) (row : Row F) :
    SlidingIncrementalWindow.planColumn row
        (plan, firstAt env opener plan, planAcc env (first :: rest) plan) =
      (plan.columnOf env first.2 ((first :: rest).map Prod.snd)).write row := by
  rcases plan with ⟨name, e⟩ | ⟨name, kind, _ | e⟩
  · rw [SlidingIncrementalWindow.planColumn, firstAt, h.plain first rfl name e hplan]
    rfl
  · cases kind <;> cases hbasic
    simp [SlidingIncrementalWindow.planColumn, planAcc, accOf, SlidingAcc.currentValue,
      Plan.columnOf, Column.write]
  · have hshows : kind.Shows (((first :: rest).map fun r => (r.1, argAt env (some e) r.2)).map
        Prod.snd) := by
      simpa [argsOf, Function.comp_def] using h.shows name kind (some e) hplan
    rw [SlidingIncrementalWindow.planColumn, planAcc,
      currentValue_accOf (Plan.kind_basic hbasic) hshows, List.map_map, Plan.columnOf, Column.write,
      List.map_map]
    rfl

theorem outputRow_sliding [OrderedFloat64 F] (hbasic : ∀ plan ∈ w.plans, plan.isBasic = true)
    {cutoffTs : Int} {opener first : Int × Row F} {rest live : List (Int × Row F)}
    (hlive : kept cutoffTs (opener :: rest) = first :: live)
    (h : GroupShows env w opener.2 (first :: live)) :
    w.outputRow (groupAfter env w cutoffTs (opener :: rest)) =
      (w.plans.map (Plan.columnOf env first.2 ((first :: live).map Prod.snd))).foldl Column.write
        (groupColumns env w.base first.2) := by
  have hcolumns : (w.groupBy.map fun e => valueAt env e opener.2) =
      w.groupBy.map fun e => valueAt env e first.2 :=
    List.map_congr_left fun e he => h.keys first rfl e he
  unfold SlidingIncrementalWindow.outputRow groupAfter
  dsimp only
  rw [hlive, hcolumns]
  simp only [List.zip_map', zip_map_self, List.foldl_map]
  exact List.foldl_ext _ _ _ fun row plan hplan => planColumn_sliding hplan (hbasic plan hplan) h row

theorem kept_rowsOf (cutoffTs : Int) (arrivals : List (Int × Row F)) (key : String) :
    (kept cutoffTs (accepted env stmt arrivals)).filter
        (fun a => keyAt env stmt.groupBy a.2 = key) =
      kept cutoffTs (rowsOf env stmt key arrivals) := by
  unfold kept rowsOf
  rw [List.filter_filter, List.filter_filter]
  exact List.filter_congr fun a _ => Bool.and_comm _ _

theorem windowGroups_liveRows (cutoffTs : Int) (arrivals : List (Int × Row F)) :
    windowGroups env stmt (liveRows env stmt cutoffTs arrivals) =
      (groupOn (fun a => keyAt env stmt.groupBy a.2)
        (kept cutoffTs (accepted env stmt arrivals))).map fun g => (g.1, g.2.map Prod.snd) := by
  have hpass : (liveRows env stmt cutoffTs arrivals).filter (passes env stmt) =
      liveRows env stmt cutoffTs arrivals := by
    rw [List.filter_eq_self]
    intro row hrow
    obtain ⟨a, ha, rfl⟩ := List.mem_map.mp hrow
    exact (List.mem_filter.mp (List.mem_filter.mp ha).1).2
  rw [windowGroups, hpass, liveRows, groupOn_map]

theorem mem_windowGroups {cutoffTs : Int} {arrivals : List (Int × Row F)} {key : String}
    {group : List (Row F)}
    (h : (key, group) ∈ windowGroups env stmt (liveRows env stmt cutoffTs arrivals)) :
    group = (kept cutoffTs (rowsOf env stmt key arrivals)).map Prod.snd := by
  rw [windowGroups_liveRows] at h
  obtain ⟨⟨k, rows⟩, hrows, heq⟩ := List.mem_map.mp h
  cases heq
  rw [group_eq_filter hrows, kept_rowsOf]

theorem sameRow_sliding [OrderedFloat64 F] {cutoffTs : Int} {arrivals : List (Int × Row F)}
    (hbasic : ∀ plan ∈ w.plans, plan.isBasic = true) (h : Shown env stmt w cutoffTs arrivals)
    {key : String} (hkey : key ∈ (shownGroups env stmt w cutoffTs arrivals).map Prod.fst) :
    SameRow (w.outputRow (groupAfter env w cutoffTs (rowsOf env stmt key arrivals)))
      (bufferedRow env w.base ((kept cutoffTs (rowsOf env stmt key arrivals)).map Prod.snd)) := by
  have hbuffered := hkey
  rw [h.order] at hbuffered
  obtain ⟨⟨k, group⟩, hgroup, rfl⟩ := List.mem_map.mp hbuffered
  obtain ⟨⟨k', rows⟩, hrows, heq⟩ := List.mem_map.mp hkey
  cases heq
  have hmem := (List.mem_filter.mp hrows).1
  have hrowsOf : rows = rowsOf env stmt k arrivals := group_eq_filter hmem
  have hne := (mem_groupOn hgroup).1
  have hlives := mem_windowGroups hgroup
  rw [hlives] at hgroup hne
  dsimp only
  rw [← hrowsOf] at hgroup hne ⊢
  cases hopen : rows with
  | nil => exact absurd hopen (mem_groupOn hmem).1
  | cons opener rest =>
    rw [hopen] at hmem hgroup hne
    cases hlive : kept cutoffTs (opener :: rest) with
    | nil => simp [hlive] at hne
    | cons first live =>
      have hshows := h.groups k opener rest hmem (by simp [hlive])
      rw [hlive] at hshows hgroup
      rw [outputRow_sliding hbasic hlive hshows]
      exact sameRow_group h.agrees hgroup

theorem snapshot_windowAfter [OrderedFloat64 F] (proj : Projection F) {cutoffTs : Int}
    {arrivals : List (Int × Row F)} (hnew : SlidingIncrementalWindow.tryNew stmt = some w)
    (h : Shown env stmt w cutoffTs arrivals) :
    Outcome (List.Forall₂ SameRow) ((windowAfter env stmt w cutoffTs arrivals).snapshot env)
      (evalWindow env proj stmt (liveRows env stmt cutoffTs arrivals)) := by
  obtain ⟨hbase, -, hbasic⟩ := tryNew_sliding hnew
  obtain ⟨-, -, horder, -, hplans⟩ := tryNew_eq hbase
  have hshown : ((windowAfter env stmt w cutoffTs arrivals).groups.filter fun g =>
      SlidingIncrementalWindow.isShown g.2) =
        (shownGroups env stmt w cutoffTs arrivals).map fun g =>
          (g.1, groupAfter env w cutoffTs g.2) := by
    unfold windowAfter shownGroups
    dsimp only
    rw [List.filter_map]
    congr 1
    refine List.filter_congr fun g hg => ?_
    obtain ⟨key, rows⟩ := g
    cases rows with
    | nil => exact absurd rfl (mem_groupOn hg).1
    | cons opener rest => exact isShown_groupAfter hbasic (h.groups key opener rest hg)
  have hrows : ((windowAfter env stmt w cutoffTs arrivals).groups.filter fun g =>
      SlidingIncrementalWindow.isShown g.2).map (fun g => w.outputRow g.2) =
        ((shownGroups env stmt w cutoffTs arrivals).map Prod.fst).map fun key =>
          w.outputRow (groupAfter env w cutoffTs (rowsOf env stmt key arrivals)) := by
    rw [hshown, List.map_map, List.map_map]
    refine List.map_congr_left fun g hg => ?_
    have hrowsOf : g.2 = rowsOf env stmt g.1 arrivals :=
      group_eq_filter (List.mem_filter.mp hg).1
    simp only [Function.comp_apply, hrowsOf]
  have hbuffered : ((windowGroups env stmt (liveRows env stmt cutoffTs arrivals)).map fun g =>
      bufferedRow env w.base g.2) =
        ((shownGroups env stmt w cutoffTs arrivals).map Prod.fst).map fun key =>
          bufferedRow env w.base ((kept cutoffTs (rowsOf env stmt key arrivals)).map Prod.snd) := by
    rw [h.order, List.map_map]
    refine List.map_congr_left fun g hg => ?_
    rw [Function.comp_apply, ← mem_windowGroups hg]
  rw [evalWindow_eq hplans hbasic h.agrees, hbuffered]
  unfold SlidingIncrementalWindow.snapshot
  rw [show (windowAfter env stmt w cutoffTs arrivals).orderStmt = stmt from horder]
  refine applyOrderLimit_outcome ?_
  rw [show ((windowAfter env stmt w cutoffTs arrivals).groups.filter fun g =>
      SlidingIncrementalWindow.isShown g.2).map
        (fun g => (windowAfter env stmt w cutoffTs arrivals).outputRow g.2) = _ from hrows,
    List.forall₂_map_left_iff, List.forall₂_map_right_iff, List.forall₂_same]
  exact fun key hkey => sameRow_sliding hbasic h hkey

-- ---- Runs

def lastCutoff (length : Nat) (arrivals : List (Int × Row F)) : Int :=
  (arrivals.getLast?.map fun a => saturate (a.1 - length)).getD minI64

/-- When the step of an arrival keeps to the buffered window: nothing panics, the sums come out
right when rows leave and when the row comes in, and the snapshot is right. -/
structure SlideAgrees (env : Env F) (stmt : SelectStmt F) (w : SlidingIncrementalWindow F)
    (length : Nat) (before : List (Int × Row F)) (arrival : Int × Row F) : Prop where
  wheres : ∃ b, passesWhere env stmt arrival.2 = .ok b
  takesOut : TakesOut env stmt w (lastCutoff length before) (saturate (arrival.1 - length)) before
  takesIn : passes env stmt arrival.2 = true →
    TakesIn env stmt w (saturate (arrival.1 - length)) before arrival.2
  shown : Shown env stmt w (saturate (arrival.1 - length)) (before ++ [arrival])

omit [Float64 F] in
theorem saturate_mono {a b : Int} (h : a ≤ b) : saturate a ≤ saturate b := by
  unfold saturate
  omega

omit [Float64 F] in
theorem cutoff_le {now : Int} (length : Nat) (h : minI64 ≤ now) : saturate (now - length) ≤ now := by
  unfold saturate
  omega

omit [Float64 F] in
theorem lastCutoff_le {length : Nat} {before : List (Int × Row F)} {arrival : Int × Row F}
    (h : InOrder (before ++ [arrival])) :
    lastCutoff length before ≤ saturate (arrival.1 - length) := by
  unfold lastCutoff
  cases hlast : before.getLast? with
  | none => exact le_max_left _ _
  | some last =>
    have hle : last.1 ≤ arrival.1 :=
      (List.pairwise_append.mp h).2.2 last (List.mem_of_getLast? hlast) arrival List.mem_cons_self
    exact saturate_mono (by omega)

theorem Shown.readable {cutoffTs : Int} {before : List (Int × Row F)} {arrival : Int × Row F}
    (h : Shown env stmt w cutoffTs (before ++ [arrival])) (hts : cutoffTs ≤ arrival.1)
    (hgroupBy : w.groupBy = stmt.groupBy) (hpasses : passes env stmt arrival.2 = true) :
    Readable env w.base arrival.2
      (rowsOf env stmt (keyAt env stmt.groupBy arrival.2) before = []) := by
  have hlive : liveRows env stmt cutoffTs (before ++ [arrival]) =
      liveRows env stmt cutoffTs before ++ [arrival.2] := by
    simp [liveRows, accepted, kept, hpasses, hts]
  have hagrees := h.agrees
  rw [hlive] at hagrees
  obtain ⟨hkeys, hargs, hfirsts⟩ := hagrees.readable hgroupBy hpasses
  refine ⟨hkeys, hargs, fun hempty => hfirsts ?_⟩
  rw [lookup_groupOn, Option.filter_eq_none_iff]
  intro group hgroup hne
  cases hgroup
  rw [Bool.not_eq_true', List.isEmpty_eq_false_iff_exists_mem] at hne
  obtain ⟨row, hrow⟩ := hne
  obtain ⟨hmem, hkey⟩ := List.mem_filter.mp hrow
  obtain ⟨a, ha, rfl⟩ := List.mem_map.mp (List.mem_filter.mp hmem).1
  have hrowsOf : a ∈ rowsOf env stmt (keyAt env stmt.groupBy arrival.2) before :=
    List.mem_filter.mpr ⟨(List.mem_filter.mp ha).1, hkey⟩
  rw [hempty] at hrowsOf
  cases hrowsOf

theorem slide_windowAfter [OrderedFloat64 F] {length : Nat} {before : List (Int × Row F)}
    {arrival : Int × Row F} (hnew : SlidingIncrementalWindow.tryNew stmt = some w)
    (horder : InOrder (before ++ [arrival])) (hrange : minI64 ≤ arrival.1)
    (h : SlideAgrees env stmt w length before arrival) :
    (windowAfter env stmt w (lastCutoff length before) before).slide env length arrival =
      .ok (windowAfter env stmt w (saturate (arrival.1 - length)) (before ++ [arrival])) := by
  obtain ⟨hbase, -, hbasic⟩ := tryNew_sliding hnew
  obtain ⟨-, hgroupBy, -⟩ := tryNew_eq hbase
  have hts := cutoff_le length hrange
  unfold SlidingIncrementalWindow.slide
  rw [evictBefore_windowAfter hbasic (List.pairwise_append.mp horder).1 (lastCutoff_le horder)
    h.takesOut, push_windowAfter hts hnew h.wheres
    (fun hpasses => h.shown.readable hts hgroupBy hpasses) h.takesIn]
  rfl

theorem slideAll_eq [OrderedFloat64 F] {length : Nat} {arrivals : List (Int × Row F)}
    (hnew : SlidingIncrementalWindow.tryNew stmt = some w) (horder : InOrder arrivals)
    (hrange : ∀ a ∈ arrivals, minI64 ≤ a.1)
    (hsteps : ∀ before arrival after, arrivals = before ++ arrival :: after →
      SlideAgrees env stmt w length before arrival) :
    w.slideAll env length arrivals =
      .ok (windowAfter env stmt w (lastCutoff length arrivals) arrivals) := by
  induction arrivals using List.reverseRecOn with
  | nil =>
    obtain ⟨-, hgroups, -⟩ := tryNew_sliding hnew
    obtain ⟨_, _, _, _, _, _⟩ := w
    cases hgroups
    rfl
  | append_singleton before arrival ih =>
    have hbefore := ih (List.pairwise_append.mp horder).1
      (fun a ha => hrange a (List.mem_append_left _ ha))
      (fun first a after heq => hsteps first a (after ++ [arrival]) (by simp [heq]))
    have hslide := slide_windowAfter hnew horder (hrange arrival (by simp))
      (hsteps before arrival [] rfl)
    unfold SlidingIncrementalWindow.slideAll at hbefore ⊢
    rw [List.foldlM_append, hbefore]
    simp only [bind, Except.bind, List.foldlM_cons, List.foldlM_nil, hslide]
    simp [lastCutoff, pure, Except.pure]

/-- Every snapshot of a run whose steps all keep to the buffered window is what the buffered window
gives for the rows in the window. -/
theorem sliding_eq_buffered [OrderedFloat64 F] (proj : Projection F) {length : Nat}
    {arrivals : List (Int × Row F)} (hnew : SlidingIncrementalWindow.tryNew stmt = some w)
    (horder : InOrder arrivals) (hrange : ∀ a ∈ arrivals, minI64 ≤ a.1)
    (hsteps : ∀ before arrival after, arrivals = before ++ arrival :: after →
      SlideAgrees env stmt w length before arrival)
    {before after : List (Int × Row F)} {arrival : Int × Row F}
    (hsplit : arrivals = before ++ arrival :: after) :
    Outcome (List.Forall₂ SameRow)
      (w.slideAll env length (before ++ [arrival]) >>= fun w => w.snapshot env)
      (evalWindow env proj stmt
        (liveRows env stmt (saturate (arrival.1 - length)) (before ++ [arrival]))) := by
  have hwhole : before ++ [arrival] ++ after = arrivals := by simp [hsplit]
  have hsub : (before ++ [arrival]).Sublist arrivals :=
    hwhole ▸ List.sublist_append_left _ _
  have hrun := slideAll_eq hnew (horder.sublist hsub) (fun a ha => hrange a (hsub.subset ha))
    (fun first a rest heq => hsteps first a (rest ++ after) (by simp [← hwhole, heq]))
  have hcutoff : lastCutoff length (before ++ [arrival]) = saturate (arrival.1 - length) := by
    simp [lastCutoff]
  rw [hrun, hcutoff]
  exact snapshot_windowAfter proj hnew (hsteps before arrival after hsplit).shown

end

/-- `SELECT ... FROM s GROUP BY a, SLIDINGWINDOW(ms, 10)` -/
def slidingByA (fields : List (Expr ℚ × Option String)) : SelectStmt ℚ :=
  { groupedByA fields with window := some (.slidingTime .ms 10 none) }

/-- `SELECT a, max(b) AS top` -/
def slidingMax : SelectStmt ℚ :=
  slidingByA [(.identifier "a", none), (.call "max" [.identifier "b"], some "top")]

/-- `SELECT a, sum(b) AS total` -/
def slidingSum : SelectStmt ℚ :=
  slidingByA [(.identifier "a", none), (.call "sum" [.identifier "b"], some "total")]

def slidingMaxWindow : SlidingIncrementalWindow ℚ where
  whereClause := none
  groupBy := [.identifier "a"]
  groupNames := ["a"]
  plans := [.first "a" (.identifier "a"), .agg "top" .max (some (.identifier "b"))]
  orderStmt := slidingMax
  groups := []

theorem agrees_slidingMax (b : Int) :
    Agrees Pipeline.bareEnv slidingMax slidingMaxWindow.base [rowAB 1 b] := by
  have hgroups : windowGroups Pipeline.bareEnv slidingMax [rowAB 1 b] =
      [("v\x1f", [rowAB 1 b])] := rfl
  refine ⟨fun _ _ => ⟨true, rfl⟩, ?_, ?_, ?_⟩
  · rintro row - e he
    cases List.mem_singleton.mp he
    exact ⟨_, rfl⟩
  · intro key first rest hgroup plan hplan
    rw [hgroups] at hgroup
    cases List.mem_singleton.mp hgroup
    simp only [slidingMaxWindow, SlidingIncrementalWindow.base, List.mem_cons, List.not_mem_nil,
      or_false] at hplan
    rcases hplan with rfl | rfl
    · exact ⟨nofun, _, rfl⟩
    · refine ⟨fun row hrow => ?_, fun _ => .inl ⟨ofI64 b, List.mem_cons_self, rfl⟩⟩
      cases List.mem_singleton.mp hrow
      exact ⟨_, rfl, rfl⟩
  · intro key first rest hgroup name value hvalue
    rw [hgroups] at hgroup
    cases List.mem_singleton.mp hgroup
    by_cases hname : name = "a"
    · subst name
      exact .inr ⟨.identifier "a", rfl, Option.some.inj hvalue⟩
    · rw [show groupColumns Pipeline.bareEnv slidingMaxWindow.base (rowAB 1 b) =
        AList.insert "a" (ofI64 1) ∅ from rfl, AList.lookup_insert_ne hname] at hvalue
      cases hvalue

theorem mem_slidingMax {name : String} {kind : AggKind ℚ} {arg : Option (Expr ℚ)}
    (h : .agg name kind arg ∈ slidingMaxWindow.plans) :
    kind = .max ∧ arg = some (.identifier "b") := by
  simp only [slidingMaxWindow, List.mem_cons, reduceCtorEq, Plan.agg.injEq, List.not_mem_nil,
    or_false, false_or] at h
  exact h.2

theorem groupShows_slidingMax (ts opener b : Int) :
    GroupShows Pipeline.bareEnv slidingMaxWindow (rowAB 1 opener) [(ts, rowAB 1 b)] := by
  refine ⟨?_, ?_, .inr ⟨"top", .max, some (.identifier "b"), by simp [slidingMaxWindow], rfl⟩, ?_⟩
  · rintro r hr e he
    cases hr
    cases List.mem_singleton.mp he
    rfl
  · rintro r hr name e he
    cases hr
    simp only [slidingMaxWindow, List.mem_cons, Plan.first.injEq, reduceCtorEq, List.not_mem_nil,
      or_false] at he
    rw [he.2]
    rfl
  · intro name kind arg hplan
    obtain ⟨rfl, rfl⟩ := mem_slidingMax hplan
    refine ⟨fun n hn => rfl, fun n hn m hm _ _ => ?_⟩
    rw [List.mem_singleton.mp hn, List.mem_singleton.mp hm]

def maxArrivals : List (Int × Row ℚ) := [(0, rowAB 1 5), (20, rowAB 1 3)]

theorem slideAgrees_slidingMax {before after : List (Int × Row ℚ)} {arrival : Int × Row ℚ}
    (h : maxArrivals = before ++ arrival :: after) :
    SlideAgrees Pipeline.bareEnv slidingMax slidingMaxWindow 10 before arrival := by
  have htakesOut (cutoffTs later : Int) :
      TakesOut Pipeline.bareEnv slidingMax slidingMaxWindow cutoffTs later before := by
    intro g hg name kind arg hplan
    obtain ⟨rfl, rfl⟩ := mem_slidingMax hplan
    exact fun _ => trivial
  have htakesIn (cutoffTs : Int) (row : Row ℚ) :
      TakesIn Pipeline.bareEnv slidingMax slidingMaxWindow cutoffTs before row := by
    intro name kind arg hplan
    obtain ⟨rfl, rfl⟩ := mem_slidingMax hplan
    exact fun n hn => rfl
  refine ⟨⟨true, rfl⟩, htakesOut _ _, fun _ => htakesIn _ _, ?_⟩
  rcases before with _ | ⟨first, _ | ⟨second, rest⟩⟩
  · cases h
    refine ⟨agrees_slidingMax 5, rfl, fun key opener rest hgroup _ => ?_⟩
    cases List.mem_singleton.mp hgroup
    exact groupShows_slidingMax 0 5 5
  · cases h
    refine ⟨agrees_slidingMax 3, rfl, fun key opener rest hgroup _ => ?_⟩
    cases List.mem_singleton.mp hgroup
    exact groupShows_slidingMax 20 5 3
  · simp [maxArrivals] at h

/-- The row with the larger `b` has left the window when the other one comes in. -/
theorem max_slides_out :
    SlidingIncrementalWindow.tryNew slidingMax = some slidingMaxWindow ∧
      Outcome (List.Forall₂ SameRow)
        (slidingMaxWindow.slideAll Pipeline.bareEnv 10 [(0, rowAB 1 5), (20, rowAB 1 3)] >>=
          fun w => w.snapshot Pipeline.bareEnv)
        (evalWindow Pipeline.bareEnv noProjection slidingMax
          (liveRows Pipeline.bareEnv slidingMax 10 [(0, rowAB 1 5), (20, rowAB 1 3)])) :=
  ⟨rfl, sliding_eq_buffered noProjection rfl (by simp [maxArrivals, InOrder])
    (by simp [maxArrivals, minI64]) (fun _ _ _ => slideAgrees_slidingMax)
    (show maxArrivals = [(0, rowAB 1 5)] ++ (20, rowAB 1 3) :: [] from rfl)⟩

/-- A row without `b` is in the window, but the accumulator of its sum counts nothing. -/
theorem null_group_hidden :
    ¬∀ (stmt : SelectStmt ℚ) (w : SlidingIncrementalWindow ℚ) (length : Nat)
      (arrivals before after : List (Int × Row ℚ)) (arrival : Int × Row ℚ),
      SlidingIncrementalWindow.tryNew stmt = some w → InOrder arrivals →
      (∀ a ∈ arrivals, minI64 ≤ a.1) → arrivals = before ++ arrival :: after →
        Outcome (List.Forall₂ SameRow)
          (w.slideAll Pipeline.bareEnv length (before ++ [arrival]) >>=
            fun w => w.snapshot Pipeline.bareEnv)
          (evalWindow Pipeline.bareEnv noProjection stmt
            (liveRows Pipeline.bareEnv stmt (saturate (arrival.1 - length))
              (before ++ [arrival]))) := by
  intro h
  have hrow : Outcome (List.Forall₂ SameRow) (.ok ([] : List (Row ℚ)))
      (.ok [(AList.singleton "a" (ofI64 1)).insert "total" .null]) :=
    h slidingSum _ 10 [(0, AList.singleton "a" (ofI64 1))] [] [] _ rfl
      (List.pairwise_singleton _ _) (by simp [minI64]) rfl
  cases hrow with
  | ok hrows => cases hrows

end Rekuiper.Sql
