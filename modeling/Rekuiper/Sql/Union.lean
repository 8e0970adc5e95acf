import Rekuiper.Sql.Select

/-!
# Unions on the fast path

For a statement without analytic functions the projection of a branch leaves the rule's state as
it was, so the two evaluations of a record differ only in the `WHERE` that they apply.
-/

namespace Rekuiper.Sql

open Lib

variable {F α β : Type}

-- ---- Projections that keep the state

namespace Keeps

theorem pure (a : α) : Keeps (Pure.pure a : Eval F α) := Keeps.lift (.ok a)

theorem mapMessage {x : Eval F α} (f : String → String) (hx : Keeps x) :
    Keeps (mapMessage f x) := by
  intro s
  have hs := hx s
  unfold Sql.mapMessage Eval.go at *
  dsimp only
  split
  · rename_i text s' heq
    rw [heq] at hs
    exact hs
  · exact hs

theorem foldlM {f : β → α → Eval F β} {xs : List α} (h : ∀ x ∈ xs, ∀ b, Keeps (f b x)) (b : β) :
    Keeps (xs.foldlM f b) := by
  induction xs generalizing b with
  | nil => exact Keeps.pure b
  | cons x xs ih =>
    rw [List.foldlM_cons]
    exact (h x List.mem_cons_self b).bind fun b' =>
      ih (fun y hy => h y (List.mem_cons_of_mem _ hy)) b'

end Keeps

theorem go_eq_of_keeps {x : Eval F α} {a : α} {s : RuleState F} (hx : Keeps x)
    (h : (x.go s).1 = .ok a) : x.go s = (.ok a, s) :=
  Prod.ext h (hx s)

theorem go_mapM {f : α → Eval F β} {g : α → β} {xs : List α} {s : RuleState F}
    (h : ∀ x ∈ xs, (f x).go s = (.ok (g x), s)) : (xs.mapM f).go s = (.ok (xs.map g), s) := by
  induction xs with
  | nil => rfl
  | cons x xs ih =>
    rw [List.forall_mem_cons] at h
    rw [List.mapM_cons, go_bind, h.1]
    dsimp only
    rw [go_bind, ih h.2]
    rfl

-- ---- Merged rows

def mergedRows (rows : List (Row F)) : Option (Row F) := (rows.map some).foldr mergeUnionRows none

def lastValue (key : String) (rows : List (Row F)) : Option (Value F) :=
  (rows.filterMap fun row => row.lookup key).getLast?

theorem lookup_foldl_insert {entries : List (Sigma fun _ : String => Value F)}
    (hnodup : entries.NodupKeys) (left : Row F) (key : String) :
    (entries.foldl (fun m e => m.insert e.1 e.2) left).lookup key =
      (entries.dlookup key).or (left.lookup key) := by
  induction entries generalizing left with
  | nil => rfl
  | cons entry entries ih =>
    obtain ⟨name, value⟩ := entry
    obtain ⟨hname, hnodup⟩ := List.nodupKeys_cons.mp hnodup
    rw [List.foldl_cons, ih hnodup]
    by_cases hkey : key = name
    · subst hkey
      rw [List.dlookup_eq_none.mpr hname, List.dlookup_cons_eq]
      exact AList.lookup_insert left
    · rw [List.dlookup_cons_ne _ _ hkey]
      congr 1
      exact AList.lookup_insert_ne hkey

theorem lookup_merge (left right : Row F) (key : String) :
    (right.entries.foldl (fun m e => m.insert e.1 e.2) left).lookup key =
      (right.lookup key).or (left.lookup key) :=
  lookup_foldl_insert right.nodupKeys left key

theorem lastValue_cons (key : String) (row : Row F) (rows : List (Row F)) :
    lastValue key (row :: rows) = (lastValue key rows).or (row.lookup key) := by
  unfold lastValue
  cases h : row.lookup key with
  | none => simp [h]
  | some value => simp [h, List.getLast?_cons]

theorem mergedRows_cons (row : Row F) (rows : List (Row F)) :
    ∃ merged, mergedRows (row :: rows) = some merged ∧
      ∀ key, merged.lookup key = lastValue key (row :: rows) := by
  induction rows generalizing row with
  | nil => exact ⟨row, rfl, fun key => by simp [lastValue]⟩
  | cons next rows ih =>
    obtain ⟨merged, hmerged, hlookup⟩ := ih next
    refine ⟨merged.entries.foldl (fun m e => m.insert e.1 e.2) row, ?_, fun key => ?_⟩
    · unfold mergedRows at hmerged ⊢
      rw [List.map_cons, List.foldr_cons, hmerged]
      rfl
    · rw [lookup_merge, hlookup, lastValue_cons key row]

theorem mergedRows_same_iff {rows rows' : List (Row F)} (h : rows ≠ []) (h' : rows' ≠ []) :
    Option.Rel SameRow (mergedRows rows) (mergedRows rows') ↔
      ∀ key, lastValue key rows = lastValue key rows' := by
  obtain ⟨row, rest, rfl⟩ := List.exists_cons_of_ne_nil h
  obtain ⟨row', rest', rfl⟩ := List.exists_cons_of_ne_nil h'
  obtain ⟨merged, hmerged, hlookup⟩ := mergedRows_cons row rest
  obtain ⟨merged', hmerged', hlookup'⟩ := mergedRows_cons row' rest'
  rw [hmerged, hmerged']
  constructor
  · rintro ⟨hsame⟩ key
    rw [← hlookup, ← hlookup', hsame]
  · intro hsame
    refine .some fun key => ?_
    rw [hlookup, hlookup', hsame]

theorem foldr_merge_options (rows : List (Option (Row F))) :
    rows.foldr mergeUnionRows none = mergedRows (rows.filterMap id) := by
  induction rows with
  | nil => rfl
  | cons row rows ih =>
    cases row with
    | none =>
      rw [List.foldr_cons, ih, List.filterMap_cons]
      rfl
    | some row =>
      rw [List.foldr_cons, ih]
      rfl

-- ---- Fields that keep the state

def fieldExprs : Expr F → List (Expr F)
  | .wildcardModified _ replace => replace.map Prod.fst
  | e => [e]

def branchExprs (branch : SelectStmt F) : List (Expr F) :=
  branch.fields.flatMap fieldExprs ++ branch.whereClause.toList

def Stateless (e : Expr F) : Prop := ∀ sub ∈ subexprs e, isStatefulCall sub = false

section
variable [Float64 F] {env : Env F} {text : String → Expr F → String} {row : Row F}
  {stmt branch : SelectStmt F}

theorem valueField_keeps {describe : Expr F → String} {key : String} {label : Option String}
    {e : Expr F} {output : Row F} (h : Stateless e) :
    Keeps (valueField env describe row key label e output) := by
  unfold valueField
  split
  · exact Keeps.pure _
  · exact ((evalExpr_keeps env row e h).mapMessage _).bind fun _ => Keeps.pure _

theorem selectField_keeps {describe : Expr F → String} {names : List String} {output : Row F}
    {entry : Expr F × Nat} (h : ∀ e ∈ fieldExprs entry.1, Stateless e) :
    Keeps (selectField env describe stmt names row output entry) := by
  obtain ⟨e, idx⟩ := entry
  have hvalue (e : Expr F) (f : String → String) (g : Value F → Row F) (he : Stateless e) :
      Keeps (mapMessage f (evalExpr env row e) >>= fun value => pure (g value)) :=
    ((evalExpr_keeps env row e he).mapMessage f).bind fun _ => Keeps.pure _
  cases e with
  | wildcard => exact Keeps.pure _
  | wildcardModified except replace =>
    refine Keeps.foldlM (fun r hr output => hvalue r.1 _ _ ?_) _
    exact h r.1 (List.mem_map_of_mem hr)
  | identifier name => exact Keeps.pure _
  | fieldAccess parent leaf =>
    have hfield : Stateless (.fieldAccess parent leaf) := h _ List.mem_cons_self
    have hparent : Stateless parent := fun sub hsub => hfield sub (List.mem_cons_of_mem _ hsub)
    simp only [selectField]
    split
    · exact hvalue _ _ _ hparent
    · exact hvalue _ _ _ hfield
  | call name args =>
    have hcall : Stateless (.call name args) := h _ List.mem_cons_self
    simp only [selectField]
    split
    · split
      · exact Keeps.pure _
      · rename_i arg rest
        refine hvalue arg _ _ fun sub hsub => hcall sub ?_
        exact List.mem_cons_of_mem _ (List.mem_append_left _ hsub)
    · split
      · -- `changed_cols` writes the state
        rename_i hcols
        have hwrites := hcall _ List.mem_cons_self
        simp [isStatefulCall, hcols.1] at hwrites
      · exact valueField_keeps hcall
  | _ => exact valueField_keeps (h _ List.mem_cons_self)

theorem selectBranch_keeps {names : List String}
    (h : ∀ e ∈ branch.fields.flatMap fieldExprs, Stateless e) :
    Keeps (selectBranch env text branch names row) := by
  refine Keeps.foldlM (fun entry hentry output => selectField_keeps fun e he => ?_) _
  exact h e (List.mem_flatMap.mpr ⟨entry.1, (List.mem_zipIdx' hentry).2 ▸ List.getElem_mem _, he⟩)

-- ---- The branches of a record

/-- The branch's `WHERE` holds. -/
def branchPasses (env : Env F) (row : Row F) (branch : SelectStmt F) : Bool :=
  match branch.whereClause with
  | some condition => ((evalBoolStateful env row condition).go RuleState.new).1 = .ok true
  | none => true

def branchOutput (env : Env F) (text : String → Expr F → String) (row : Row F)
    (branch : SelectStmt F) : Row F :=
  match ((selectBranch env text branch (selectFieldNames branch) row).go RuleState.new).1 with
  | .ok output => output
  | .error _ => ∅

/-- The statement has no analytic functions, and none of its expressions fails on the record. -/
structure Evaluates (env : Env F) (text : String → Expr F → String) (row : Row F)
    (stmt : SelectStmt F) : Prop where
  stateless : ∀ branch ∈ branches stmt, ∀ e ∈ branchExprs branch, Stateless e
  filters : ∀ branch ∈ branches stmt, ∀ condition ∈ branch.whereClause,
    ∃ holds, ((evalBoolStateful env row condition).go RuleState.new).1 = .ok holds
  projects : ∀ branch ∈ branches stmt, ∃ output,
    ((selectBranch env text branch (selectFieldNames branch) row).go RuleState.new).1 = .ok output

section
variable (h : Evaluates env text row stmt)
include h

theorem go_selectBranch (hbranch : branch ∈ branches stmt) :
    (selectBranch env text branch (selectFieldNames branch) row).go RuleState.new =
      (.ok (branchOutput env text row branch), RuleState.new) := by
  obtain ⟨output, houtput⟩ := h.projects branch hbranch
  have hkeeps : Keeps (selectBranch env text branch (selectFieldNames branch) row) :=
    selectBranch_keeps fun e he => h.stateless branch hbranch e (List.mem_append_left _ he)
  rw [go_eq_of_keeps hkeeps houtput, branchOutput, houtput]

theorem go_evalBoolStateful (hbranch : branch ∈ branches stmt) {condition : Expr F}
    (hwhere : branch.whereClause = some condition) :
    (evalBoolStateful env row condition).go RuleState.new =
      (.ok (branchPasses env row branch), RuleState.new) := by
  obtain ⟨holds, hholds⟩ := h.filters branch hbranch condition hwhere
  have hkeeps : Keeps (evalBoolStateful env row condition) :=
    evalBoolStateful_keeps env row condition
      (h.stateless branch hbranch condition (by simp [branchExprs, hwhere]))
  rw [go_eq_of_keeps hkeeps hholds, branchPasses, hwhere]
  cases holds <;> simp [hholds]

theorem go_evalSelectStatelessFast :
    ((evalSelectStatelessFast env text stmt (selectFieldNames stmt) false row).go RuleState.new).1 =
      .ok (if branchPasses env row stmt then
        mergedRows ((branches stmt).map (branchOutput env text row)) else none) := by
  have hself : stmt ∈ branches stmt := by
    rw [branches_eq]
    exact List.mem_cons_self
  have hproject : (evalSelectStatefulWithNames env text stmt (selectFieldNames stmt) row).go
      RuleState.new =
        (.ok (mergedRows ((branches stmt).map (branchOutput env text row))), RuleState.new) := by
    unfold evalSelectStatefulWithNames
    split
    · unfold evalSelectStateful
      rw [go_bind, go_mapM fun branch hbranch => go_selectBranch h hbranch]
      rfl
    · rename_i hsingle
      rw [branches_single hsingle, go_bind, go_selectBranch h hself]
      rfl
  unfold evalSelectStatelessFast
  split
  · rename_i hwhere
    rw [hproject]
    simp [branchPasses, hwhere]
  · rename_i condition hwhere
    rw [Bool.not_false, if_pos rfl, go_bind, go_evalBoolStateful h hself hwhere]
    dsimp only
    cases branchPasses env row stmt with
    | true => rw [if_pos rfl, if_pos rfl, hproject]
    | false => rfl

theorem passesWhere_eq (hbranch : branch ∈ branches stmt) :
    passesWhere env branch row = .ok (branchPasses env row branch) := by
  unfold passesWhere
  split
  · rename_i condition hwhere
    rw [evalBool, go_evalBoolStateful h hbranch hwhere]
    rfl
  · rename_i hwhere
    simp [branchPasses, hwhere]

theorem evalSelect_eq :
    evalSelect env text stmt row =
      .ok (mergedRows (((branches stmt).filter (branchPasses env row)).map
        (branchOutput env text row))) := by
  have hbranches : ∀ branch ∈ branches stmt, evalSelectBranch env text row branch =
      .ok (if branchPasses env row branch then some (branchOutput env text row branch)
        else none) := by
    intro branch hbranch
    rw [evalSelectBranch, passesWhere_eq h hbranch, go_selectBranch h hbranch]
    cases branchPasses env row branch <;> rfl
  rw [evalSelect, mapM_ok hbranches]
  change Except.ok (List.foldr mergeUnionRows none _) = _
  rw [foldr_merge_options, List.filterMap_map]
  congr 2
  clear hbranches h
  induction branches stmt with
  | nil => rfl
  | cons branch rest ih =>
    rw [List.filterMap_cons, List.filter_cons, ih]
    cases hpasses : branchPasses env row branch <;> simp [hpasses]

end

/-- Both evaluations give the same row if the record meets the first `WHERE` and the branches that
it does not pass change no column, or if it passes no branch, and only then. -/
theorem union_agrees_iff (h : Evaluates env text row stmt) :
    Outcome (Option.Rel SameRow)
        ((evalSelectStatelessFast env text stmt (selectFieldNames stmt) false row).go
          RuleState.new).1
        (evalSelect env text stmt row) ↔
      (branchPasses env row stmt = true → ∀ key,
        lastValue key ((branches stmt).map (branchOutput env text row)) =
          lastValue key (((branches stmt).filter (branchPasses env row)).map
            (branchOutput env text row))) ∧
      (branchPasses env row stmt = false → ∀ branch ∈ branches stmt,
        branchPasses env row branch = false) := by
  rw [go_evalSelectStatelessFast h, evalSelect_eq h]
  have hok {x y : Option (Row F)} : Outcome (Option.Rel SameRow) (.ok x : Except Failure _)
      (.ok y) ↔ Option.Rel SameRow x y :=
    ⟨fun hxy => by cases hxy; assumption, .ok⟩
  rw [hok]
  have hbranches : branches stmt ≠ [] := by simp [branches_eq]
  cases hpasses : branchPasses env row stmt with
  | true =>
    have hfilter : (branches stmt).filter (branchPasses env row) ≠ [] := by
      rw [branches_eq, List.filter_cons, if_pos hpasses]
      exact List.cons_ne_nil _ _
    rw [if_pos rfl, mergedRows_same_iff (by simpa using hbranches) (by simpa using hfilter)]
    simp
  | false =>
    rw [if_neg Bool.false_ne_true]
    have hnone : Option.Rel SameRow none (mergedRows (((branches stmt).filter
        (branchPasses env row)).map (branchOutput env text row))) ↔
          (branches stmt).filter (branchPasses env row) = [] := by
      cases hfilter : (branches stmt).filter (branchPasses env row) with
      | nil => exact iff_of_true .none rfl
      | cons branch rest =>
        obtain ⟨merged, hmerged, -⟩ :=
          mergedRows_cons (branchOutput env text row branch) (rest.map (branchOutput env text row))
        rw [List.map_cons, hmerged]
        exact iff_of_false nofun (List.cons_ne_nil _ _)
    rw [hnone, List.filter_eq_nil_iff]
    simp

end

/-- `SELECT a FROM s WHERE a > 5 UNION SELECT b FROM s` -/
def filteredUnion : SelectStmt ℚ :=
  { SelectStmt.plain [.identifier "a"] "s"
      (some (.binaryOp (.identifier "a") .gt (.literal (.number (.int 5))))) with
    setOp := some (.union, SelectStmt.plain [.identifier "b"] "s" none) }

theorem branches_filteredUnion :
    branches filteredUnion = [filteredUnion, SelectStmt.plain [.identifier "b"] "s" none] := rfl

theorem filteredUnion_evaluates (a b : Int) :
    Evaluates Pipeline.bareEnv (fun _ _ => "") (rowAB a b) filteredUnion := by
  constructor
  all_goals
    rw [branches_filteredUnion, List.forall_mem_cons, List.forall_mem_singleton]
  · constructor
    · unfold Stateless
      decide
    · unfold Stateless
      decide
  · constructor
    · rintro condition ⟨⟩
      exact ⟨_, rfl⟩
    · exact fun condition hwhere => nomatch hwhere
  · exact ⟨⟨_, rfl⟩, ⟨_, rfl⟩⟩

/-- A record that passes both branches. -/
theorem passing_record_agrees :
    Outcome (Option.Rel SameRow)
      ((evalSelectStatelessFast Pipeline.bareEnv (fun _ _ => "") filteredUnion
        (selectFieldNames filteredUnion) false (rowAB 7 2)).go RuleState.new).1
      (evalSelect Pipeline.bareEnv (fun _ _ => "") filteredUnion (rowAB 7 2)) := by
  have hpasses : ∀ branch ∈ branches filteredUnion,
      branchPasses Pipeline.bareEnv (rowAB 7 2) branch = true := by
    rw [branches_filteredUnion, List.forall_mem_cons, List.forall_mem_singleton]
    exact ⟨by decide, by decide⟩
  refine (union_agrees_iff (filteredUnion_evaluates 7 2)).mpr ⟨fun _ key => ?_, fun hfails => ?_⟩
  · rw [List.filter_eq_self.mpr hpasses]
  · rw [hpasses filteredUnion List.mem_cons_self] at hfails
    cases hfails

/-- The record fails the first `WHERE`, and the second branch, which has none, is lost. -/
theorem second_branch_lost : ¬∀ row : Row ℚ,
    Evaluates Pipeline.bareEnv (fun _ _ => "") row filteredUnion →
      Outcome (Option.Rel SameRow)
        ((evalSelectStatelessFast Pipeline.bareEnv (fun _ _ => "") filteredUnion
          (selectFieldNames filteredUnion) false row).go RuleState.new).1
        (evalSelect Pipeline.bareEnv (fun _ _ => "") filteredUnion row) := by
  intro h
  have hsame := h (rowAB 1 2) (filteredUnion_evaluates 1 2)
  have hfast : ((evalSelectStatelessFast Pipeline.bareEnv (fun _ _ => "") filteredUnion
      (selectFieldNames filteredUnion) false (rowAB 1 2)).go RuleState.new).1 = .ok none := rfl
  obtain ⟨merged, hmerged⟩ : ∃ merged, evalSelect Pipeline.bareEnv (fun _ _ => "") filteredUnion
      (rowAB 1 2) = .ok (some merged) := ⟨_, rfl⟩
  rw [hfast, hmerged] at hsame
  cases hsame with
  | ok hrel => cases hrel

end Rekuiper.Sql
