import Rekuiper.Sql.Select
import Rekuiper.Sql.StateWrites

/-!
# How statements write the rule's state

Beside its expressions a statement writes entries for the columns of `changed_cols` as a field,
under keys made of the field's index and the column's name.
-/

namespace Rekuiper.Sql

open Lib

variable {F : Type} {α β : Type} {Inv : HashMap String (Value F) → Prop}

theorem foldlM_preserves {f : β → α → Eval F β} {xs : List α}
    (hf : ∀ b, ∀ x ∈ xs, Preserves Inv (f b x)) (b : β) : Preserves Inv (xs.foldlM f b) := by
  induction xs generalizing b with
  | nil => exact Preserves.pure b
  | cons x xs ih =>
    rw [List.foldlM_cons]
    exact (hf b x List.mem_cons_self).bind fun b' =>
      ih (fun b y hy => hf b y (List.mem_cons_of_mem x hy)) b'

theorem forM_preserves {f : α → Eval F PUnit} {xs : List α}
    (hf : ∀ x ∈ xs, Preserves Inv (f x)) : Preserves Inv (xs.forM f) := by
  induction xs with
  | nil => exact Preserves.pure _
  | cons x xs ih =>
    exact (hf x List.mem_cons_self).bind fun _ => ih fun y hy => hf y (List.mem_cons_of_mem x hy)

theorem mapM_preserves {f : α → Eval F β} {xs : List α}
    (hf : ∀ x ∈ xs, Preserves Inv (f x)) : Preserves Inv (xs.mapM f) := by
  induction xs with
  | nil => exact Preserves.pure _
  | cons x xs ih =>
    rw [List.mapM_cons]
    exact (hf x List.mem_cons_self).bind fun _ =>
      (ih fun y hy => hf y (List.mem_cons_of_mem x hy)).bind fun _ => Preserves.pure _

theorem mapMessage_preserves (f : String → String) {x : Eval F α} (hx : Preserves Inv x) :
    Preserves Inv (mapMessage f x) := by
  intro s hs
  have hmid := hx s hs
  unfold Eval.go mapMessage
  split
  · next h =>
    rw [h] at hmid
    exact hmid
  · exact hmid

theorem orNull_preserves {x : Eval F (Value F)} (hx : Preserves Inv x) :
    Preserves Inv (orNull x) := hx

theorem withRowValues_preserves {x : Eval F α} (hx : Preserves Inv x) :
    Preserves Inv (withRowValues x) := fun s hs => hx { s with rowValues := ∅ } hs

section
variable [Float64 F] {env : Env F} {row : Row F}

-- ---- What a statement evaluates

def evaluatedExprs : Expr F → List (Expr F)
  | .wildcard | .identifier _ => []
  | .wildcardModified _ replace => replace.map Prod.fst
  | .fieldAccess parent leaf => [parent, .fieldAccess parent leaf]
  | .call name args =>
    if toAsciiLowercase name = "extract" then args
    else if toAsciiLowercase name = "changed_cols" ∧ 2 ≤ args.length then args
    else [.call name args]
  | e => [e]

def stmtExprs (stmt : SelectStmt F) : List (Expr F) :=
  ((branches stmt).flatMap fun branch => branch.fields.flatMap evaluatedExprs) ++
    stmt.fields.flatMap collectAnalyticExprs ++
    (stmt.whereClause.toList ++ stmt.whereClause.toList.flatMap collectAnalyticExprs)

def isChangedCols : Expr F → Bool
  | .call name args => toAsciiLowercase name == "changed_cols" && decide (2 ≤ args.length)
  | _ => false

/-- The state key of a column of `changed_cols`, which is the field at `idx`. -/
def changedKey (idx : Nat) (name : String) : String := s!"changed_cols:{idx}:{name}:"

/-- The columns that an argument of `changed_cols` looks at. -/
def changedNames (row : Row F) (arg : Expr F × Nat) : List String :=
  match arg.1 with
  | .wildcard => (columnsOf row).map Prod.fst
  | e => [columnName e arg.2]

def fieldKeys (row : Row F) (entry : Expr F × Nat) : List String :=
  match entry.1 with
  | .call name args =>
    if isChangedCols (.call name args) then
      (args.drop 2).zipIdx.flatMap fun arg => (changedNames row arg).map (changedKey entry.2)
    else []
  | _ => []

def stmtFieldKeys (row : Row F) (stmt : SelectStmt F) : List String :=
  (branches stmt).flatMap fun branch => branch.fields.zipIdx.flatMap (fieldKeys row)

-- ---- Fields

theorem changedColumn_preserves {lead : String} {ignoreNull : Bool} {idx : Nat}
    {column : String × Value F}
    (hinsert : ∀ m value, Inv m → Inv (m.insert (changedKey idx column.1) value))
    (output : Row F) : Preserves Inv (changedColumn lead ignoreNull idx output column) := by
  unfold changedColumn
  split
  · exact Preserves.pure _
  · refine Preserves.get_bind fun s hs => ?_
    split
    · exact hinsert _ _ hs
    · exact hs

theorem changedArg_preserves {lead : String} {ignoreNull : Bool} {idx : Nat} {arg : Expr F × Nat}
    (hexpr : Preserves Inv (evalExpr env row arg.1))
    (hinsert : ∀ name ∈ changedNames row arg, ∀ m value, Inv m →
      Inv (m.insert (changedKey idx name) value))
    (output : Row F) : Preserves Inv (changedArg env row lead ignoreNull idx output arg) := by
  unfold changedArg
  unfold changedNames at hinsert
  split
  · next h =>
    rw [h] at hinsert
    refine foldlM_preserves (fun output column hcolumn => ?_) output
    exact changedColumn_preserves
      (hinsert _ (List.mem_map.mpr ⟨column, (List.mem_filter.mp hcolumn).1, rfl⟩)) output
  · next hwild =>
    refine (orNull_preserves hexpr).bind fun value => changedColumn_preserves ?_ output
    refine hinsert _ ?_
    split
    · next h => exact absurd h hwild
    · exact List.mem_singleton_self _

theorem changedColsField_preserves {idx : Nat} {args : List (Expr F)}
    (hexpr : ∀ e ∈ args, Preserves Inv (evalExpr env row e)) (hlength : 2 ≤ args.length)
    (hinsert : ∀ arg ∈ (args.drop 2).zipIdx, ∀ name ∈ changedNames row arg, ∀ m value, Inv m →
      Inv (m.insert (changedKey idx name) value))
    (output : Row F) : Preserves Inv (changedColsField env row idx args output) := by
  obtain ⟨first, second, rest, rfl⟩ : ∃ first second rest, args = first :: second :: rest := by
    match args, hlength with
    | first :: second :: rest, _ => exact ⟨first, second, rest, rfl⟩
  simp only [List.forall_mem_cons] at hexpr
  obtain ⟨hfirst, hsecond, hrest⟩ := hexpr
  unfold changedColsField
  refine (orNull_preserves hfirst).bind fun lead => (orNull_preserves hsecond).bind fun ignoreNull =>
    foldlM_preserves (fun output arg harg => ?_) output
  exact changedArg_preserves (hrest _ (List.fst_mem_of_mem_zipIdx harg)) (hinsert arg harg) output

theorem valueField_preserves {text : Expr F → String} {key : String} {label : Option String}
    {e : Expr F} (hexpr : Preserves Inv (evalExpr env row e)) (output : Row F) :
    Preserves Inv (valueField env text row key label e output) := by
  unfold valueField
  split
  · exact Preserves.pure _
  · exact (mapMessage_preserves _ hexpr).bind fun _ => Preserves.pure _

theorem selectField_preserves {text : Expr F → String} {stmt : SelectStmt F} {names : List String}
    {entry : Expr F × Nat} (hexpr : ∀ e ∈ evaluatedExprs entry.1, Preserves Inv (evalExpr env row e))
    (hinsert : ∀ key ∈ fieldKeys row entry, ∀ m value, Inv m → Inv (m.insert key value))
    (output : Row F) : Preserves Inv (selectField env text stmt names row output entry) := by
  obtain ⟨e, idx⟩ := entry
  unfold selectField
  cases e with
  | wildcard => exact Preserves.pure _
  | identifier => exact Preserves.pure _
  | wildcardModified except replace =>
    refine foldlM_preserves (fun output r hr => ?_) _
    exact (mapMessage_preserves _ (hexpr _ (List.mem_map_of_mem hr))).bind fun _ => Preserves.pure _
  | fieldAccess parent leaf =>
    simp only [evaluatedExprs, List.forall_mem_cons] at hexpr
    dsimp only
    split
    · exact (mapMessage_preserves _ hexpr.1).bind fun _ => Preserves.pure _
    · exact (mapMessage_preserves _ hexpr.2.1).bind fun _ => Preserves.pure _
  | call name args =>
    simp only [evaluatedExprs] at hexpr
    dsimp only
    split
    · next h =>
      rw [if_pos h] at hexpr
      cases args with
      | nil => exact Preserves.pure _
      | cons arg args =>
        exact (mapMessage_preserves _ (hexpr arg List.mem_cons_self)).bind fun _ => Preserves.pure _
    next hextract =>
    rw [if_neg hextract] at hexpr
    split
    · next h =>
      rw [if_pos h] at hexpr
      have hcols : isChangedCols (.call name args) = true := by simp [isChangedCols, h]
      simp only [fieldKeys, hcols, if_true, List.forall_mem_flatMap, List.forall_mem_map] at hinsert
      exact changedColsField_preserves hexpr h.2 hinsert output
    · next h =>
      rw [if_neg h, List.forall_mem_singleton] at hexpr
      exact valueField_preserves hexpr output
  | _ => exact valueField_preserves (hexpr _ (List.mem_singleton_self _)) output

theorem selectBranch_preserves {text : String → Expr F → String} {branch : SelectStmt F}
    {names : List String}
    (hexpr : ∀ e ∈ branch.fields.flatMap evaluatedExprs, Preserves Inv (evalExpr env row e))
    (hinsert : ∀ key ∈ branch.fields.zipIdx.flatMap (fieldKeys row), ∀ m value, Inv m →
      Inv (m.insert key value)) : Preserves Inv (selectBranch env text branch names row) := by
  rw [List.forall_mem_flatMap] at hexpr hinsert
  refine foldlM_preserves (fun output entry hentry => ?_) _
  exact selectField_preserves (hexpr _ (List.fst_mem_of_mem_zipIdx hentry)) (hinsert entry hentry)
    output

-- ---- Statements

theorem advanceCalls_preserves {message : String → String} {calls : List (Expr F)}
    (hexpr : ∀ e ∈ calls, Preserves Inv (evalExpr env row e)) :
    Preserves Inv (advanceCalls env row message calls) := by
  refine forM_preserves fun call hcall => Preserves.get_bind fun s hs => ?_
  have hvalue : Preserves Inv (do
      let value ← mapMessage message (evalExpr env row call)
      let s ← get
      set { s with rowValues := s.rowValues.insert (env.debugText call) value } : Eval F PUnit) :=
    (mapMessage_preserves _ (hexpr call hcall)).bind fun value =>
      Preserves.get_bind fun s hs => hs
  dsimp only
  split
  · exact hvalue s hs
  · exact hs

theorem evalBoolStateful_preserves {e : Expr F} (hexpr : Preserves Inv (evalExpr env row e)) :
    Preserves Inv (evalBoolStateful env row e) := by
  unfold evalBoolStateful
  split
  · exact (Keeps.lift _).preserves
  · exact fun s hs => hexpr s hs

theorem evalSelectStatefulWithNames_preserves {text : String → Expr F → String}
    {stmt : SelectStmt F} {names : List String}
    (hexpr : ∀ e ∈ (branches stmt).flatMap fun branch => branch.fields.flatMap evaluatedExprs,
      Preserves Inv (evalExpr env row e))
    (hinsert : ∀ key ∈ stmtFieldKeys row stmt, ∀ m value, Inv m → Inv (m.insert key value)) :
    Preserves Inv (evalSelectStatefulWithNames env text stmt names row) := by
  unfold stmtFieldKeys at hinsert
  rw [List.forall_mem_flatMap] at hexpr hinsert
  unfold evalSelectStatefulWithNames
  split
  · refine (mapM_preserves fun branch hbranch => ?_).bind fun _ => Preserves.pure _
    exact selectBranch_preserves (hexpr branch hbranch) (hinsert branch hbranch)
  · have hself : stmt ∈ branches stmt := by
      cases stmt
      exact List.mem_cons_self
    exact (selectBranch_preserves (hexpr stmt hself) (hinsert stmt hself)).bind fun _ =>
      Preserves.pure _

theorem evalSelectStatelessFast_preserves {text : String → Expr F → String} {stmt : SelectStmt F}
    {names : List String} {hasAnalytic : Bool}
    (hexpr : ∀ e ∈ stmtExprs stmt, Preserves Inv (evalExpr env row e))
    (hinsert : ∀ key ∈ stmtFieldKeys row stmt, ∀ m value, Inv m → Inv (m.insert key value)) :
    Preserves Inv (evalSelectStatelessFast env text stmt names hasAnalytic row) := by
  unfold stmtExprs at hexpr
  simp only [List.forall_mem_append] at hexpr
  obtain ⟨⟨hfields, hcalls⟩, hwhere, hwhereCalls⟩ := hexpr
  have hselect : Preserves Inv (evalSelectStatefulWithNames env text stmt names row) :=
    evalSelectStatefulWithNames_preserves hfields hinsert
  unfold evalSelectStatelessFast
  split
  · exact hselect
  · next condition h =>
    rw [h] at hwhere hwhereCalls
    have hcondition : Preserves Inv (evalBoolStateful env row condition) :=
      evalBoolStateful_preserves (hwhere condition (by simp))
    have hrest : ∀ met : Bool, Preserves Inv
        (if met = true then evalSelectStatefulWithNames env text stmt names row
          else pure none : Eval F (Option (Row F))) := by
      intro met
      split
      · exact hselect
      · exact Preserves.pure none
    split
    · exact hcondition.bind hrest
    · refine withRowValues_preserves ((forM_preserves fun entry hentry => ?_).bind fun _ =>
        (advanceCalls_preserves fun e he => ?_).bind fun _ => hcondition.bind hrest)
      · refine advanceCalls_preserves fun e he => hcalls e ?_
        exact List.mem_flatMap.mpr ⟨_, List.fst_mem_of_mem_zipIdx hentry, he⟩
      · exact hwhereCalls e (by simpa using he)

-- ---- Call sites

theorem siteHas_preserves {keyOrder : KeyOrder F} {call : Expr F}
    (hinsert : ∀ key ∈ siteKeys (env.analytics keyOrder) row call, ∀ m value, Inv m →
      Inv (siteInsert keyOrder (siteName call) m key value)) :
    SiteHas (Preserves Inv) (env.analytics keyOrder) row call :=
  siteHas_inherits preserves_inherited (fun key hkey => entryHas_preserves (hinsert key hkey))
    (fun _ => (callRuleId_keeps row).preserves) fun _ => (callRuleStart_keeps _ row).preserves

def stmtCalls (stmt : SelectStmt F) : List (Expr F) := (stmtExprs stmt).flatMap stateCalls

theorem statement_preserves {keyOrder : KeyOrder F} {text : String → Expr F → String}
    {stmt : SelectStmt F} {names : List String} {hasAnalytic : Bool}
    (hsites : ∀ call ∈ stmtCalls stmt, ∀ key ∈ siteKeys (env.analytics keyOrder) row call,
      ∀ m value, Inv m → Inv (siteInsert keyOrder (siteName call) m key value))
    (hfields : ∀ key ∈ stmtFieldKeys row stmt, ∀ m value, Inv m → Inv (m.insert key value)) :
    Preserves Inv
      (evalSelectStatelessFast (env.analytics keyOrder) text stmt names hasAnalytic row) := by
  refine evalSelectStatelessFast_preserves (fun e he => ?_) hfields
  exact evalExpr_inherits _ _ preserves_inherited e fun call hcall =>
    siteHas_preserves (hsites call (List.mem_flatMap.mpr ⟨e, he, hcall⟩))

end

end Rekuiper.Sql
