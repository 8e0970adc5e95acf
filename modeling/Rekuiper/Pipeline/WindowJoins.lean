import Rekuiper.Pipeline.Joins
import Rekuiper.Pipeline.WindowRows

/-!
# Joins of a window

`eval_window_join_batch`: the rows of the `FROM` stream, joined with tables and with the rows of
other streams in the window, one join after the other. A join that leaves no rows ends the
evaluation unless it is `RIGHT` or `FULL`, whatever joins come after it. For joins with streams
the result is compared with the fold of the relational joins.
-/

namespace Rekuiper.Pipeline

open Lib Sql

variable {F : Type} [Float64 F]

def maxJoinFanout : Nat := 10000

structure WindowTables (F : Type) where
  isTable : String → Bool
  candidates : Tables F

def keepsLeft (join : JoinClause F) : Bool := join.joinType = .left || join.joinType = .full

def keepsRight (join : JoinClause F) : Bool := join.joinType = .right || join.joinType = .full

def onHolds (env : Env F) (join : JoinClause F) (left right : Row F) : Except Failure Bool :=
  match join.onCondition with
  | some condition => evalBool env (joinRow left join right) condition
  | none => .ok true

def preserved (join : JoinClause F) (right : Row F) : Row F :=
  insertNamespaced right join.target join.targetAlias right

-- ---- Joins with tables

def pushCapped (next : List (Row F)) (row : Row F) : List (Row F) :=
  if next.length < maxJoinFanout then next ++ [row] else next

def tableStep (env : Env F) (tables : WindowTables F) (join : JoinClause F)
    (next : List (Row F)) (left : Row F) : Except Failure (List (Row F)) := do
  let rows ← tables.candidates join left
  if join.joinType = .cross then
    return rows.foldl (fun next row => pushCapped next (joinRow left join row)) next
  else
    match ← firstMatch env left join rows with
    | some row => return next ++ [joinRow left join row]
    | none => return if keepsLeft join then next ++ [left] else next

-- ---- Joins with streams

/-- The time of a row in an `ASOF` join. -/
def rowTime (row : Row F) : Option Int :=
  ((row.lookup "timestamp").or (row.lookup "ts")).bind fun v => v.asI64.or (v.asF64.map Float64.toInt)

def asofBest (env : Env F) (join : JoinClause F) (left : Row F) (leftTs : Int) :
    List (Row F) → Option (Int × Row F) → Except Failure (Option (Int × Row F))
  | [], best => .ok best
  | right :: rest, best =>
    let rightTs := (rowTime right).getD 0
    if rightTs > leftTs then asofBest env join left leftTs rest best
    else do
      let holds ← onHolds env join left right
      let later := best.all fun b => rightTs ≥ b.1
      asofBest env join left leftTs rest
        (if holds && later then some (rightTs, joinRow left join right) else best)

def asofStep (env : Env F) (join : JoinClause F) (rights : List (Row F)) (next : List (Row F))
    (left : Row F) : Except Failure (List (Row F)) := do
  match ← asofBest env join left ((rowTime left).getD maxI64) rights none with
  | some (_, row) => return pushCapped next row
  | none => return if join.joinType = .leftAsof then pushCapped next left else next

/-- The right rows that match a left row, with the right rows that have been matched so far. The
last part says whether there is one. -/
def matchRights (env : Env F) (join : JoinClause F) (left : Row F) :
    List (Row F × Bool) → List (Row F) → Except Failure (List (Row F) × List (Row F × Bool) × Bool)
  | [], next => .ok (next, [], false)
  | (right, matched) :: rest, next => do
    if ← onHolds env join left right then
      let next := pushCapped next (joinRow left join right)
      if next.length ≥ maxJoinFanout then return (next, (right, true) :: rest, true)
      else
        let (next, rest, _) ← matchRights env join left rest next
        return (next, (right, true) :: rest, true)
    else
      let (next, rest, any) ← matchRights env join left rest next
      return (next, (right, matched) :: rest, any)

def foldLefts (env : Env F) (join : JoinClause F) :
    List (Row F) → List (Row F × Bool) → List (Row F) →
      Except Failure (List (Row F) × List (Row F × Bool))
  | [], rights, next => .ok (next, rights)
  | left :: lefts, rights, next => do
    let (next, rights) ←
      if isAsof join then
        (asofStep env join (rights.map Prod.fst) next left).map fun next => (next, rights)
      else
        (matchRights env join left rights next).map fun (next, rights, any) =>
          (if !any && keepsLeft join then next ++ [left] else next, rights)
    if next.length ≥ maxJoinFanout then return (next, rights)
    else foldLefts env join lefts rights next

def preserveRights (join : JoinClause F) (rights : List (Row F × Bool)) (next : List (Row F)) :
    List (Row F) :=
  rights.foldl (fun next right =>
    if right.2 then next else pushCapped next (preserved join right.1)) next

def rightRows (batch : List (TaggedRow F)) (join : JoinClause F) : List (Row F) :=
  (batch.filter fun r => r.source = join.target).map TaggedRow.data

def streamStage (env : Env F) (batch : List (TaggedRow F)) (join : JoinClause F)
    (combined : List (Row F)) : Except Failure (List (Row F)) := do
  let (next, rights) ←
    foldLefts env join combined ((rightRows batch join).map fun right => (right, false)) []
  return if keepsRight join then preserveRights join rights next else next

-- ---- The evaluation

/-- The joins in order, or `none` if the evaluation ends without output. -/
def foldStages (env : Env F) (tables : WindowTables F) (batch : List (TaggedRow F)) :
    List (JoinClause F) → List (Row F) → Except Failure (Option (List (Row F)))
  | [], combined => .ok (some combined)
  | join :: joins, combined => do
    let next ←
      if tables.isTable join.target then combined.foldlM (tableStep env tables join) []
      else streamStage env batch join combined
    if next.isEmpty && !keepsRight join then return none
    else foldStages env tables batch joins next

/-- `eval_window_stateful`. What it makes of the rows that pass, given the state of the rule, is a
parameter; without rows it gives none. -/
def evalWindowStateful (env : Env F) (project : List (Row F) → Except Failure (List (Row F)))
    (stmt : SelectStmt F) (rows : List (Row F)) : Except Failure (List (Row F)) := do
  let rows ← rows.filterM (passesWhere env stmt)
  if rows.isEmpty then return [] else project rows

/-- The rows of the `FROM` stream. -/
def seedRows (stmt : SelectStmt F) (batch : List (TaggedRow F)) : List (Row F) :=
  (batch.filter fun r => r.source = stmt.source).map fun r =>
    insertNamespaced r.data stmt.source stmt.sourceAlias r.data

def evalStages (env : Env F) (project : List (Row F) → Except Failure (List (Row F)))
    (stmt : SelectStmt F) : Option (List (Row F)) → Except Failure (List (Row F))
  | none => .ok []
  | some rows => evalWindowStateful env project stmt rows

def evalWindowJoinBatch (env : Env F) (tables : WindowTables F)
    (project : List (Row F) → Except Failure (List (Row F))) (stmt : SelectStmt F)
    (batch : List (TaggedRow F)) : Except Failure (List (Row F)) := do
  if batch.isEmpty then return []
  else
    let stages ← foldStages env tables batch stmt.joins (seedRows stmt batch)
    evalStages env project stmt stages

-- ---- Relational joins

def matchesOn (env : Env F) (join : JoinClause F) (left right : Row F) : Bool :=
  onHolds env join left right = .ok true

def leftResult (env : Env F) (join : JoinClause F) (rights : List (Row F)) (left : Row F) :
    List (Row F) :=
  let pairs := (rights.filter (matchesOn env join left)).map (joinRow left join)
  if pairs.isEmpty && keepsLeft join then [left] else pairs

def relationalJoin (env : Env F) (join : JoinClause F) (lefts rights : List (Row F)) :
    List (Row F) :=
  lefts.flatMap (leftResult env join rights) ++
    if keepsRight join then
      (rights.filter fun right => !lefts.any (matchesOn env join · right)).map (preserved join)
    else []

def foldRelational (env : Env F) (batch : List (TaggedRow F)) (joins : List (JoinClause F))
    (rows : List (Row F)) : List (Row F) :=
  joins.foldl (fun rows join => relationalJoin env join rows (rightRows batch join)) rows

section Stage
variable {env : Env F} {join : JoinClause F} {left : Row F} {lefts : List (Row F)}

omit [Float64 F] in
theorem pushCapped_of_lt {next : List (Row F)} (row : Row F)
    (h : next.length < maxJoinFanout) : pushCapped next row = next ++ [row] := if_pos h

theorem onHolds_eq {right : Row F} (h : ∃ holds, onHolds env join left right = .ok holds) :
    onHolds env join left right = .ok (matchesOn env join left right) := by
  obtain ⟨holds, hholds⟩ := h
  cases holds <;> simp [matchesOn, hholds]

theorem matchRights_eq {rights : List (Row F × Bool)} {next : List (Row F)}
    (hdefined : ∀ right ∈ rights.map Prod.fst, ∃ holds, onHolds env join left right = .ok holds)
    (hbelow : next.length + ((rights.map Prod.fst).filter (matchesOn env join left)).length <
      maxJoinFanout) :
    matchRights env join left rights next =
      .ok (next ++ ((rights.map Prod.fst).filter (matchesOn env join left)).map (joinRow left join),
        rights.map fun r => (r.1, r.2 || matchesOn env join left r.1),
        (rights.map Prod.fst).any (matchesOn env join left)) := by
  induction rights generalizing next with
  | nil => simp [matchRights]
  | cons head rest ih =>
    obtain ⟨right, matched⟩ := head
    rw [List.map_cons, List.forall_mem_cons] at hdefined
    rw [matchRights, onHolds_eq hdefined.1]
    cases hmatch : matchesOn env join left right with
    | true =>
      simp only [List.map_cons, List.filter_cons, hmatch, if_true, List.length_cons] at hbelow
      have hnext : ¬maxJoinFanout ≤ next.length + 1 := by omega
      have hbelow' : (next ++ [joinRow left join right]).length +
          ((rest.map Prod.fst).filter (matchesOn env join left)).length < maxJoinFanout := by
        simp only [List.length_append, List.length_singleton]
        omega
      simp [bind, Except.bind, pure, Except.pure, pushCapped_of_lt _ (Nat.lt_of_succ_lt
        (Nat.lt_of_not_le hnext)), ih hdefined.2 hbelow', hmatch, hnext]
    | false =>
      simp only [List.map_cons, List.filter_cons, hmatch, Bool.false_eq_true, if_false] at hbelow
      simp [bind, Except.bind, pure, Except.pure, ih hdefined.2 hbelow, hmatch]

theorem isEmpty_filter {α : Type} (p : α → Bool) (xs : List α) :
    (xs.filter p).isEmpty = !xs.any p := by
  rw [Bool.eq_iff_iff]
  simp [List.filter_eq_nil_iff]

theorem length_leftResult_le (rights : List (Row F)) :
    (rights.filter (matchesOn env join left)).length ≤ (leftResult env join rights left).length := by
  unfold leftResult
  dsimp only
  split
  · rename_i h
    have hnone : rights.filter (matchesOn env join left) = [] := by simp_all
    simp [hnone]
  · simp

theorem foldLefts_eq (hasof : isAsof join = false) {rights : List (Row F × Bool)}
    {next : List (Row F)}
    (hdefined : ∀ left ∈ lefts, ∀ right ∈ rights.map Prod.fst,
      ∃ holds, onHolds env join left right = .ok holds)
    (hbelow : next.length + (lefts.flatMap (leftResult env join (rights.map Prod.fst))).length <
      maxJoinFanout) :
    foldLefts env join lefts rights next =
      .ok (next ++ lefts.flatMap (leftResult env join (rights.map Prod.fst)),
        rights.map fun r => (r.1, r.2 || lefts.any (matchesOn env join · r.1))) := by
  induction lefts generalizing rights next with
  | nil => simp [foldLefts]
  | cons left lefts ih =>
    rw [List.forall_mem_cons] at hdefined
    rw [List.flatMap_cons, List.length_append] at hbelow
    have hlength := @length_leftResult_le F _ env join left (rights.map Prod.fst)
    have hrights : (rights.map fun r => (r.1, r.2 || matchesOn env join left r.1)).map Prod.fst =
        rights.map Prod.fst := by
      simp
    have hstep : ((matchRights env join left rights next).map fun (next, rights, any) =>
          (if !any && keepsLeft join then next ++ [left] else next, rights)) =
        .ok (next ++ leftResult env join (rights.map Prod.fst) left,
          rights.map fun r => (r.1, r.2 || matchesOn env join left r.1)) := by
      rw [matchRights_eq hdefined.1 (by omega)]
      simp only [Except.map, leftResult, List.isEmpty_map, isEmpty_filter]
      cases hmatched : (rights.map Prod.fst).any (matchesOn env join left) with
      | true => simp
      | false =>
        have hnone : (rights.map Prod.fst).filter (matchesOn env join left) = [] := by
          rw [← List.isEmpty_iff, isEmpty_filter, hmatched]
          rfl
        cases hkeeps : keepsLeft join <;> simp [hnone]
    have hnext : ¬(next ++ leftResult env join (rights.map Prod.fst) left).length ≥
        maxJoinFanout := by
      rw [List.length_append]
      omega
    rw [foldLefts, hasof]
    simp only [Bool.false_eq_true, if_false, hstep, bind, Except.bind, hnext]
    rw [ih]
    · rw [hrights, List.flatMap_cons, List.append_assoc, List.map_map]
      simp only [Function.comp_def, List.any_cons, Bool.or_assoc]
    · rw [hrights]
      exact hdefined.2
    · rw [hrights, List.length_append]
      omega

omit [Float64 F] in
theorem preserveRights_eq {rights : List (Row F × Bool)} {next : List (Row F)}
    (hbelow : next.length + (rights.filter fun r => !r.2).length < maxJoinFanout) :
    preserveRights join rights next =
      next ++ (rights.filter fun r => !r.2).map fun r => preserved join r.1 := by
  induction rights generalizing next with
  | nil => simp [preserveRights]
  | cons r rest ih =>
    rw [preserveRights, List.foldl_cons, ← preserveRights]
    cases hmatched : r.2 with
    | true =>
      simp only [List.filter_cons, hmatched, Bool.not_true, Bool.false_eq_true, if_false] at hbelow
      simp [ih hbelow, hmatched]
    | false =>
      simp only [List.filter_cons, hmatched, Bool.not_false, if_true, List.length_cons] at hbelow
      rw [if_neg Bool.false_ne_true, pushCapped_of_lt _ (by omega), ih]
      · simp [hmatched]
      · rw [List.length_append, List.length_singleton]
        omega

theorem streamStage_eq {batch : List (TaggedRow F)} (hasof : isAsof join = false)
    (hdefined : ∀ left ∈ lefts, ∀ right ∈ rightRows batch join,
      ∃ holds, onHolds env join left right = .ok holds)
    (hbelow : (relationalJoin env join lefts (rightRows batch join)).length < maxJoinFanout) :
    streamStage env batch join lefts =
      .ok (relationalJoin env join lefts (rightRows batch join)) := by
  have hrights : ((rightRows batch join).map fun right => (right, false)).map Prod.fst =
      rightRows batch join := by
    simp [Function.comp_def]
  rw [relationalJoin, List.length_append] at hbelow
  rw [streamStage, foldLefts_eq hasof (by rw [hrights]; exact hdefined)
    (by rw [hrights, List.length_nil]; omega), hrights]
  simp only [bind, Except.bind, pure, Except.pure, List.nil_append, relationalJoin]
  cases hkeeps : keepsRight join with
  | false => simp
  | true =>
    have hunmatched : (((rightRows batch join).map fun right => (right, false)).map fun r =>
        (r.1, r.2 || lefts.any (matchesOn env join · r.1))).filter (fun r => !r.2) =
          ((rightRows batch join).filter fun right =>
            !lefts.any (matchesOn env join · right)).map fun right => (right, false) := by
      rw [List.map_map, List.filter_map]
      simp only [Function.comp_def, Bool.false_or]
      refine List.map_congr_left fun right hright => ?_
      have := (List.mem_filter.mp hright).2
      simpa using this
    rw [hkeeps, if_pos rfl, List.length_map] at hbelow
    rw [if_pos rfl, if_pos rfl, preserveRights_eq, hunmatched, List.map_map]
    · rfl
    · rw [hunmatched, List.length_map]
      exact hbelow

end Stage

-- ---- The fold of the joins

/-- All joins are with streams and none is `ASOF`. -/
def StreamJoins (tables : WindowTables F) (joins : List (JoinClause F)) : Prop :=
  ∀ join ∈ joins, tables.isTable join.target = false ∧ isAsof join = false

/-- Each join has fewer rows than the limit, from conditions that evaluate. -/
def WithinFanout (env : Env F) (batch : List (TaggedRow F)) (joins : List (JoinClause F))
    (rows : List (Row F)) : Prop :=
  ∀ before join after, joins = before ++ join :: after →
    (∀ left ∈ foldRelational env batch before rows, ∀ right ∈ rightRows batch join,
      ∃ holds, onHolds env join left right = .ok holds) ∧
    (foldRelational env batch (before ++ [join]) rows).length < maxJoinFanout

/-- A join other than `RIGHT` and `FULL` that leaves no rows is followed by joins that give no
output from no rows. -/
def EmptyStaysEmpty (env : Env F) (project : List (Row F) → Except Failure (List (Row F)))
    (stmt : SelectStmt F) (batch : List (TaggedRow F)) (joins : List (JoinClause F))
    (rows : List (Row F)) : Prop :=
  ∀ before join after, joins = before ++ join :: after → keepsRight join = false →
    foldRelational env batch (before ++ [join]) rows = [] →
      evalWindowStateful env project stmt (foldRelational env batch after []) = .ok []

section Fold
variable {env : Env F} {tables : WindowTables F} {batch : List (TaggedRow F)}
  {project : List (Row F) → Except Failure (List (Row F))} {stmt : SelectStmt F}
  {join : JoinClause F} {joins : List (JoinClause F)} {rows : List (Row F)}

theorem foldRelational_cons :
    foldRelational env batch (join :: joins) rows =
      foldRelational env batch joins (relationalJoin env join rows (rightRows batch join)) := rfl

theorem foldRelational_append (more : List (JoinClause F)) :
    foldRelational env batch (joins ++ more) rows =
      foldRelational env batch more (foldRelational env batch joins rows) := by
  simp [foldRelational]

theorem WithinFanout.tail (h : WithinFanout env batch (join :: joins) rows) :
    WithinFanout env batch joins (relationalJoin env join rows (rightRows batch join)) :=
  fun before join' after hsplit => h (join :: before) join' after (by rw [hsplit]; rfl)

theorem emptyStaysEmpty_cons :
    EmptyStaysEmpty env project stmt batch (join :: joins) rows ↔
      (keepsRight join = false → relationalJoin env join rows (rightRows batch join) = [] →
        evalWindowStateful env project stmt (foldRelational env batch joins []) = .ok []) ∧
      EmptyStaysEmpty env project stmt batch joins
        (relationalJoin env join rows (rightRows batch join)) := by
  constructor
  · intro h
    exact ⟨h [] join joins rfl, fun before join' after hsplit =>
      h (join :: before) join' after (by rw [hsplit]; rfl)⟩
  · rintro ⟨hfirst, hrest⟩ before join' after hsplit
    cases before with
    | nil =>
      cases hsplit
      exact hfirst
    | cons head before =>
      cases hsplit
      exact hrest before join' after rfl

theorem foldStages_iff (hstreams : StreamJoins tables joins)
    (hwithin : WithinFanout env batch joins rows) :
    foldStages env tables batch joins rows >>= evalStages env project stmt =
        evalWindowStateful env project stmt (foldRelational env batch joins rows) ↔
      EmptyStaysEmpty env project stmt batch joins rows := by
  induction joins generalizing rows with
  | nil =>
    refine iff_of_true rfl fun before join after hsplit => ?_
    simp at hsplit
  | cons join joins ih =>
    obtain ⟨⟨htable, hasof⟩, hrest⟩ := List.forall_mem_cons.mp hstreams
    obtain ⟨hdefined, hbelow⟩ := hwithin [] join joins rfl
    have hstage : streamStage env batch join rows =
        .ok (relationalJoin env join rows (rightRows batch join)) :=
      streamStage_eq hasof hdefined hbelow
    have ih := ih hrest hwithin.tail
    rw [emptyStaysEmpty_cons, foldRelational_cons, foldStages, htable, if_neg Bool.false_ne_true,
      hstage]
    generalize relationalJoin env join rows (rightRows batch join) = next at ih ⊢
    simp only [bind, Except.bind] at ih ⊢
    by_cases hearly : next = [] ∧ keepsRight join = false
    · -- the evaluation ends here, and the rows of every later stage come from no rows
      obtain ⟨rfl, hkeeps⟩ := hearly
      rw [hkeeps]
      change Except.ok [] = _ ↔ _
      constructor
      · intro heq
        refine ⟨fun _ _ => heq.symm, fun before join' after hsplit _ hempty => ?_⟩
        have hafter := @foldRelational_append F _ env batch (before ++ [join']) [] after
        rw [List.append_assoc, List.singleton_append, ← hsplit, hempty] at hafter
        rw [← hafter]
        exact heq.symm
      · exact fun h => (h.1 rfl rfl).symm
    · have hcontinue : (next.isEmpty && !keepsRight join) = false := by
        rw [Bool.and_eq_false_iff]
        by_cases hnext : next = []
        · right
          simpa using fun hkeeps => hearly ⟨hnext, hkeeps⟩
        · left
          simpa using hnext
      simp only [hcontinue, Bool.false_eq_true, if_false]
      rw [ih]
      exact (and_iff_right fun hkeeps hnext => absurd ⟨hnext, hkeeps⟩ hearly).symm

theorem foldRelational_nil (joins : List (JoinClause F)) :
    foldRelational env ([] : List (TaggedRow F)) joins [] = [] := by
  induction joins with
  | nil => rfl
  | cons join joins ih =>
    rw [foldRelational_cons]
    simpa [relationalJoin, rightRows] using ih

/-- The evaluation is the fold of the relational joins if a join other than `RIGHT` and `FULL` that
leaves no rows is only followed by joins that give no output from no rows, and only then. -/
theorem window_joins_iff (hstreams : StreamJoins tables stmt.joins)
    (hwithin : WithinFanout env batch stmt.joins (seedRows stmt batch)) :
    evalWindowJoinBatch env tables project stmt batch =
        evalWindowStateful env project stmt
          (foldRelational env batch stmt.joins (seedRows stmt batch)) ↔
      EmptyStaysEmpty env project stmt batch stmt.joins (seedRows stmt batch) := by
  cases batch with
  | nil =>
    -- without rows there is nothing to join or to preserve
    refine iff_of_true ?_ fun before join after _ _ _ => ?_
    · rw [show seedRows stmt [] = [] from rfl, foldRelational_nil]
      rfl
    · rw [foldRelational_nil]
      rfl
  | cons head rest =>
    rw [← foldStages_iff hstreams hwithin]
    simp [evalWindowJoinBatch]

end Fold

def sameId (left right : String) : Expr ℚ :=
  .binaryOp (.fieldAccess (.identifier left) "id") .eq (.fieldAccess (.identifier right) "id")

/-- `SELECT * FROM a INNER JOIN b ON a.id = b.id RIGHT JOIN c ON a.id = c.id` -/
def innerThenRight : SelectStmt ℚ :=
  { SelectStmt.plain [.wildcard] "a" none with
    joins := [⟨.inner, "b", none, some (sameId "a" "b")⟩,
      ⟨.right, "c", none, some (sameId "a" "c")⟩] }

def noTables : WindowTables ℚ := ⟨fun _ => false, fun _ _ => .ok []⟩

def idRow (source : String) (id : Int) : TaggedRow ℚ :=
  ⟨source, (∅ : Row ℚ).insert "id" (.number (.int id))⟩

theorem innerThenRight_streams : StreamJoins noTables innerThenRight.joins := by
  intro join hjoin
  simp only [innerThenRight, List.mem_cons, List.not_mem_nil, or_false] at hjoin
  rcases hjoin with rfl | rfl <;> exact ⟨rfl, rfl⟩

theorem split_pair {α : Type} {a b x : α} {before after : List α}
    (h : [a, b] = before ++ x :: after) :
    (before = [] ∧ x = a ∧ after = [b]) ∨ (before = [a] ∧ x = b ∧ after = []) := by
  rcases before with _ | ⟨y, _ | ⟨z, rest⟩⟩
  · cases h
    exact .inl ⟨rfl, rfl, rfl⟩
  · cases h
    exact .inr ⟨rfl, rfl, rfl⟩
  · simp at h

theorem exists_of_isOk {x : Except Failure Bool} (h : x.isOk = true) : ∃ holds, x = .ok holds := by
  cases x with
  | error e => cases h
  | ok holds => exact ⟨holds, rfl⟩

/-- Rows of all three streams match. -/
theorem matched_joins :
    evalWindowJoinBatch bareEnv noTables .ok innerThenRight
        [idRow "a" 1, idRow "b" 1, idRow "c" 1] =
      evalWindowStateful bareEnv .ok innerThenRight
        (foldRelational bareEnv [idRow "a" 1, idRow "b" 1, idRow "c" 1] innerThenRight.joins
          (seedRows innerThenRight [idRow "a" 1, idRow "b" 1, idRow "c" 1])) := by
  refine (window_joins_iff innerThenRight_streams ?_).mpr ?_
  · intro before join after hsplit
    rcases split_pair hsplit with ⟨rfl, rfl, -⟩ | ⟨rfl, rfl, -⟩
    · exact ⟨fun left hleft right hright => exists_of_isOk (by revert left right; decide), by decide⟩
    · exact ⟨fun left hleft right hright => exists_of_isOk (by revert left right; decide), by decide⟩
  · intro before join after hsplit hkeeps hempty
    have hlength := congrArg List.length hempty
    rcases split_pair hsplit with ⟨rfl, rfl, -⟩ | ⟨rfl, rfl, -⟩
    · exact absurd hlength (by decide)
    · cases hkeeps

/-- Only `c` has a row, which `RIGHT JOIN` keeps but the evaluation never reaches. -/
theorem right_row_lost : ¬∀ batch : List (TaggedRow ℚ),
    WithinFanout bareEnv batch innerThenRight.joins (seedRows innerThenRight batch) →
      evalWindowJoinBatch bareEnv noTables .ok innerThenRight batch =
        evalWindowStateful bareEnv .ok innerThenRight
          (foldRelational bareEnv batch innerThenRight.joins (seedRows innerThenRight batch)) := by
  intro h
  have heq := h [idRow "c" 1] ?_
  · have hlength := congrArg (Except.map List.length) heq
    revert hlength
    decide
  · intro before join after hsplit
    rcases split_pair hsplit with ⟨rfl, rfl, -⟩ | ⟨rfl, rfl, -⟩
    · exact ⟨List.forall_mem_nil _, by decide⟩
    · exact ⟨List.forall_mem_nil _, by decide⟩

end Rekuiper.Pipeline
