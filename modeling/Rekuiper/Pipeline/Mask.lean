import Rekuiper.Sql.Laws
import Rekuiper.Pipeline.Record

/-!
# Field masks

A source that decodes JSON keeps only the top-level fields that the rules on its stream
refer to. The mask is invisible to a statement when every key that its clauses look up
is needed by a rule on the stream.
-/

namespace Rekuiper.Pipeline

open Lib Sql

variable {F : Type}

-- ---- Referenced fields

/-- What a traversal of expressions finds: whether there is a `*`, and the names. -/
structure References where
  hasWildcard : Bool
  names : List String

instance : Append References :=
  ⟨fun a b => ⟨a.hasWildcard || b.hasWildcard, a.names ++ b.names⟩⟩

mutual
def collectReferencedFields : Expr F → References
  | .wildcard | .wildcardModified _ _ => ⟨true, []⟩
  | .identifier name => ⟨false, [name]⟩
  | .fieldAccess (.identifier parent) leaf =>
    if leaf = "*" then ⟨true, []⟩ else ⟨false, [parent, leaf]⟩
  | .fieldAccess parent leaf =>
    if leaf = "*" then ⟨true, []⟩ else ⟨false, [leaf]⟩ ++ collectReferencedFields parent
  | .call name args =>
    ⟨eqIgnoreAsciiCase name "meta" && args.isEmpty, []⟩ ++ collectAll args
  | .binaryOp left _ right => collectReferencedFields left ++ collectReferencedFields right
  | .unaryOp _ expr => collectReferencedFields expr
  | .isNull expr _ => collectReferencedFields expr
  | .between expr low high _ =>
    collectReferencedFields expr ++ collectReferencedFields low ++ collectReferencedFields high
  | .inList expr list _ => collectReferencedFields expr ++ collectAll list
  | .index base index => collectReferencedFields base ++ collectReferencedFields index
  | .slice base lo hi => collectReferencedFields base ++ collectOpt lo ++ collectOpt hi
  | .case operand whenClauses elseClause =>
    collectOpt operand ++ collectWhens whenClauses ++ collectOpt elseClause
  | .over call partitionBy condition =>
    collectReferencedFields call ++ collectOpt partitionBy ++ collectOpt condition
  | .literal _ => ⟨false, []⟩
def collectAll : List (Expr F) → References
  | [] => ⟨false, []⟩
  | e :: es => collectReferencedFields e ++ collectAll es
def collectOpt : Option (Expr F) → References
  | none => ⟨false, []⟩
  | some e => collectReferencedFields e
def collectWhens : List (Expr F × Expr F) → References
  | [] => ⟨false, []⟩
  | (c, e) :: rest => collectReferencedFields c ++ collectReferencedFields e ++ collectWhens rest
end

def visitedClauses (stmt : SelectStmt F) : List (Expr F) :=
  stmt.fields ++ stmt.whereClause.toList ++ stmt.groupBy ++ stmt.having.toList ++
    stmt.orderBy.map OrderByItem.expr ++ stmt.joins.filterMap JoinClause.onCondition

/-- The fields that a statement and the statements united with it refer to. -/
def stmtReferencedFields (stmt : SelectStmt F) : References :=
  collectAll ((branches stmt).flatMap visitedClauses)

def stateConditions : WindowDef F → List (Expr F)
  | .state startCondition endCondition => startCondition :: endCondition.toList
  | _ => []

/-- The clauses that belong to the window: `FILTER`, `OVER (WHEN ..)`, `PARTITION BY` and
the conditions of a state window. -/
def windowClauses (stmt : SelectStmt F) : List (Expr F) :=
  stmt.windowFilter.toList ++ stmt.windowTriggerCondition.toList ++
    stmt.windowPartitionBy.toList ++ stmt.window.toList.flatMap stateConditions

def clauses (stmt : SelectStmt F) : List (Expr F) :=
  (branches stmt).flatMap fun branch => visitedClauses branch ++ windowClauses branch

-- ---- Masks

def defaultTimestamps : List String := ["timestamp", "ts", "event_time", "time"]

/-- The fields that a rule needs, or `none` if it needs them all. -/
def extractRequiredFields (refs : References) (timestampField : Option String) :
    Option (List String) :=
  if refs.hasWildcard || refs.names.isEmpty then none
  else some (refs.names ++ timestampField.toList ++ defaultTimestamps)

/-- All the fields of masks, or `none` as soon as one of them is. -/
def unionFields : List (Option (List String)) → Option (List String)
  | [] => some []
  | none :: _ => none
  | some fields :: masks => (unionFields masks).map (fields ++ ·)

def computeUnionFieldMask (rules : HashMap String (Option (List String))) :
    Option (List String) :=
  if rules.entries.isEmpty then none
  else (unionFields (rules.entries.map Sigma.snd)).filter fun union => !union.isEmpty

def keepsField : Option (List String) → String → Bool
  | none, _ => true
  | some fields, key => fields.contains key || key == "error" || key == "__error"

def decodeObject (mask : Option (List String)) (payload : Row F) : Row F :=
  payload.retain (keepsField mask)

-- ---- What the traversal covers

theorem names_append (a b : References) : (a ++ b).names = a.names ++ b.names := rfl

theorem mem_collectAll {es : List (Expr F)} {e : Expr F} (he : e ∈ es) {name : String}
    (hname : name ∈ (collectReferencedFields e).names) : name ∈ (collectAll es).names := by
  induction es with
  | nil => cases he
  | cons head es ih =>
    unfold collectAll
    rw [names_append]
    rcases List.mem_cons.mp he with rfl | he
    · exact List.mem_append_left _ hname
    · exact List.mem_append_right _ (ih he)

theorem named_mem_mask {stmt branch : SelectStmt F} {e : Expr F} {name : String}
    {timestampField : Option String} {mask : List String}
    (hmask : extractRequiredFields (stmtReferencedFields stmt) timestampField = some mask)
    (hbranch : branch ∈ branches stmt) (he : e ∈ visitedClauses branch)
    (hname : name ∈ (collectReferencedFields e).names) : name ∈ mask := by
  unfold extractRequiredFields at hmask
  split at hmask
  · cases hmask
  · cases hmask
    have hall := mem_collectAll (List.mem_flatMap.mpr ⟨branch, hbranch, he⟩) hname
    exact List.mem_append_left _ (List.mem_append_left _ hall)

theorem timestamp_mem_mask {refs : References} {timestampField : Option String}
    {mask : List String} (hmask : extractRequiredFields refs timestampField = some mask)
    {key : String} (hkey : key ∈ timestampField.toList ++ defaultTimestamps) : key ∈ mask := by
  unfold extractRequiredFields at hmask
  split at hmask
  · cases hmask
  · cases hmask
    rw [List.append_assoc]
    exact List.mem_append_right _ hkey

theorem mem_unionFields {masks : List (Option (List String))} {mask : Option (List String)}
    {union : List String} (hmask : mask ∈ masks) (hunion : unionFields masks = some union)
    {key : String} (hkey : ∀ fields ∈ mask, key ∈ fields) : key ∈ union := by
  induction masks generalizing union with
  | nil => cases hmask
  | cons head masks ih =>
    cases head with
    | none => cases hunion
    | some first =>
      obtain ⟨rest, hrest, rfl⟩ := Option.map_eq_some_iff.mp hunion
      rcases List.mem_cons.mp hmask with rfl | hmask
      · exact List.mem_append_left _ (hkey first rfl)
      · exact List.mem_append_right _ (ih hmask hrest)

/-- A rule on the stream needs the field: it has no mask, or its mask has the field. The
fields of error records are always needed. -/
def Needed (rules : HashMap String (Option (List String))) (key : String) : Prop :=
  (∃ entry ∈ rules.entries, ∀ fields ∈ entry.2, key ∈ fields) ∨ key = "error" ∨ key = "__error"

theorem needed_of_mem_mask {rules : HashMap String (Option (List String))} {ruleId : String}
    {mask : List String} (hrule : rules.lookup ruleId = some (some mask)) {key : String}
    (hkey : key ∈ mask) : Needed rules key := by
  refine .inl ⟨⟨ruleId, some mask⟩, AList.mem_lookup_iff.mp hrule, ?_⟩
  rintro fields ⟨rfl⟩
  exact hkey

theorem union_keeps {rules : HashMap String (Option (List String))} {key : String}
    (h : Needed rules key) : keepsField (computeUnionFieldMask rules) key = true := by
  cases hunion : computeUnionFieldMask rules with
  | none => rfl
  | some fields =>
    rcases h with ⟨⟨ruleId, mask⟩, hentry, hmask⟩ | rfl | rfl
    · unfold computeUnionFieldMask at hunion
      split at hunion
      · cases hunion
      · have hmem : mask ∈ rules.entries.map Sigma.snd := List.mem_map.mpr ⟨_, hentry, rfl⟩
        have hall := mem_unionFields hmem (Option.eq_some_of_filter_eq_some hunion) hmask
        simp [keepsField, hall]
    · simp [keepsField]
    · simp [keepsField]

-- ---- Values on a masked record

/-- When no clause of a statement can tell a masked record from the record. Of the keys
that the record has, some rule on the stream needs those that visited clauses look up
without naming them, those that the clauses of the window look up, and the other owners
of qualified columns. -/
structure Covered (rules : HashMap String (Option (List String))) (stmt : SelectStmt F)
    (record : Row F) : Prop where
  unnamed : ∀ branch ∈ branches stmt, ∀ e ∈ visitedClauses branch, ∀ key,
    reads e key = true → key ∉ (collectReferencedFields e).names → key ∈ record →
    Needed rules key
  window : ∀ branch ∈ branches stmt, ∀ e ∈ windowClauses branch, ∀ key,
    reads e key = true → key ∈ record → Needed rules key
  owner : ∀ e ∈ clauses stmt, ∀ parent leaf, .fieldAccess (.identifier parent) leaf ∈ subexprs e →
    isUnqualified record parent leaf = true → ∀ entry ∈ record.entries, entry.1 ≠ parent →
    (entry.2.get leaf).isSome = true → Needed rules entry.1

theorem lookup_decodeObject {mask : Option (List String)} {record : Row F} {key : String}
    (h : key ∈ record → keepsField mask key = true) :
    record.lookup key = (decodeObject mask record).lookup key := by
  by_cases hkey : key ∈ record
  · exact (HashMap.lookup_retain record (h hkey)).symm
  · have hnone := AList.lookup_eq_none.mpr hkey
    rw [hnone]
    exact (HashMap.lookup_retain_none record hnone).symm

theorem ownedByOther_decodeObject {mask : Option (List String)} {record : Row F}
    {parent leaf : String}
    (h : ∀ entry ∈ record.entries, entry.1 ≠ parent → (entry.2.get leaf).isSome = true →
      keepsField mask entry.1 = true) :
    ownedByOther record parent leaf = ownedByOther (decodeObject mask record) parent leaf := by
  unfold ownedByOther
  rw [Bool.eq_iff_iff, List.any_eq_true, List.any_eq_true]
  constructor
  · rintro ⟨entry, hentry, howns⟩
    have hkept := h entry hentry (by simp_all) (by simp_all [Value.get])
    exact ⟨entry, HashMap.mem_entries_retain.mpr ⟨hentry, hkept⟩, howns⟩
  · rintro ⟨entry, hentry, howns⟩
    exact ⟨entry, (HashMap.mem_entries_retain.mp hentry).1, howns⟩

theorem extractEventTimestamp_congr [Float64 F] (env : Env F) {row row' : Row F}
    {configuredField : Option String}
    (h : ∀ key ∈ configuredField.toList ++ defaultTimestamps, row.lookup key = row'.lookup key) :
    extractEventTimestamp env row configuredField =
      extractEventTimestamp env row' configuredField := by
  refine congrArg (Option.getD · env.now) (findSome_congr fun key hkey => ?_)
  rw [h key hkey]

section
variable {stmt : SelectStmt F} {timestampField : Option String} {mask : List String}
  {rules : HashMap String (Option (List String))} {ruleId : String} {record : Row F}

theorem agreeOn_decodeObject
    (hmask : extractRequiredFields (stmtReferencedFields stmt) timestampField = some mask)
    (hrule : rules.lookup ruleId = some (some mask))
    (hcovered : Covered rules stmt record) {e : Expr F}
    (he : e ∈ clauses stmt) :
    AgreeOn e record (decodeObject (computeUnionFieldMask rules) record) where
  lookup := by
    obtain ⟨branch, hbranch, hclause⟩ := List.mem_flatMap.mp he
    intro key hkey
    refine lookup_decodeObject fun hrecord => ?_
    rcases List.mem_append.mp hclause with hvisited | hwindow
    · by_cases hnamed : key ∈ (collectReferencedFields e).names
      · have hmem := named_mem_mask hmask hbranch hvisited hnamed
        exact union_keeps (needed_of_mem_mask hrule hmem)
      · exact union_keeps (hcovered.unnamed branch hbranch e hvisited key hkey hnamed hrecord)
    · exact union_keeps (hcovered.window branch hbranch e hwindow key hkey hrecord)
  owner parent leaf hsub hunqualified :=
    ownedByOther_decodeObject fun entry hentry hne howns =>
      union_keeps (hcovered.owner e he parent leaf hsub hunqualified entry hentry hne howns)

/-- A mask that covers a statement is invisible to its clauses, and every mask is
invisible to the event time. -/
theorem field_mask_invisible [Float64 F] (env : Env F)
    (hmask : extractRequiredFields (stmtReferencedFields stmt) timestampField = some mask)
    (hrule : rules.lookup ruleId = some (some mask))
    (hcovered : Covered rules stmt record) :
    (∀ e ∈ clauses stmt,
      evalExpr env (decodeObject (computeUnionFieldMask rules) record) e = evalExpr env record e ∧
      evalBoolStateful env (decodeObject (computeUnionFieldMask rules) record) e =
        evalBoolStateful env record e ∧
      tryEvalNumericFast (decodeObject (computeUnionFieldMask rules) record) e =
        tryEvalNumericFast record e) ∧
    extractEventTimestamp env (decodeObject (computeUnionFieldMask rules) record) timestampField =
      extractEventTimestamp env record timestampField := by
  constructor
  · intro e he
    have hagree := agreeOn_decodeObject hmask hrule hcovered he
    exact ⟨(evalExpr_congr env hagree).symm, (evalBoolStateful_congr env hagree).symm,
      (tryEvalNumericFast_congr hagree).symm⟩
  · refine (extractEventTimestamp_congr env fun key hkey => ?_).symm
    have hmem := timestamp_mem_mask hmask hkey
    exact lookup_decodeObject fun _ => union_keeps (needed_of_mem_mask hrule hmem)

end

/-- `b > 1` -/
def overLimit : Expr ℚ :=
  .binaryOp (.identifier "b") .gt (.literal (.number (.int 1)))

/-- A record with the columns `a`, `b` and `c`. -/
def reading : Row ℚ :=
  ((AList.singleton "a" (.number (.int 1))).insert "b" (.number (.int 2))).insert "c"
    (.number (.int 3))

/-- `SELECT a FROM s WHERE b > 1` -/
def plainRule : SelectStmt ℚ := .plain [.identifier "a"] "s" (some overLimit)

theorem mem_branches_plainRule {branch : SelectStmt ℚ} (h : branch ∈ branches plainRule) :
    branch = plainRule := by
  simpa [plainRule, SelectStmt.plain, branches, optBranches] using h

theorem mem_visitedClauses_plainRule {e : Expr ℚ} (h : e ∈ visitedClauses plainRule) :
    e = .identifier "a" ∨ e = overLimit := by
  simpa [plainRule, SelectStmt.plain, visitedClauses] using h

theorem plainRule_covered (rules : HashMap String (Option (List String))) :
    Covered rules plainRule reading where
  unnamed := by
    intro branch hbranch e he key hkey hunnamed
    rw [mem_branches_plainRule hbranch] at he
    rcases mem_visitedClauses_plainRule he with rfl | rfl
    · simp_all [reads, subexprs, readsAt, columnReads, collectReferencedFields]
    · simp_all [overLimit, reads, subexprs, readsAt, columnReads, collectReferencedFields,
        names_append]
  window := by
    intro branch hbranch e he
    rw [mem_branches_plainRule hbranch] at he
    cases he
  owner := by
    intro e he parent leaf hsub
    obtain ⟨branch, hbranch, hclause⟩ := List.mem_flatMap.mp he
    rw [mem_branches_plainRule hbranch] at hclause
    rcases List.mem_append.mp hclause with hvisited | hwindow
    · rcases mem_visitedClauses_plainRule hvisited with rfl | rfl
      · simp [subexprs] at hsub
      · simp [overLimit, subexprs] at hsub
    · cases hwindow

def oneRule (mask : List String) : HashMap String (Option (List String)) :=
  AList.singleton "rule" (some mask)

/-- The mask drops the column `c`, which no clause looks up. -/
theorem field_mask_invisible_plain :
    keepsField (computeUnionFieldMask (oneRule ("a" :: "b" :: defaultTimestamps))) "c" = false ∧
    ∀ e ∈ clauses plainRule,
      evalExpr bareEnv (decodeObject
        (computeUnionFieldMask (oneRule ("a" :: "b" :: defaultTimestamps))) reading) e =
      evalExpr bareEnv reading e := by
  refine ⟨by decide, fun e he => ?_⟩
  have hmask : extractRequiredFields (stmtReferencedFields plainRule) none =
      some ("a" :: "b" :: defaultTimestamps) := by rfl
  have hrule : (oneRule ("a" :: "b" :: defaultTimestamps)).lookup "rule" =
      some (some ("a" :: "b" :: defaultTimestamps)) := by rfl
  exact ((field_mask_invisible bareEnv hmask hrule (plainRule_covered _)).1 e he).1

/-- `SELECT a FROM s GROUP BY COUNTWINDOW(1) FILTER (WHERE b > 1)` -/
def filteredWindow : SelectStmt ℚ :=
  { SelectStmt.plain [.identifier "a"] "s" none with
    window := some (.count 1 none), windowFilter := some overLimit }

/-- The mask drops the column of the window's `FILTER`. -/
theorem filter_column_masked :
    extractRequiredFields (stmtReferencedFields filteredWindow) none =
      some ("a" :: defaultTimestamps) ∧
    overLimit ∈ clauses filteredWindow ∧
    evalBool bareEnv reading overLimit = .ok true ∧
    evalBool bareEnv
      (decodeObject (computeUnionFieldMask (oneRule ("a" :: defaultTimestamps))) reading)
      overLimit = .ok false := by
  refine ⟨by rfl, ?_, by decide +kernel, by decide +kernel⟩
  simp [clauses, filteredWindow, SelectStmt.plain, branches, windowClauses]

end Rekuiper.Pipeline
