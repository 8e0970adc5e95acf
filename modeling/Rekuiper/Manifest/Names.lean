import Rekuiper.Manifest.Loading
import Rekuiper.Manifest.Validator

/-!
# The names in accepted rules

What the acceptance of a manifest says about the functions and sources that its rules
name, and what it leaves open.
-/

namespace Rekuiper.Manifest

open Lib Rules Sql

variable {F : Type}

-- ---- Function calls

def children : Expr F → List (Expr F)
  | .call _ args => args
  | .over call partitionBy condition => call :: (partitionBy.toList ++ condition.toList)
  | .binaryOp left _ right => [left, right]
  | .unaryOp _ expr => [expr]
  | .between expr low high _ => [expr, low, high]
  | .inList expr list _ => expr :: list
  | .isNull expr _ => [expr]
  | .fieldAccess parent _ => [parent]
  | .index base index => [base, index]
  | .slice base lo hi => base :: (lo.toList ++ hi.toList)
  | .case operand whenClauses elseClause =>
    operand.toList ++ whenClauses.flatMap (fun clause => [clause.1, clause.2]) ++
      elseClause.toList
  | .wildcardModified _ replace => replace.map Prod.fst
  | .wildcard | .identifier _ | .literal _ => []

inductive Calls (name : String) : Expr F → Prop
  | here (args : List (Expr F)) : Calls name (.call name args)
  | inside {e child : Expr F} : child ∈ children e → Calls name child → Calls name e

theorem collectArgs_eq (es : List (Expr F)) : collectArgs es = es.flatMap collectFunctions := by
  induction es with
  | nil => simp [collectArgs]
  | cons e es ih => rw [collectArgs, ih, List.flatMap_cons]

theorem collectOpt_eq (e : Option (Expr F)) :
    collectOpt e = e.toList.flatMap collectFunctions := by
  cases e <;> simp [collectOpt]

theorem collectWhens_eq (clauses : List (Expr F × Expr F)) :
    collectWhens clauses =
      (clauses.flatMap fun clause => [clause.1, clause.2]).flatMap collectFunctions := by
  induction clauses with
  | nil => simp [collectWhens]
  | cons clause clauses ih =>
    obtain ⟨c, e⟩ := clause
    simp [collectWhens, ih]

theorem collectReplace_eq (replace : List (Expr F × String)) :
    collectReplace replace = (replace.map Prod.fst).flatMap collectFunctions := by
  induction replace with
  | nil => simp [collectReplace]
  | cons entry replace ih =>
    obtain ⟨e, column⟩ := entry
    simp [collectReplace, ih]

theorem collectFunctions_eq (e : Expr F) :
    collectFunctions e =
      (match e with | .call name _ => [name] | _ => []) ++
        (children e).flatMap collectFunctions := by
  cases e <;>
    simp [collectFunctions, children, collectArgs_eq, collectOpt_eq, collectWhens_eq,
      collectReplace_eq]

theorem sizeOf_opt {e : Expr F} {o : Option (Expr F)} (h : e ∈ o.toList) : sizeOf e < sizeOf o := by
  cases o with
  | none => cases h
  | some e' =>
    cases List.mem_singleton.mp h
    simp

theorem sizeOf_child {e child : Expr F} (h : child ∈ children e) : sizeOf child < sizeOf e := by
  cases e with
  | call name args =>
    have := List.sizeOf_lt_of_mem (show child ∈ args from h)
    simp only [Expr.call.sizeOf_spec]
    omega
  | inList expr list negated =>
    simp only [Expr.inList.sizeOf_spec]
    rcases List.mem_cons.mp h with rfl | h
    · omega
    · have := List.sizeOf_lt_of_mem h
      omega
  | «over» call partitionBy condition =>
    simp only [Expr.over.sizeOf_spec]
    rcases List.mem_cons.mp h with rfl | h
    · omega
    · rcases List.mem_append.mp h with h | h
      all_goals
        have := sizeOf_opt h
        omega
  | slice base lo hi =>
    simp only [Expr.slice.sizeOf_spec]
    rcases List.mem_cons.mp h with rfl | h
    · omega
    · rcases List.mem_append.mp h with h | h
      all_goals
        have := sizeOf_opt h
        omega
  | case operand whenClauses elseClause =>
    simp only [Expr.case.sizeOf_spec]
    rcases List.mem_append.mp h with h | h
    · rcases List.mem_append.mp h with h | h
      · have := sizeOf_opt h
        omega
      · obtain ⟨⟨c, v⟩, hclause, h⟩ := List.mem_flatMap.mp h
        have hsize := List.sizeOf_lt_of_mem hclause
        simp only [Prod.mk.sizeOf_spec] at hsize
        simp only [List.mem_cons, List.not_mem_nil, or_false] at h
        rcases h with rfl | rfl <;> omega
    · have := sizeOf_opt h
      omega
  | wildcardModified except replace =>
    simp only [Expr.wildcardModified.sizeOf_spec]
    obtain ⟨⟨e, column⟩, hentry, rfl⟩ := List.mem_map.mp h
    have hsize := List.sizeOf_lt_of_mem hentry
    simp only [Prod.mk.sizeOf_spec] at hsize ⊢
    omega
  | binaryOp | index =>
    simp only [children, List.mem_cons, List.not_mem_nil, or_false] at h
    rcases h with rfl | rfl
    all_goals
      simp
      try omega
  | between =>
    simp only [children, List.mem_cons, List.not_mem_nil, or_false] at h
    rcases h with rfl | rfl | rfl
    all_goals
      simp
      try omega
  | unaryOp | isNull | fieldAccess =>
    cases List.mem_singleton.mp h
    simp
    try omega
  | wildcard | identifier | literal => cases h

theorem calls_of_mem {name : String} (e : Expr F) (h : name ∈ collectFunctions e) :
    Calls name e := by
  rw [collectFunctions_eq, List.mem_append] at h
  rcases h with h | h
  · cases e with
    | call function args =>
      cases List.mem_singleton.mp h
      exact .here args
    | _ => cases h
  · obtain ⟨child, hchild, hname⟩ := List.mem_flatMap.mp h
    exact .inside hchild (calls_of_mem child hname)
termination_by sizeOf e
decreasing_by exact sizeOf_child hchild

theorem mem_collectFunctions_iff (name : String) (e : Expr F) :
    name ∈ collectFunctions e ↔ Calls name e := by
  refine ⟨calls_of_mem e, fun h => ?_⟩
  induction h with
  | here args => simp [collectFunctions]
  | inside hchild _ ih =>
    rw [collectFunctions_eq]
    exact List.mem_append_right _ (List.mem_flatMap.mpr ⟨_, hchild, ih⟩)

-- ---- Statements

def stateConditions : Option (WindowDef F) → List (Expr F)
  | some (.state startCondition endCondition) => startCondition :: endCondition.toList
  | _ => []

def uncheckedClauses (stmt : SelectStmt F) : List (Expr F) :=
  stmt.orderBy.map (·.expr) ++ stmt.joins.flatMap (·.onCondition.toList) ++
    stateConditions stmt.window ++ stmt.windowPartitionBy.toList

/-- All clauses of one branch of a statement. -/
def clauses (stmt : SelectStmt F) : List (Expr F) := checkedClauses stmt ++ uncheckedClauses stmt

def sources (stmt : SelectStmt F) : List String := stmt.source :: stmt.joins.map (·.target)

def Declared (m : DeclarativeManifest F) (name : String) : Prop :=
  name ∈ m.streams ∨ name ∈ m.tables ∨ name ∈ builtinStreams

def FunctionsKnown (lang : Language F) (exprs : List (Expr F)) : Prop :=
  ∀ e ∈ exprs, ∀ name, Calls name e → isKnownFunction lang name = true

/-- In every branch of the statement, every function is known and every source declared. -/
def NamesSound (lang : Language F) (m : DeclarativeManifest F) (stmt : SelectStmt F) : Prop :=
  ∀ branch ∈ branches stmt,
    FunctionsKnown lang (clauses branch) ∧ ∀ name ∈ sources branch, Declared m name

def LooselyDeclared (m : DeclarativeManifest F) (name : String) : Prop :=
  ¬ Declared m name ∧
    ∃ declared, Declared m declared ∧
      toAsciiLowercase declared = toAsciiLowercase (unquote name)

/-- A rule of a manifest, and whether a later rule of its list has the same id. -/
inductive Listed (formats : Formats F) : DeclarativeRules F → RuleDefinition F → Prop → Prop
  | declared {rules : HashMap String (DeclarativeRuleValue F)} {id : String}
      {value : DeclarativeRuleValue F} {rule : RuleDefinition F}
      (hvalue : rules.lookup id = some value) (hrule : value.toRuleDefinition formats id = .ok rule) :
      Listed formats (.map rules) rule False
  | listed (before : List (RuleDefinition F)) (rule : RuleDefinition F)
      (later : List (RuleDefinition F)) :
      Listed formats (.list (before ++ rule :: later)) rule (∃ other ∈ later, other.id = rule.id)

/-- What acceptance leaves open: the unchecked clauses of the first branch, how its sources
are written, and the branches behind it. Of a rule that a later one replaces, it is all. -/
def OpenNames (lang : Language F) (m : DeclarativeManifest F) (replaced : Prop)
    (stmt : SelectStmt F) : Prop :=
  (replaced → FunctionsKnown lang (checkedClauses stmt)) ∧
    FunctionsKnown lang (uncheckedClauses stmt) ∧
    (∀ name ∈ sources stmt, (replaced → Declared m name) ∧ ¬ LooselyDeclared m name) ∧
    ∀ branch ∈ optBranches stmt.setOp,
      FunctionsKnown lang (clauses branch) ∧ ∀ name ∈ sources branch, Declared m name

variable {formats : Formats F} {lang : Language F} {m : DeclarativeManifest F}
  {stmt : SelectStmt F} {ruleId : String}

theorem sourceExists_iff (name : String) :
    sourceExists m name = true ↔
      ∃ declared, Declared m declared ∧
        toAsciiLowercase declared = toAsciiLowercase (unquote name) := by
  have hbuiltin : ∀ stream ∈ builtinStreams, toAsciiLowercase stream = stream := by decide
  simp only [sourceExists, Declared, Bool.or_eq_true, List.any_eq_true, beq_iff_eq,
    List.contains_iff_mem, AList.mem_keys]
  constructor
  · rintro ((⟨declared, hmem, hlower⟩ | ⟨declared, hmem, hlower⟩) | hmem)
    · exact ⟨declared, .inl hmem, hlower⟩
    · exact ⟨declared, .inr (.inl hmem), hlower⟩
    · exact ⟨_, .inr (.inr hmem), hbuiltin _ hmem⟩
  · rintro ⟨declared, hmem | hmem | hmem, hlower⟩
    · exact .inl (.inl ⟨declared, hmem, hlower⟩)
    · exact .inl (.inr ⟨declared, hmem, hlower⟩)
    · rw [← hlower, hbuiltin _ hmem]
      exact .inr hmem

theorem checkSource_fine {clause source : String}
    (h : ∀ d ∈ checkSource m ruleId clause source, d.level ≠ .error) :
    sourceExists m source = true := by
  unfold checkSource at h
  split at h
  · assumption
  · exact absurd rfl (h _ (List.mem_singleton_self _))

theorem checkFunction_fine {name : String}
    (h : ∀ d ∈ checkFunction lang ruleId name, d.level ≠ .error) :
    isKnownFunction lang name = true := by
  unfold checkFunction at h
  split at h
  · assumption
  · exact absurd rfl (h _ (List.mem_singleton_self _))

theorem validateRuleSelect_fine
    (h : ∀ d ∈ validateRuleSelect lang m ruleId stmt, d.level ≠ .error) :
    FunctionsKnown lang (checkedClauses stmt) ∧
      ∀ name ∈ sources stmt, sourceExists m name = true := by
  simp only [validateRuleSelect, List.forall_mem_append, List.forall_mem_flatMap] at h
  obtain ⟨⟨hfrom, hjoins⟩, hfunctions⟩ := h
  constructor
  · intro e he name hcall
    exact checkFunction_fine (hfunctions e he name ((mem_collectFunctions_iff name e).mpr hcall))
  · simp only [sources, List.forall_mem_cons, List.forall_mem_map]
    exact ⟨checkSource_fine hfrom, fun join hjoin => checkSource_fine (hjoins join hjoin)⟩

theorem accepted_listed {summary : ValidationSummary} {rule : RuleDefinition F} {replaced : Prop}
    (h : validateManifest formats lang m = .ok summary)
    (hrule : Listed formats m.rules rule replaced) (hkept : ¬ replaced) :
    ∃ id stmt, lang.parseSelect rule.sql = .ok stmt ∧
      ∀ d ∈ validateRuleSelect lang m id stmt, d.level ≠ .error := by
  have hmap := accepted_rules h
  generalize hrules : m.rules = rules at hmap hrule
  cases hrule with
  | declared hvalue hrule => exact ⟨_, accepted_rule h ((lookup_map hmap).mpr ⟨_, hvalue, hrule⟩)⟩
  | listed before _ later =>
    have hnone : (later.reverse.find? fun other => other.id = rule.id) = none := by
      simpa [List.find?_eq_none] using hkept
    exact ⟨rule.id, accepted_rule h (by rw [lookup_list hmap]; simp [hnone])⟩

/-- Every kept rule of an accepted manifest has a statement, and the names in a statement are
sound exactly if those left open are. -/
theorem accepted_names_sound_iff {summary : ValidationSummary} {rule : RuleDefinition F}
    {replaced : Prop} (h : validateManifest formats lang m = .ok summary)
    (hrule : Listed formats m.rules rule replaced) :
    (¬ replaced → ∃ stmt, lang.parseSelect rule.sql = .ok stmt) ∧
      ∀ stmt, lang.parseSelect rule.sql = .ok stmt →
        (NamesSound lang m stmt ↔ OpenNames lang m replaced stmt) := by
  refine ⟨fun hkept => ?_, fun stmt hparse => ?_⟩
  · obtain ⟨-, stmt, hparse, -⟩ := accepted_listed h hrule hkept
    exact ⟨stmt, hparse⟩
  have hfirst : FunctionsKnown lang (clauses stmt) ↔
      FunctionsKnown lang (checkedClauses stmt) ∧ FunctionsKnown lang (uncheckedClauses stmt) :=
    List.forall_mem_append
  unfold NamesSound OpenNames
  rw [branches_eq, List.forall_mem_cons, hfirst, and_assoc, and_assoc]
  by_cases hreplaced : replaced
  · have hloose : ∀ name, Declared m name → ¬ LooselyDeclared m name :=
      fun name hname hloose => hloose.1 hname
    refine and_congr ?_ (and_congr_right fun _ => and_congr_left fun _ =>
      forall₂_congr fun name _ => ?_)
    · simp only [hreplaced, true_imp_iff]
    · simp only [hreplaced, true_imp_iff]
      exact (and_iff_left_of_imp (hloose name)).symm
  · obtain ⟨id, stmt', hparse', hselect⟩ := accepted_listed h hrule hreplaced
    cases hparse.symm.trans hparse'
    obtain ⟨hfunctions, hsources⟩ := validateRuleSelect_fine hselect
    refine and_congr ?_ (and_congr_right fun _ => and_congr_left fun _ =>
      forall₂_congr fun name hname => ?_)
    · simp only [hreplaced, false_imp_iff, hfunctions]
    · have hexists := (sourceExists_iff name).mp (hsources name hname)
      simp only [hreplaced, false_imp_iff, true_and, LooselyDeclared, hexists, and_true, not_not]

/-- `SELECT a FROM demo ORDER BY e` -/
def orderedBy (e : Expr ℚ) : SelectStmt ℚ :=
  { SelectStmt.plain [.identifier "a"] "demo" none with orderBy := [⟨e, .asc⟩] }

def oneRule (sql : String) : DeclarativeManifest ℚ :=
  { DeclarativeManifest.default with rules := .list [sampleRule sql] }

def columnOrder : Language ℚ :=
  languageOf "SELECT a FROM demo ORDER BY a" (orderedBy (.identifier "a"))

/-- A rule that a second one with its id replaces. -/
def repeated (sql : String) : DeclarativeManifest ℚ :=
  { DeclarativeManifest.default with rules := .list [sampleRule sql, sampleRule sql] }

theorem accepted_names_sound_repeated :
    NamesSound columnOrder (repeated "SELECT a FROM demo ORDER BY a")
      (orderedBy (.identifier "a")) := by
  have hvalid : ∃ summary, validateManifest noFormats columnOrder
      (repeated "SELECT a FROM demo ORDER BY a") = .ok summary := ⟨_, rfl⟩
  obtain ⟨summary, hvalid⟩ := hvalid
  have hrule : Listed noFormats (repeated "SELECT a FROM demo ORDER BY a").rules
      (sampleRule "SELECT a FROM demo ORDER BY a") _ :=
    Listed.listed [] _ [sampleRule "SELECT a FROM demo ORDER BY a"]
  have hcolumn : ∀ name, ¬ Calls (F := ℚ) name (.identifier "a") := by
    rintro name (_ | ⟨hchild, -⟩)
    cases hchild
  refine ((accepted_names_sound_iff hvalid hrule).2 _ rfl).mpr ⟨fun _ e he => ?_, fun e he => ?_,
    fun name hname => ?_, nofun⟩
  · cases List.mem_singleton.mp he
    exact fun name hcall => absurd hcall (hcolumn name)
  · cases List.mem_singleton.mp he
    exact fun name hcall => absurd hcall (hcolumn name)
  · cases List.mem_singleton.mp hname
    have hbuiltin : Declared (repeated "SELECT a FROM demo ORDER BY a") "demo" :=
      .inr (.inr (by decide))
    exact ⟨fun _ => hbuiltin, fun hloose => hloose.1 hbuiltin⟩

def functionOrder : Language ℚ :=
  languageOf "SELECT a FROM demo ORDER BY nosuch(a)" (orderedBy (.call "nosuch" [.identifier "a"]))

/-- A rule that orders its rows by an unknown function is accepted. -/
theorem order_by_is_not_checked :
    (validateManifest noFormats functionOrder
        (oneRule "SELECT a FROM demo ORDER BY nosuch(a)")).isOk = true ∧
      functionOrder.parseSelect "SELECT a FROM demo ORDER BY nosuch(a)" =
        .ok (orderedBy (.call "nosuch" [.identifier "a"])) ∧
      ¬ NamesSound functionOrder (oneRule "SELECT a FROM demo ORDER BY nosuch(a)")
        (orderedBy (.call "nosuch" [.identifier "a"])) := by
  refine ⟨by decide, rfl, fun h => ?_⟩
  have hknown := (h _ (by rw [branches_eq]; exact List.mem_cons_self)).1
    (.call "nosuch" [.identifier "a"]) (by simp [clauses, uncheckedClauses, orderedBy]) "nosuch"
    (.here _)
  exact absurd hknown (by decide)

end Rekuiper.Manifest
