import Rekuiper.Sql.Laws
import Rekuiper.Pipeline.Record

/-!
# Bus predicates

The part of a `WHERE` clause that the bus checks on the raw record, before the rule's
task is woken. On operands that the bus reads as the evaluator does, a record that the
predicate rejects does not satisfy the clause.
-/

namespace Rekuiper.Pipeline

open Lib Sql

variable {F : Type}

inductive BusPredicate (F : Type)
  | fieldEq (field : String) (value : Value F)
  | fieldNeq (field : String) (value : Value F)
  | fieldGt (field : String) (threshold : F)
  | fieldGte (field : String) (threshold : F)
  | fieldLt (field : String) (threshold : F)
  | fieldLte (field : String) (threshold : F)
  | topicEq (expected : String)
  | and (predicates : List (BusPredicate F))

def busTopic (record : Row F) : Option (Value F) :=
  (firstPresent record ["__meta__", "__mqtt__"]).bind fun object => object.get "topic"

section
variable [Float64 F]

mutual
def BusPredicate.matches (record : Row F) : BusPredicate F → Bool
  | .fieldEq name value => (record.lookup name).any fun v => v.same value
  | .fieldNeq name value => (record.lookup name).any fun v => !v.same value
  | .fieldGt name threshold =>
    ((record.lookup name).bind Value.asF64).any fun n => Float64.lt threshold n
  | .fieldGte name threshold =>
    ((record.lookup name).bind Value.asF64).any fun n => Float64.le threshold n
  | .fieldLt name threshold =>
    ((record.lookup name).bind Value.asF64).any fun n => Float64.lt n threshold
  | .fieldLte name threshold =>
    ((record.lookup name).bind Value.asF64).any fun n => Float64.le n threshold
  | .topicEq expected => ((busTopic record).bind Value.asStr).any fun topic => topic == expected
  | .and predicates => BusPredicate.allMatch record predicates
def BusPredicate.allMatch (record : Row F) : List (BusPredicate F) → Bool
  | [] => true
  | p :: ps => BusPredicate.matches record p && BusPredicate.allMatch record ps
end

def checkAndAccount (predicate : BusPredicate F) (record : Row F) : Bool :=
  predicate.matches record ||
    record.entries.any fun entry => entry.1 == "error" || entry.1 == "__error"

-- ---- Extraction

/-- `meta(topic)` or `mqtt(topic)` -/
def isTopicCall : Expr F → Bool
  | .call name [.identifier id] =>
    (eqIgnoreAsciiCase name "meta" || eqIgnoreAsciiCase name "mqtt") && eqIgnoreAsciiCase id "topic"
  | _ => false

def fieldPredicate (name : String) (op : BinaryOperator) (lit : Value F) :
    Option (BusPredicate F) :=
  match op with
  | .eq => some (.fieldEq name lit)
  | .neq => some (.fieldNeq name lit)
  | .gt => lit.asF64.map (.fieldGt name)
  | .gte => lit.asF64.map (.fieldGte name)
  | .lt => lit.asF64.map (.fieldLt name)
  | .lte => lit.asF64.map (.fieldLte name)
  | _ => none

def comparisonPredicate (left : Expr F) (op : BinaryOperator) (right : Expr F) :
    Option (BusPredicate F) :=
  match left, right with
  | .identifier name, .literal lit => fieldPredicate name op lit
  | left, .literal (.string expected) =>
    if op = .eq ∧ isTopicCall left then some (.topicEq expected) else none
  | _, _ => none

def extractBusPredicate : Expr F → Option (BusPredicate F)
  | .binaryOp left .and right =>
    match extractBusPredicate left, extractBusPredicate right with
    | some l, some r => some (.and [l, r])
    | some single, none | none, some single => some single
    | none, none => none
  | .binaryOp left op right => comparisonPredicate left op right
  | _ => none

-- ---- Rejected comparisons

def Unmet (result : Except Failure (Value F)) : Prop :=
  result = .ok (.bool false) ∨ ∃ failure, result = .error failure

theorem unmet_invalidOperation (left : Value F) (op : BinaryOperator) (right : Value F) :
    Unmet (invalidOperation left op right) :=
  .inr ⟨_, rfl⟩

omit [Float64 F] in
theorem unmet_of_ne_true {b : Bool} (h : b ≠ true) :
    Unmet (.ok (.bool b) : Except Failure (Value F)) := by
  rw [Bool.eq_false_of_not_eq_true h]
  exact .inl rfl

theorem valuesEqual_of_same {a b : Number F} (h : a.same b = true) :
    valuesEqual (.number a) (.number b) = true := by
  cases a with
  | int n =>
    cases b with
    | int m =>
      obtain rfl : n = m := eq_of_beq h
      by_cases hn : n ≤ maxI64
      · simp [valuesEqual, Number.asI64, hn]
      · have hpos : 0 ≤ n := by
          unfold maxI64 at hn
          omega
        simp [valuesEqual, Number.asI64, Number.asU64, hn, hpos]
    | float g => cases h
  | float f =>
    cases b with
    | int m => cases h
    | float g => exact h

/-- A number that SQL takes for the literal is the same number to the bus. `direct` is a
comparison that is the whole clause, which is made up to an epsilon. -/
def SameNumbers (direct : Bool) (v lit : Value F) : Prop :=
  ∀ a b, v = .number a → lit = .number b →
    (if direct then Float64.lt (Float64.abs (Float64.sub a.asF64 b.asF64)) Float64.epsilon
      else valuesEqual v lit) = true → a.same b = true

theorem unmet_equality {v lit : Value F} (hsame : v.same lit = false)
    (hnumbers : SameNumbers false v lit) : Unmet (equality true v .eq lit) := by
  unfold equality
  split
  · next a b =>
    refine unmet_of_ne_true fun hequal => ?_
    have hab := hnumbers a b rfl rfl (by simpa using hequal)
    exact Bool.false_ne_true (hsame.symm.trans hab)
  · next a b =>
    exact unmet_of_ne_true (by simpa [Value.same] using hsame)
  · next a b =>
    exact unmet_of_ne_true (by simpa [Value.same] using hsame)
  · exact unmet_invalidOperation v .eq lit

theorem unmet_inequality {v lit : Value F} (hsame : v.same lit = true) :
    Unmet (equality false v .neq lit) := by
  unfold equality
  split
  · next a b =>
    have hequal := valuesEqual_of_same (show a.same b = true from hsame)
    exact unmet_of_ne_true (by simp [hequal])
  · next a b =>
    exact unmet_of_ne_true (by simpa [Value.same] using hsame)
  · next a b =>
    exact unmet_of_ne_true (by simpa [Value.same] using hsame)
  · exact unmet_invalidOperation v .neq lit

theorem unmet_comparison {accepts : Ordering → Bool} {v : Value F} {op : BinaryOperator}
    {b : Number F}
    (h : ∀ a, v = .number a → (compareFloat a.asF64 b.asF64).any accepts ≠ true) :
    Unmet (comparison accepts v op (.number b)) := by
  cases v with
  | number a => exact unmet_of_ne_true (h a rfl)
  | _ => exact unmet_invalidOperation _ op _

theorem compareFloat_any {x y : F} {accepts : Ordering → Bool}
    (h : (compareFloat x y).any accepts = true) :
    accepts .lt = true ∧ Float64.lt x y = true ∨ accepts .eq = true ∧ Float64.eq x y = true ∨
      accepts .gt = true ∧ Float64.lt y x = true := by
  unfold compareFloat at h
  split at h
  · exact .inl ⟨h, ‹_›⟩
  split at h
  · exact .inr (.inl ⟨h, ‹_›⟩)
  split at h
  · exact .inr (.inr ⟨h, ‹_›⟩)
  · cases h

theorem asF64_eq_some {v : Value F} {f : F} (h : v.asF64 = some f) :
    ∃ n : Number F, v = .number n ∧ f = n.asF64 := by
  cases v with
  | number n => exact ⟨n, rfl, (Option.some.inj h).symm⟩
  | _ => cases h

def carried (record : Row F) : Expr F → Value F
  | .identifier name => (record.lookup name).getD .null
  | _ => (busTopic record).getD .null

omit [Float64 F] in
theorem any_eq_false {found : Option (Value F)} {f : Value F → Bool} (h : found.any f = false)
    (hnull : (found.getD .null).isNull ≠ true) : f (found.getD .null) = false := by
  cases found with
  | none => exact absurd rfl hnull
  | some v => exact h

theorem any_asF64_eq_false {found : Option (Value F)} {f : F → Bool}
    (h : (found.bind Value.asF64).any f = false) {a : Number F}
    (ha : found.getD .null = .number a) : f a.asF64 = false := by
  cases found with
  | none => cases ha
  | some v =>
    obtain rfl : v = .number a := ha
    exact h

theorem unmet_threshold {accepts : Ordering → Bool} (within : F → F → Bool)
    {found : Option (Value F)} {op : BinaryOperator} {lit : Value F} {threshold : F}
    (hlit : lit.asF64 = some threshold)
    (hreject : (found.bind Value.asF64).any (within · threshold) = false)
    (hwithin : ∀ x y, (compareFloat x y).any accepts = true → within x y = true) :
    Unmet (comparison accepts (found.getD .null) op lit) := by
  obtain ⟨b, rfl, rfl⟩ := asF64_eq_some hlit
  refine unmet_comparison fun a ha hany => ?_
  have hbus := any_asF64_eq_false hreject ha
  exact Bool.false_ne_true (hbus.symm.trans (hwithin _ _ hany))

theorem unmet_fieldPredicate [LawfulFloat64 F] {likeMatch : String → String → Bool} {record : Row F}
    {name : String} {op : BinaryOperator} {lit : Value F} {p : BusPredicate F}
    (hp : fieldPredicate name op lit = some p) (hreject : p.matches record = false)
    (hnumbers : op = .eq → SameNumbers false ((record.lookup name).getD .null) lit) :
    Unmet (evalBinaryOp likeMatch ((record.lookup name).getD .null) op lit) := by
  unfold evalBinaryOp
  split
  · cases op <;> first | exact .inl rfl | cases hp
  · next hnull =>
    have hv : ((record.lookup name).getD .null).isNull ≠ true := by
      intro h
      exact hnull (by rw [h, Bool.true_or])
    cases op with
    | eq =>
      cases hp
      exact unmet_equality (any_eq_false hreject hv) (hnumbers rfl)
    | neq =>
      cases hp
      exact unmet_inequality (by simpa using any_eq_false hreject hv)
    | gt =>
      obtain ⟨threshold, hlit, rfl⟩ := Option.map_eq_some_iff.mp hp
      refine unmet_threshold (fun n t => Float64.lt t n) hlit hreject fun x y h => ?_
      rcases compareFloat_any h with ⟨h, -⟩ | ⟨h, -⟩ | ⟨-, h⟩
      · cases h
      · cases h
      · exact h
    | gte =>
      obtain ⟨threshold, hlit, rfl⟩ := Option.map_eq_some_iff.mp hp
      refine unmet_threshold (fun n t => Float64.le t n) hlit hreject fun x y h => ?_
      rcases compareFloat_any h with ⟨h, -⟩ | ⟨-, h⟩ | ⟨-, h⟩
      · cases h
      · exact LawfulFloat64.ge_of_eq x y h
      · exact LawfulFloat64.le_of_lt y x h
    | lt =>
      obtain ⟨threshold, hlit, rfl⟩ := Option.map_eq_some_iff.mp hp
      refine unmet_threshold Float64.lt hlit hreject fun x y h => ?_
      rcases compareFloat_any h with ⟨-, h⟩ | ⟨h, -⟩ | ⟨h, -⟩
      · exact h
      · cases h
      · cases h
    | lte =>
      obtain ⟨threshold, hlit, rfl⟩ := Option.map_eq_some_iff.mp hp
      refine unmet_threshold Float64.le hlit hreject fun x y h => ?_
      rcases compareFloat_any h with ⟨-, h⟩ | ⟨-, h⟩ | ⟨h, -⟩
      · exact LawfulFloat64.le_of_lt x y h
      · exact LawfulFloat64.le_of_eq x y h
      · cases h
    | _ => cases hp

theorem unmet_topic {likeMatch : String → String → Bool} {record : Row F} {expected : String}
    (hreject : (BusPredicate.topicEq expected : BusPredicate F).matches record = false) :
    Unmet (evalBinaryOp likeMatch ((busTopic record).getD .null) .eq (.string expected)) := by
  simp only [BusPredicate.matches] at hreject
  cases htopic : busTopic record with
  | none => exact .inl rfl
  | some v =>
    rw [htopic] at hreject
    cases v with
    | string s => exact unmet_of_ne_true (by simpa [Value.asStr] using hreject)
    | null => exact .inl rfl
    | _ => exact unmet_invalidOperation _ .eq _

theorem toAsciiLowercase_of_eq {name text : String} (h : eqIgnoreAsciiCase name text = true) :
    toAsciiLowercase name = toAsciiLowercase text :=
  eq_of_beq h

theorem topicCall_go {env : Env F} {row : Row F} {e : Expr F} (h : isTopicCall e = true) :
    ∃ v, ∀ s, (evalExpr env row e).go s = (.ok v, s) := by
  unfold isTopicCall at h
  split at h
  · next name id =>
    obtain ⟨hname, -⟩ := Bool.and_eq_true_iff.mp h
    rcases Bool.or_eq_true_iff.mp hname with hname | hname
    · have hlower : toAsciiLowercase name = "meta" := toAsciiLowercase_of_eq hname
      refine ⟨resolveMetaKey row
        ((firstPresent row ["__meta__", "meta"]).bind Value.asObject) id, fun s => ?_⟩
      unfold evalExpr cached evalStatefulCall evalContextCall
      simp only [isAnalyticExpr, hlower]
      rfl
    · have hlower : toAsciiLowercase name = "mqtt" := toAsciiLowercase_of_eq hname
      refine ⟨resolveMetaKey row
        ((firstPresent row ["__mqtt__", "mqtt", "__meta__"]).bind Value.asObject) id, fun s => ?_⟩
      unfold evalExpr cached evalStatefulCall evalContextCall
      simp only [isAnalyticExpr, hlower]
      rfl
  · cases h

theorem operand_go (env : Env F) (row : Row F) {left right : Expr F} {op : BinaryOperator}
    {p : BusPredicate F} (hp : comparisonPredicate left op right = some p) :
    ∃ v, ∀ s, (evalExpr env row left).go s = (.ok v, s) := by
  unfold comparisonPredicate at hp
  split at hp
  · next name lit =>
    refine ⟨column row name, fun s => ?_⟩
    unfold evalExpr
    rfl
  · split at hp
    · next htopic => exact topicCall_go htopic.2
    · cases hp
  · cases hp

-- ---- Rejected conditions

/-- The bus compares what the rule does: the operand has, in the row that the rule
evaluates, the value that the bus reads in the record, and no number that is equal to the
literal is another one to the bus. -/
structure FaithfulComparison (env : Env F) (record row : Row F) (direct : Bool) (left : Expr F)
    (op : BinaryOperator) (right : Expr F) : Prop where
  operand : evalVal env row left = .ok (carried record left)
  numbers : op = .eq → ∀ lit, right = .literal lit → SameNumbers direct (carried record left) lit

/-- Every comparison of a condition that the bus makes is faithful. Only a comparison that is
the whole condition can be direct. -/
def Faithful (env : Env F) (record row : Row F) : Bool → Expr F → Prop
  | _, .binaryOp left .and right =>
    Faithful env record row false left ∧ Faithful env record row false right
  | whole, .binaryOp left op right =>
    (comparisonPredicate left op right).isSome = true →
      FaithfulComparison env record row
        (whole && (fastPath env row (.binaryOp left op right)).isSome) left op right
  | _, _ => True

theorem Faithful.comparison {env : Env F} {record row : Row F} {whole : Bool}
    {left right : Expr F} {op : BinaryOperator} {p : BusPredicate F}
    (h : Faithful env record row whole (.binaryOp left op right)) (hop : op ≠ .and)
    (hp : comparisonPredicate left op right = some p) :
    FaithfulComparison env record row
      (whole && (fastPath env row (.binaryOp left op right)).isSome) left op right := by
  cases op with
  | and => exact absurd rfl hop
  | _ => exact h (by rw [hp]; rfl)

theorem comparisonPredicate_cases {left right : Expr F} {op : BinaryOperator}
    {p : BusPredicate F} (hp : comparisonPredicate left op right = some p) :
    ∃ lit, right = .literal lit ∧
      ((∃ name, left = .identifier name ∧ fieldPredicate name op lit = some p) ∨
        ∃ expected, op = .eq ∧ lit = .string expected ∧ p = .topicEq expected ∧
          ∀ record : Row F, carried record left = (busTopic record).getD .null) := by
  unfold comparisonPredicate at hp
  split at hp
  · next name lit => exact ⟨lit, rfl, .inl ⟨name, rfl, hp⟩⟩
  · next expected hid =>
    split at hp
    · next htopic =>
      cases hp
      refine ⟨.string expected, rfl, .inr ⟨expected, htopic.1, rfl, rfl, fun record => ?_⟩⟩
      cases left with
      | identifier name => cases htopic.2
      | _ => rfl
    · cases hp
  · cases hp

theorem unmet_evalBinaryOp [LawfulFloat64 F] (likeMatch : String → String → Bool)
    {record : Row F} {left right : Expr F} {op : BinaryOperator} {p : BusPredicate F}
    (hp : comparisonPredicate left op right = some p) (hreject : p.matches record = false)
    (hnumbers : op = .eq → ∀ lit, right = .literal lit →
      SameNumbers false (carried record left) lit) :
    ∃ lit, right = .literal lit ∧ Unmet (evalBinaryOp likeMatch (carried record left) op lit) := by
  obtain ⟨lit, rfl, hcase⟩ := comparisonPredicate_cases hp
  refine ⟨lit, rfl, ?_⟩
  rcases hcase with ⟨name, rfl, hfield⟩ | ⟨expected, rfl, rfl, rfl, hcarried⟩
  · exact unmet_fieldPredicate hfield hreject fun h => hnumbers h lit rfl
  · rw [hcarried record]
    exact unmet_topic hreject

theorem carried_go {env : Env F} {record row : Row F} {left right : Expr F}
    {op : BinaryOperator} {p : BusPredicate F} (hp : comparisonPredicate left op right = some p)
    (hoperand : evalVal env row left = .ok (carried record left)) (s : RuleState F) :
    (evalExpr env row left).go s = (.ok (carried record left), s) := by
  obtain ⟨v, hv⟩ := operand_go env row hp
  rw [evalVal, hv] at hoperand
  obtain rfl : v = carried record left := Except.ok.inj hoperand
  exact hv s

theorem unmet_comparisonExpr [LawfulFloat64 F] {env : Env F} {record row : Row F}
    {left right : Expr F} {op : BinaryOperator} {p : BusPredicate F}
    (hp : comparisonPredicate left op right = some p)
    (hreject : p.matches record = false)
    (hfaithful : FaithfulComparison env record row false left op right) (s : RuleState F) :
    Unmet ((evalExpr env row (.binaryOp left op right)).go s).1 := by
  obtain ⟨lit, rfl, hunmet⟩ :=
    unmet_evalBinaryOp env.likeMatch hp hreject hfaithful.numbers
  unfold evalExpr
  rw [go_bind, carried_go hp hfaithful.operand]
  unfold evalExpr
  simp only [pure_bind, go_liftExcept]
  exact hunmet

theorem unmet_and {likeMatch : String → String → Bool} {v w : Value F}
    (h : v = .bool false ∨ w = .bool false) : Unmet (evalBinaryOp likeMatch v .and w) := by
  rcases h with rfl | rfl
  · cases w <;> first | exact .inl rfl | exact unmet_invalidOperation _ .and _
  · cases v with
    | bool b => exact unmet_of_ne_true (by simp)
    | null => exact .inl rfl
    | _ => exact unmet_invalidOperation _ .and _

theorem unmet_andExpr {env : Env F} {row : Row F} {left right : Expr F}
    (h : (∀ s, Unmet ((evalExpr env row left).go s).1) ∨
      ∀ s, Unmet ((evalExpr env row right).go s).1) (s : RuleState F) :
    Unmet ((evalExpr env row (.binaryOp left .and right)).go s).1 := by
  unfold evalExpr
  rw [go_bind]
  cases hleft : (evalExpr env row left).go s with
  | mk l s₁ =>
    cases l with
    | error failure => exact .inr ⟨failure, rfl⟩
    | ok v =>
      simp only [go_bind]
      cases hright : (evalExpr env row right).go s₁ with
      | mk r s₂ =>
        cases r with
        | error failure => exact .inr ⟨failure, rfl⟩
        | ok w =>
          simp only [go_liftExcept]
          refine unmet_and ?_
          rcases h with h | h
          · have hv := h s
            rw [hleft] at hv
            rcases hv with hv | ⟨failure, hv⟩
            · exact .inl (Except.ok.inj hv)
            · cases hv
          · have hw := h s₁
            rw [hright] at hw
            rcases hw with hw | ⟨failure, hw⟩
            · exact .inr (Except.ok.inj hw)
            · cases hw

theorem unmet_extracted [LawfulFloat64 F] {env : Env F} {record row : Row F} (e : Expr F)
    {p : BusPredicate F} (hp : extractBusPredicate e = some p)
    (hreject : p.matches record = false) (hfaithful : Faithful env record row false e)
    (s : RuleState F) : Unmet ((evalExpr env row e).go s).1 := by
  induction e using extractBusPredicate.induct generalizing p s with
  | case1 left right l r hr hl ihl ihr =>
    simp only [extractBusPredicate, hl, hr, Option.some.injEq] at hp
    subst hp
    obtain ⟨hleft, hright⟩ := hfaithful
    simp only [BusPredicate.matches, BusPredicate.allMatch, Bool.and_true] at hreject
    rcases Bool.and_eq_false_iff.mp hreject with h | h
    · exact unmet_andExpr (.inl fun s => ihl hl h hleft s) s
    · exact unmet_andExpr (.inr fun s => ihr hr h hright s) s
  | case2 left right single hr hl ihl ihr =>
    simp only [extractBusPredicate, hl, hr, Option.some.injEq] at hp
    subst hp
    exact unmet_andExpr (.inl fun s => ihl hl hreject hfaithful.1 s) s
  | case3 left right single hr hl ihl ihr =>
    simp only [extractBusPredicate, hl, hr, Option.some.injEq] at hp
    subst hp
    exact unmet_andExpr (.inr fun s => ihr hr hreject hfaithful.2 s) s
  | case4 left right hr hl ihl ihr => simp [extractBusPredicate, hl, hr] at hp
  | case5 left op right hop =>
    simp only [extractBusPredicate] at hp
    exact unmet_comparisonExpr hp hreject (hfaithful.comparison hop hp) s
  | case6 e hand hop => simp [extractBusPredicate] at hp

-- ---- Rejected records

theorem conditionAnswer_of_unmet {result : Except Failure (Value F)} (h : Unmet result) :
    conditionAnswer result ≠ .ok true := by
  rcases h with rfl | ⟨failure, rfl⟩
  · simp [conditionAnswer]
  · cases failure <;> simp [conditionAnswer]

theorem eq_of_same [LawfulFloat64 F] {a b : Number F} (h : a.same b = true) :
    Float64.eq a.asF64 b.asF64 = true := by
  cases a with
  | int n =>
    cases b with
    | int m =>
      obtain rfl : n = m := eq_of_beq h
      exact LawfulFloat64.eq_ofInt n
    | float g => cases h
  | float f =>
    cases b with
    | int m => cases h
    | float g => exact h

theorem fastComparison_numbers [LawfulFloat64 F] {env : Env F} {record : Row F} {name : String}
    {op : BinaryOperator} {a b : Number F} {p : BusPredicate F}
    (hrecord : record.lookup name = some (.number a))
    (hp : fieldPredicate name op (.number b) = some p) (hreject : p.matches record = false)
    (hnumbers : op = .eq → SameNumbers true (.number a) (.number b)) :
    fastComparison env (.number a) op (.number b) ≠ .ok true := by
  cases op with
  | eq =>
    cases hp
    simp only [BusPredicate.matches, hrecord, Option.any_some] at hreject
    intro hclose
    have hsame := hnumbers rfl a b rfl rfl (Except.ok.inj hclose)
    exact Bool.false_ne_true (hreject.symm.trans hsame)
  | neq =>
    cases hp
    simp only [BusPredicate.matches, hrecord, Option.any_some, Bool.not_eq_false'] at hreject
    intro hapart
    have hnear := LawfulFloat64.not_apart _ _ (eq_of_same (show a.same b = true from hreject))
    exact Bool.false_ne_true (hnear.symm.trans (Except.ok.inj hapart))
  | gt | gte | lt | lte =>
    cases hp
    simp only [BusPredicate.matches, hrecord] at hreject
    intro hwithin
    exact Bool.false_ne_true (hreject.symm.trans (Except.ok.inj hwithin))
  | _ => cases hp

theorem fastComparison_rejected [LawfulFloat64 F] {env : Env F} {record : Row F} {name : String}
    {op : BinaryOperator} {lit : Value F} {p : BusPredicate F}
    (hp : fieldPredicate name op lit = some p) (hreject : p.matches record = false)
    (hnumbers : op = .eq → SameNumbers true ((record.lookup name).getD .null) lit) :
    fastComparison env ((record.lookup name).getD .null) op lit ≠ .ok true := by
  by_cases hboth : ∃ a b, (record.lookup name).getD .null = .number a ∧ lit = .number b
  · obtain ⟨a, b, ha, rfl⟩ := hboth
    have hrecord : record.lookup name = some (.number a) := by
      cases hlookup : record.lookup name with
      | none =>
        rw [hlookup] at ha
        cases ha
      | some v =>
        rw [hlookup] at ha
        exact congrArg some ha
    rw [ha] at hnumbers ⊢
    exact fastComparison_numbers hrecord hp hreject hnumbers
  · have hslow : fastComparison env ((record.lookup name).getD .null) op lit =
        conditionAnswer (evalBinaryOp env.likeMatch ((record.lookup name).getD .null) op lit) := by
      unfold fastComparison
      split
      · next l r hl hr =>
        obtain ⟨a, ha, -⟩ := asF64_eq_some hl
        obtain ⟨b, hb, -⟩ := asF64_eq_some hr
        exact absurd ⟨a, b, ha, hb⟩ hboth
      · rfl
    rw [hslow]
    refine conditionAnswer_of_unmet (unmet_fieldPredicate hp hreject fun _ a b ha hb _ => ?_)
    exact absurd ⟨a, b, ha, hb⟩ hboth

theorem fastPath_comparison {env : Env F} {row : Row F} {left right : Expr F}
    {op : BinaryOperator} {p : BusPredicate F} {answer : Except Failure Bool}
    (hp : comparisonPredicate left op right = some p)
    (hfast : fastPath env row (.binaryOp left op right) = some answer) :
    ∃ name lit v, left = .identifier name ∧ right = .literal lit ∧
      fieldPredicate name op lit = some p ∧ row.lookup name = some v ∧
      answer = fastComparison env v op lit := by
  obtain ⟨lit, rfl, ⟨name, rfl, hfield⟩ | ⟨expected, rfl, rfl, rfl, hcarried⟩⟩ :=
    comparisonPredicate_cases hp
  · obtain ⟨v, hv, rfl⟩ := Option.map_eq_some_iff.mp hfast
    exact ⟨name, lit, v, rfl, rfl, hfield, hv, rfl⟩
  · cases left with
    | identifier name =>
      obtain ⟨v, hv, rfl⟩ := Option.map_eq_some_iff.mp hfast
      exact ⟨name, _, v, rfl, rfl, hp, hv, rfl⟩
    | _ => cases hfast

theorem rejected_not_met [LawfulFloat64 F] {env : Env F} {record row : Row F} {e : Expr F}
    {p : BusPredicate F} (hp : extractBusPredicate e = some p)
    (hreject : p.matches record = false) (hfaithful : Faithful env record row true e)
    (s : RuleState F) : ((evalBoolStateful env row e).go s).1 ≠ .ok true := by
  unfold evalBoolStateful
  cases hfast : fastPath env row e with
  | none =>
    refine conditionAnswer_of_unmet (unmet_extracted e hp hreject ?_ s)
    -- without a direct comparison the clause is evaluated like any of its parts
    unfold Faithful at hfaithful ⊢
    split
    · exact hfaithful
    · simpa [hfast] using hfaithful
    · trivial
  | some answer =>
    cases e with
    | binaryOp left op right =>
      have hop : op ≠ .and := by
        rintro rfl
        cases left <;> cases right <;> simp [fastPath, extractBusPredicate] at hfast hp
      have hp' : comparisonPredicate left op right = some p := by
        cases op with
        | and => exact absurd rfl hop
        | _ => exact hp
      obtain ⟨name, lit, v, rfl, rfl, hfield, hv, rfl⟩ := fastPath_comparison hp' hfast
      have hcomparison := hfaithful.comparison hop hp'
      rw [hfast] at hcomparison
      have hcolumn : v = (record.lookup name).getD .null := by
        have hoperand := carried_go hp' hcomparison.operand s
        unfold evalExpr at hoperand
        have hvalue := Except.ok.inj (congrArg Prod.fst hoperand)
        simpa [column, hv, carried] using hvalue
      rw [hcolumn, go_liftExcept]
      exact fastComparison_rejected hfield hreject fun h => hcomparison.numbers h lit rfl
    | _ => cases hp

end

end Rekuiper.Pipeline
