import Rekuiper.Connectors.TemplateValues
import Rekuiper.Lib.Outcome

/-!
# Laws of the template functions

Arithmetic of integers is exact as long as nothing leaves `i64` on the way, and the comparisons
agree with one another for numbers, for texts, for booleans, and for two values that are both
nil or both missing.
-/

namespace Rekuiper.Connectors.DataTemplate

open Lib

section

variable {F : Type} [Float64 F] {env : TemplateEnv F} {dot a b : TemplateValue F}
  {args : List (TemplateValue F)}

-- ---- Arithmetic

theorem inI64_toInt (i : Int64) : InI64 i.toInt := ⟨i.le_toInt, Int.le_sub_one_of_lt i.toInt_lt⟩

theorem toInt_ofInt_of_inI64 {n : Int} (h : InI64 n) : (Int64.ofInt n).toInt = n :=
  Int64.toInt_ofInt_of_le h.1 (Int.lt_of_le_sub_one h.2)

theorem i64Result_of_inI64 {n : Int} (h : InI64 n) : i64Result n = .ok (Int64.ofInt n) := if_pos h

/-- The sums that `add` has in `i64`: those before the first float. -/
def partialSums (sum : Int) : List (TemplateValue F) → List Int
  | [] | .float _ :: _ => []
  | .int i :: rest => (sum + i.toInt) :: partialSums (sum + i.toInt) rest
  | _ :: rest => partialSums sum rest

theorem addArg_int {s : AddState F} (hmode : s.floatMode = false) {i : Int64} :
    addArg s (.int i) =
      (i64Result (s.intSum.toInt + i.toInt)).map fun intSum => { s with intSum } := by
  refine (if_neg (by simp [hmode])).trans ?_
  cases i64Result (s.intSum.toInt + i.toInt) <;> rfl

theorem addArg_floatMode {s : AddState F} (hmode : s.floatMode = true) (args : List (TemplateValue F)) :
    ∃ s', args.foldlM addArg s = .ok s' := by
  induction args generalizing s with
  | nil => exact ⟨s, rfl⟩
  | cons arg rest ih =>
    have hstep : ∃ s', addArg s arg = .ok s' ∧ s'.floatMode = true := by
      cases arg with
      | int i => exact ⟨_, if_pos hmode, hmode⟩
      | float f => exact ⟨_, rfl, rfl⟩
      | _ => exact ⟨_, rfl, hmode⟩
    obtain ⟨s', hs', hmode'⟩ := hstep
    rw [List.foldlM_cons, hs']
    exact ih hmode'

theorem addArg_total_iff {s : AddState F} (hmode : s.floatMode = false) (args : List (TemplateValue F)) :
    (∃ s', args.foldlM addArg s = .ok s') ↔ ∀ n ∈ partialSums s.intSum.toInt args, InI64 n := by
  induction args generalizing s with
  | nil => simp [partialSums, pure, Except.pure]
  | cons arg rest ih =>
    cases arg with
    | int i =>
      rw [List.foldlM_cons, addArg_int hmode, partialSums, List.forall_mem_cons]
      by_cases hsum : InI64 (s.intSum.toInt + i.toInt)
      · have hrest := ih (s := { s with intSum := Int64.ofInt (s.intSum.toInt + i.toInt) }) hmode
        rw [toInt_ofInt_of_inI64 hsum] at hrest
        rw [i64Result_of_inI64 hsum, and_iff_right hsum]
        exact hrest
      · refine iff_of_false ?_ fun h => hsum h.1
        rw [i64Result, if_neg hsum]
        rintro ⟨_, ⟨⟩⟩
    | float f => exact iff_of_true (addArg_floatMode rfl rest) (by simp [partialSums])
    | _ => exact ih hmode

theorem addArgs_total_iff : (∃ v, addArgs args = .ok v) ↔ ∀ n ∈ partialSums 0 args, InI64 n := by
  refine Iff.trans ⟨?_, ?_⟩ (addArg_total_iff (s := ⟨false, 0, Float64.ofInt 0⟩) rfl args)
  · rintro ⟨v, hv⟩
    obtain ⟨s, hs, -⟩ := bind_eq_ok hv
    exact ⟨s, hs⟩
  · rintro ⟨s, hs⟩
    refine ⟨if s.floatMode then .float s.floatSum else .int s.intSum, ?_⟩
    rw [addArgs, hs]
    rfl

theorem addArg_ints {s : AddState F} (hmode : s.floatMode = false) (ns : List Int64)
    (hsums : ∀ n ∈ partialSums (F := F) s.intSum.toInt (ns.map .int), InI64 n) :
    (ns.map .int).foldlM addArg s =
      .ok { s with intSum := Int64.ofInt (s.intSum.toInt + (ns.map Int64.toInt).sum) } := by
  induction ns generalizing s with
  | nil => simp [pure, Except.pure]
  | cons n ns ih =>
    rw [List.map_cons, partialSums, List.forall_mem_cons] at hsums
    have hrest := ih (s := { s with intSum := Int64.ofInt (s.intSum.toInt + n.toInt) }) hmode
    rw [toInt_ofInt_of_inI64 hsums.1] at hrest
    rw [List.map_cons, List.foldlM_cons, addArg_int hmode, i64Result_of_inI64 hsums.1]
    refine (hrest hsums.2).trans ?_
    simp [add_assoc]

theorem addArgs_ints (ns : List Int64)
    (hsums : ∀ n ∈ partialSums (F := F) 0 (ns.map .int), InI64 n) :
    addArgs (F := F) (ns.map .int) = .ok (.int (Int64.ofInt (ns.map Int64.toInt).sum)) := by
  rw [addArgs, addArg_ints rfl ns (by simpa using hsums)]
  simp [bind, Except.bind, pure, Except.pure]

theorem binary_total_iff {onInts : Int → Int → Int} {onFloats : F → F → F}
    {a b : Option (TemplateValue F)} : (∃ v, binary env onInts onFloats a b = .ok v) ↔
      ∀ x y, a = some (.int x) → b = some (.int y) → InI64 (onInts x.toInt y.toInt) := by
  unfold binary
  split
  · next x y =>
    constructor
    · rintro ⟨v, hv⟩ x' y' ⟨⟩ ⟨⟩
      by_contra hout
      rw [i64Result, if_neg hout] at hv
      cases hv
    · intro h
      rw [i64Result_of_inI64 (h x y rfl rfl)]
      exact ⟨_, rfl⟩
  · next hne =>
    refine iff_of_true ⟨_, rfl⟩ ?_
    rintro x y rfl rfl
    exact absurd rfl (hne x y rfl)

/-- Whatever the arguments are there is a result, and it is exact if they are integers and it is
one of `i64`. The difference and the product are those of the first two arguments. -/
structure Arithmetic (env : TemplateEnv F) (dot : TemplateValue F) (args : List (TemplateValue F)) :
    Prop where
  total : ∀ name ∈ ["add", "sub", "mul"], ∃ v, callFunction env name args dot = .ok v
  add : ∀ ns : List Int64, args = ns.map .int → InI64 (ns.map Int64.toInt).sum →
    callFunction env "add" args dot = .ok (.int (Int64.ofInt (ns.map Int64.toInt).sum))
  sub : ∀ x y : Int64, args[0]? = some (.int x) → args[1]? = some (.int y) →
    InI64 (x.toInt - y.toInt) →
    callFunction env "sub" args dot = .ok (.int (Int64.ofInt (x.toInt - y.toInt)))
  mul : ∀ x y : Int64, args[0]? = some (.int x) → args[1]? = some (.int y) →
    InI64 (x.toInt * y.toInt) →
    callFunction env "mul" args dot = .ok (.int (Int64.ofInt (x.toInt * y.toInt)))

/-- No sum on the way, difference or product of the arguments leaves `i64`. -/
structure Fits (args : List (TemplateValue F)) : Prop where
  sums : ∀ n ∈ partialSums 0 args, InI64 n
  difference : ∀ x y : Int64, args[0]? = some (.int x) → args[1]? = some (.int y) →
    InI64 (x.toInt - y.toInt)
  product : ∀ x y : Int64, args[0]? = some (.int x) → args[1]? = some (.int y) →
    InI64 (x.toInt * y.toInt)

theorem arithmetic_iff : Arithmetic env dot args ↔ Fits args := by
  constructor
  · intro h
    exact ⟨addArgs_total_iff.mp (h.total "add" (by simp)),
      binary_total_iff.mp (h.total "sub" (by simp)), binary_total_iff.mp (h.total "mul" (by simp))⟩
  · intro h
    refine ⟨?_, ?_, ?_, ?_⟩
    · simp only [List.forall_mem_cons]
      exact ⟨addArgs_total_iff.mpr h.sums, binary_total_iff.mpr h.difference,
        binary_total_iff.mpr h.product, by simp⟩
    · rintro ns rfl -
      exact addArgs_ints ns h.sums
    · intro x y hx hy hfits
      change binary env _ _ _ _ = _
      rw [hx, hy, binary, i64Result_of_inI64 hfits]
      rfl
    · intro x y hx hy hfits
      change binary env _ _ _ _ = _
      rw [hx, hy, binary, i64Result_of_inI64 hfits]
      rfl

-- ---- Comparisons

def compares (env : TemplateEnv F) (dot : TemplateValue F) (name : String) (a b : TemplateValue F) :
    Option Bool :=
  match callFunction env name [a, b] dot with
  | .ok (.bool answer) => some answer
  | _ => none

structure Agree (env : TemplateEnv F) (dot a b : TemplateValue F) : Prop where
  total : ∀ name ∈ ["gt", "ge", "lt", "le", "eq", "ne"], (compares env dot name a b).isSome
  eq_comm : compares env dot "eq" a b = compares env dot "eq" b a
  ne : compares env dot "ne" a b = (compares env dot "eq" a b).map not
  gt : compares env dot "gt" a b = compares env dot "lt" b a
  ge : compares env dot "ge" a b = compares env dot "le" b a
  lt : compares env dot "lt" a b = some true → compares env dot "lt" b a = some false
  eq_self : compares env dot "eq" a a = some true

/-- Both are numbers, texts or booleans, or both are nil or missing. -/
def Comparable : TemplateValue F → TemplateValue F → Prop
  | .int _, .int _ | .int _, .float _ | .float _, .int _ | .float _, .float _ | .string _, .string _
  | .bool _, .bool _ | .nil, .nil | .noValue, .noValue => True
  | _, _ => False

/-- `<` of floats goes one way only. -/
def Asymmetric (F : Type) [Float64 F] : Prop :=
  ∀ f g : F, Float64.lt f g = true → Float64.lt g f = false

theorem compareF64_swap (hlt : Asymmetric F) (x y : F) : compareF64 y x = (compareF64 x y).swap := by
  unfold compareF64
  cases hxy : Float64.lt x y with
  | true => simp [hlt x y hxy]
  | false => cases Float64.lt y x <;> rfl

theorem compareF64_self (hlt : Asymmetric F) (x : F) : compareF64 x x = .eq := by
  have hirrefl : Float64.lt x x = false := by
    by_contra h
    have htrue : Float64.lt x x = true := by simpa using h
    exact h (hlt x x htrue)
  simp [compareF64, hirrefl]

theorem compareVals_swap (hlt : Asymmetric F) (h : Comparable a b) :
    compareVals (some b) (some a) = (compareVals (some a) (some b)).swap := by
  cases a <;> cases b <;> first
    | exact h.elim
    | exact compareF64_swap hlt _ _
    | exact (rfl : _ = compare _ _).trans Std.OrientedCmp.eq_swap
    | rfl

theorem compareVals_self (hlt : Asymmetric F) (h : Comparable a b) :
    compareVals (some a) (some a) = .eq := by
  cases a with
  | array | map => exact h.elim
  | float f => exact compareF64_self hlt f
  | int i => exact (rfl : _ = compare _ _).trans Std.ReflCmp.compare_self
  | string s => exact (rfl : _ = compare _ _).trans Std.ReflCmp.compare_self
  | bool b => exact (rfl : _ = compare _ _).trans Std.ReflCmp.compare_self
  | nil | noValue => rfl

theorem compareVals_other (h : ¬Comparable a b) :
    compareVals (some a) (some b) = .lt ∧ compareVals (some b) (some a) = .lt := by
  cases a <;> cases b <;> first
    | exact absurd trivial h
    | exact ⟨rfl, rfl⟩

theorem agree_iff (hlt : Asymmetric F) : Agree env dot a b ↔ Comparable a b := by
  constructor
  · intro h
    by_contra hother
    obtain ⟨hab, hba⟩ := compareVals_other hother
    have hless : compares env dot "lt" a b = some true :=
      congrArg (fun o : Ordering => some (o == .lt)) hab
    have hgreater : compares env dot "lt" b a = some true :=
      congrArg (fun o : Ordering => some (o == .lt)) hba
    simpa [hgreater] using h.lt hless
  · intro h
    have hswap := compareVals_swap hlt h
    have hself := compareVals_self hlt h
    refine ⟨by simp [compares, callFunction], ?_, ?_, ?_, ?_, ?_, ?_⟩ <;>
      simp only [compares, callFunction, List.getElem?_cons_zero, List.getElem?_cons_succ, hswap, hself] <;>
      cases compareVals (some a) (some b) <;> first | rfl | simp

/-- Arithmetic is total and exact where nothing leaves `i64`, and the comparisons agree on
comparable values. -/
theorem functions_consistent_iff (env : TemplateEnv F) (hlt : Asymmetric F)
    (dot : TemplateValue F) (args : List (TemplateValue F)) (a b : TemplateValue F) :
    Arithmetic env dot args ∧ Agree env dot a b ↔ Fits args ∧ Comparable a b :=
  and_congr arithmetic_iff (agree_iff hlt)

end

/-- Templates without texts to parse or to make -/
def bareTemplates : TemplateEnv ℚ := ⟨fun _ => "", fun _ => none, fun _ => "", fun _ => none⟩

theorem numbers_consistent :
    Arithmetic bareTemplates .nil [.int 2, .float 3] ∧
        Agree bareTemplates .nil (.int 2) (.float 3) ↔
      Fits (F := ℚ) [.int 2, .float 3] ∧ Comparable (F := ℚ) (.int 2) (.float 3) :=
  functions_consistent_iff bareTemplates
    (fun _ _ h => decide_eq_false (of_decide_eq_true h).asymm) _ _ _ _

/-- One more than the largest `i64` is no sum, and two arrays are less than each other. -/
theorem functions_inconsistent :
    ¬Arithmetic bareTemplates .nil [.int Int64.maxValue, .int 1] ∧
      ¬Agree bareTemplates .nil (.array []) (.array []) := by
  refine ⟨fun h => ?_, fun h => ?_⟩
  · obtain ⟨v, hv⟩ := h.total "add" (by simp)
    exact absurd (addArgs_total_iff.mp ⟨v, hv⟩ (2 ^ 63) (by decide)) (by decide)
  · exact absurd h.eq_self (by decide)

end Rekuiper.Connectors.DataTemplate
