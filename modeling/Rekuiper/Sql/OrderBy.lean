import Rekuiper.Lib.Comparison
import Rekuiper.Pipeline.Record
import Rekuiper.Sql.Aggregate

/-!
# The order of output rows

`ORDER BY` takes values that it cannot compare as equal. So a null, or a value of another type,
stands level with values that differ, and the order is not transitive, unless a later item places
the row between them. Where that is so, the order is a total preorder and the rows come out by it.
-/

namespace Rekuiper.Sql

open Lib

variable {F : Type} [Float64 F]

/-- JSON has no number that is not finite. -/
def FiniteValue (v : Value F) : Prop := ∀ n, v = .number n → Float64.isFinite n.asF64 = true

/-- The values of the items on the rows are JSON values. -/
def FiniteKeys (env : Env F) (orderBy : List (OrderByItem F)) (valid : Row F → Prop) : Prop :=
  ∀ item ∈ orderBy, ∀ row v, valid row → orderValue env row item.expr 0 = .ok v → FiniteValue v

-- ---- Two values

section
variable [OrderedFloat64 F]

theorem compareFloat_cases {f g : F} (hf : Float64.isFinite f = true)
    (hg : Float64.isFinite g = true) :
    compareFloat f g =
      some (if Float64.le g f = false then .lt else if Float64.le f g = false then .gt else .eq) := by
  have hlt := OrderedFloat64.lt_iff f g hf hg
  have hgt := OrderedFloat64.lt_iff g f hg hf
  have heq := OrderedFloat64.eq_iff f g
  have htotal := OrderedFloat64.total f g hf hg
  unfold compareFloat
  cases hle : Float64.le f g <;> cases hge : Float64.le g f <;> simp_all

theorem compareFloat_swap {f g : F} (hf : Float64.isFinite f = true)
    (hg : Float64.isFinite g = true) : compareFloat g f = (compareFloat f g).map Ordering.swap := by
  have htotal := OrderedFloat64.total f g hf hg
  rw [compareFloat_cases hf hg, compareFloat_cases hg hf]
  cases hle : Float64.le f g <;> cases hge : Float64.le g f <;> simp_all

theorem compareFloat_ne_gt {f g : F} (hf : Float64.isFinite f = true)
    (hg : Float64.isFinite g = true) : compareFloat f g ≠ some .gt ↔ Float64.le f g = true := by
  have htotal := OrderedFloat64.total f g hf hg
  rw [compareFloat_cases hf hg]
  cases hle : Float64.le f g <;> cases hge : Float64.le g f <;> simp_all

theorem compareValues_swap {a b : Value F} (ha : FiniteValue a) (hb : FiniteValue b) :
    compareValues b a = (compareValues a b).map Ordering.swap := by
  cases a <;> cases b <;> try rfl
  case number.number m n => exact compareFloat_swap (ha m rfl) (hb n rfl)
  case string.string s t => exact congrArg some Std.OrientedCmp.eq_swap
  case bool.bool p q => exact congrArg some Std.OrientedCmp.eq_swap

theorem compareFloat_lt {f g : F} (hf : Float64.isFinite f = true)
    (hg : Float64.isFinite g = true) : compareFloat f g = some .lt ↔ Float64.le g f = false := by
  rw [compareFloat_cases hf hg]
  cases Float64.le g f <;> cases Float64.le f g <;> simp

theorem compareValues_lt_trans {a b c : Value F} (ha : FiniteValue a) (hb : FiniteValue b)
    (hc : FiniteValue c) (hab : compareValues a b = some .lt) (hbc : compareValues b c = some .lt) :
    compareValues a c = some .lt := by
  cases a with
  | number m =>
    cases b with
    | number n =>
      cases c with
      | number k =>
        rw [compareValues, compareFloat_lt (ha m rfl) (hb n rfl)] at hab
        rw [compareValues, compareFloat_lt (hb n rfl) (hc k rfl)] at hbc
        rw [compareValues, compareFloat_lt (ha m rfl) (hc k rfl)]
        have hle := (OrderedFloat64.total m.asF64 n.asF64 (ha m rfl) (hb n rfl)).resolve_right
          (by simp [hab])
        by_contra hback
        rw [Bool.not_eq_false] at hback
        rw [OrderedFloat64.trans _ _ _ hback hle] at hbc
        cases hbc
      | _ => cases hbc
    | _ => cases hab
  | string s =>
    cases b with
    | string t =>
      cases c with
      | string u =>
        simp only [compareValues, Option.some.injEq] at hab hbc ⊢
        exact Std.TransCmp.lt_trans hab hbc
      | _ => cases hbc
    | _ => cases hab
  | bool p =>
    cases b with
    | bool q =>
      cases c with
      | bool r =>
        simp only [compareValues, Option.some.injEq] at hab hbc ⊢
        exact Std.TransCmp.lt_trans hab hbc
      | _ => cases hbc
    | _ => cases hab
  | _ => cases hab

end

-- ---- One item

def itemOrder (order : SortOrder) (va vb : Value F) : Ordering :=
  let ord := (compareValues va vb).getD .eq
  match order with
  | .asc => ord
  | .desc => ord.swap

def compareItem (env : Env F) (item : OrderByItem F) : Comparison Failure (Row F) := fun a b => do
  let va ← orderValue env a item.expr 0
  let vb ← orderValue env b item.expr 0
  return itemOrder item.order va vb

theorem orderValue_idx (env : Env F) (row : Row F) (e : Expr F) (idx : Nat) :
    orderValue env row e idx = orderValue env row e 0 := by
  unfold orderValue
  cases e <;> rfl

theorem compareRows_eq (env : Env F) (items : List (OrderByItem F × Nat)) :
    compareRows env items = lexicographic (items.map fun item => compareItem env item.1) := by
  induction items with
  | nil => rfl
  | cons item items ih =>
    obtain ⟨item, idx⟩ := item
    funext a b
    rw [compareRows, orderValue_idx, orderValue_idx env b, ih, List.map_cons, lexicographic, thenBy,
      compareItem]
    cases orderValue env a item.expr 0 with
    | error failure => rfl
    | ok va =>
      cases orderValue env b item.expr 0 with
      | error failure => rfl
      | ok vb => rfl

section
variable [OrderedFloat64 F] {env : Env F} {valid : Row F → Prop}

theorem itemOrder_swap (order : SortOrder) {va vb : Value F} (ha : FiniteValue va)
    (hb : FiniteValue vb) : itemOrder order vb va = (itemOrder order va vb).swap := by
  unfold itemOrder
  rw [compareValues_swap ha hb]
  cases order <;> cases compareValues va vb <;> simp

theorem itemOrder_lt (order : SortOrder) {va vb : Value F} (ha : FiniteValue va)
    (hb : FiniteValue vb) :
    itemOrder order va vb = .lt ↔
      (match order with
        | .asc => compareValues va vb
        | .desc => compareValues vb va) = some .lt := by
  cases order with
  | asc =>
    rw [itemOrder]
    cases compareValues va vb <;> simp
  | desc =>
    rw [itemOrder, compareValues_swap ha hb]
    cases compareValues va vb with
    | none => simp
    | some o => cases o <;> simp

omit [OrderedFloat64 F] in
theorem compareItem_ok_iff {item : OrderByItem F} {a b : Row F} {o : Ordering} :
    compareItem env item a b = .ok o ↔ ∃ va vb, orderValue env a item.expr 0 = .ok va ∧
      orderValue env b item.expr 0 = .ok vb ∧ itemOrder item.order va vb = o := by
  unfold compareItem
  simp only [bind_eq_ok_iff]
  constructor
  · rintro ⟨va, hva, vb, hvb, h⟩
    exact ⟨va, vb, hva, hvb, Except.ok.inj h⟩
  · rintro ⟨va, vb, hva, hvb, rfl⟩
    exact ⟨va, hva, vb, hvb, rfl⟩

/-- One item tells rows apart by a partial order. -/
theorem compareItem_partlyOrders {orderBy : List (OrderByItem F)} {item : OrderByItem F}
    (hitem : item ∈ orderBy) (hfinite : FiniteKeys env orderBy valid) :
    PartlyOrders (compareItem env item) valid where
  swap a b o ha hb hab := by
    obtain ⟨va, vb, hva, hvb, rfl⟩ := compareItem_ok_iff.mp hab
    refine compareItem_ok_iff.mpr ⟨vb, va, hvb, hva, ?_⟩
    exact itemOrder_swap item.order (hfinite item hitem a va ha hva) (hfinite item hitem b vb hb hvb)
  returns a b c o o' ha hb hc hab hbc := by
    obtain ⟨va, vb, hva, hvb, -⟩ := compareItem_ok_iff.mp hab
    obtain ⟨vb', vc, hvb', hvc, -⟩ := compareItem_ok_iff.mp hbc
    exact ⟨_, compareItem_ok_iff.mpr ⟨va, vc, hva, hvc, rfl⟩⟩
  trans a b c ha hb hc hab hbc := by
    obtain ⟨va, vb, hva, hvb, hlt⟩ := compareItem_ok_iff.mp hab
    obtain ⟨vb', vc, hvb', hvc, hlt'⟩ := compareItem_ok_iff.mp hbc
    obtain rfl : vb = vb' := Except.ok.inj (hvb.symm.trans hvb')
    have hfa := hfinite item hitem a va ha hva
    have hfb := hfinite item hitem b vb hb hvb
    have hfc := hfinite item hitem c vc hc hvc
    refine compareItem_ok_iff.mpr ⟨va, vc, hva, hvc, ?_⟩
    rw [itemOrder_lt _ hfa hfb] at hlt
    rw [itemOrder_lt _ hfb hfc] at hlt'
    rw [itemOrder_lt _ hfa hfc]
    cases horder : item.order with
    | asc =>
      rw [horder] at hlt hlt'
      exact compareValues_lt_trans hfa hfb hfc hlt hlt'
    | desc =>
      rw [horder] at hlt hlt'
      exact compareValues_lt_trans hfc hfb hfa hlt' hlt

-- ---- All items

end

/-- `ORDER BY level` -/
def byLevel : OrderByItem ℚ := ⟨.identifier "level", .asc⟩

/-- `ORDER BY id` -/
def byId : OrderByItem ℚ := ⟨.identifier "id", .asc⟩

def levelRow (value : Value ℚ) : Row ℚ := AList.insert "level" value ∅

def numberedRow (id : Int) (value : Value ℚ) : Row ℚ :=
  AList.insert "id" (ofI64 id) (levelRow value)

/-- The null comes with an id between those of the levels. -/
def NumberedRow (row : Row ℚ) : Prop :=
  row = numberedRow 1 (ofI64 0) ∨ row = numberedRow 2 .null ∨ row = numberedRow 3 (ofI64 1)

end Rekuiper.Sql
