import Rekuiper.Sql.Conditions

/-!
# Arithmetic in projections

A projected expression of `+`, `-`, `*` and `/` is evaluated on `f64` throughout. The operators
evaluate integers as integers, so the two agree where every operation on integers gives in
`f64` what it gives in `i64`.
-/

namespace Rekuiper.Sql

open Lib

variable {F : Type} [Float64 F]

def isArithmetic (op : BinaryOperator) : Prop := op = .add ∨ op = .sub ∨ op = .mul ∨ op = .div

/-- The operation on `f64`, which has no quotient by zero. -/
def floatOp (op : BinaryOperator) (f g : F) : Option F :=
  match op with
  | .add => some (Float64.add f g)
  | .sub => some (Float64.sub f g)
  | .mul => some (Float64.mul f g)
  | .div => if Float64.eq g (Float64.ofInt 0) then none else some (Float64.div f g)
  | _ => none

/-- The operation on `i64`: it saturates, and a quotient is truncated. -/
def intOp (op : BinaryOperator) (i j : Int) : Option Int :=
  match op with
  | .add => some (saturate (i + j))
  | .sub => some (saturate (i - j))
  | .mul => some (saturate (i * j))
  | .div => if j = 0 ∨ i = minI64 ∧ j = -1 then none else some (i.tdiv j)
  | _ => none

/-- The operation on JSON numbers: on integers if both are `i64`. -/
def numberOp (op : BinaryOperator) (a b : Number F) : Option (Number F) :=
  match a.asI64, b.asI64 with
  | some i, some j => (intOp op i j).map .int
  | _, _ => ((floatOp op a.asF64 b.asF64).filter Float64.isFinite).map .float

def JsonNumber : Number F → Prop
  | .int n => InRange64 n
  | .float f => Float64.isFinite f = true

structure JsonNumbers (row : Row F) (e : Expr F) : Prop where
  literal : ∀ n, .literal (.number n) ∈ subexprs e → JsonNumber n
  column : ∀ name n, row.lookup name = some (.number n) → JsonNumber n

/-- An expression on a row is arithmetic on JSON numbers with this value, and every operation
gives the same number in `f64`. -/
inductive Lossless (row : Row F) : Expr F → Number F → Prop
  | literal {n : Number F} (hn : JsonNumber n) : Lossless row (.literal (.number n)) n
  | identifier {name : String} {n : Number F} (h : row.lookup name = some (.number n))
      (hn : JsonNumber n) : Lossless row (.identifier name) n
  | binaryOp {left right : Expr F} {op : BinaryOperator} {a b c : Number F} {f : F}
      (hleft : Lossless row left a) (hright : Lossless row right b)
      (hnumber : numberOp op a b = some c) (hfloat : floatOp op a.asF64 b.asF64 = some f)
      (hsame : Float64.eq c.asF64 f = true) : Lossless row (.binaryOp left op right) c

/-- The value of the general evaluation is equal to this one. -/
def EvaluatesTo (env : Env F) (row : Row F) (s : RuleState F) (e : Expr F) (v : Value F) : Prop :=
  ∃ w, ((evalExpr env row e).go s).1 = .ok w ∧ valuesEqual w v = true

/-- The general evaluation gives the `f64` value. -/
def AgreesAt (env : Env F) (row : Row F) (s : RuleState F) (e : Expr F) : Prop :=
  ∃ x, (evalF64 row e).map Prod.fst = some x ∧ EvaluatesTo env row s e (.number (.float x))

-- ---- Operations

section
variable {row : Row F} {op : BinaryOperator} {a b c : Number F}

omit [Float64 F] in
theorem asI64_eq_some {n : Number F} {i : Int} (h : n.asI64 = some i) :
    n = .int i ∧ i ≤ maxI64 := by
  cases n with
  | int m =>
    simp only [Number.asI64] at h
    split at h
    · exact ⟨congrArg _ (Option.some.inj h), Option.some.inj h ▸ ‹_›⟩
    · cases h
  | float f => cases h

theorem intOp_inRange {i j k : Int} (hi : minI64 ≤ i ∧ i ≤ maxI64) (h : intOp op i j = some k) :
    InRange64 k := by
  have hsaturate : ∀ n, InRange64 (saturate n) := by
    intro n
    unfold InRange64 saturate minI64 maxI64
    omega
  unfold intOp at h
  split at h
  · exact Option.some.inj h ▸ hsaturate _
  · exact Option.some.inj h ▸ hsaturate _
  · exact Option.some.inj h ▸ hsaturate _
  · split at h
    · cases h
    · obtain rfl := Option.some.inj h
      have hle := Int.natAbs_tdiv_le_natAbs i j
      unfold minI64 maxI64 at hi
      unfold InRange64 minI64
      omega
  · cases h

theorem numberOp_json (ha : JsonNumber a) (h : numberOp op a b = some c) : JsonNumber c := by
  unfold numberOp at h
  split at h
  · next i j hi hj =>
    obtain ⟨rfl, hle⟩ := asI64_eq_some hi
    obtain ⟨k, hk, rfl⟩ := Option.map_eq_some_iff.mp h
    exact intOp_inRange ⟨ha.1, hle⟩ hk
  · obtain ⟨f, hf, rfl⟩ := Option.map_eq_some_iff.mp h
    exact (Option.filter_eq_some_iff.mp hf).2

theorem Lossless.json {e : Expr F} {n : Number F} (h : Lossless row e n) : JsonNumber n := by
  induction h with
  | literal hn => exact hn
  | identifier _ hn => exact hn
  | binaryOp _ _ hnumber _ _ ihleft _ => exact numberOp_json ihleft hnumber

theorem ofFloat_eq (f : F) :
    ofFloat f = (((some f).filter Float64.isFinite).map Number.float).elim .null .number := by
  unfold ofFloat
  cases h : Float64.isFinite f <;> simp [Option.filter, h]

theorem arith_number {ints : Int → Int → Int} {floats : F → F → F}
    (hints : ∀ i j, intOp op i j = some (saturate (ints i j)))
    (hfloats : ∀ f g, floatOp op f g = some (floats f g)) :
    arith ints floats (.number a) op (.number b) = .ok ((numberOp op a b).elim .null .number) := by
  unfold arith numberOp
  rw [hfloats]
  dsimp only
  generalize a.asI64 = i
  generalize b.asI64 = j
  cases i with
  | none => exact congrArg Except.ok (ofFloat_eq _)
  | some i =>
    cases j with
    | none => exact congrArg Except.ok (ofFloat_eq _)
    | some j =>
      dsimp only
      rw [hints]
      rfl

theorem isArithmetic_of_floatOp {f g x : F} (h : floatOp op f g = some x) : isArithmetic op := by
  unfold isArithmetic
  cases op <;> simp [floatOp] at h ⊢

theorem evalF64_binaryOp {left right : Expr F} {x y : F}
    (hleft : (evalF64 row left).map Prod.fst = some x)
    (hright : (evalF64 row right).map Prod.fst = some y) :
    (evalF64 row (.binaryOp left op right)).map Prod.fst = floatOp op x y := by
  obtain ⟨⟨x, leftInts⟩, hl, rfl⟩ := Option.map_eq_some_iff.mp hleft
  obtain ⟨⟨y, rightInts⟩, hr, rfl⟩ := Option.map_eq_some_iff.mp hright
  unfold evalF64 floatOp
  rw [hl, hr]
  cases op with
  | div =>
    dsimp only
    split <;> rfl
  | _ => rfl

theorem exists_number {v : Value F} {x : F} (h : v.asF64 = some x) :
    ∃ n, v = .number n := by
  cases v <;> first | exact ⟨_, rfl⟩ | cases h

theorem valuesEqual_float (n : Number F) (f : F) :
    valuesEqual (.number n) (.number (.float f)) = Float64.eq n.asF64 f := by
  cases n <;> simp [valuesEqual, Number.asI64, Number.asU64, Number.asF64]

theorem tryEvalNumericFast_eq_some {e : Expr F} {v : Value F}
    (h : tryEvalNumericFast row e = some v) :
    ∃ left op right x, e = .binaryOp left op right ∧ isArithmetic op ∧
      (evalF64 row e).map Prod.fst = some x ∧ Float64.isFinite x = true ∧ v = .number (.float x) := by
  unfold tryEvalNumericFast at h
  split at h
  · next left op right =>
    split at h
    · next hop =>
      obtain ⟨⟨x, ints⟩, hx, h⟩ := Option.bind_eq_some_iff.mp h
      dsimp only at h
      split at h
      · cases h
      · next hfinite =>
        split at h
        · cases h
        · cases h
          exact ⟨left, op, right, x, rfl, hop, by rw [hx]; rfl, by simpa using hfinite, rfl⟩
    · cases h
  · cases h

variable [BinaryFloat64 F]

theorem JsonNumber.isFinite {n : Number F} (h : JsonNumber n) :
    Float64.isFinite n.asF64 = true := by
  cases n with
  | int n => exact isFinite_ofInt h
  | float f => exact h

theorem ofInt_eq_zero_iff {j : Int} (hj : InRange64 j) :
    Float64.eq (Float64.ofInt j : F) (Float64.ofInt 0) = true ↔ j = 0 := by
  rw [eq_ofInt_iff hj ⟨by decide, by decide⟩, Int.cast_zero]
  exact nearestF64_eq_zero_iff

theorem divide_number (overflow : String) (hb : JsonNumber b) :
    numberOp .div a b = none ∧
        (∃ failure, divide Int.tdiv Float64.div overflow (.number a) .div (.number b) =
          .error failure) ∨
      divide Int.tdiv Float64.div overflow (.number a) .div (.number b) =
        .ok ((numberOp .div a b).elim .null .number) := by
  have hzero : ∀ j, b.asI64 = some j →
      (Float64.eq b.asF64 (Float64.ofInt 0) = true ↔ j = 0) := by
    intro j hj
    obtain ⟨rfl, -⟩ := asI64_eq_some hj
    exact ofInt_eq_zero_iff hb
  unfold divide numberOp floatOp
  dsimp only
  generalize a.asI64 = i
  generalize b.asI64 = j at hzero
  cases hdiv : Float64.eq b.asF64 (Float64.ofInt 0) with
  | true =>
    left
    refine ⟨?_, _, if_pos rfl⟩
    cases i with
    | none => rfl
    | some i =>
      cases j with
      | none => rfl
      | some j =>
        have : j = 0 := (hzero j rfl).mp hdiv
        simp [intOp, this]
  | false =>
    rw [if_neg Bool.false_ne_true]
    cases i with
    | none => exact .inr (congrArg Except.ok (ofFloat_eq _))
    | some i =>
      cases j with
      | none => exact .inr (congrArg Except.ok (ofFloat_eq _))
      | some j =>
        have hne : j ≠ 0 := fun h => by simp [(hzero j rfl).mpr h] at hdiv
        by_cases hover : i = minI64 ∧ j = -1
        · exact .inl ⟨by simp [intOp, hover], _, by simp [hover]; rfl⟩
        · right
          simp only [intOp, hne, hover, if_false, or_self, Option.map_some, Option.elim_some]
          rfl

theorem evalBinaryOp_number (likeMatch : String → String → Bool) (hop : isArithmetic op)
    (hb : JsonNumber b) :
    numberOp op a b = none ∧
        (∃ failure, evalBinaryOp likeMatch (.number a) op (.number b) = .error failure) ∨
      evalBinaryOp likeMatch (.number a) op (.number b) =
        .ok ((numberOp op a b).elim .null .number) := by
  rcases hop with rfl | rfl | rfl | rfl
  · exact .inr (arith_number (fun _ _ => rfl) fun _ _ => rfl)
  · exact .inr (arith_number (fun _ _ => rfl) fun _ _ => rfl)
  · exact .inr (arith_number (fun _ _ => rfl) fun _ _ => rfl)
  · exact divide_number _ hb

-- ---- Floats of one value

/-- Finite floats of one value, which may be zeros of both signs. -/
structure SameValue (f g : F) : Prop where
  left : Float64.isFinite f = true
  right : Float64.isFinite g = true
  value : BinaryFloat64.toRat f = BinaryFloat64.toRat g

theorem SameValue.symm {f g : F} (h : SameValue f g) : SameValue g f :=
  ⟨h.right, h.left, h.value.symm⟩

theorem SameValue.trans {f g h : F} (hfg : SameValue f g) (hgh : SameValue g h) : SameValue f h :=
  ⟨hfg.left, hgh.right, hfg.value.trans hgh.value⟩

theorem SameValue.eq {f g : F} (h : SameValue f g) : Float64.eq f g = true :=
  (BinaryFloat64.eq f g h.left h.right).mpr h.value

theorem SameValue.of_eq {f g : F} (hf : Float64.isFinite f = true) (h : Float64.eq f g = true) :
    SameValue f g := by
  have hg : Float64.isFinite g = true := (BinaryFloat64.isFinite_eq f g h).symm.trans hf
  exact ⟨hf, hg, (BinaryFloat64.eq f g hf hg).mp h⟩

theorem SameValue.of_rounds {f g : F} {exact : ℚ}
    (hf : Rounds (Float64.isFinite f) (BinaryFloat64.toRat f) exact)
    (hg : Rounds (Float64.isFinite g) (BinaryFloat64.toRat g) exact)
    (hfinite : Float64.isFinite f = true) : SameValue f g := by
  obtain ⟨heq, hvalue⟩ := hf.congr hg
  exact ⟨hfinite, heq ▸ hfinite, hvalue hfinite⟩

theorem floatOp_congr {f f' g g' x : F} (hf : SameValue f f') (hg : SameValue g g')
    (h : floatOp op f g = some x) (hx : Float64.isFinite x = true) :
    ∃ x', floatOp op f' g' = some x' ∧ SameValue x x' := by
  unfold floatOp at h ⊢
  split at h
  · cases h
    have hadd := BinaryFloat64.add f g hf.left hg.left
    rw [hf.value, hg.value] at hadd
    exact ⟨_, rfl, .of_rounds hadd (BinaryFloat64.add f' g' hf.right hg.right) hx⟩
  · cases h
    have hsub := BinaryFloat64.sub f g hf.left hg.left
    rw [hf.value, hg.value] at hsub
    exact ⟨_, rfl, .of_rounds hsub (BinaryFloat64.sub f' g' hf.right hg.right) hx⟩
  · cases h
    have hmul := BinaryFloat64.mul f g hf.left hg.left
    rw [hf.value, hg.value] at hmul
    exact ⟨_, rfl, .of_rounds hmul (BinaryFloat64.mul f' g' hf.right hg.right) hx⟩
  · split at h
    · cases h
    · next hne =>
      cases h
      have hinrange : InRange64 0 := ⟨by decide, by decide⟩
      have hzero : ∀ y : F, Float64.isFinite y = true →
          (Float64.eq y (Float64.ofInt 0) = true ↔ BinaryFloat64.toRat y = 0) := by
        intro y hy
        rw [BinaryFloat64.eq _ _ hy (isFinite_ofInt hinrange), toRat_ofInt hinrange, Int.cast_zero,
          show nearestF64 0 = 0 from roundTo_zero]
      have hg0 : BinaryFloat64.toRat g ≠ 0 := fun h0 => hne ((hzero g hg.left).mpr h0)
      have hg0' : BinaryFloat64.toRat g' ≠ 0 := hg.value ▸ hg0
      have hdiv := BinaryFloat64.div f g hf.left hg.left hg0
      rw [hf.value, hg.value] at hdiv
      refine ⟨_, if_neg fun h0 => hg0' ((hzero g' hg.right).mp h0), ?_⟩
      exact .of_rounds hdiv (BinaryFloat64.div f' g' hf.right hg.right hg0') hx
  · cases h

-- ---- Both evaluations

theorem Lossless.evalExpr (env : Env F) {e : Expr F} {n : Number F} (h : Lossless row e n)
    (s : RuleState F) : (evalExpr env row e).go s = (.ok (.number n), s) := by
  induction h generalizing s with
  | literal => rfl
  | identifier h =>
    simp only [Sql.evalExpr, column, h]
    rfl
  | @binaryOp left right op a b c f hleft hright hnumber hfloat hsame ihleft ihright =>
    have hop := isArithmetic_of_floatOp hfloat
    simp only [Sql.evalExpr, go_bind, ihleft, ihright, go_liftExcept]
    rcases evalBinaryOp_number (a := a) env.likeMatch hop hright.json with ⟨hnone, -⟩ | hvalue
    · simp [hnumber] at hnone
    · rw [hvalue, hnumber]
      rfl

theorem Lossless.evalF64 {e : Expr F} {n : Number F} (h : Lossless row e n) :
    ∃ x, (evalF64 row e).map Prod.fst = some x ∧ SameValue n.asF64 x := by
  induction h with
  | @literal n hn => exact ⟨n.asF64, rfl, hn.isFinite, hn.isFinite, rfl⟩
  | @identifier name n h hn =>
    refine ⟨n.asF64, ?_, hn.isFinite, hn.isFinite, rfl⟩
    simp only [Sql.evalF64, h]
    rfl
  | @binaryOp left right op a b c f hleft hright hnumber hfloat hsame ihleft ihright =>
    obtain ⟨x, hx, hax⟩ := ihleft
    obtain ⟨y, hy, hby⟩ := ihright
    have hcf : SameValue c.asF64 f :=
      .of_eq (numberOp_json hleft.json hnumber).isFinite hsame
    obtain ⟨x', hx', hsame'⟩ := floatOp_congr hax hby hfloat hcf.right
    exact ⟨x', (evalF64_binaryOp hx hy).trans hx', hcf.trans hsame'⟩

-- ---- Agreement throughout

theorem Lossless.agreesAt (env : Env F) (s : RuleState F) {e : Expr F} {n : Number F}
    (h : Lossless row e n) : AgreesAt env row s e := by
  obtain ⟨x, hx, hsame⟩ := h.evalF64
  exact ⟨x, hx, .number n, congrArg Prod.fst (h.evalExpr env s),
    (valuesEqual_float n x).trans hsame.eq⟩

theorem Lossless.agreesThroughout (env : Env F) (s : RuleState F) {e : Expr F} {n : Number F}
    (h : Lossless row e n) : ∀ sub ∈ subexprs e, AgreesAt env row s sub := by
  have hself := h.agreesAt env s
  induction h with
  | literal | identifier => simpa [subexprs] using hself
  | binaryOp hleft hright hnumber hfloat hsame ihleft ihright =>
    simp only [subexprs, List.forall_mem_cons, List.forall_mem_append]
    exact ⟨hself, ihleft (hleft.agreesAt env s), ihright (hright.agreesAt env s)⟩

theorem Lossless.binaryOp_of_agreesAt {env : Env F} {s : RuleState F} {left right : Expr F}
    (ha : Lossless row left a) (hb : Lossless row right b)
    (h : AgreesAt env row s (.binaryOp left op right)) :
    ∃ c, Lossless row (.binaryOp left op right) c := by
  obtain ⟨x, hx, w, hw, hequal⟩ := h
  obtain ⟨y, hy, hay⟩ := ha.evalF64
  obtain ⟨z, hz, hbz⟩ := hb.evalF64
  rw [evalF64_binaryOp hy hz] at hx
  simp only [Sql.evalExpr, go_bind, ha.evalExpr, hb.evalExpr, go_liftExcept] at hw
  have hop := isArithmetic_of_floatOp hx
  rcases evalBinaryOp_number (a := a) env.likeMatch hop hb.json with ⟨-, failure, hfail⟩ | hvalue
  · rw [hfail] at hw
    cases hw
  rw [hvalue] at hw
  cases hc : numberOp op a b with
  | none =>
    rw [hc] at hw
    cases hw
    cases hequal
  | some c =>
    rw [hc] at hw
    cases hw
    rw [Option.elim_some, valuesEqual_float] at hequal
    have hcx : SameValue c.asF64 x := .of_eq (numberOp_json ha.json hc).isFinite hequal
    obtain ⟨f, hf, hxf⟩ := floatOp_congr hay.symm hbz.symm hx hcx.right
    exact ⟨c, .binaryOp ha hb hc hf (hcx.trans hxf).eq⟩

theorem lossless_of_agrees {env : Env F} {s : RuleState F}
    (hcolumn : ∀ name n, row.lookup name = some (.number n) → JsonNumber n) :
    ∀ e : Expr F, (∀ n, .literal (.number n) ∈ subexprs e → JsonNumber n) →
      (∀ sub ∈ subexprs e, AgreesAt env row s sub) → ∃ n, Lossless row e n
  | .literal v, hliteral, h => by
    obtain ⟨x, hx, -⟩ := h (.literal v) (by simp [subexprs])
    obtain ⟨⟨x, ints⟩, hv, -⟩ := Option.map_eq_some_iff.mp hx
    obtain ⟨y, hy, -⟩ := Option.map_eq_some_iff.mp hv
    obtain ⟨n, rfl⟩ := exists_number hy
    exact ⟨n, .literal (hliteral n (by simp [subexprs]))⟩
  | .identifier name, _, h => by
    obtain ⟨x, hx, -⟩ := h (.identifier name) (by simp [subexprs])
    obtain ⟨⟨x, ints⟩, hv, -⟩ := Option.map_eq_some_iff.mp hx
    obtain ⟨v, hlookup, hv⟩ := Option.bind_eq_some_iff.mp hv
    obtain ⟨y, hy, -⟩ := Option.map_eq_some_iff.mp hv
    obtain ⟨n, rfl⟩ := exists_number hy
    exact ⟨n, .identifier hlookup (hcolumn name n hlookup)⟩
  | .binaryOp left op right, hliteral, h => by
    simp only [subexprs, List.forall_mem_cons, List.forall_mem_append] at h
    obtain ⟨hself, hleft, hright⟩ := h
    obtain ⟨a, ha⟩ := lossless_of_agrees hcolumn left
      (fun n hn => hliteral n (by simp [subexprs, hn])) hleft
    obtain ⟨b, hb⟩ := lossless_of_agrees hcolumn right
      (fun n hn => hliteral n (by simp [subexprs, hn])) hright
    exact ha.binaryOp_of_agreesAt hb hself
  -- nothing else has an `f64` value
  | .wildcard, _, h | .wildcardModified .., _, h | .unaryOp .., _, h | .between .., _, h
  | .inList .., _, h | .isNull .., _, h | .fieldAccess .., _, h | .index .., _, h
  | .slice .., _, h | .call .., _, h | .case .., _, h | .over .., _, h => by
    obtain ⟨x, hx, -⟩ := h _ (by rw [subexprs]; exact List.mem_cons_self)
    cases hx

/-- Where an expression is evaluated on `f64`, the general evaluation of it and of every
subexpression agrees exactly if every operation gives in `f64` what it gives on the numbers. -/
theorem numeric_fast_lossless (env : Env F) (row : Row F) (s : RuleState F) {e : Expr F}
    {v : Value F} (hjson : JsonNumbers row e) (hfast : tryEvalNumericFast row e = some v) :
    EvaluatesTo env row s e v ∧ (∀ sub ∈ subexprs e, AgreesAt env row s sub) ↔
      ∃ n, Lossless row e n := by
  obtain ⟨left, op, right, x, rfl, -, hx, -, rfl⟩ := tryEvalNumericFast_eq_some hfast
  constructor
  · rintro ⟨-, hagrees⟩
    exact lossless_of_agrees hjson.column _ hjson.literal hagrees
  · rintro ⟨n, hn⟩
    obtain ⟨y, hy, hagrees⟩ := hn.agreesAt env s
    obtain rfl : x = y := Option.some.inj (hx.symm.trans hy)
    exact ⟨hagrees, hn.agreesThroughout env s⟩

end

def pairRow (a b : Int) : Row Double := AList.insert "b" (ofI64 b) (AList.insert "a" (ofI64 a) ∅)

theorem pairRow_lossless {a b : Int} (ha : InRange64 a) (hb : InRange64 b) :
    Lossless (pairRow a b) (.identifier "a") (.int a) ∧
      Lossless (pairRow a b) (.identifier "b") (.int b) :=
  ⟨.identifier rfl ha, .identifier rfl hb⟩

theorem pairRow_json {a b : Int} (ha : InRange64 a) (hb : InRange64 b) (name : String)
    (n : Number Double) (h : (pairRow a b).lookup name = some (.number n)) : JsonNumber n := by
  unfold pairRow at h
  rcases eq_or_ne name "b" with rfl | hnb
  · rw [AList.lookup_insert] at h
    cases h
    exact hb
  · rw [AList.lookup_insert_ne hnb] at h
    rcases eq_or_ne name "a" with rfl | hna
    · rw [AList.lookup_insert] at h
      cases h
      exact ha
    · rw [AList.lookup_insert_ne hna, AList.lookup_empty] at h
      cases h

/-- `(a + b) * 0.5` -/
def halfSum : Expr Double :=
  .binaryOp (.binaryOp (.identifier "a") .add (.identifier "b")) .mul
    (.literal (.number (.float ⟨1 / 2⟩)))

theorem numeric_fast_lossless_halfSum :
    EvaluatesTo doubleEnv (pairRow 3 4) RuleState.new halfSum (.number (.float ⟨7 / 2⟩)) := by
  obtain ⟨ha, hb⟩ := pairRow_lossless (a := 3) (b := 4) ⟨by decide, by decide⟩
    ⟨by decide, by decide⟩
  have hsum : (Float64.add (Float64.ofInt 3) (Float64.ofInt 4) : Double) = ⟨7⟩ := by
    decide +kernel
  have hseven : (Float64.ofInt 7 : Double) = ⟨7⟩ := by decide +kernel
  have hhalf : (Float64.mul ⟨7⟩ ⟨1 / 2⟩ : Double) = ⟨7 / 2⟩ := by decide +kernel
  have hfinite : Float64.isFinite (⟨7 / 2⟩ : Double) = true := by decide +kernel
  have hvalue : evalF64 (pairRow 3 4) halfSum = some (⟨7 / 2⟩, false) := by
    rw [← hhalf, ← hsum]
    rfl
  have hfast : tryEvalNumericFast (pairRow 3 4) halfSum = some (.number (.float ⟨7 / 2⟩)) := by
    unfold tryEvalNumericFast
    rw [hvalue]
    simp [halfSum, hfinite]
  have hadd : Lossless (pairRow 3 4) (.binaryOp (.identifier "a") .add (.identifier "b"))
      (.int 7) := .binaryOp ha hb rfl (congrArg some hsum) (by decide +kernel)
  have hmul : floatOp .mul (Float64.ofInt 7) (⟨1 / 2⟩ : Double) = some ⟨7 / 2⟩ := by
    rw [hseven]
    exact congrArg some hhalf
  have hnumber : numberOp .mul (.int 7) (.float (⟨1 / 2⟩ : Double)) =
      some (.float ⟨7 / 2⟩) := by
    change ((floatOp .mul (Float64.ofInt 7) (⟨1 / 2⟩ : Double)).filter _).map _ = _
    rw [hmul]
    simp [Option.filter, hfinite]
  have hlossless : Lossless (pairRow 3 4) halfSum (.float ⟨7 / 2⟩) :=
    .binaryOp hadd (.literal (by decide +kernel : _ = true)) hnumber hmul (by decide +kernel)
  have hjson : JsonNumbers (pairRow 3 4) halfSum := by
    refine ⟨fun n hn => ?_, pairRow_json ⟨by decide, by decide⟩ ⟨by decide, by decide⟩⟩
    obtain rfl : n = .float ⟨1 / 2⟩ := by simpa [halfSum, subexprs] using hn
    exact (by decide +kernel : Float64.isFinite (⟨1 / 2⟩ : Double) = true)
  exact ((numeric_fast_lossless doubleEnv (pairRow 3 4) RuleState.new hjson hfast).mpr
    ⟨_, hlossless⟩).1

/-- `a / b` -/
def quotient : Expr Double := .binaryOp (.identifier "a") .div (.identifier "b")

/-- The quotient of two integer columns is not truncated. -/
theorem quotient_not_truncated :
    (tryEvalNumericFast (pairRow 7 2) quotient).bind Value.asF64 = some ⟨7 / 2⟩ ∧
      ((evalExpr doubleEnv (pairRow 7 2) quotient).go RuleState.new).1 = .ok (ofI64 3) ∧
      valuesEqual (ofI64 3) (.number (.float ⟨7 / 2⟩) : Value Double) = false := by
  refine ⟨by decide +kernel, ?_, by decide +kernel⟩
  obtain ⟨ha, hb⟩ := pairRow_lossless (a := 7) (b := 2) ⟨by decide, by decide⟩
    ⟨by decide, by decide⟩
  have hop : isArithmetic .div := .inr (.inr (.inr rfl))
  rw [quotient, evalExpr, go_bind, ha.evalExpr]
  dsimp only
  rw [go_bind, hb.evalExpr]
  rcases evalBinaryOp_number (a := .int 7) doubleEnv.likeMatch hop hb.json with ⟨hnone, -⟩ | hvalue
  · cases hnone
  · dsimp only
    rw [go_liftExcept, hvalue]
    rfl

end Rekuiper.Sql
