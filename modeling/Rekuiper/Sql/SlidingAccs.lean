import Rekuiper.Sql.SlidingWindow

/-!
# Accumulators of the rows in a window

What an accumulator of a sliding window holds, given the values in the window, as long as no sum
saturates and taking a value out of a sum of floats undoes that it was taken in. What it shows
then is the aggregate of the values.
-/

namespace Rekuiper.Sql

open Lib

variable {F : Type}

def InI64 (n : Int) : Prop := minI64 ≤ n ∧ n ≤ maxI64

theorem saturate_of_inI64 {n : Int} (h : InI64 n) : saturate n = n := by
  obtain ⟨hmin, hmax⟩ := h
  unfold saturate
  omega

/-- The sum of the `i64` among the values. -/
def intSum (values : List (Value F)) : Int := (values.filterMap Value.asI64).sum

/-- A number that is no `i64`. -/
def isFloat (v : Value F) : Bool := v.isNumber && v.asI64.isNone

def numbersOf (values : List (Value F)) : List (Number F) :=
  values.filterMap fun
    | .number n => some n
    | _ => none

section
variable [Float64 F]

def extremeEntry : Int × Value F → Option (Int × F × Value F)
  | (ts, .number n) => some (ts, n.asF64, .number n)
  | _ => none

def accOf (kind : AggKind F) (entries : List (Int × Value F)) : SlidingAcc F :=
  let values := entries.map Prod.snd
  match kind with
  | .countAll => .count entries.length (entries.map fun e => (e.1, true))
  | .sum =>
    .sum (intSum values) (sumF64 values) (values.countP isFloat) (values.countP Value.isNumber)
      (entries.map fun e => (e.1, sumEntry e.2))
  | .avg =>
    .avg (sumF64 values) (values.countP Value.isNumber) (entries.map fun e => (e.1, e.2.asF64))
  | .min => .extreme false (maxima (dominates false) (entries.filterMap extremeEntry))
  | .max => .extreme true (maxima (dominates true) (entries.filterMap extremeEntry))
  | _ => .count (values.countP fun v => !v.isNull) (entries.map fun e => (e.1, !e.2.isNull))

theorem accOf_nil (kind : AggKind F) : accOf kind [] = .new kind := by
  cases kind <;> rfl

-- ---- Orders of numbers

/-- What `serde_json` promises of its numbers. -/
def FiniteNumbers (values : List (Value F)) : Prop :=
  ∀ n ∈ numbersOf values, Float64.isFinite n.asF64 = true

theorem mem_extremeEntry {entries : List (Int × Value F)} {entry : Int × F × Value F}
    (h : entry ∈ entries.filterMap extremeEntry) :
    ∃ n ∈ numbersOf (entries.map Prod.snd), entry.2.1 = n.asF64 ∧ entry.2.2 = .number n := by
  obtain ⟨⟨ts, v⟩, hmem, hentry⟩ := List.mem_filterMap.mp h
  cases v with
  | number n =>
    cases hentry
    exact ⟨n, List.mem_filterMap.mpr ⟨.number n, List.mem_map.mpr ⟨_, hmem, rfl⟩, rfl⟩, rfl, rfl⟩
  | _ => cases hentry

theorem preorders_ahead [OrderedFloat64 F] {α : Type} (isMax : Bool) (f : α → F) {xs : List α}
    (h : ∀ x ∈ xs, Float64.isFinite (f x) = true) :
    Preorders (fun x y => ahead isMax (f x) (f y)) xs := by
  constructor
  · intro x hx y hy
    have htotal := OrderedFloat64.total (f x) (f y) (h x hx) (h y hy)
    cases isMax with
    | true => exact htotal.symm
    | false => exact htotal
  · intro x hx y hy z hz hxy hyz
    cases isMax with
    | true => exact OrderedFloat64.trans _ _ _ hyz hxy
    | false => exact OrderedFloat64.trans _ _ _ hxy hyz

theorem preorders_dominates [OrderedFloat64 F] (isMax : Bool) {entries : List (Int × Value F)}
    (h : FiniteNumbers (entries.map Prod.snd)) :
    Preorders (dominates isMax) (entries.filterMap extremeEntry) := by
  refine preorders_ahead isMax (fun entry : Int × F × Value F => entry.2.1) fun entry hentry => ?_
  obtain ⟨n, hn, heq, -⟩ := mem_extremeEntry hentry
  rw [heq]
  exact h n hn

-- ---- A value that comes in

def AggKind.TakesIn (kind : AggKind F) (values : List (Value F)) (v : Value F) : Prop :=
  match kind with
  | .sum => v.asI64.isSome = true → InI64 (intSum (values ++ [v]))
  | .min | .max => FiniteNumbers (values ++ [v])
  | _ => True

omit [Float64 F] in
theorem intSum_append (values more : List (Value F)) :
    intSum (values ++ more) = intSum values + intSum more := by
  simp [intSum]

omit [Float64 F] in
theorem intSum_singleton (v : Value F) : intSum [v] = v.asI64.getD 0 := by
  cases hv : v.asI64 <;> simp [intSum, hv]

theorem number_or_not (v : Value F) :
    (∃ n, v = .number n) ∨
      v.isNumber = false ∧ v.asI64 = none ∧ v.asF64 = none ∧ sumEntry v = (none, none) := by
  cases v with
  | number n => exact .inl ⟨n, rfl⟩
  | _ => exact .inr ⟨rfl, rfl, rfl, rfl⟩

theorem extremeEntry_skip {entries : List (Int × Value F)} {ts : Int} {v : Value F}
    (h : v.isNumber = false) :
    (entries ++ [(ts, v)]).filterMap extremeEntry = entries.filterMap extremeEntry := by
  cases v with
  | number n => cases h
  | _ => rw [List.filterMap_append, List.filterMap_cons_none rfl, List.filterMap_nil, List.append_nil]

theorem push_extreme [OrderedFloat64 F] (isMax : Bool) (kind : AggKind F)
    {entries : List (Int × Value F)} {v : Value F} (ts : Int)
    (h : FiniteNumbers (entries.map Prod.snd ++ [v])) :
    (SlidingAcc.extreme isMax (maxima (dominates isMax) (entries.filterMap extremeEntry))).push
        kind ts (some v) =
      .extreme isMax
        (maxima (dominates isMax) ((entries ++ [(ts, v)]).filterMap extremeEntry)) := by
  cases hv : v.isNumber with
  | false =>
    rw [extremeEntry_skip hv]
    cases v with
    | number n => cases hv
    | _ => cases kind <;> rfl
  | true =>
    cases v with
    | number n =>
      have hfinite : FiniteNumbers ((entries ++ [(ts, Value.number n)]).map Prod.snd) := by
        simpa using h
      have hpre := preorders_dominates isMax hfinite
      rw [List.filterMap_append] at hpre ⊢
      rw [show [(ts, Value.number n)].filterMap extremeEntry = [(ts, n.asF64, .number n)] from rfl]
        at hpre ⊢
      rw [← pushBack_maxima hpre]
      cases kind <;> rfl
    | _ => cases hv

theorem push_accOf [OrderedFloat64 F] {kind : AggKind F} (hbasic : kind.isBasic = true)
    {entries : List (Int × Value F)} {v : Value F} (ts : Int)
    (h : kind.TakesIn (entries.map Prod.snd) v) :
    (accOf kind entries).push kind ts (some v) = accOf kind (entries ++ [(ts, v)]) := by
  cases kind with
  | countAll => simp [accOf, SlidingAcc.push]
  | count => cases hv : v.isNull <;> simp [accOf, SlidingAcc.push, hv]
  | sum =>
    rcases number_or_not v with ⟨n, rfl⟩ | ⟨hnumber, hint, hfloat, hentry⟩
    · cases hn : n.asI64 with
      | none =>
        simp [accOf, SlidingAcc.push, SlidingAcc.pushSum, sumEntry, hn, intSum_append,
          intSum_singleton, sumF64_concat, Value.asI64, isFloat, Value.isNumber]
      | some i =>
        have hrange := h (by simp [Value.asI64, hn])
        rw [intSum_append, intSum_singleton, Value.asI64, hn, Option.getD_some] at hrange
        simp [accOf, SlidingAcc.push, SlidingAcc.pushSum, sumEntry, hn, saturate_of_inI64 hrange,
          intSum_append, intSum_singleton, sumF64_concat, Value.asI64, isFloat, Value.isNumber]
    · simp [accOf, SlidingAcc.push, SlidingAcc.pushSum, hentry, intSum_append, intSum_singleton,
        sumF64, hint, hfloat, isFloat, hnumber]
  | avg =>
    rcases number_or_not v with ⟨n, rfl⟩ | ⟨hnumber, -, hfloat, -⟩
    · simp [accOf, SlidingAcc.push, sumF64_concat, Value.asF64, Value.isNumber]
    · simp [accOf, SlidingAcc.push, sumF64, hfloat, hnumber]
  | min => exact push_extreme false .min ts h
  | max => exact push_extreme true .max ts h
  | _ => cases hbasic

-- ---- Values that leave

def UndoesFloats (evicted kept : List (Value F)) : Prop :=
  ∀ before n after, evicted = before ++ .number n :: after →
    Float64.sub (sumF64 (.number n :: (after ++ kept))) n.asF64 = sumF64 (after ++ kept)

omit [Float64 F] in
def UndoesInts (evicted kept : List (Value F)) : Prop :=
  ∀ before v after, evicted = before ++ v :: after → v.asI64.isSome = true →
    InI64 (intSum (after ++ kept))

/-- The sums of the values that are kept come out right. Without numbers they start again. -/
def AggKind.TakesOut (kind : AggKind F) (evicted kept : List (Value F)) : Prop :=
  kept.any Value.isNumber = true →
    match kind with
    | .sum => UndoesFloats evicted kept ∧ UndoesInts evicted kept
    | .avg => UndoesFloats evicted kept
    | _ => True

omit [Float64 F] in
theorem popOld_append {σ α : Type} {cutoffTs : Int} (remove : σ → α → σ) (s : σ)
    {evicted kept : List (Int × Value F)} (g : Value F → α)
    (hevicted : ∀ e ∈ evicted, e.1 < cutoffTs) (hkept : ∀ e ∈ kept, cutoffTs ≤ e.1) :
    popOld cutoffTs remove s ((evicted ++ kept).map fun e => (e.1, g e.2)) =
      ((evicted.map Prod.snd).foldl (fun s v => remove s (g v)) s,
        kept.map fun e => (e.1, g e.2)) := by
  induction evicted generalizing s with
  | nil =>
    cases kept with
    | nil => rfl
    | cons e rest =>
      have hnew : ¬e.1 < cutoffTs := Int.not_lt.mpr (hkept e List.mem_cons_self)
      simp [popOld, hnew]
  | cons e rest ih =>
    rw [List.forall_mem_cons] at hevicted
    rw [List.cons_append, List.map_cons, popOld, if_pos hevicted.1, ih _ hevicted.2]
    rfl

omit [Float64 F] in
theorem foldl_removeCount (evicted : List (Value F)) (kept : Int) (p : Value F → Bool) :
    evicted.foldl (fun n v => if p v then n - 1 else n) (evicted.countP p + kept) = kept := by
  induction evicted with
  | nil => simp
  | cons v rest ih =>
    rw [List.foldl_cons, List.countP_cons]
    cases p v with
    | false => simpa using ih
    | true =>
      have hone : (rest.countP p : Int) + 1 + kept - 1 = rest.countP p + kept := by omega
      simpa [hone] using ih

theorem validCount_removeSum (evicted : List (Value F)) (s : Int × F × Nat × Nat) :
    (evicted.foldl (fun s v => SlidingAcc.removeSum s (sumEntry v)) s).2.2.2 =
      s.2.2.2 - evicted.countP Value.isNumber := by
  induction evicted generalizing s with
  | nil => rfl
  | cons v rest ih =>
    rw [List.foldl_cons, ih, List.countP_cons]
    rcases number_or_not v with ⟨n, rfl⟩ | ⟨hnumber, -, -, hentry⟩
    · cases hn : n.asI64 <;> simp [sumEntry, SlidingAcc.removeSum, hn, Value.isNumber] <;> omega
    · simp [hentry, SlidingAcc.removeSum, hnumber]

def sumState (values : List (Value F)) : Int × F × Nat × Nat :=
  (intSum values, sumF64 values, values.countP isFloat, values.countP Value.isNumber)

theorem removeSum_sumState {v : Value F} {rest : List (Value F)}
    (hfloat : ∀ n, v = .number n → Float64.sub (sumF64 (v :: rest)) n.asF64 = sumF64 rest)
    (hint : v.asI64.isSome = true → InI64 (intSum rest)) :
    SlidingAcc.removeSum (sumState (v :: rest)) (sumEntry v) = sumState rest := by
  have hsum : intSum (v :: rest) = v.asI64.getD 0 + intSum rest := by
    rw [← intSum_singleton, ← intSum_append]
    rfl
  rcases number_or_not v with ⟨n, rfl⟩ | ⟨hnumber, hnone, hf, hentry⟩
  · have hundo := hfloat n rfl
    cases hn : n.asI64 with
    | none =>
      simp [SlidingAcc.removeSum, sumState, sumEntry, hn, hsum, hundo, Value.asI64, isFloat,
        Value.isNumber, List.countP_cons]
    | some i =>
      have hrange := saturate_of_inI64 (hint (by simp [Value.asI64, hn]))
      simp [SlidingAcc.removeSum, sumState, sumEntry, hn, hsum, hundo, Value.asI64, isFloat,
        Value.isNumber, hrange, List.countP_cons]
  · simp [SlidingAcc.removeSum, sumState, hentry, hsum, hnone, sumF64, hf, isFloat, hnumber]

theorem foldl_removeSum {evicted kept : List (Value F)} (hfloats : UndoesFloats evicted kept)
    (hints : UndoesInts evicted kept) :
    evicted.foldl (fun s v => SlidingAcc.removeSum s (sumEntry v)) (sumState (evicted ++ kept)) =
      sumState kept := by
  induction evicted with
  | nil => rfl
  | cons v rest ih =>
    rw [List.foldl_cons, List.cons_append, removeSum_sumState]
    · refine ih (fun before n after h => ?_) (fun before w after h => ?_)
      · exact hfloats (v :: before) n after (by rw [h, List.cons_append])
      · exact hints (v :: before) w after (by rw [h, List.cons_append])
    · rintro n rfl
      exact hfloats [] n rest rfl
    · exact hints [] v rest rfl

theorem n_removeAvg (evicted : List (Value F)) (s : F × Nat) :
    (evicted.foldl (fun s v => SlidingAcc.removeAvg s v.asF64) s).2 =
      s.2 - evicted.countP Value.isNumber := by
  induction evicted generalizing s with
  | nil => rfl
  | cons v rest ih =>
    rw [List.foldl_cons, ih, List.countP_cons]
    rcases number_or_not v with ⟨n, rfl⟩ | ⟨hnumber, -, hfloat, -⟩
    · simp [Value.asF64, SlidingAcc.removeAvg, Value.isNumber]
      omega
    · simp [hfloat, SlidingAcc.removeAvg, hnumber]

theorem foldl_removeAvg {evicted kept : List (Value F)} (hfloats : UndoesFloats evicted kept) :
    evicted.foldl (fun s v => SlidingAcc.removeAvg s v.asF64)
        (sumF64 (evicted ++ kept), (evicted ++ kept).countP Value.isNumber) =
      (sumF64 kept, kept.countP Value.isNumber) := by
  induction evicted with
  | nil => rfl
  | cons v rest ih =>
    have hrest : UndoesFloats rest kept := fun before n after h =>
      hfloats (v :: before) n after (by rw [h, List.cons_append])
    rw [List.foldl_cons, ← ih hrest, List.cons_append]
    congr 1
    rcases number_or_not v with ⟨n, rfl⟩ | ⟨hnumber, -, hfloat, -⟩
    · have hundo := hfloats [] n rest rfl
      simp [Value.asF64, SlidingAcc.removeAvg, hundo, Value.isNumber, List.countP_cons]
    · simp [hfloat, SlidingAcc.removeAvg, sumF64, hnumber]

theorem time_extremeEntry {entries : List (Int × Value F)} {entry : Int × F × Value F}
    (h : entry ∈ entries.filterMap extremeEntry) : ∃ e ∈ entries, e.1 = entry.1 := by
  obtain ⟨⟨ts, v⟩, hmem, heq⟩ := List.mem_filterMap.mp h
  cases v with
  | number n =>
    cases heq
    exact ⟨_, hmem, rfl⟩
  | _ => cases heq

theorem evict_extreme (isMax : Bool) {cutoffTs : Int} {evicted kept : List (Int × Value F)}
    (hevicted : ∀ e ∈ evicted, e.1 < cutoffTs) (hkept : ∀ e ∈ kept, cutoffTs ≤ e.1) :
    (maxima (dominates isMax) ((evicted ++ kept).filterMap extremeEntry)).dropWhile
        (fun entry => entry.1 < cutoffTs) =
      maxima (dominates isMax) (kept.filterMap extremeEntry) := by
  have hold : ∀ entry ∈ evicted.filterMap extremeEntry, entry.1 < cutoffTs := by
    intro entry hentry
    obtain ⟨e, he, heq⟩ := time_extremeEntry hentry
    exact heq ▸ hevicted e he
  have hnew : ∀ entry ∈ kept.filterMap extremeEntry, cutoffTs ≤ entry.1 := by
    intro entry hentry
    obtain ⟨e, he, heq⟩ := time_extremeEntry hentry
    exact heq ▸ hkept e he
  rw [List.filterMap_append]
  generalize evicted.filterMap extremeEntry = old at hold
  generalize kept.filterMap extremeEntry = new at hnew
  rw [dropWhile_maxima]
  · congr 1
    rw [List.dropWhile_append_of_pos (by simpa using hold)]
    cases new with
    | nil => rfl
    | cons e rest => exact List.dropWhile_cons_of_neg (by simpa using hnew e List.mem_cons_self)
  · rw [List.pairwise_append]
    refine ⟨List.pairwise_of_forall_mem_list ?_, List.pairwise_of_forall_mem_list ?_, ?_⟩
    · exact fun a ha b _ _ => by simpa using hold a ha
    · exact fun a _ b hb h => absurd (hnew b hb) (by simpa using h)
    · exact fun a ha b _ _ => by simpa using hold a ha

theorem countP_isNumber_eq_zero {values : List (Value F)}
    (h : values.any Value.isNumber = false) :
    values.countP Value.isNumber = 0 ∧ sumState values = (0, Float64.ofInt 0, 0, 0) := by
  induction values with
  | nil => exact ⟨rfl, rfl⟩
  | cons v rest ih =>
    rw [List.any_cons, Bool.or_eq_false_iff] at h
    obtain ⟨hcount, hstate⟩ := ih h.2
    rcases number_or_not v with ⟨n, rfl⟩ | ⟨hnumber, hint, hfloat, -⟩
    · cases h.1
    · simp only [sumState, Prod.mk.injEq] at hstate
      simp_all [sumState, intSum, sumF64, isFloat]

theorem reset_removeSum {evicted kept : List (Value F)} (h : AggKind.sum.TakesOut evicted kept) :
    SlidingAcc.resetSum (evicted.foldl (fun s v => SlidingAcc.removeSum s (sumEntry v))
      (sumState (evicted ++ kept))) = sumState kept := by
  have hvalid := validCount_removeSum evicted (sumState (evicted ++ kept))
  have hcount : (sumState (evicted ++ kept)).2.2.2 - evicted.countP Value.isNumber =
      kept.countP Value.isNumber := by
    simp [sumState]
  rw [hcount] at hvalid
  unfold SlidingAcc.resetSum
  cases hnumber : kept.any Value.isNumber with
  | false =>
    obtain ⟨hzero, hstate⟩ := countP_isNumber_eq_zero hnumber
    rw [if_pos (hvalid.trans hzero), hstate]
  | true =>
    obtain ⟨v, hv, hisNumber⟩ := List.any_eq_true.mp hnumber
    have hpos := List.countP_pos_iff.mpr ⟨v, hv, hisNumber⟩
    obtain ⟨hfloats, hints⟩ := h hnumber
    rw [if_neg (by omega), foldl_removeSum hfloats hints]

theorem reset_removeAvg {evicted kept : List (Value F)} (h : AggKind.avg.TakesOut evicted kept) :
    SlidingAcc.resetAvg (evicted.foldl (fun s v => SlidingAcc.removeAvg s v.asF64)
      (sumF64 (evicted ++ kept), (evicted ++ kept).countP Value.isNumber)) =
        (sumF64 kept, kept.countP Value.isNumber) := by
  have hvalid := n_removeAvg evicted
    (sumF64 (evicted ++ kept), (evicted ++ kept).countP Value.isNumber)
  have hcount : (evicted ++ kept).countP Value.isNumber - evicted.countP Value.isNumber =
      kept.countP Value.isNumber := by
    simp
  rw [hcount] at hvalid
  unfold SlidingAcc.resetAvg
  cases hnumber : kept.any Value.isNumber with
  | false =>
    obtain ⟨hzero, hstate⟩ := countP_isNumber_eq_zero hnumber
    rw [if_pos (hvalid.trans hzero), hzero, (Prod.mk.inj (Prod.mk.inj hstate).2).1]
  | true =>
    obtain ⟨v, hv, hisNumber⟩ := List.any_eq_true.mp hnumber
    have hpos := List.countP_pos_iff.mpr ⟨v, hv, hisNumber⟩
    rw [if_neg (by omega), foldl_removeAvg (h hnumber)]

theorem evict_accOf {kind : AggKind F} (hbasic : kind.isBasic = true) {cutoffTs : Int}
    {evicted kept : List (Int × Value F)} (hevicted : ∀ e ∈ evicted, e.1 < cutoffTs)
    (hkept : ∀ e ∈ kept, cutoffTs ≤ e.1)
    (h : kind.TakesOut (evicted.map Prod.snd) (kept.map Prod.snd)) :
    (accOf kind (evicted ++ kept)).evictBefore cutoffTs = accOf kind kept := by
  cases kind with
  | countAll =>
    have hcount := foldl_removeCount (evicted.map Prod.snd) kept.length fun _ => true
    dsimp only [accOf, SlidingAcc.evictBefore]
    rw [popOld_append _ _ (fun _ => true) hevicted hkept]
    simpa using hcount
  | count =>
    have hcount := foldl_removeCount (evicted.map Prod.snd)
      ((kept.map Prod.snd).countP fun v => !v.isNull) fun v => !v.isNull
    dsimp only [accOf, SlidingAcc.evictBefore]
    rw [popOld_append _ _ (fun v => !v.isNull) hevicted hkept, List.map_append,
      List.countP_append, Nat.cast_add, hcount]
  | sum =>
    have hsums := reset_removeSum h
    rw [← List.map_append] at hsums
    dsimp only [accOf, SlidingAcc.evictBefore]
    rw [popOld_append _ _ sumEntry hevicted hkept]
    exact congrArg (fun s => SlidingAcc.sum s.1 s.2.1 s.2.2.1 s.2.2.2 _) hsums
  | avg =>
    have hsums := reset_removeAvg h
    rw [← List.map_append] at hsums
    dsimp only [accOf, SlidingAcc.evictBefore]
    rw [popOld_append _ _ Value.asF64 hevicted hkept]
    exact congrArg (fun s => SlidingAcc.avg s.1 s.2 _) hsums
  | min => exact congrArg _ (evict_extreme false hevicted hkept)
  | max => exact congrArg _ (evict_extreme true hevicted hkept)
  | _ => cases hbasic

-- ---- What is shown

def IsExtreme (isMax : Bool) (values : List (Value F)) (n : Number F) : Prop :=
  ∀ m ∈ numbersOf values, ahead isMax n.asF64 m.asF64 = true

/-- The numbers that are equal as `f64` and extreme are equal. -/
structure OneExtreme (isMax : Bool) (values : List (Value F)) : Prop where
  finite : FiniteNumbers values
  unique : ∀ n ∈ numbersOf values, ∀ m ∈ numbersOf values, IsExtreme isMax values n →
    IsExtreme isMax values m → n = m

/-- The sum of integers that fits stays one, and the minimum or maximum is one number. -/
def AggKind.Shows (kind : AggKind F) (values : List (Value F)) : Prop :=
  match kind with
  | .sum =>
    (values.filter Value.isNumber).all (fun v => v.asI64.isSome) = true →
      (sumI64 (values.filter Value.isNumber)).isSome = true
  | .min => OneExtreme false values
  | .max => OneExtreme true values
  | _ => True

def AggKind.counts (kind : AggKind F) (values : List (Value F)) : Bool :=
  match kind with
  | .countAll => !values.isEmpty
  | .sum | .avg | .min | .max => values.any Value.isNumber
  | _ => values.any fun v => !v.isNull

omit [Float64 F] in
theorem filter_isNumber (values : List (Value F)) :
    values.filter Value.isNumber = (numbersOf values).map .number := by
  induction values with
  | nil => rfl
  | cons v rest ih =>
    cases v with
    | number n => exact congrArg (List.cons (.number n)) ih
    | _ => exact ih

theorem filterMap_extremeEntry (entries : List (Int × Value F)) :
    (entries.filterMap extremeEntry).map (fun e => e.2.2) =
      (numbersOf (entries.map Prod.snd)).map .number := by
  induction entries with
  | nil => rfl
  | cons e rest ih =>
    obtain ⟨ts, v⟩ := e
    cases v with
    | number n => exact congrArg (List.cons (.number n)) ih
    | _ => exact ih

omit [Float64 F] in
theorem any_isNumber (values : List (Value F)) :
    values.any Value.isNumber = !(numbersOf values).isEmpty := by
  induction values with
  | nil => rfl
  | cons v rest ih =>
    cases v with
    | number n => rfl
    | _ => exact ih

theorem isActive_extreme (isMax : Bool) (entries : List (Int × Value F)) :
    (SlidingAcc.extreme isMax
      (maxima (dominates isMax) (entries.filterMap extremeEntry))).isActive =
        (entries.map Prod.snd).any Value.isNumber := by
  have hempty := congrArg List.isEmpty (filterMap_extremeEntry entries)
  rw [List.isEmpty_map, List.isEmpty_map] at hempty
  rw [any_isNumber, ← hempty, SlidingAcc.isActive, Bool.eq_iff_iff]
  simp [maxima_eq_nil_iff]

omit [Float64 F] in
theorem countP_pos_eq_any (p : Value F → Bool) (values : List (Value F)) :
    decide (0 < values.countP p) = values.any p := by
  rw [Bool.eq_iff_iff, decide_eq_true_eq, List.countP_pos_iff, List.any_eq_true]

theorem isActive_accOf {kind : AggKind F} (hbasic : kind.isBasic = true)
    (entries : List (Int × Value F)) :
    (accOf kind entries).isActive = kind.counts (entries.map Prod.snd) := by
  cases kind with
  | countAll => cases entries <;> simp [accOf, SlidingAcc.isActive, AggKind.counts]
  | count =>
    refine Eq.trans ?_ (countP_pos_eq_any (fun v => !v.isNull) _)
    simp only [accOf, SlidingAcc.isActive, Nat.cast_pos]
  | sum => exact countP_pos_eq_any _ _
  | avg => exact countP_pos_eq_any _ _
  | min => exact isActive_extreme false entries
  | max => exact isActive_extreme true entries
  | _ => cases hbasic

theorem compare_numbers [OrderedFloat64 F] (isMax : Bool) {n m : Number F}
    (hn : Float64.isFinite n.asF64 = true) (hm : Float64.isFinite m.asF64 = true) :
    compareValues (.number n) (.number m) = some (if isMax then .gt else .lt) ↔
      ahead isMax m.asF64 n.asF64 = false := by
  have hlt := OrderedFloat64.lt_iff n.asF64 m.asF64 hn hm
  have hgt := OrderedFloat64.lt_iff m.asF64 n.asF64 hm hn
  have heq := OrderedFloat64.eq_iff n.asF64 m.asF64
  have htotal := OrderedFloat64.total n.asF64 m.asF64 hn hm
  unfold compareValues compareFloat ahead
  cases isMax <;> cases hle : Float64.le n.asF64 m.asF64 <;>
    cases hge : Float64.le m.asF64 n.asF64 <;> simp_all

theorem extreme_numbers [OrderedFloat64 F] (isMax : Bool) {values : List (Value F)}
    (hfinite : FiniteNumbers values) (hne : numbersOf values ≠ []) :
    ∃ n ∈ numbersOf values, IsExtreme isMax values n ∧
      extreme (if isMax then .gt else .lt) (values.filter Value.isNumber) = .number n := by
  rw [filter_isNumber]
  unfold FiniteNumbers at hfinite
  unfold IsExtreme
  generalize numbersOf values = numbers at hfinite hne ⊢
  cases numbers with
  | nil => exact absurd rfl hne
  | cons n ns =>
    have hpre := preorders_ahead isMax Number.asF64 hfinite
    obtain ⟨hmem, hall⟩ := foldl_beats hpre
    refine ⟨_, hmem, hall, ?_⟩
    rw [List.map_cons, extreme, List.foldl_map]
    -- The folds agree as long as the best number so far is finite.
    suffices h : ∀ best, Float64.isFinite best.asF64 = true →
        ns.foldl (fun best m =>
          if compareValues (.number m) best = some (if isMax then .gt else .lt) then .number m
          else best) (.number best) =
        Value.number (ns.foldl (fun best m =>
          if ahead isMax best.asF64 m.asF64 = true then best else m) best) from
      h n (hfinite n List.mem_cons_self)
    have hns : ∀ m ∈ ns, Float64.isFinite m.asF64 = true := fun m hm =>
      hfinite m (List.mem_cons_of_mem _ hm)
    clear hmem hall hpre hfinite hne
    induction ns with
    | nil => exact fun best _ => rfl
    | cons m ns ih =>
      intro best hbest
      rw [List.forall_mem_cons] at hns
      rw [List.foldl_cons, List.foldl_cons]
      cases hahead : ahead isMax best.asF64 m.asF64 with
      | true =>
        have hcompare : ¬compareValues (.number m) (.number best) =
            some (if isMax then .gt else .lt) := by
          rw [compare_numbers isMax hns.1 hbest, hahead]
          simp
        rw [if_neg hcompare, if_pos rfl]
        exact ih hns.2 best hbest
      | false =>
        rw [if_pos ((compare_numbers isMax hns.1 hbest).mpr hahead)]
        exact ih hns.2 m hns.1

theorem front_extreme [OrderedFloat64 F] (isMax : Bool) {entries : List (Int × Value F)}
    (h : OneExtreme isMax (entries.map Prod.snd)) :
    (SlidingAcc.extreme isMax
        (maxima (dominates isMax) (entries.filterMap extremeEntry))).currentValue =
      extreme (if isMax then .gt else .lt) ((entries.map Prod.snd).filter Value.isNumber) := by
  have hnumbers := filterMap_extremeEntry entries
  by_cases hne : numbersOf (entries.map Prod.snd) = []
  · rw [hne, List.map_nil, List.map_eq_nil_iff] at hnumbers
    rw [filter_isNumber, hne, hnumbers]
    rfl
  · have hentries : entries.filterMap extremeEntry ≠ [] := by
      intro hnil
      rw [hnil] at hnumbers
      exact hne (List.map_eq_nil_iff.mp hnumbers.symm)
    obtain ⟨front, hfront, hmem, hall⟩ := head_maxima (preorders_dominates isMax h.finite) hentries
    obtain ⟨n, hn, hf, hv⟩ := mem_extremeEntry hmem
    obtain ⟨m, hm, hextreme, heq⟩ := extreme_numbers isMax h.finite hne
    have hfrontExtreme : IsExtreme isMax (entries.map Prod.snd) n := by
      intro k hk
      have hk' : Value.number k ∈ (entries.filterMap extremeEntry).map fun e => e.2.2 := by
        rw [hnumbers]
        exact List.mem_map_of_mem hk
      obtain ⟨entry, hentry, hvalue⟩ := List.mem_map.mp hk'
      obtain ⟨k', -, hfloat, hnumber⟩ := mem_extremeEntry hentry
      have hbeats := hall entry hentry
      rw [hvalue] at hnumber
      cases hnumber
      rw [dominates, hf, hfloat] at hbeats
      exact hbeats
    rw [heq, SlidingAcc.currentValue, hfront, h.unique m hm n hn hextreme hfrontExtreme, ← hv]
    rfl

omit [Float64 F] in
theorem foldlM_checkedAdd {ints : List Int} {start total : Int}
    (h : ints.foldlM checkedAdd start = some total) : total = start + ints.sum := by
  induction ints generalizing start with
  | nil =>
    cases h
    simp
  | cons i ints ih =>
    rw [List.foldlM_cons] at h
    obtain ⟨next, hnext, h⟩ := Option.bind_eq_some_iff.mp h
    unfold checkedAdd at hnext
    rw [Option.ite_none_right_eq_some] at hnext
    rw [ih h, ← Option.some.inj hnext.2, List.sum_cons]
    ring

omit [Float64 F] in
theorem sumI64_eq_intSum {values : List (Value F)} (hall : values.all (fun v => v.asI64.isSome) = true)
    (h : (sumI64 values).isSome = true) : sumI64 values = some (intSum values) := by
  obtain ⟨total, htotal⟩ := Option.isSome_iff_exists.mp h
  rw [htotal]
  rw [sumI64_eq, if_pos hall] at htotal
  rw [foldlM_checkedAdd htotal, Int.zero_add]
  rfl

theorem sums_filter_isNumber (values : List (Value F)) :
    sumF64 (values.filter Value.isNumber) = sumF64 values ∧
      intSum (values.filter Value.isNumber) = intSum values ∧
        (values.countP isFloat = 0 ↔
          (values.filter Value.isNumber).all (fun v => v.asI64.isSome) = true) := by
  refine ⟨?_, ?_, ?_⟩
  · unfold sumF64
    rw [List.filterMap_filter]
    congr 1
    refine List.filterMap_congr fun v _ => ?_
    cases v <;> rfl
  · unfold intSum
    rw [List.filterMap_filter]
    congr 1
    refine List.filterMap_congr fun v _ => ?_
    cases v <;> rfl
  · rw [List.countP_eq_zero, List.all_filter, List.all_eq_true]
    refine forall_congr' fun v => imp_congr_right fun _ => ?_
    cases hnumber : v.isNumber <;> cases hint : v.asI64 <;> simp [isFloat, hint, hnumber]

theorem currentValue_sum {entries : List (Int × Value F)}
    (h : AggKind.sum.Shows (entries.map Prod.snd)) :
    (accOf .sum entries).currentValue = sumValues ((entries.map Prod.snd).filter Value.isNumber) := by
  dsimp only [accOf, SlidingAcc.currentValue]
  unfold AggKind.Shows at h
  dsimp only at h
  generalize entries.map Prod.snd = values at h ⊢
  obtain ⟨hfloat, hint, hcount⟩ := sums_filter_isNumber values
  by_cases hne : values.filter Value.isNumber = []
  · rw [if_pos (by rw [List.countP_eq_length_filter, hne]; rfl), hne]
    rfl
  · rw [if_neg (by rwa [List.countP_eq_length_filter, List.length_eq_zero_iff]), sumValues_eq _ hne]
    by_cases hall : (values.filter Value.isNumber).all (fun v => v.asI64.isSome) = true
    · rw [if_pos (hcount.mpr hall), sumI64_eq_intSum hall (h hall), hint]
      rfl
    · rw [if_neg (fun hzero => hall (hcount.mp hzero)), sumI64_eq, if_neg hall, hfloat]
      rfl

theorem currentValue_accOf [OrderedFloat64 F] {kind : AggKind F} (hbasic : kind.isBasic = true)
    {entries : List (Int × Value F)} (h : kind.Shows (entries.map Prod.snd)) :
    (accOf kind entries).currentValue = kind.ofValues (entries.map Prod.snd) := by
  cases kind with
  | countAll => simp [accOf, SlidingAcc.currentValue, AggKind.ofValues]
  | count => rfl
  | sum => exact currentValue_sum h
  | avg =>
    dsimp only [accOf, SlidingAcc.currentValue, AggKind.ofValues]
    unfold avgValues
    rw [(sums_filter_isNumber _).1, List.countP_eq_length_filter]
    cases (entries.map Prod.snd).filter Value.isNumber <;> rfl
  | min => exact front_extreme false h
  | max => exact front_extreme true h
  | _ => cases hbasic

end

end Rekuiper.Sql
