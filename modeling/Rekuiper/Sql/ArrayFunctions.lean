import Mathlib.Data.String.Basic
import Rekuiper.Sql.Analytic
import Rekuiper.Sql.OrderBy
import Rekuiper.Sql.SlidingAccs

/-!
# Functions that make arrays

`sequence` counts until it meets its end, so a step that misses the end goes on to the end of `i64`.
`array_sort` compares numbers by their values and everything else by texts, so a text between those
of two numbers has to stand between the numbers as well.
-/

namespace Rekuiper.Sql

open Lib

variable {F : Type}

-- ---- `sequence`

abbrev Step := { step : Int // step ≠ 0 }

/-- The loop of `func_sequence` -/
def sequenceFrom (stop : Int) (step : Step) (current : Int) : List Int :=
  if current = stop then [current]
  else
    match _hnext : checkedAdd current step with
    | some next => current :: sequenceFrom stop step next
    | none => [current]
termination_by (if 0 < step.val then maxI64 - current else current - minI64).toNat
decreasing_by
  have hstep := step.property
  simp only [checkedAdd, Option.ite_none_right_eq_some, Option.some.injEq] at _hnext
  obtain ⟨⟨hmin, hmax⟩, rfl⟩ := _hnext
  split <;> omega

def sequenceStep [Float64 F] (env : Env F) (start stop : Int) : Option (Value F) → Option Step
  | some value =>
    (toI64Arg env value).bind fun step => if h : step = 0 then none else some ⟨step, h⟩
  | none => some (if start ≤ stop then ⟨1, by decide⟩ else ⟨-1, by decide⟩)

def funcSequence [Float64 F] (env : Env F) (args : List (Value F)) : Value F :=
  match args with
  | first :: second :: rest =>
    if 1 < rest.length then .null
    else
      match toI64Arg env first, toI64Arg env second with
      | some start, some stop =>
        match sequenceStep env start stop rest.head? with
        | some step =>
          if (0 < step.val ∧ stop < start) ∨ (step.val < 0 ∧ start < stop) then .null
          else .array ((sequenceFrom stop step start).map ofI64)
        | none => .null
      | _, _ => .null
  | _ => .null

/-- Arguments that are read as a start, an end and a step. -/
def SequenceArgs [Float64 F] (env : Env F) (args : List (Value F)) (start stop : Int)
    (step : Step) : Prop :=
  ∃ first second rest, args = first :: second :: rest ∧ rest.length ≤ 1 ∧
    toI64Arg env first = some start ∧ toI64Arg env second = some stop ∧
      sequenceStep env start stop rest.head? = some step

def Towards (start stop step : Int) : Prop := (0 < step → start ≤ stop) ∧ (step < 0 → stop ≤ start)

def Between (start stop n : Int) : Prop := (start ≤ n ∧ n ≤ stop) ∨ (stop ≤ n ∧ n ≤ start)

structure IsProgression (start stop step : Int) (numbers : List Int) : Prop where
  mem_iff : ∀ n, n ∈ numbers ↔ ∃ k : Nat, n = start + k * step ∧ Between start stop n
  inOrder : numbers = (List.range numbers.length).map fun k : Nat => start + k * step
  length : numbers.length ≤ (stop - start).natAbs / step.natAbs + 1

/-- The last step that does not go past the end -/
def lastStep (start stop step : Int) : Nat := (stop - start).natAbs / step.natAbs

/-- The step meets the end, or the first member past it is no `i64`. -/
def Stops (start stop step : Int) : Prop :=
  step ∣ stop - start ∨ ¬InI64 (start + (lastStep start stop step + 1) * step)

section
variable {start stop : Int} {step : Step}

theorem sequenceFrom_stop : sequenceFrom stop step stop = [stop] := by
  rw [sequenceFrom, if_pos rfl]

theorem sequenceFrom_next {current : Int} (hne : current ≠ stop) (h : InI64 (current + step)) :
    sequenceFrom stop step current = current :: sequenceFrom stop step (current + step) := by
  have hnext : checkedAdd current step = some (current + step) := if_pos h
  rw [sequenceFrom, if_neg hne]
  split
  · next next heq =>
    rw [hnext] at heq
    rw [Option.some.inj heq]
  · next heq =>
    rw [hnext] at heq
    cases heq

theorem sequenceFrom_overflow {current : Int} (h : ¬InI64 (current + step)) :
    sequenceFrom stop step current = [current] := by
  have hnone : checkedAdd current step = none := if_neg h
  rw [sequenceFrom]
  split
  · rfl
  · split
    · next next heq =>
      rw [hnone] at heq
      cases heq
    · rfl

/-- The loop makes its steps as long as it neither meets the end nor leaves `i64`. -/
theorem sequenceFrom_steps (n : Nat) {current : Int}
    (h : ∀ k : Nat, k < n → current + k * step ≠ stop ∧ InI64 (current + (k + 1) * step)) :
    sequenceFrom stop step current = ((List.range n).map fun k : Nat => current + k * step) ++
      sequenceFrom stop step (current + n * step) := by
  induction n generalizing current with
  | zero => simp
  | succ n ih =>
    obtain ⟨hne, hin⟩ := h 0 (Nat.succ_pos n)
    simp only [Nat.cast_zero, Int.zero_mul, Int.add_zero, Int.zero_add, Int.one_mul] at hne hin
    have hshift : ∀ k : Int, current + step + k * step = current + (k + 1) * step := fun k => by ring
    have hrest : ∀ k : Nat, k < n → current + step + k * step ≠ stop ∧
        InI64 (current + step + (k + 1) * step) := by
      intro k hk
      have hnext := h (k + 1) (Nat.succ_lt_succ hk)
      rwa [Nat.cast_succ, ← hshift, ← hshift] at hnext
    rw [sequenceFrom_next hne hin, ih hrest, List.range_succ_eq_map]
    simp [hshift, Function.comp_def]

theorem between_iff (htowards : Towards start stop step) (k : Nat) :
    Between start stop (start + k * step) ↔ k ≤ lastStep start stop step := by
  have hstep := step.property
  have hk : (k * step.val).natAbs = k * step.val.natAbs := Int.natAbs_mul _ _
  have hsign : (0 < step.val → 0 ≤ k * step.val) ∧ (step.val < 0 → k * step.val ≤ 0) :=
    ⟨fun h => mul_nonneg (Int.natCast_nonneg k) h.le,
      fun h => mul_nonpos_of_nonneg_of_nonpos (Int.natCast_nonneg k) h.le⟩
  rw [lastStep, Nat.le_div_iff_mul_le (Int.natAbs_pos.mpr hstep), ← hk]
  obtain ⟨hup, hdown⟩ := htowards
  unfold Between
  omega

theorem ne_stop {k : Nat} (htowards : Towards start stop step) (hk : k < lastStep start stop step) :
    start + k * step ≠ stop := by
  intro heq
  have hnext := (between_iff htowards (k + 1)).mpr hk
  have hstep := step.property
  rw [Nat.cast_succ, Int.add_mul, Int.one_mul, ← Int.add_assoc, heq] at hnext
  unfold Between Towards at *
  omega

theorem dvd_iff (htowards : Towards start stop step) :
    step.val ∣ stop - start ↔ start + lastStep start stop step * step = stop := by
  constructor
  · rintro ⟨k, hk⟩
    have hnonneg : 0 ≤ k := by
      by_contra hneg
      rcases lt_or_gt_of_ne step.property with hstep | hstep
      · have := mul_pos_of_neg_of_neg hstep (not_le.mp hneg)
        have := htowards.2 hstep
        omega
      · have := mul_neg_of_pos_of_neg hstep (not_le.mp hneg)
        have := htowards.1 hstep
        omega
    have hlast : lastStep start stop step = k.natAbs := by
      rw [lastStep, hk, Int.natAbs_mul, Nat.mul_div_cancel_left _ (Int.natAbs_pos.mpr step.property)]
    rw [hlast, Int.natAbs_of_nonneg hnonneg, Int.mul_comm, ← hk]
    omega
  · intro h
    refine ⟨lastStep start stop step, ?_⟩
    rw [Int.mul_comm]
    omega

theorem isProgression_range (htowards : Towards start stop step) :
    IsProgression start stop step
      ((List.range (lastStep start stop step + 1)).map fun k : Nat => start + k * step) where
  mem_iff n := by
    simp only [List.mem_map, List.mem_range, Nat.lt_succ_iff]
    constructor
    · rintro ⟨k, hk, rfl⟩
      exact ⟨k, rfl, (between_iff htowards k).mpr hk⟩
    · rintro ⟨k, rfl, hbetween⟩
      exact ⟨k, (between_iff htowards k).mp hbetween, rfl⟩
  inOrder := by simp
  length := by simp [lastStep]

theorem mem_sequenceFrom (current : Int) : current ∈ sequenceFrom stop step current := by
  rw [sequenceFrom]
  split
  · simp
  · split <;> simp

theorem sequenceFrom_iff (hstart : InI64 start) (hstop : InI64 stop)
    (htowards : Towards start stop step) :
    IsProgression start stop step (sequenceFrom stop step start) ↔ Stops start stop step := by
  have hsteps : sequenceFrom stop step start =
      ((List.range (lastStep start stop step)).map fun k : Nat => start + k * step) ++
        sequenceFrom stop step (start + lastStep start stop step * step) := by
    refine sequenceFrom_steps _ ?_
    intro k hk
    have hbetween := (between_iff htowards (k + 1)).mpr hk
    rw [Nat.cast_succ] at hbetween
    refine ⟨ne_stop htowards hk, ?_⟩
    unfold Between at hbetween
    unfold InI64 at *
    omega
  have hlast : start + (lastStep start stop step + 1) * step.val =
      start + lastStep start stop step * step + step := by ring
  have hend : sequenceFrom stop step (start + lastStep start stop step * step) =
      [start + lastStep start stop step * step.val] →
      IsProgression start stop step (sequenceFrom stop step start) := by
    intro hend
    have hrange := isProgression_range htowards
    rwa [List.range_succ, List.map_append, List.map_singleton, ← hend, ← hsteps] at hrange
  constructor
  · intro h
    by_contra hgoes
    obtain ⟨hmiss, hin⟩ := not_or.mp hgoes
    rw [not_not, hlast] at hin
    rw [dvd_iff htowards] at hmiss
    rw [sequenceFrom_next hmiss hin] at hsteps
    have hmem : start + lastStep start stop step * step + step ∈ sequenceFrom stop step start :=
      hsteps ▸ List.mem_append_right _ (List.mem_cons_of_mem _ (mem_sequenceFrom _))
    obtain ⟨k, -, hbetween⟩ := (h.mem_iff _).mp hmem
    rw [← hlast, ← Nat.cast_succ, between_iff htowards] at hbetween
    exact Nat.not_succ_le_self _ hbetween
  · rintro (hdvd | hout)
    · rw [dvd_iff htowards] at hdvd
      apply hend
      rw [hdvd, sequenceFrom_stop]
    · rw [hlast] at hout
      exact hend (sequenceFrom_overflow hout)

variable [Float64 F] {env : Env F} {args : List (Value F)}

theorem funcSequence_eq (hargs : SequenceArgs env args start stop step)
    (htowards : Towards start stop step) :
    funcSequence env args = .array ((sequenceFrom stop step start).map ofI64) := by
  obtain ⟨first, second, rest, rfl, hlength, hfirst, hsecond, hstep⟩ := hargs
  have hguard : ¬((0 < step.val ∧ stop < start) ∨ (step.val < 0 ∧ start < stop)) := by
    unfold Towards at htowards
    omega
  simp only [funcSequence, not_lt.mpr hlength, if_false, hfirst, hsecond, hstep, hguard]

omit [Float64 F] in
theorem ofI64_injective : Function.Injective (ofI64 : Int → Value F) := fun _ _ h =>
  Number.int.inj (Value.number.inj h)

/-- `sequence` gives the progression exactly if the step meets the end or would leave `i64` behind
it. -/
theorem sequence_iff (hargs : SequenceArgs env args start stop step) (hstart : InI64 start)
    (hstop : InI64 stop) (htowards : Towards start stop step) :
    (∃ numbers, funcSequence env args = .array (numbers.map ofI64) ∧
      IsProgression start stop step numbers) ↔ Stops start stop step := by
  rw [funcSequence_eq hargs htowards, ← sequenceFrom_iff hstart hstop htowards]
  constructor
  · rintro ⟨numbers, heq, h⟩
    rwa [ofI64_injective.list_map (Value.array.inj heq)]
  · intro h
    exact ⟨_, rfl, h⟩

end

/-- The arguments `start`, `stop` and `step` -/
def threeArgs (start stop step : Int) : List (Value ℚ) := [ofI64 start, ofI64 stop, ofI64 step]

theorem sequence_in_threes :
    ∃ numbers, funcSequence Pipeline.bareEnv (threeArgs 1 10 3) = .array (numbers.map ofI64) ∧
      IsProgression 1 10 3 numbers := by
  have hargs : SequenceArgs Pipeline.bareEnv (threeArgs 1 10 3) 1 10 ⟨3, by decide⟩ :=
    ⟨ofI64 1, ofI64 10, [ofI64 3], rfl, le_rfl, rfl, rfl, rfl⟩
  exact (sequence_iff hargs ⟨by decide, by decide⟩ ⟨by decide, by decide⟩
    ⟨by decide, by decide⟩).mpr (.inl ⟨3, rfl⟩)

/-- The two is past the end. -/
theorem sequence_past_end :
    ¬∃ numbers, funcSequence Pipeline.bareEnv (threeArgs 0 1 2) = .array (numbers.map ofI64) ∧
      IsProgression 0 1 2 numbers := by
  rintro ⟨numbers, heq, h⟩
  have htowards : Towards 0 1 2 := ⟨by decide, by decide⟩
  have hargs : SequenceArgs Pipeline.bareEnv (threeArgs 0 1 2) 0 1 ⟨2, by decide⟩ :=
    ⟨ofI64 0, ofI64 1, [ofI64 2], rfl, le_rfl, rfl, rfl, rfl⟩
  rw [funcSequence_eq hargs htowards] at heq
  rw [← ofI64_injective.list_map (Value.array.inj heq)] at h
  have hstart : InI64 0 := ⟨by decide, by decide⟩
  have hstop : InI64 1 := ⟨by decide, by decide⟩
  have hiff := @sequenceFrom_iff 0 1 ⟨2, by decide⟩ hstart hstop htowards
  rcases hiff.mp h with hdvd | hout
  · exact absurd hdvd (by decide)
  · exact hout ⟨by decide, by decide⟩

-- ---- `array_sort`

section
variable [Float64 F]

/-- The comparison of `func_array_sort` -/
def sortOrder (env : Env F) (a b : Value F) : Ordering :=
  (compareValues a b).getD (compare (toStringAlways env a) (toStringAlways env b))

def sortComparison (env : Env F) : Comparison Failure (Value F) := fun a b => .ok (sortOrder env a b)

def funcArraySort (env : Env F) (args : List (Value F)) : Except Failure (Value F) :=
  match args with
  | [.array items] => do
    let out ← sortBy (sortComparison env) items
    return .array out
  | _ => .ok .null

/-- The comparison is a total preorder on the items, and the items come out in its order. -/
structure SortsArray (env : Env F) (items : List (Value F)) : Prop where
  orders : Orders (sortComparison env) (· ∈ items)
  sorted : ∃ out, funcArraySort env [.array items] = .ok (.array out) ∧ out.Perm items ∧
    out.Pairwise (NotAfter (sortComparison env))

/-- A text between those of two numbers stands between the numbers too. -/
def TextsBetween (env : Env F) (items : List (Value F)) : Prop :=
  ∀ m n v, .number m ∈ items → .number n ∈ items → v ∈ items → v.isNumber = false →
    m.render ≤ toStringAlways env v → toStringAlways env v ≤ n.render →
      Float64.le m.asF64 n.asF64 = true ∧
        (m.render ≠ n.render → Float64.lt m.asF64 n.asF64 = true)

theorem sortOrder_text (env : Env F) {a b : Value F} (h : a.isNumber = false ∨ b.isNumber = false) :
    sortOrder env a b = compare (toStringAlways env a) (toStringAlways env b) := by
  cases a with
  | number m =>
    cases b with
    | number n => simp [Value.isNumber] at h
    | _ => rfl
  | bool p =>
    cases b with
    | bool q =>
      have htexts : ∀ p q : Bool, compare p q = compare (toString p) (toString q) := by decide
      exact htexts p q
    | _ => rfl
  | _ => cases b <;> rfl

omit [Float64 F] in
theorem isNumber_cases (v : Value F) : v.isNumber = false ∨ ∃ n, v = .number n := by
  cases v with
  | number n => exact .inr ⟨n, rfl⟩
  | _ => exact .inl rfl

theorem notAfter_iff {env : Env F} {a b : Value F} :
    NotAfter (sortComparison env) a b ↔ sortOrder env a b ≠ .gt := by
  constructor
  · rintro ⟨o, ho, hne⟩
    cases ho
    exact hne
  · intro h
    exact ⟨_, rfl, h⟩

theorem notAfter_text {env : Env F} {a b : Value F} (h : a.isNumber = false ∨ b.isNumber = false) :
    NotAfter (sortComparison env) a b ↔ toStringAlways env a ≤ toStringAlways env b := by
  rw [notAfter_iff, sortOrder_text env h]
  exact compare_le_iff_le

variable [OrderedFloat64 F] {env : Env F} {items : List (Value F)}

theorem notAfter_numbers {m n : Number F} (hm : FiniteValue (.number m))
    (hn : FiniteValue (.number n)) :
    NotAfter (sortComparison env) (.number m) (.number n) ↔ Float64.le m.asF64 n.asF64 = true := by
  have hcases := compareFloat_cases (hm m rfl) (hn n rfl)
  rw [notAfter_iff, ← compareFloat_ne_gt (hm m rfl) (hn n rfl), sortOrder, compareValues, hcases]
  simp

theorem sortOrder_swap {a b : Value F} (ha : FiniteValue a) (hb : FiniteValue b) :
    sortOrder env b a = (sortOrder env a b).swap := by
  rw [sortOrder, sortOrder, compareValues_swap ha hb]
  cases compareValues a b with
  | some o => rfl
  | none =>
    have hswap : compare (toStringAlways env b) (toStringAlways env a) =
        (compare (toStringAlways env a) (toStringAlways env b)).swap := Std.OrientedCmp.eq_swap
    exact hswap

theorem textsBetween_of_orders (hfinite : ∀ v ∈ items, FiniteValue v)
    (h : Orders (sortComparison env) (· ∈ items)) : TextsBetween env items := by
  intro m n v hm hn hv hnumber hmv hvn
  have hfm := hfinite _ hm
  have hfn := hfinite _ hn
  have hle : NotAfter (sortComparison env) (.number m) (.number n) :=
    h.trans _ v _ hm hv hn ((notAfter_text (.inr hnumber)).mpr hmv)
      ((notAfter_text (.inl hnumber)).mpr hvn)
  refine ⟨(notAfter_numbers hfm hfn).mp hle, fun hne => ?_⟩
  rw [OrderedFloat64.lt_iff _ _ (hfm m rfl) (hfn n rfl)]
  by_contra hge
  have hback : NotAfter (sortComparison env) (.number n) (.number m) ↔ _ := notAfter_numbers hfn hfm
  rw [Bool.not_eq_false, ← hback] at hge
  -- both texts are that of the value then
  have hvm : NotAfter (sortComparison env) v (.number m) :=
    h.trans _ _ _ hv hn hm ((notAfter_text (.inl hnumber)).mpr hvn) hge
  have hnv : NotAfter (sortComparison env) (.number n) v :=
    h.trans _ _ _ hn hm hv hge ((notAfter_text (.inr hnumber)).mpr hmv)
  rw [notAfter_text (.inl hnumber)] at hvm
  rw [notAfter_text (.inr hnumber)] at hnv
  exact hne ((le_antisymm hmv hvm).trans (le_antisymm hvn hnv))

theorem TextsBetween.render_eq (h : TextsBetween env items) (hfinite : ∀ v ∈ items, FiniteValue v)
    {m n : Number F} {v : Value F} (hm : .number m ∈ items) (hn : .number n ∈ items) (hv : v ∈ items)
    (hnumber : v.isNumber = false) (hle : Float64.le m.asF64 n.asF64 = true)
    (hnv : n.render ≤ toStringAlways env v) (hvm : toStringAlways env v ≤ m.render) :
    n.render = m.render := by
  by_contra hne
  have hlt := (h n m v hn hm hv hnumber hnv hvm).2 hne
  rw [OrderedFloat64.lt_iff _ _ (hfinite _ hn n rfl) (hfinite _ hm m rfl), hle] at hlt
  cases hlt

theorem orders_of_textsBetween (hfinite : ∀ v ∈ items, FiniteValue v)
    (h : TextsBetween env items) : Orders (sortComparison env) (· ∈ items) where
  swap a b o ha hb hab := by
    cases hab
    exact congrArg Except.ok (sortOrder_swap (hfinite a ha) (hfinite b hb))
  trans a b c ha hb hc hab hbc := by
    rcases isNumber_cases a with hna | ⟨m, rfl⟩
    · rw [notAfter_text (.inl hna)] at hab ⊢
      rcases isNumber_cases b with hnb | ⟨m, rfl⟩
      · rw [notAfter_text (.inl hnb)] at hbc
        exact le_trans hab hbc
      · rcases isNumber_cases c with hnc | ⟨n, rfl⟩
        · rw [notAfter_text (.inr hnc)] at hbc
          exact le_trans hab hbc
        · rw [notAfter_numbers (hfinite _ hb) (hfinite _ hc)] at hbc
          by_contra hlt
          have hle := le_of_lt (not_le.mp hlt)
          have heq := h.render_eq hfinite hb hc ha hna hbc hle hab
          exact hlt (hab.trans (le_of_eq heq.symm))
    · rcases isNumber_cases c with hnc | ⟨n, rfl⟩
      · rw [notAfter_text (.inr hnc)] at hbc ⊢
        rcases isNumber_cases b with hnb | ⟨n, rfl⟩
        · rw [notAfter_text (.inr hnb)] at hab
          exact le_trans hab hbc
        · rw [notAfter_numbers (hfinite _ ha) (hfinite _ hb)] at hab
          by_contra hlt
          have hle := le_of_lt (not_le.mp hlt)
          have heq := h.render_eq hfinite ha hb hc hnc hab hbc hle
          exact hlt ((le_of_eq heq.symm).trans hbc)
      · rw [notAfter_numbers (hfinite _ ha) (hfinite _ hc)]
        rcases isNumber_cases b with hnb | ⟨k, rfl⟩
        · rw [notAfter_text (.inr hnb)] at hab
          rw [notAfter_text (.inl hnb)] at hbc
          exact (h m n b ha hc hb hnb hab hbc).1
        · rw [notAfter_numbers (hfinite _ ha) (hfinite _ hb)] at hab
          rw [notAfter_numbers (hfinite _ hb) (hfinite _ hc)] at hbc
          exact OrderedFloat64.trans _ _ _ hab hbc

/-- `array_sort` sorts exactly if no text comes between those of numbers in another order. -/
theorem array_sort_iff (hfinite : ∀ v ∈ items, FiniteValue v) :
    SortsArray env items ↔ TextsBetween env items := by
  refine ⟨fun h => textsBetween_of_orders hfinite h.orders, fun h => ?_⟩
  have horders := orders_of_textsBetween hfinite h
  obtain ⟨out, hout⟩ : ∃ out, sortBy (sortComparison env) items = .ok out :=
    sortBy_ok (sortOrder env) items
  obtain ⟨hperm, hsorted⟩ := sortBy_ordered horders (fun _ hv => hv) hout
  refine ⟨horders, out, ?_, hperm, hsorted⟩
  rw [funcArraySort, hout]
  rfl

end

def numbersAndText (m n : Int) (text : String) : List (Value ℚ) := [ofI64 m, .string text, ofI64 n]

theorem finite_numbersAndText (m n : Int) (text : String) :
    ∀ v ∈ numbersAndText m n text, FiniteValue v := fun _ _ _ _ => rfl

theorem array_sort_letters : SortsArray Pipeline.bareEnv (numbersAndText 10 9 "a") := by
  refine (array_sort_iff (finite_numbersAndText 10 9 "a")).mpr ?_
  intro m n v hm hn hv hnumber hmv hvn
  have hrender : n.render = "10" ∨ n.render = "9" := by
    simp only [numbersAndText, ofI64, List.mem_cons, Value.number.injEq, reduceCtorEq,
      List.not_mem_nil, or_false, false_or] at hn
    rcases hn with rfl | rfl
    · exact .inl (by decide)
    · exact .inr (by decide)
  have hv : toStringAlways Pipeline.bareEnv v = "a" := by
    simp only [numbersAndText, List.mem_cons, List.not_mem_nil, or_false] at hv
    rcases hv with rfl | rfl | rfl
    · cases hnumber
    · rfl
    · cases hnumber
  rw [hv] at hvn
  rcases hrender with h | h
  · rw [h] at hvn
    exact absurd hvn (by decide)
  · rw [h] at hvn
    exact absurd hvn (by decide)

/-- Ten is before the text nine, that is level with nine, and nine is before ten. -/
theorem array_sort_nine : ¬SortsArray Pipeline.bareEnv (numbersAndText 10 9 "9") := by
  rintro ⟨horders, -⟩
  have hbetween := textsBetween_of_orders (finite_numbersAndText 10 9 "9") horders
  have hten := (hbetween (.int 10) (.int 9) (.string "9") (by simp [numbersAndText, ofI64])
    (by simp [numbersAndText, ofI64]) (by simp [numbersAndText]) rfl (by decide) (by decide)).1
  exact absurd hten (by decide)

end Rekuiper.Sql
