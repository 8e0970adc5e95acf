import Rekuiper.Sql.SlidingAccs

/-!
# Runs of a sliding accumulator

Values come in with times that do not go back, and cutoffs of any kind are applied in between. A
value is live as long as no cutoff has passed its time. The monotone queue shows an extreme of the
live numbers; the sum is that of the live integers where nothing has saturated.
-/

namespace Rekuiper.Sql

open Lib

variable {F : Type}

inductive SlidingCall (F : Type)
  | push (kind : AggKind F) (ts : Int) (value : Option (Value F))
  | evict (cutoffTs : Int)

namespace SlidingCall

def run [Float64 F] (acc : SlidingAcc F) : SlidingCall F → SlidingAcc F
  | .push kind ts value => acc.push kind ts value
  | .evict cutoffTs => acc.evictBefore cutoffTs

/-- The value that comes in, with its time -/
def entry : SlidingCall F → Option (Int × Value F)
  | .push _ ts value => some (ts, value.getD .null)
  | .evict _ => none

def cutoff : SlidingCall F → Option Int
  | .push .. => none
  | .evict cutoffTs => some cutoffTs

def InOrder (calls : List (SlidingCall F)) : Prop :=
  (calls.filterMap entry).Pairwise fun a b => a.1 ≤ b.1

/-- The values that no later cutoff has passed. -/
def live : List (SlidingCall F) → List (Int × Value F)
  | [] => []
  | call :: rest =>
    (call.entry.filter fun e => (rest.filterMap cutoff).all (· ≤ e.1)).toList ++ live rest

def liveValues (calls : List (SlidingCall F)) : List (Value F) := (live calls).map Prod.snd

variable {calls : List (SlidingCall F)} {isMax : Bool} {cutoffTs : Int}

theorem live_push (calls : List (SlidingCall F)) (kind : AggKind F) (ts : Int)
    (value : Option (Value F)) :
    live (calls ++ [.push kind ts value]) = live calls ++ [(ts, value.getD .null)] := by
  induction calls with
  | nil => simp [live, entry]
  | cons call calls ih => simp [live, ih, cutoff]

theorem live_evict (calls : List (SlidingCall F)) (cutoffTs : Int) :
    live (calls ++ [.evict cutoffTs]) = (live calls).filter fun e => cutoffTs ≤ e.1 := by
  induction calls with
  | nil => simp [live, entry]
  | cons call calls ih =>
    rw [List.cons_append, live, live, ih, List.filter_append]
    congr 1
    cases call.entry with
    | none => rfl
    | some e =>
      have hall : ((calls ++ [SlidingCall.evict cutoffTs]).filterMap cutoff).all (· ≤ e.1) =
          ((calls.filterMap cutoff).all (· ≤ e.1) && decide (cutoffTs ≤ e.1)) := by
        rw [List.filterMap_append, List.all_append]
        exact congrArg _ (Bool.and_true _)
      simp only [Option.filter, hall]
      by_cases hkept : (calls.filterMap cutoff).all (· ≤ e.1) = true
      · by_cases hlast : cutoffTs ≤ e.1 <;> simp only [hkept, hlast] <;> simp [hlast]
      · simp only [hkept, Bool.false_and]
        rfl

theorem live_sublist (calls : List (SlidingCall F)) :
    (live calls).Sublist (calls.filterMap entry) := by
  induction calls with
  | nil => exact .slnil
  | cons call calls ih =>
    cases hentry : call.entry with
    | none => simpa [live, hentry, List.filterMap_cons] using ih
    | some e =>
      rw [List.filterMap_cons_some hentry, live, hentry]
      by_cases hkept : (calls.filterMap cutoff).all (· ≤ e.1)
      · simpa [Option.filter, hkept] using ih.cons_cons e
      · simpa [Option.filter, hkept] using ih.cons e

theorem InOrder.prefix {call : SlidingCall F} (h : InOrder (calls ++ [call])) : InOrder calls := by
  rw [InOrder, List.filterMap_append] at h
  exact (List.pairwise_append.mp h).1

theorem live_split (h : InOrder calls) (cutoffTs : Int) :
    live calls = (live calls).filter (fun e => e.1 < cutoffTs) ++
      (live calls).filter fun e => cutoffTs ≤ e.1 := by
  have hsorted : (live calls).Pairwise fun a b => a.1 ≤ b.1 := h.sublist (live_sublist calls)
  have hold : (live calls).Pairwise fun a b =>
      decide (b.1 < cutoffTs) = true → decide (a.1 < cutoffTs) = true := by
    refine hsorted.imp fun hle hlt => ?_
    exact decide_eq_true (lt_of_le_of_lt hle (of_decide_eq_true hlt))
  have hnew : (live calls).filter (fun e => !decide (e.1 < cutoffTs)) =
      (live calls).filter fun e => cutoffTs ≤ e.1 :=
    List.filter_congr fun e _ => by rw [Bool.eq_iff_iff]; simp
  rw [← hnew]
  exact (filter_append_filter_not hold).symm

-- ---- Extremes

section
variable [Float64 F]

theorem push_getD (isMax : Bool) (deque : List (Int × F × Value F)) (kind : AggKind F) (ts : Int)
    (value : Option (Value F)) :
    (SlidingAcc.extreme isMax deque).push kind ts value =
      (SlidingAcc.extreme isMax deque).push kind ts (some (value.getD .null)) := by
  cases value <;> cases kind <;> rfl

theorem foldl_extreme [OrderedFloat64 F] (isMax : Bool) (horder : InOrder calls)
    (hfinite : FiniteNumbers ((calls.filterMap entry).map Prod.snd)) :
    calls.foldl run (.extreme isMax []) =
      .extreme isMax (maxima (dominates isMax) ((live calls).filterMap extremeEntry)) := by
  induction calls using List.reverseRecOn with
  | nil => rfl
  | append_singleton calls call ih =>
    have hbefore : FiniteNumbers ((calls.filterMap entry).map Prod.snd) := by
      rintro n hn
      refine hfinite n ?_
      simp only [numbersOf, List.filterMap_append, List.map_append] at hn ⊢
      exact List.mem_append_left _ hn
    rw [List.foldl_append, ih horder.prefix hbefore]
    cases call with
    | push kind ts value =>
      have hvalues : FiniteNumbers ((live calls).map Prod.snd ++ [value.getD .null]) := by
        rintro n hn
        refine hfinite n ?_
        have hsub : ((live calls).map Prod.snd).Sublist ((calls.filterMap entry).map Prod.snd) :=
          (live_sublist calls).map _
        rw [List.filterMap_append, List.map_append]
        exact ((hsub.append_right _).filterMap _).subset hn
      rw [live_push]
      exact (push_getD isMax _ kind ts value).trans (push_extreme isMax kind ts hvalues)
    | evict cutoffTs =>
      rw [live_evict]
      conv_lhs => rw [live_split horder.prefix cutoffTs]
      refine congrArg _ (evict_extreme isMax ?_ ?_)
      · rintro e he
        simpa using (List.mem_filter.mp he).2
      · rintro e he
        simpa using (List.mem_filter.mp he).2

/-- What is shown is a live number that all others are behind, or nothing if there is none. The
queue strictly decreases or increases, and its times do not go back. -/
structure ShowsExtreme (isMax : Bool) (values : List (Value F)) (acc : SlidingAcc F) : Prop where
  null_iff : acc.currentValue = .null ↔ numbersOf values = []
  extreme : acc.currentValue ≠ .null →
    ∃ n ∈ numbersOf values, acc.currentValue = .number n ∧ IsExtreme isMax values n
  queue : ∃ deque, acc = .extreme isMax deque ∧ deque.Pairwise fun a b =>
    (if isMax then Float64.lt b.2.1 a.2.1 else Float64.lt a.2.1 b.2.1) = true ∧ a.1 ≤ b.1

theorem pairwise_extremeEntry (h : InOrder calls) :
    ((live calls).filterMap extremeEntry).Pairwise fun a b => a.1 ≤ b.1 := by
  refine List.Pairwise.filterMap extremeEntry ?_ (h.sublist (live_sublist calls))
  rintro ⟨ts, v⟩ ⟨ts', w⟩ hle a ha b hb
  cases v with
  | number n =>
    cases w with
    | number m =>
      cases ha
      cases hb
      exact hle
    | _ => cases hb
  | _ => cases ha

/-- The extreme of a run, after every call -/
theorem extreme_run [OrderedFloat64 F] (isMax : Bool) (horder : InOrder calls)
    (hfinite : FiniteNumbers ((calls.filterMap entry).map Prod.snd)) :
    ShowsExtreme isMax (liveValues calls) (calls.foldl run (.extreme isMax [])) := by
  have hlive : FiniteNumbers (liveValues calls) := fun n hn =>
    hfinite n ((((live_sublist calls).map _).filterMap _).subset hn)
  have hentries := filterMap_extremeEntry (live calls)
  have hpreorder := preorders_dominates isMax hlive
  rw [foldl_extreme isMax horder hfinite]
  by_cases hnone : (live calls).filterMap extremeEntry = []
  · rw [hnone] at hentries ⊢
    have hempty : numbersOf (liveValues calls) = [] := List.map_eq_nil_iff.mp hentries.symm
    exact ⟨iff_of_true rfl hempty, fun h => absurd rfl h, _, rfl, .nil⟩
  · obtain ⟨front, hfront, hmem, hall⟩ := head_maxima hpreorder hnone
    obtain ⟨n, hn, hf, hv⟩ := mem_extremeEntry hmem
    have hshown : (SlidingAcc.extreme isMax
        (maxima (dominates isMax) ((live calls).filterMap extremeEntry))).currentValue =
          .number n := by
      rw [SlidingAcc.currentValue, hfront, ← hv]
      rfl
    refine ⟨iff_of_false ?_ (List.ne_nil_of_mem hn), fun _ => ⟨n, hn, hshown, ?_⟩, _, rfl, ?_⟩
    · simp [hshown]
    · rintro m hm
      have hm' : Value.number m ∈ ((live calls).filterMap extremeEntry).map fun e => e.2.2 :=
        hentries ▸ List.mem_map_of_mem hm
      obtain ⟨e, he, hvalue⟩ := List.mem_map.mp hm'
      obtain ⟨k, -, hfloat, hnumber⟩ := mem_extremeEntry he
      obtain rfl : m = k := Value.number.inj (hvalue.symm.trans hnumber)
      exact hf ▸ hfloat ▸ hall e he
    · have hbeaten := @pairwise_maxima _ (dominates isMax) ((live calls).filterMap extremeEntry)
      have htimes := (pairwise_extremeEntry horder).sublist
        (@maxima_sublist _ (dominates isMax) _)
      refine (hbeaten.and htimes).imp_of_mem ?_
      rintro a b ha hb ⟨hunbeaten, hle⟩
      obtain ⟨i, hi, hfloat, -⟩ := mem_extremeEntry ((maxima_sublist _).subset ha)
      obtain ⟨j, hj, hfloat', -⟩ := mem_extremeEntry ((maxima_sublist _).subset hb)
      refine ⟨?_, hle⟩
      rw [dominates, ahead] at hunbeaten
      have hfa : Float64.isFinite a.2.1 = true := hfloat ▸ hlive i hi
      have hfb : Float64.isFinite b.2.1 = true := hfloat' ▸ hlive j hj
      cases isMax with
      | true => exact (OrderedFloat64.lt_iff _ _ hfb hfa).mpr hunbeaten
      | false => exact (OrderedFloat64.lt_iff _ _ hfa hfb).mpr hunbeaten

-- ---- Sums

/-- The integers among the values, `u64` included -/
def integersOf (values : List (Value F)) : List Int :=
  (numbersOf values).filterMap fun
    | .int n => some n
    | .float _ => none

def PushesIntegers (calls : List (SlidingCall F)) : Prop :=
  ∀ call ∈ calls, ∀ e, call.entry = some e → ∃ n, e.2 = .number (.int n)

/-- The sum of the live integers is shown if it is an `i64`, and nothing if there are none. -/
structure ShowsSum (values : List (Value F)) (acc : SlidingAcc F) : Prop where
  none : values = [] → acc.currentValue = .null
  sum : values ≠ [] → InI64 (integersOf values).sum →
    acc.currentValue = ofI64 (integersOf values).sum

/-- A call that saturates nothing, given the live values: an `i64` that comes in keeps the sum of
those in `i64`, and so do all entries that leave, unless nothing stays. After it there is no `u64`
above all `i64`, unless the sum of all integers is no `i64`. -/
structure Fits (entries : List (Int × Value F)) (call : SlidingCall F) : Prop where
  comes : ∀ kind ts value, call = .push kind ts value → ∀ n, value = some (.number (.int n)) →
    n ≤ maxI64 → InI64 (intSum (entries.map Prod.snd) + n)
  leaves : ∀ cutoffTs, call = .evict cutoffTs → (entries.filter fun e => cutoffTs ≤ e.1) ≠ [] →
    UndoesInts ((entries.filter fun e => e.1 < cutoffTs).map Prod.snd)
      ((entries.filter fun e => cutoffTs ≤ e.1).map Prod.snd)

/-- The integers are `i64`, or their sum is none. -/
def NoLarge (values : List (Value F)) : Prop :=
  values.all (fun v => v.asI64.isSome) = true ∨ ¬InI64 (integersOf values).sum

def Holds (entries : List (Int × Value F)) (acc : SlidingAcc F) : Prop :=
  let values := entries.map Prod.snd
  ∃ floatSum, acc = .sum (intSum values) floatSum (values.countP isFloat)
    (values.countP Value.isNumber) (entries.map fun e => (e.1, sumEntry e.2))

theorem push_holds {entries : List (Int × Value F)} {acc : SlidingAcc F} (h : Holds entries acc)
    {kind : AggKind F} {ts n : Int}
    (hcomes : n ≤ maxI64 → InI64 (intSum (entries.map Prod.snd) + n)) :
    Holds (entries ++ [(ts, .number (.int n))]) (acc.push kind ts (some (.number (.int n)))) := by
  obtain ⟨floatSum, rfl⟩ := h
  refine ⟨Float64.add floatSum (Float64.ofInt n), ?_⟩
  by_cases hn : n ≤ maxI64
  · have hint : (Number.int n : Number F).asI64 = some n := if_pos hn
    simp [SlidingAcc.push, SlidingAcc.pushSum, sumEntry, hint, saturate_of_inI64 (hcomes hn),
      intSum_append, intSum_singleton, Value.asI64, isFloat, Value.isNumber, Number.asF64]
  · have hint : (Number.int n : Number F).asI64 = none := if_neg hn
    simp [SlidingAcc.push, SlidingAcc.pushSum, sumEntry, hint, intSum_append, intSum_singleton,
      Value.asI64, isFloat, Value.isNumber, Number.asF64]

theorem removeSum_ints {v : Value F} {rest : List (Value F)} (floatSum : F)
    (hint : v.asI64.isSome = true → InI64 (intSum rest)) :
    ∃ floatSum', SlidingAcc.removeSum (intSum (v :: rest), floatSum, (v :: rest).countP isFloat,
        (v :: rest).countP Value.isNumber) (sumEntry v) =
      (intSum rest, floatSum', rest.countP isFloat, rest.countP Value.isNumber) := by
  have hsum : intSum (v :: rest) = v.asI64.getD 0 + intSum rest := by
    rw [← intSum_singleton, ← intSum_append]
    rfl
  rcases number_or_not v with ⟨n, rfl⟩ | ⟨hnumber, hnone, -, hentry⟩
  · refine ⟨Float64.sub floatSum n.asF64, ?_⟩
    cases hn : n.asI64 with
    | none =>
      simp [SlidingAcc.removeSum, sumEntry, hn, hsum, Value.asI64, isFloat, Value.isNumber,
        List.countP_cons]
    | some i =>
      have hrange := saturate_of_inI64 (hint (by simp [Value.asI64, hn]))
      simp [SlidingAcc.removeSum, sumEntry, hn, hsum, Value.asI64, isFloat, Value.isNumber, hrange,
        List.countP_cons]
  · exact ⟨floatSum, by simp [SlidingAcc.removeSum, hentry, hsum, hnone, isFloat, hnumber]⟩

theorem foldl_removeInts {evicted kept : List (Value F)} (h : UndoesInts evicted kept)
    (floatSum : F) :
    ∃ floatSum', evicted.foldl (fun s v => SlidingAcc.removeSum s (sumEntry v))
        (intSum (evicted ++ kept), floatSum, (evicted ++ kept).countP isFloat,
          (evicted ++ kept).countP Value.isNumber) =
      (intSum kept, floatSum', kept.countP isFloat, kept.countP Value.isNumber) := by
  induction evicted generalizing floatSum with
  | nil => exact ⟨floatSum, rfl⟩
  | cons v rest ih =>
    obtain ⟨next, hnext⟩ := removeSum_ints floatSum (h [] v rest rfl)
    rw [List.foldl_cons, List.cons_append, hnext]
    refine ih (fun before w after heq => ?_) next
    exact h (v :: before) w after (by rw [heq, List.cons_append])

theorem evict_holds {evicted kept : List (Int × Value F)} {acc : SlidingAcc F} {cutoffTs : Int}
    (h : Holds (evicted ++ kept) acc) (hevicted : ∀ e ∈ evicted, e.1 < cutoffTs)
    (hkept : ∀ e ∈ kept, cutoffTs ≤ e.1) (hnumbers : ∀ e ∈ kept, e.2.isNumber = true)
    (hleaves : kept ≠ [] → UndoesInts (evicted.map Prod.snd) (kept.map Prod.snd)) :
    Holds kept (acc.evictBefore cutoffTs) := by
  obtain ⟨floatSum, rfl⟩ := h
  have hstate : ∃ next, SlidingAcc.resetSum ((evicted.map Prod.snd).foldl
      (fun s v => SlidingAcc.removeSum s (sumEntry v))
      (intSum ((evicted ++ kept).map Prod.snd), floatSum,
        ((evicted ++ kept).map Prod.snd).countP isFloat,
        ((evicted ++ kept).map Prod.snd).countP Value.isNumber)) =
      (intSum (kept.map Prod.snd), next, (kept.map Prod.snd).countP isFloat,
        (kept.map Prod.snd).countP Value.isNumber) := by
    by_cases hnone : kept = []
    · -- Nothing stays, so the sums start again.
      subst hnone
      refine ⟨Float64.ofInt 0, if_pos ?_⟩
      rw [validCount_removeSum, List.append_nil, Nat.sub_self]
    · obtain ⟨next, hnext⟩ := foldl_removeInts (hleaves hnone) floatSum
      obtain ⟨e, he⟩ := List.exists_mem_of_ne_nil kept hnone
      have hpos : 0 < (kept.map Prod.snd).countP Value.isNumber :=
        List.countP_pos_iff.mpr ⟨e.2, List.mem_map_of_mem he, hnumbers e he⟩
      refine ⟨next, ?_⟩
      rw [List.map_append, hnext]
      exact if_neg (Nat.ne_of_gt hpos)
  obtain ⟨next, hnext⟩ := hstate
  refine ⟨next, ?_⟩
  dsimp only [SlidingAcc.evictBefore]
  rw [popOld_append _ _ sumEntry hevicted hkept]
  exact congrArg (fun s => SlidingAcc.sum s.1 s.2.1 s.2.2.1 s.2.2.2 _) hnext

omit [Float64 F] in
theorem live_integers (hints : PushesIntegers calls) :
    ∀ v ∈ liveValues calls, ∃ n, v = .number (.int n) := by
  rintro v hv
  obtain ⟨e, he, rfl⟩ := List.mem_map.mp hv
  obtain ⟨call, hcall, hentry⟩ := List.mem_filterMap.mp ((live_sublist calls).subset he)
  exact hints call hcall e hentry

theorem foldl_sum (horder : InOrder calls) (hints : PushesIntegers calls)
    (hfits : ∀ before call after, calls = before ++ call :: after → Fits (live before) call) :
    Holds (live calls) (calls.foldl run (.new .sum)) := by
  induction calls using List.reverseRecOn with
  | nil => exact ⟨Float64.ofInt 0, rfl⟩
  | append_singleton calls call ih =>
    have hbefore : PushesIntegers calls := fun c hc => hints c (List.mem_append_left _ hc)
    have hlast := hfits calls call [] rfl
    have hholds := ih horder.prefix hbefore fun before c after heq =>
      hfits before c (after ++ [call]) (by rw [heq, List.append_assoc, List.cons_append])
    rw [List.foldl_append]
    cases call with
    | push kind ts value =>
      obtain ⟨n, hn⟩ := hints _ (List.mem_append_right _ List.mem_cons_self) _ rfl
      cases value with
      | none => cases hn
      | some v =>
        obtain rfl : v = .number (.int n) := hn
        rw [live_push]
        exact push_holds hholds (hlast.comes kind ts _ rfl n rfl)
    | evict cutoffTs =>
      rw [live_split horder.prefix cutoffTs] at hholds
      rw [live_evict]
      refine evict_holds hholds ?_ ?_ ?_ (fun hne => hlast.leaves cutoffTs rfl hne)
      · rintro e he
        simpa using (List.mem_filter.mp he).2
      · rintro e he
        simpa using (List.mem_filter.mp he).2
      · rintro e he
        obtain ⟨n, hn⟩ := live_integers hbefore e.2 (List.mem_map_of_mem (List.mem_filter.mp he).1)
        rw [hn]
        rfl

omit [Float64 F] in
theorem intSum_integers {values : List (Value F)} (h : ∀ v ∈ values, ∃ n, v = .number (.int n))
    (hi64 : values.all (fun v => v.asI64.isSome) = true) :
    intSum values = (integersOf values).sum ∧ values.countP isFloat = 0 := by
  induction values with
  | nil => exact ⟨rfl, rfl⟩
  | cons v values ih =>
    obtain ⟨⟨n, rfl⟩, hvalues⟩ := List.forall_mem_cons.mp h
    rw [List.all_cons, Bool.and_eq_true] at hi64
    obtain ⟨hsum, hfloat⟩ := ih hvalues hi64.2
    obtain ⟨i, hi⟩ := Option.isSome_iff_exists.mp hi64.1
    obtain ⟨-, rfl⟩ : n ≤ maxI64 ∧ n = i := by simpa [Value.asI64, Number.asI64] using hi
    constructor
    · rw [intSum] at hsum ⊢
      rw [List.filterMap_cons_some hi, List.sum_cons, hsum]
      rfl
    · rw [List.countP_cons, hfloat, isFloat, hi]
      rfl

/-- The sum of a run, after every call -/
theorem sum_run (horder : InOrder calls) (hints : PushesIntegers calls)
    (hfits : ∀ before call after, calls = before ++ call :: after → Fits (live before) call)
    (hlarge : NoLarge (liveValues calls)) :
    ShowsSum (liveValues calls) (calls.foldl run (.new .sum)) := by
  obtain ⟨floatSum, hacc⟩ := foldl_sum horder hints hfits
  have hvalues := live_integers hints
  rw [hacc]
  change ShowsSum (liveValues calls) (.sum (intSum (liveValues calls)) floatSum
    ((liveValues calls).countP isFloat) ((liveValues calls).countP Value.isNumber) _)
  constructor
  · rintro hnone
    rw [hnone]
    rfl
  · rintro hne hsum
    obtain ⟨hints, hfloat⟩ := intSum_integers hvalues (hlarge.resolve_right (not_not_intro hsum))
    obtain ⟨v, hv⟩ := List.exists_mem_of_ne_nil _ hne
    obtain ⟨n, rfl⟩ := hvalues v hv
    have hpos : 0 < (liveValues calls).countP Value.isNumber :=
      List.countP_pos_iff.mpr ⟨_, hv, rfl⟩
    rw [SlidingAcc.currentValue, if_neg (Nat.ne_of_gt hpos), if_pos hfloat, hints]

end

def largeThenOne (large : Int) : List (SlidingCall ℚ) :=
  [.push .max 0 (some (ofI64 large)), .push .max 1 (some (ofI64 1)), .evict 1]

theorem inOrder_largeThenOne (large : Int) : InOrder (largeThenOne large) := by
  have hentries : (largeThenOne large).filterMap entry = [(0, ofI64 large), (1, ofI64 1)] := rfl
  rw [InOrder, hentries]
  simp

theorem max_of_one : ShowsExtreme true (liveValues (largeThenOne 5))
    ((largeThenOne 5).foldl run (.extreme true [])) :=
  extreme_run true (inOrder_largeThenOne 5) fun _ _ => rfl

theorem sum_of_one : ShowsSum (liveValues (largeThenOne 5))
    ((largeThenOne 5).foldl run (.new .sum)) := by
  refine sum_run (inOrder_largeThenOne 5) ?_ ?_ (.inl rfl)
  · simp [PushesIntegers, largeThenOne, entry, ofI64]
  · rintro before call after heq
    rcases before with _ | ⟨a, _ | ⟨b, _ | ⟨c, before⟩⟩⟩ <;>
      simp only [largeThenOne, List.cons_append, List.nil_append, List.cons.injEq] at heq
    · obtain ⟨rfl, -⟩ := heq
      refine ⟨?_, nofun⟩
      rintro _ _ _ ⟨⟩ _ ⟨⟩ -
      exact ⟨by decide, by decide⟩
    · obtain ⟨rfl, rfl, -⟩ := heq
      refine ⟨?_, nofun⟩
      rintro _ _ _ ⟨⟩ _ ⟨⟩ -
      exact ⟨by decide, by decide⟩
    · obtain ⟨rfl, rfl, rfl, -⟩ := heq
      refine ⟨nofun, ?_⟩
      rintro _ ⟨⟩ - before v after heq -
      have hafter : after = [] := by
        have hlength := congrArg List.length heq
        have hone : (((live [.push .max 0 (some (ofI64 5)), .push .max 1 (some (ofI64 1))]).filter
          fun e : Int × Value ℚ => e.1 < 1).map Prod.snd).length = 1 := rfl
        rw [hone, List.length_append, List.length_cons] at hlength
        exact List.eq_nil_of_length_eq_zero (by omega)
      subst hafter
      exact ⟨by decide, by decide⟩
    · exact absurd heq.2.2.2 (by simp)

/-- The sum saturates when the one comes in behind the largest `i64`, and is zero when that has
left. -/
theorem sum_after_overflow : ¬ShowsSum (liveValues (largeThenOne maxI64))
    ((largeThenOne maxI64).foldl run (.new .sum)) := by
  intro h
  have hvalue : ((largeThenOne maxI64).foldl run (.new .sum)).currentValue = ofI64 0 := rfl
  have hsum := h.sum (List.cons_ne_nil _ _) ⟨by decide, by decide⟩
  rw [hvalue] at hsum
  exact absurd (Number.int.inj (Value.number.inj hsum)) (by decide)

end SlidingCall

end Rekuiper.Sql
