import Rekuiper.Sql.Operators

/-!
# Operations that panic

Of the operators only division and remainder panic, of the smallest `i64` by `-1`. Indices and
slices are computed on `i64` and checked against the array first, so they do not.
-/

namespace Rekuiper.Sql

open Lib

variable {F : Type} [Float64 F]

def Panics {α : Type} (result : Except Failure α) : Prop := ∃ text, result = .error (.panic text)

def addI64 (i j : Int) : Except Failure Int :=
  if minI64 ≤ i + j ∧ i + j ≤ maxI64 then .ok (i + j)
  else .error (.panic "attempt to add with overflow")

/-- An offset from the end of an array if it is negative. -/
def offset (length i : Int) : Except Failure Int := if 0 ≤ i then .ok i else addI64 length i

/-- `arr[pos as usize]` -/
def itemAt (items : List (Value F)) (pos : Int) : Except Failure (Value F) :=
  if h : 0 ≤ pos ∧ pos < items.length then .ok (items.get ⟨pos.toNat, by omega⟩)
  else .error (.panic "index out of bounds")

/-- `arr[l as usize..h as usize]` -/
def itemsBetween (items : List (Value F)) (l h : Int) : Except Failure (List (Value F)) :=
  if 0 ≤ l ∧ l ≤ h ∧ h ≤ items.length then .ok ((items.take h.toNat).drop l.toNat)
  else .error (.panic "range out of bounds")

/-- `index_value`, with the panics of its arithmetic and its access. -/
def indexValuePanics (base index : Value F) : Except Failure (Value F) :=
  match base with
  | .array items =>
    match asIndexI64 index with
    | none => .ok .null
    | some i => do
      let pos ← offset items.length i
      if pos < 0 || items.length ≤ pos then return .null else itemAt items pos
  | .object fields =>
    match index with
    | .string key => .ok ((field key fields).getD .null)
    | _ => .ok .null
  | _ => .ok .null

def boundPanics (length default : Int) : Option (Value F) → Except Failure (Option Int)
  | none => .ok (some default)
  | some v =>
    match asIndexI64 v with
    | none => .ok none
    | some i => (offset length i).map some

/-- `slice_value`, with the panics of its arithmetic and its access. -/
def sliceValuePanics (base : Value F) (lo hi : Option (Value F)) : Except Failure (Value F) :=
  match base with
  | .array items => do
    let length : Int := items.length
    match ← boundPanics length 0 lo, ← boundPanics length length hi with
    | some l, some h =>
      let l := max 0 (min length l)
      let h := max 0 (min length h)
      if h ≤ l then return .array []
      else
        let between ← itemsBetween items l h
        return .array between
    | _, _ => return .null
  | _ => .ok .null

/-- A division of the smallest `i64` by `-1`. -/
def Overflows (left : Value F) (op : BinaryOperator) (right : Value F) : Prop :=
  (op = .div ∨ op = .mod) ∧ left.asI64 = some minI64 ∧ right.asI64 = some (-1)

/-- An integer of JSON is not below the range of `i64`. -/
def InRange (v : Value F) : Prop := ∀ n, v = .number (.int n) → minI64 ≤ n

-- ---- Operators

@[simp] theorem panics_ok {α : Type} (a : α) : ¬Panics (.ok a : Except Failure α) := nofun

@[simp] theorem panics_message {α : Type} (text : String) :
    ¬Panics (.error (.message text) : Except Failure α) := nofun

@[simp] theorem panics_panic {α : Type} (text : String) :
    Panics (.error (.panic text) : Except Failure α) := ⟨text, rfl⟩

@[simp] theorem panics_invalidOperation (left : Value F) (op : BinaryOperator) (right : Value F) :
    ¬Panics (invalidOperation left op right) := nofun

omit [Float64 F] in
theorem eq_of_asI64 {n : Number F} {i : Int} (h : n.asI64 = some i) : n = .int i := by
  cases n with
  | int m =>
    obtain ⟨-, rfl⟩ : m ≤ maxI64 ∧ m = i := by simpa [Number.asI64] using h
    rfl
  | float f => cases h

theorem divide_panics_iff (hminus : Float64.eq (Float64.ofInt (-1) : F) (Float64.ofInt 0) = false)
    (ints : Int → Int → Int) (floats : F → F → F) (overflow : String) (left : Value F)
    (op : BinaryOperator) (right : Value F) :
    Panics (divide ints floats overflow left op right) ↔
      left.asI64 = some minI64 ∧ right.asI64 = some (-1) := by
  unfold divide
  split
  · next a b =>
    simp only [Value.asI64]
    split
    · next hzero =>
      refine iff_of_false (panics_message _) ?_
      rintro ⟨-, hb⟩
      rw [eq_of_asI64 hb, Number.asF64, hminus] at hzero
      cases hzero
    · split
      · next i j ha hb =>
        rw [ha, hb]
        split
        · next hj => simp [hj]
        · split
          · next h => simp [h]
          · next h => simpa using h
      · next hints =>
        refine iff_of_false (panics_ok _) ?_
        rintro ⟨ha, hb⟩
        exact hints _ _ ha hb
  · next hnumbers =>
    refine iff_of_false (panics_invalidOperation _ _ _) ?_
    rintro ⟨ha, hb⟩
    cases left with
    | number a =>
      cases right with
      | number b => exact hnumbers a b rfl rfl
      | _ => cases hb
    | _ => cases ha

theorem evalBinaryOp_panics_iff
    (hminus : Float64.eq (Float64.ofInt (-1) : F) (Float64.ofInt 0) = false)
    (likeMatch : String → String → Bool) (left : Value F) (op : BinaryOperator) (right : Value F) :
    Panics (evalBinaryOp likeMatch left op right) ↔ Overflows left op right := by
  have hnull : (left.isNull || right.isNull) = true → ¬Overflows left op right := by
    rintro hnull ⟨-, hl, hr⟩
    cases left <;> cases right <;> simp_all [Value.isNull, Value.asI64]
  unfold evalBinaryOp
  split
  · next h => exact iff_of_false (panics_ok _) (hnull h)
  · cases op with
    | div | mod => simp [divide_panics_iff hminus, Overflows]
    | and | or =>
      refine iff_of_false ?_ (by simp [Overflows])
      simp only [logic]
      split <;> simp
    | eq | neq =>
      refine iff_of_false ?_ (by simp [Overflows])
      simp only [equality]
      split <;> simp
    | lt | lte | gt | gte =>
      refine iff_of_false ?_ (by simp [Overflows])
      simp only [comparison]
      split <;> simp
    | add | sub | mul =>
      refine iff_of_false ?_ (by simp [Overflows])
      simp only [arith]
      split
      · split <;> simp
      · simp
    | like =>
      refine iff_of_false ?_ (by simp [Overflows])
      simp only
      split <;> simp
    | bitAnd | bitOr | bitXor => exact iff_of_false (panics_ok _) (by simp [Overflows])

-- ---- Indices and slices

theorem asIndexI64_ge (hcast : ∀ f : F, minI64 ≤ Float64.toInt f) {v : Value F} (hv : InRange v)
    {i : Int} (h : asIndexI64 v = some i) : minI64 ≤ i := by
  unfold asIndexI64 at h
  split at h
  · next n =>
    split at h
    · cases h
      exact hv _ rfl
    · cases h
  · next f =>
    split at h
    · cases h
      exact hcast f
    · cases h
  · unfold parseI64 at h
    have := (Option.filter_eq_some_iff.mp h).2
    simp at this
    exact this.1
  · cases h

theorem offset_ok {length i : Int} (hzero : 0 ≤ length) (hlength : length ≤ maxI64)
    (hi : minI64 ≤ i) : offset length i = .ok (if 0 ≤ i then i else length + i) := by
  unfold offset addI64
  split
  · rfl
  · rw [if_pos (by omega)]

theorem indexValuePanics_ok (hcast : ∀ f : F, minI64 ≤ Float64.toInt f) {base index : Value F}
    (hlength : ∀ items, base = .array items → (items.length : Int) ≤ maxI64)
    (hindex : InRange index) : indexValuePanics base index = .ok (indexValue base index) := by
  cases base with
  | array items =>
    unfold indexValuePanics indexValue
    cases hi : asIndexI64 index with
    | none => rfl
    | some i =>
      simp only
      rw [offset_ok (by omega) (hlength items rfl) (asIndexI64_ge hcast hindex hi)]
      simp only [bind, Except.bind]
      generalize (if 0 ≤ i then i else (items.length : Int) + i) = pos
      by_cases hneg : pos < 0
      · simp [hneg, pure, Except.pure]
      by_cases hlast : (items.length : Int) ≤ pos
      · have : items.length ≤ pos.toNat := by omega
        simp [hneg, hlast, pure, Except.pure, this]
      · have hpos : pos.toNat < items.length := by omega
        have hin : 0 ≤ pos ∧ pos < items.length := ⟨by omega, by omega⟩
        simp only [hneg, hlast, itemAt, hin, decide_false, Bool.or_self, Bool.false_eq_true, if_false,
          dite_true, and_self, List.getD_eq_getElem _ _ hpos]
        rfl
  | object fields => cases index <;> rfl
  | _ => rfl

theorem boundPanics_ok (hcast : ∀ f : F, minI64 ≤ Float64.toInt f) {length default : Int}
    (hzero : 0 ≤ length) (hlength : length ≤ maxI64) {bound : Option (Value F)}
    (hbound : ∀ v ∈ bound, InRange v) :
    boundPanics length default bound = .ok (sliceBound length default bound) := by
  cases bound with
  | none => rfl
  | some v =>
    simp only [boundPanics, sliceBound]
    cases hi : asIndexI64 v with
    | none => rfl
    | some i =>
      simp only [offset_ok hzero hlength (asIndexI64_ge hcast (hbound v rfl) hi)]
      rfl

theorem sliceValuePanics_ok (hcast : ∀ f : F, minI64 ≤ Float64.toInt f) {base : Value F}
    {lo hi : Option (Value F)}
    (hlength : ∀ items, base = .array items → (items.length : Int) ≤ maxI64)
    (hlo : ∀ v ∈ lo, InRange v) (hhi : ∀ v ∈ hi, InRange v) :
    sliceValuePanics base lo hi = .ok (sliceValue base lo hi) := by
  cases base with
  | array items =>
    have hlen := hlength items rfl
    unfold sliceValuePanics sliceValue
    simp only [boundPanics_ok hcast (by omega) hlen hlo, boundPanics_ok hcast (by omega) hlen hhi,
      bind, Except.bind]
    cases sliceBound (items.length : Int) 0 lo with
    | none => rfl
    | some l =>
      cases sliceBound (items.length : Int) items.length hi with
      | none => rfl
      | some h =>
        simp only
        split
        · rfl
        · next hlt =>
          unfold itemsBetween
          rw [if_pos (by omega)]
          rfl
  | _ => rfl

-- ---- Everything

/-- No operator, index or slice panics, exactly if the operator does not divide the smallest `i64`
by `-1`. -/
theorem no_panic_iff (hminus : Float64.eq (Float64.ofInt (-1) : F) (Float64.ofInt 0) = false)
    (hcast : ∀ f : F, minI64 ≤ Float64.toInt f) (likeMatch : String → String → Bool)
    (left : Value F) (op : BinaryOperator) (right base index : Value F) (lo hi : Option (Value F))
    (hlength : ∀ items, base = .array items → (items.length : Int) ≤ maxI64)
    (hindex : InRange index) (hlo : ∀ v ∈ lo, InRange v) (hhi : ∀ v ∈ hi, InRange v) :
    (¬Panics (evalBinaryOp likeMatch left op right) ∧ ¬Panics (indexValuePanics base index) ∧
        ¬Panics (sliceValuePanics base lo hi)) ↔ ¬Overflows left op right := by
  rw [evalBinaryOp_panics_iff hminus, indexValuePanics_ok hcast hlength hindex,
    sliceValuePanics_ok hcast hlength hlo hhi]
  simp

theorem no_panic_half :
    (¬Panics (evalBinaryOp (fun _ _ => false) (ofI64 7 : Value ℚ) .div (ofI64 2)) ∧
        ¬Panics (indexValuePanics (.array [.null]) (ofI64 (-1) : Value ℚ)) ∧
        ¬Panics (sliceValuePanics (.array [.null]) none (some (ofI64 5 : Value ℚ)))) ↔
      ¬Overflows (ofI64 7 : Value ℚ) .div (ofI64 2) := by
  have hrange : ∀ i : Int, minI64 ≤ i → InRange (ofI64 i : Value ℚ) := by
    rintro i hi n hn
    cases hn
    exact hi
  refine no_panic_iff (by decide) (fun f => le_max_left _ _) _ _ _ _ _ _ _ _ ?_
    (hrange _ (by decide)) nofun ?_
  · rintro items ⟨rfl⟩
    decide
  · rintro v ⟨rfl⟩
    exact hrange _ (by decide)

theorem divide_smallest_panics :
    evalBinaryOp (fun _ _ => false) (ofI64 minI64 : Value ℚ) .div (ofI64 (-1)) =
      .error (.panic "attempt to divide with overflow") := rfl

end Rekuiper.Sql
