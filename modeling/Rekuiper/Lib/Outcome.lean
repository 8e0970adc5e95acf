import Mathlib.Data.List.Forall2

/-!
# Computations that may fail

Loops over lists whose steps may fail, and a stable sort whose comparison may fail.
-/

namespace Rekuiper.Lib

variable {α β γ δ ε : Type}

theorem bind_eq_ok {x : Except ε α} {f : α → Except ε β} {b : β} (h : x >>= f = .ok b) :
    ∃ a, x = .ok a ∧ f a = .ok b := by
  cases x with
  | error e => cases h
  | ok a => exact ⟨a, rfl, h⟩

theorem bind_eq_ok_iff {x : Except ε α} {f : α → Except ε β} {b : β} :
    x >>= f = .ok b ↔ ∃ a, x = .ok a ∧ f a = .ok b := by
  refine ⟨bind_eq_ok, ?_⟩
  rintro ⟨a, rfl, h⟩
  exact h

theorem bind_eq_error {x : Except ε α} {f : α → Except ε β} {e : ε} (h : x >>= f = .error e) :
    x = .error e ∨ ∃ a, x = .ok a ∧ f a = .error e := by
  cases x with
  | error e' =>
    cases h
    exact .inl rfl
  | ok a => exact .inr ⟨a, rfl, h⟩

theorem mapError_ok_iff {x : Except ε α} (f : ε → β) {a : α} :
    x.mapError f = .ok a ↔ x = .ok a := by
  cases x with
  | error e => exact iff_of_false nofun nofun
  | ok b => exact ⟨fun h => Except.ok.inj h ▸ rfl, fun h => Except.ok.inj h ▸ rfl⟩

theorem check_bind_ok_iff {x : Except ε Unit} {f : Unit → Except ε β} {b : β} :
    x >>= f = .ok b ↔ x = .ok () ∧ f () = .ok b := by
  cases x with
  | error e => exact iff_of_false nofun (fun h => nomatch h.1)
  | ok u => exact (and_iff_right rfl).symm

-- ---- Loops in which no step fails

theorem mapM_ok {f : α → Except ε β} {g : α → β} {xs : List α}
    (h : ∀ x ∈ xs, f x = .ok (g x)) : xs.mapM f = .ok (xs.map g) := by
  induction xs with
  | nil => rfl
  | cons x xs ih =>
    rw [List.mapM_cons, h x List.mem_cons_self, ih fun y hy => h y (List.mem_cons_of_mem _ hy)]
    rfl

theorem mapM_agree {f g : α → Except ε β} {xs : List α} {ys : List β} (h : xs.mapM f = .ok ys) :
    xs.mapM g = .ok ys ↔ ∀ x ∈ xs, g x = f x := by
  induction xs generalizing ys with
  | nil =>
    cases h
    simp [pure, Except.pure]
  | cons x xs ih =>
    rw [List.mapM_cons] at h ⊢
    obtain ⟨y, hy, h⟩ := bind_eq_ok h
    obtain ⟨ys, hys, h⟩ := bind_eq_ok h
    cases h
    rw [List.forall_mem_cons, ← ih hys, hy]
    constructor
    · intro hg
      obtain ⟨y', hy', hg⟩ := bind_eq_ok hg
      obtain ⟨ys', hys', hg⟩ := bind_eq_ok hg
      cases hg
      exact ⟨hy', hys'⟩
    · rintro ⟨hy', hys'⟩
      rw [hy', hys']
      rfl

theorem ok_of_mapM {f : α → Except ε β} {xs : List α} {ys : List β} (h : xs.mapM f = .ok ys) :
    ∀ x ∈ xs, ∃ y, f x = .ok y := by
  induction xs generalizing ys with
  | nil => simp
  | cons x xs ih =>
    rw [List.mapM_cons] at h
    obtain ⟨y, hy, h⟩ := bind_eq_ok h
    obtain ⟨ys, hys, -⟩ := bind_eq_ok h
    exact List.forall_mem_cons.mpr ⟨⟨y, hy⟩, ih hys⟩

theorem exists_of_mapM {f : α → Except ε β} {xs : List α} {ys : List β}
    (h : xs.mapM f = .ok ys) : ∀ y ∈ ys, ∃ x ∈ xs, f x = .ok y := by
  induction xs generalizing ys with
  | nil =>
    cases h
    simp
  | cons x xs ih =>
    rw [List.mapM_cons] at h
    obtain ⟨y, hy, h⟩ := bind_eq_ok h
    obtain ⟨ys, hys, h⟩ := bind_eq_ok h
    cases h
    refine List.forall_mem_cons.mpr ⟨⟨x, List.mem_cons_self, hy⟩, fun z hz => ?_⟩
    obtain ⟨x', hx', hz⟩ := ih hys z hz
    exact ⟨x', List.mem_cons_of_mem _ hx', hz⟩

theorem filterM_ok {p : α → Except ε Bool} {q : α → Bool} {xs : List α}
    (h : ∀ x ∈ xs, p x = .ok (q x)) : xs.filterM p = .ok (xs.filter q) := by
  suffices hloop : ∀ acc, xs.filterAuxM p acc = .ok ((xs.filter q).reverse ++ acc) by
    simp [List.filterM, hloop, bind, Except.bind, pure, Except.pure]
  induction xs with
  | nil => intro acc; rfl
  | cons x xs ih =>
    intro acc
    rw [List.filterAuxM, h x List.mem_cons_self]
    simp only [bind, Except.bind]
    rw [ih fun y hy => h y (List.mem_cons_of_mem _ hy)]
    cases hx : q x <;> simp [hx]

theorem foldlM_ok {f : β → α → Except ε β} {g : β → α → β} {xs : List α} {b : β}
    (h : ∀ b, ∀ x ∈ xs, f b x = .ok (g b x)) : xs.foldlM f b = .ok (xs.foldl g b) := by
  induction xs generalizing b with
  | nil => rfl
  | cons x xs ih =>
    rw [List.foldlM_cons, h b x List.mem_cons_self]
    exact ih fun b y hy => h b y (List.mem_cons_of_mem _ hy)

-- ---- Loops with an invariant

section
variable {f g : β → α → Except ε β} {P : β → Prop}

theorem foldlM_invariant {xs : List α} {b b' : β}
    (hf : ∀ b, P b → ∀ x ∈ xs, ∀ b', f b x = .ok b' → P b') (h : P b)
    (hrun : xs.foldlM f b = .ok b') : P b' := by
  induction xs generalizing b with
  | nil =>
    cases hrun
    exact h
  | cons x xs ih =>
    rw [List.foldlM_cons] at hrun
    obtain ⟨b₁, hb₁, hrun⟩ := bind_eq_ok hrun
    exact ih (fun b hb y hy => hf b hb y (List.mem_cons_of_mem _ hy))
      (hf b h x List.mem_cons_self b₁ hb₁) hrun

end

-- ---- Related outcomes

inductive Outcome (R : α → β → Prop) : Except ε α → Except ε β → Prop
  | ok {a : α} {b : β} : R a b → Outcome R (.ok a) (.ok b)
  | error (e : ε) : Outcome R (.error e) (.error e)

theorem Outcome.bind {R : α → β → Prop} {S : γ → δ → Prop} {x : Except ε α} {y : Except ε β}
    {f : α → Except ε γ} {g : β → Except ε δ} (hx : Outcome R x y)
    (hf : ∀ a b, R a b → Outcome S (f a) (g b)) : Outcome S (x >>= f) (y >>= g) := by
  cases hx with
  | ok hab => exact hf _ _ hab
  | error e => exact .error e

-- ---- Sorting

/-- Puts an element behind the ones that it is not less than, where the last comes first. -/
def insertTail (less : α → α → Except ε Bool) (x : α) : List α → Except ε (List α)
  | [] => .ok [x]
  | y :: rest => do
    if ← less x y then
      let rest ← insertTail less x rest
      return y :: rest
    else return x :: y :: rest

def sortBy (cmp : α → α → Except ε Ordering) (xs : List α) : Except ε (List α) := do
  let sorted ← xs.foldlM (fun sorted x =>
    insertTail (fun a b => do return (← cmp a b) == .lt) x sorted) []
  return sorted.reverse

variable {R : α → β → Prop}

theorem insertTail_outcome {less : α → α → Except ε Bool} {less' : β → β → Except ε Bool}
    (hless : ∀ a b a' b', R a a' → R b b' → less a b = less' a' b') {x : α} {x' : β}
    (hx : R x x') {xs : List α} {xs' : List β} (h : List.Forall₂ R xs xs') :
    Outcome (List.Forall₂ R) (insertTail less x xs) (insertTail less' x' xs') := by
  induction h with
  | nil => exact .ok (.cons hx .nil)
  | cons hy hrest ih =>
    unfold insertTail
    rw [hless _ _ _ _ hx hy]
    cases less' x' _ with
    | error e => exact .error e
    | ok b =>
      cases b with
      | true =>
        exact Outcome.bind (x := insertTail less x _) (y := insertTail less' x' _) ih
          fun _ _ hsorted => .ok (List.Forall₂.cons hy hsorted)
      | false => exact .ok (.cons hx (.cons hy hrest))

theorem sortBy_outcome {cmp : α → α → Except ε Ordering} {cmp' : β → β → Except ε Ordering}
    (hcmp : ∀ a b a' b', R a a' → R b b' → cmp a b = cmp' a' b') {xs : List α} {xs' : List β}
    (h : List.Forall₂ R xs xs') : Outcome (List.Forall₂ R) (sortBy cmp xs) (sortBy cmp' xs') := by
  refine Outcome.bind (R := List.Forall₂ R) ?_ fun _ _ hsorted =>
    .ok (List.forall₂_reverse_iff.mpr hsorted)
  suffices hloop : ∀ sorted sorted', List.Forall₂ R sorted sorted' →
      Outcome (List.Forall₂ R)
        (xs.foldlM (fun sorted x => insertTail (fun a b => do return (← cmp a b) == .lt) x sorted)
          sorted)
        (xs'.foldlM
          (fun sorted x => insertTail (fun a b => do return (← cmp' a b) == .lt) x sorted)
          sorted') from hloop [] [] .nil
  induction h with
  | nil => exact fun _ _ hsorted => .ok hsorted
  | cons hx hrest ih =>
    intro sorted sorted' hsorted
    rw [List.foldlM_cons, List.foldlM_cons]
    refine Outcome.bind (insertTail_outcome ?_ hx hsorted) ih
    intro a b a' b' ha hb
    rw [hcmp a b a' b' ha hb]

end Rekuiper.Lib
