import Mathlib.Data.List.DropRight
import Mathlib.Data.List.Induction

/-!
# Monotone queues

A queue from whose back an element removes those that it beats. It holds the elements that no
later one beats, and its front beats all of them.
-/

namespace Rekuiper.Lib

variable {α : Type} {beats : α → α → Bool}

def pushBack (beats : α → α → Bool) (queue : List α) (x : α) : List α :=
  queue.rdropWhile (beats x) ++ [x]

def maxima (beats : α → α → Bool) : List α → List α
  | [] => []
  | x :: xs => if xs.any (beats · x) then maxima beats xs else x :: maxima beats xs

/-- `beats` is a total preorder of some elements. -/
structure Preorders (beats : α → α → Bool) (xs : List α) : Prop where
  total : ∀ x ∈ xs, ∀ y ∈ xs, beats x y = true ∨ beats y x = true
  trans : ∀ x ∈ xs, ∀ y ∈ xs, ∀ z ∈ xs, beats x y = true → beats y z = true → beats x z = true

theorem Preorders.subset {xs ys : List α} (h : Preorders beats ys) (hsub : xs ⊆ ys) :
    Preorders beats xs where
  total x hx y hy := h.total x (hsub hx) y (hsub hy)
  trans x hx y hy z hz := h.trans x (hsub hx) y (hsub hy) z (hsub hz)

theorem maxima_sublist (xs : List α) : (maxima beats xs).Sublist xs := by
  induction xs with
  | nil => exact List.Sublist.slnil
  | cons x xs ih =>
    unfold maxima
    split
    · exact ih.cons x
    · exact ih.cons_cons x

theorem pairwise_maxima (xs : List α) :
    (maxima beats xs).Pairwise fun a b => beats b a = false := by
  induction xs with
  | nil => exact List.Pairwise.nil
  | cons x xs ih =>
    unfold maxima
    split
    · exact ih
    · rename_i hunbeaten
      refine List.pairwise_cons.mpr ⟨fun b hb => ?_, ih⟩
      rw [List.any_eq_true, not_exists] at hunbeaten
      have hmem := (maxima_sublist xs).subset hb
      simpa [hmem] using hunbeaten b

theorem maxima_concat (xs : List α) (x : α) :
    maxima beats (xs ++ [x]) = (maxima beats xs).filter (fun a => !beats x a) ++ [x] := by
  induction xs with
  | nil => rfl
  | cons a xs ih =>
    rw [List.cons_append, maxima, maxima, ih, List.any_append]
    cases hlater : xs.any (beats · a) <;> cases hx : beats x a <;> simp [hx]

theorem maxima_eq_nil_iff {xs : List α} : maxima beats xs = [] ↔ xs = [] := by
  induction xs using List.reverseRecOn with
  | nil => simp [maxima]
  | append_singleton xs x _ => simp [maxima_concat]

theorem rdropWhile_eq_filter {p : α → Bool} {xs : List α}
    (h : xs.Pairwise fun a b => p a = true → p b = true) :
    xs.rdropWhile p = xs.filter fun a => !p a := by
  induction xs using List.reverseRecOn with
  | nil => rfl
  | append_singleton xs x ih =>
    rw [List.pairwise_append] at h
    rw [List.filter_append]
    by_cases hx : p x = true
    · rw [List.rdropWhile_concat_pos _ _ _ hx, ih h.1]
      simp [hx]
    · have hkept : xs.filter (fun a => !p a) = xs := by
        rw [List.filter_eq_self]
        intro a ha
        cases hp : p a with
        | false => rfl
        | true => exact absurd (h.2.2 a ha x List.mem_cons_self hp) hx
      rw [List.rdropWhile_concat_neg _ _ _ hx, hkept]
      simp [hx]

theorem filter_append_filter_not {p : α → Bool} {xs : List α}
    (h : xs.Pairwise fun a b => p b = true → p a = true) :
    xs.filter p ++ xs.filter (fun a => !p a) = xs := by
  induction xs with
  | nil => rfl
  | cons x xs ih =>
    rw [List.pairwise_cons] at h
    cases hx : p x with
    | true => simp [hx, ih h.2]
    | false =>
      have hlater : ∀ y ∈ xs, p y = false := by
        intro y hy
        cases hp : p y with
        | false => rfl
        | true =>
          rw [h.1 y hy hp] at hx
          cases hx
      rw [List.filter_eq_nil_iff.mpr, List.filter_eq_self.mpr, List.nil_append]
      · exact List.forall_mem_cons.mpr ⟨by simp [hx], fun y hy => by simp [hlater y hy]⟩
      · exact List.forall_mem_cons.mpr ⟨by simp [hx], fun y hy => by simp [hlater y hy]⟩

theorem pushBack_maxima {xs : List α} {x : α} (h : Preorders beats (xs ++ [x])) :
    pushBack beats (maxima beats xs) x = maxima beats (xs ++ [x]) := by
  unfold pushBack
  rw [maxima_concat, rdropWhile_eq_filter]
  refine (pairwise_maxima xs).imp_of_mem fun {a b} ha hb hunbeaten hbeats => ?_
  have hmem {c : α} (hc : c ∈ maxima beats xs) : c ∈ xs ++ [x] :=
    List.mem_append_left _ ((maxima_sublist xs).subset hc)
  -- `x` beats `a`, which `b` does not beat, so `a` beats `b`.
  have hab := (h.total a (hmem ha) b (hmem hb)).resolve_right (by simp [hunbeaten])
  exact h.trans x (by simp) a (hmem ha) b (hmem hb) hbeats hab

theorem dropWhile_maxima {old : α → Bool} {xs : List α}
    (h : xs.Pairwise fun a b => old b = true → old a = true) :
    (maxima beats xs).dropWhile old = maxima beats (xs.dropWhile old) := by
  induction xs with
  | nil => rfl
  | cons x xs ih =>
    rw [List.pairwise_cons] at h
    cases hx : old x with
    | true =>
      rw [List.dropWhile_cons_of_pos hx, ← ih h.2, maxima]
      split
      · rfl
      · rw [List.dropWhile_cons_of_pos hx]
    | false =>
      rw [List.dropWhile_cons_of_neg (by simp [hx])]
      cases hqueue : maxima beats (x :: xs) with
      | nil => rfl
      | cons y ys =>
        have hsub : (maxima beats (x :: xs)).Sublist (x :: xs) := maxima_sublist (x :: xs)
        rw [hqueue] at hsub
        have hy : y ∈ x :: xs := hsub.subset List.mem_cons_self
        refine List.dropWhile_cons_of_neg fun hold => ?_
        rcases List.mem_cons.mp hy with rfl | hy
        · rw [hx] at hold
          cases hold
        · rw [h.1 y hy hold] at hx
          cases hx

theorem foldl_beats {xs : List α} {x : α} (h : Preorders beats (x :: xs)) :
    xs.foldl (fun best y => if beats best y then best else y) x ∈ x :: xs ∧
      ∀ y ∈ x :: xs, beats (xs.foldl (fun best y => if beats best y then best else y) x) y := by
  induction xs using List.reverseRecOn with
  | nil => simpa using h.total x (by simp) x (by simp)
  | append_singleton xs y ih =>
    have hy : y ∈ x :: (xs ++ [y]) := by simp
    have hsub : x :: xs ⊆ x :: (xs ++ [y]) := by
      rw [← List.cons_append]
      exact List.subset_append_left _ _
    obtain ⟨hmem, hbest⟩ := ih (h.subset hsub)
    rw [List.foldl_append]
    generalize xs.foldl (fun best y => if beats best y then best else y) x = best at hmem hbest ⊢
    rw [List.foldl_cons, List.foldl_nil]
    rw [← List.cons_append]
    split
    · rename_i hkeep
      refine ⟨List.mem_append_left _ hmem, List.forall_mem_append.mpr ⟨hbest, ?_⟩⟩
      simpa using hkeep
    · rename_i hreplace
      have hyb : beats y best = true := (h.total y hy best (hsub hmem)).resolve_right hreplace
      refine ⟨by simp, List.forall_mem_append.mpr ⟨fun z hz => ?_, ?_⟩⟩
      · exact h.trans y hy best (hsub hmem) z (hsub hz) hyb (hbest z hz)
      · simpa using h.total y hy y hy

theorem head_maxima {xs : List α} (h : Preorders beats xs) (hne : xs ≠ []) :
    ∃ m, (maxima beats xs).head? = some m ∧ m ∈ xs ∧ ∀ x ∈ xs, beats m x = true := by
  induction xs with
  | nil => exact absurd rfl hne
  | cons x xs ih =>
    have hrest : Preorders beats xs := h.subset (List.subset_cons_self x xs)
    have hself : beats x x = true := (h.total x (by simp) x (by simp)).elim id id
    unfold maxima
    split
    · rename_i hbeaten
      obtain ⟨y, hy, hyx⟩ := List.any_eq_true.mp hbeaten
      obtain ⟨m, hm, hmem, hall⟩ := ih hrest (List.ne_nil_of_mem hy)
      refine ⟨m, hm, List.mem_cons_of_mem _ hmem, List.forall_mem_cons.mpr ⟨?_, hall⟩⟩
      exact h.trans m (List.mem_cons_of_mem _ hmem) y (List.mem_cons_of_mem _ hy) x (by simp)
        (hall y hy) hyx
    · rename_i hunbeaten
      refine ⟨x, rfl, List.mem_cons_self, List.forall_mem_cons.mpr ⟨hself, fun y hy => ?_⟩⟩
      refine (h.total x (by simp) y (List.mem_cons_of_mem _ hy)).resolve_right fun hyx => ?_
      exact hunbeaten (List.any_eq_true.mpr ⟨y, hy, hyx⟩)

end Rekuiper.Lib
