import Mathlib.Data.List.Forall2
import Mathlib.Logic.Relation

/-!
# Runs that extend a list

A property of every step of a run, lists that are compared element by element, and the list that a
depth-first search leaves behind: each element comes after all that it leads to, so that none lies
on a cycle.
-/

namespace Rekuiper.Lib

variable {α β γ σ : Type}

-- ---- Every step

/-- Each step of a run from `s` has the property, in the state that it starts from. -/
def EveryStep (step : σ → α → σ) (P : σ → α → Prop) : σ → List α → Prop
  | _, [] => True
  | s, a :: as => P s a ∧ EveryStep step P (step s a) as

theorem everyStep_iff {step : σ → α → σ} {P Q : σ → α → Prop} {Inv : σ → Prop} {as : List α}
    (hstep : ∀ s, Inv s → ∀ a ∈ as, Inv (step s a)) (hiff : ∀ s, Inv s → ∀ a ∈ as, P s a ↔ Q s a)
    {s : σ} (hs : Inv s) : EveryStep step P s as ↔ EveryStep step Q s as := by
  induction as generalizing s with
  | nil => exact Iff.rfl
  | cons a as ih =>
    refine and_congr (hiff s hs a List.mem_cons_self) (ih ?_ ?_ (hstep s hs a List.mem_cons_self))
    · exact fun s hs b hb => hstep s hs b (List.mem_cons_of_mem _ hb)
    · exact fun s hs b hb => hiff s hs b (List.mem_cons_of_mem _ hb)

-- ---- Element by element

variable {R S : α → β → Prop} {xs xs' : List α} {ys ys' : List β}

theorem exists_of_forall₂ (h : List.Forall₂ R xs ys) {y : β} (hy : y ∈ ys) :
    ∃ x ∈ xs, R x y := by
  induction h with
  | nil => cases hy
  | cons hhead _ ih =>
    rcases List.mem_cons.mp hy with rfl | hrest
    · exact ⟨_, List.mem_cons_self, hhead⟩
    · obtain ⟨x, hx, hR⟩ := ih hrest
      exact ⟨x, List.mem_cons_of_mem _ hx, hR⟩

theorem exists_of_forall₂_left (h : List.Forall₂ R xs ys) {x : α} (hx : x ∈ xs) :
    ∃ y ∈ ys, R x y :=
  exists_of_forall₂ (R := flip R) h.flip hx

theorem forall₂_iff_forall {P : α → Prop} (h : List.Forall₂ R xs ys)
    (hiff : ∀ x ∈ xs, ∀ y, R x y → (S x y ↔ P x)) : List.Forall₂ S xs ys ↔ ∀ x ∈ xs, P x := by
  induction h with
  | nil => exact iff_of_true .nil fun _ hx => nomatch hx
  | cons hhead _ ih =>
    rw [List.forall₂_cons, List.forall_mem_cons, hiff _ List.mem_cons_self _ hhead,
      ih fun x hx => hiff x (List.mem_cons_of_mem _ hx)]

theorem forall₂_comp {T : β → γ → Prop} {U : α → γ → Prop} {zs : List γ}
    (hcomp : ∀ x y z, R x y → T y z → U x z) (h : List.Forall₂ R xs ys)
    (h' : List.Forall₂ T ys zs) : List.Forall₂ U xs zs := by
  induction h generalizing zs with
  | nil =>
    cases h'
    exact .nil
  | cons hhead _ ih =>
    cases h' with
    | cons hhead' hrest' => exact .cons (hcomp _ _ _ hhead hhead') (ih hrest')

theorem forall₂_concat {x : α} (h : List.Forall₂ R (xs ++ [x]) ys) :
    ∃ ys' y, ys = ys' ++ [y] ∧ List.Forall₂ R xs ys' ∧ R x y := by
  induction xs generalizing ys with
  | nil =>
    cases h with
    | cons hhead hnil =>
      cases hnil
      exact ⟨[], _, rfl, .nil, hhead⟩
  | cons z xs ih =>
    cases h with
    | cons hhead hrest =>
      obtain ⟨ys', y, rfl, hys, hy⟩ := ih hrest
      exact ⟨_ :: ys', y, rfl, .cons hhead hys, hy⟩

theorem forall₂_append_iff (hlength : xs.length = ys.length) :
    List.Forall₂ R (xs ++ xs') (ys ++ ys') ↔ List.Forall₂ R xs ys ∧ List.Forall₂ R xs' ys' := by
  induction xs generalizing ys with
  | nil =>
    rw [List.length_nil, eq_comm, List.length_eq_zero_iff] at hlength
    subst hlength
    simp
  | cons x xs ih =>
    cases ys with
    | nil => cases hlength
    | cons y ys =>
      rw [List.cons_append, List.cons_append, List.forall₂_cons, List.forall₂_cons,
        ih (Nat.succ.inj hlength), and_assoc]

-- ---- Postorders

section
open Relation

variable {α : Type} {r : α → α → Prop}

def Postorder (r : α → α → Prop) : List α → Prop
  | [] => True
  | a :: l => (∀ b, r a b → b ∈ l) ∧ Postorder r l

namespace Postorder

theorem closed {l : List α} (h : Postorder r l) {a b : α} (ha : a ∈ l) (hab : r a b) : b ∈ l := by
  induction l with
  | nil => cases ha
  | cons c l ih =>
    refine List.mem_cons_of_mem c ?_
    rcases List.mem_cons.mp ha with rfl | ha
    · exact h.1 b hab
    · exact ih h.2 ha

theorem reaches {l : List α} (h : Postorder r l) {a b : α} (ha : a ∈ l)
    (hab : ReflTransGen r a b) : b ∈ l := by
  induction hab with
  | refl => exact ha
  | tail _ hstep ih => exact h.closed ih hstep

theorem acyclic {l : List α} (h : Postorder r l) {a : α} (ha : a ∈ l) : ¬TransGen r a a := by
  induction l with
  | nil => cases ha
  | cons c l ih =>
    intro hcycle
    rcases List.mem_cons.mp ha with rfl | ha
    · -- the next element on the cycle is older, and leads back
      obtain ⟨b, hab, hba⟩ := TransGen.head'_iff.mp hcycle
      exact ih h.2 (h.2.reaches (h.1 b hab) hba) hcycle
    · exact ih h.2 ha hcycle

end Postorder

end

end Rekuiper.Lib
