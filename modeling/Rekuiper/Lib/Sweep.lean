import Mathlib.Data.List.Nodup

/-!
# Sweeps

A loop over distinct keys in which every step works under its own key. What is seen under a
key afterwards is the effect of the one step for that key.
-/

namespace Rekuiper.Lib

variable {σ α κ V : Type}

/-- Under an invariant, every step keeps the invariant and changes what is seen under its
own key by its effect, and under no other key. -/
structure Sweep (P : σ → Prop) (view : σ → κ → V) (key : α → κ) (step : σ → α → σ)
    (effect : α → V → V) (xs : List α) : Prop where
  keeps : ∀ s, P s → ∀ x ∈ xs, P (step s x)
  own : ∀ s, P s → ∀ x ∈ xs, view (step s x) (key x) = effect x (view s (key x))
  frame : ∀ s, P s → ∀ x ∈ xs, ∀ k, k ≠ key x → view (step s x) k = view s k

namespace Sweep

variable {P : σ → Prop} {view : σ → κ → V} {key : α → κ} {step : σ → α → σ} {effect : α → V → V}
  {x : α} {xs : List α} {s : σ}

theorem tail (h : Sweep P view key step effect (x :: xs)) :
    Sweep P view key step effect xs where
  keeps s hs y hy := h.keeps s hs y (List.mem_cons_of_mem _ hy)
  own s hs y hy := h.own s hs y (List.mem_cons_of_mem _ hy)
  frame s hs y hy := h.frame s hs y (List.mem_cons_of_mem _ hy)

theorem foldl_keeps (h : Sweep P view key step effect xs) (hs : P s) : P (xs.foldl step s) := by
  induction xs generalizing s with
  | nil => exact hs
  | cons x xs ih => exact ih h.tail (h.keeps s hs x List.mem_cons_self)

theorem foldl_frame (h : Sweep P view key step effect xs) (hs : P s) {k : κ}
    (hk : k ∉ xs.map key) : view (xs.foldl step s) k = view s k := by
  induction xs generalizing s with
  | nil => rfl
  | cons x xs ih =>
    rw [List.map_cons, List.mem_cons, not_or] at hk
    rw [List.foldl_cons, ih h.tail (h.keeps s hs x List.mem_cons_self) hk.2]
    exact h.frame s hs x List.mem_cons_self k hk.1

theorem foldl_own (h : Sweep P view key step effect xs) (hs : P s)
    (hnodup : (xs.map key).Nodup) (hx : x ∈ xs) :
    view (xs.foldl step s) (key x) = effect x (view s (key x)) := by
  induction xs generalizing s with
  | nil => cases hx
  | cons y xs ih =>
    rw [List.map_cons, List.nodup_cons] at hnodup
    have hkeeps := h.keeps s hs y List.mem_cons_self
    rw [List.foldl_cons]
    rcases List.mem_cons.mp hx with rfl | hx
    · rw [foldl_frame h.tail hkeeps hnodup.1, h.own s hs x List.mem_cons_self]
    · have hne : key x ≠ key y := fun heq => hnodup.1 (heq ▸ List.mem_map_of_mem hx)
      rw [ih h.tail hkeeps hnodup.2 hx, h.frame s hs y List.mem_cons_self _ hne]

end Sweep

/-- Under an invariant, every step for a key under which nothing is seen makes the key's
value appear there, and changes nothing else. -/
structure Inserting [DecidableEq κ] (P : σ → Prop) (view : σ → κ → Option V) (key : α → κ)
    (value : κ → Option V) (step : σ → α → σ) (xs : List α) : Prop where
  keeps : ∀ s, P s → ∀ x ∈ xs, view s (key x) = none → P (step s x)
  view_step : ∀ s, P s → ∀ x ∈ xs, view s (key x) = none → ∀ k,
    view (step s x) k = if k = key x then value k else view s k

theorem Inserting.foldl [DecidableEq κ] {P : σ → Prop} {view : σ → κ → Option V} {key : α → κ}
    {value : κ → Option V} {step : σ → α → σ} {xs : List α}
    (h : Inserting P view key value step xs) (hnodup : (xs.map key).Nodup) {s : σ} (hs : P s)
    (hnew : ∀ x ∈ xs, view s (key x) = none) :
    P (xs.foldl step s) ∧
      ∀ k, view (xs.foldl step s) k = if k ∈ xs.map key then value k else view s k := by
  induction xs generalizing s with
  | nil => exact ⟨hs, fun _ => rfl⟩
  | cons x xs ih =>
    rw [List.map_cons, List.nodup_cons] at hnodup
    obtain ⟨hx, hxs⟩ := List.forall_mem_cons.mp hnew
    have hview := h.view_step s hs x List.mem_cons_self hx
    have htail : Inserting P view key value step xs :=
      ⟨fun s hs y hy => h.keeps s hs y (List.mem_cons_of_mem _ hy),
        fun s hs y hy => h.view_step s hs y (List.mem_cons_of_mem _ hy)⟩
    have hother : ∀ y ∈ xs, key y ≠ key x := fun y hy heq =>
      hnodup.1 (heq ▸ List.mem_map_of_mem hy)
    obtain ⟨hkeeps, hrest⟩ := ih htail hnodup.2 (h.keeps s hs x List.mem_cons_self hx)
      fun y hy => ((hview (key y)).trans (if_neg (hother y hy))).trans (hxs y hy)
    refine ⟨hkeeps, fun k => ?_⟩
    rw [List.foldl_cons, hrest, hview]
    by_cases hk : k ∈ xs.map key
    · simp [hk]
    · simp [hk]

theorem foldl_same {β : Type} {f : σ → β} {step : σ → α → σ} (h : ∀ s x, f (step s x) = f s)
    (xs : List α) (s : σ) : f (xs.foldl step s) = f s := by
  induction xs generalizing s with
  | nil => rfl
  | cons x xs ih => rw [List.foldl_cons, ih, h]

theorem foldl_fixed {step : σ → α → σ} {xs : List α} {s : σ} (h : ∀ x ∈ xs, step s x = s) :
    xs.foldl step s = s := by
  induction xs with
  | nil => rfl
  | cons x xs ih =>
    rw [List.foldl_cons, h x List.mem_cons_self]
    exact ih fun y hy => h y (List.mem_cons_of_mem _ hy)

end Rekuiper.Lib
