import Mathlib.Data.Option.Basic

/-!
# Loops

A loop goes from state to state as long as its step gives one. It ends if a measure gets smaller in
every round, and it does not if something that keeps it going is kept.
-/

namespace Rekuiper.Lib

variable {σ : Type} {next : σ → Option σ} {s s' : σ}

/-- The state after so many rounds, or after the last one. -/
def rounds (next : σ → Option σ) : Nat → σ → σ
  | 0, s => s
  | n + 1, s =>
    match next s with
    | some s' => rounds next n s'
    | none => s

def Terminates (next : σ → Option σ) (s : σ) : Prop := ∃ n, next (rounds next n s) = none

theorem rounds_of_none (h : next s = none) (n : Nat) : rounds next n s = s := by
  cases n with
  | zero => rfl
  | succ n => rw [rounds, h]

theorem terminates_of_none (h : next s = none) : Terminates next s := ⟨0, h⟩

theorem terminates_step (h : next s = some s') (hends : Terminates next s') : Terminates next s := by
  obtain ⟨n, hn⟩ := hends
  refine ⟨n + 1, ?_⟩
  rwa [rounds, h]

theorem terminates_of_measure (measure : σ → Nat)
    (h : ∀ s s', next s = some s' → measure s' < measure s) (s : σ) : Terminates next s := by
  induction hm : measure s using Nat.strongRecOn generalizing s with
  | ind m ih =>
    cases hnext : next s with
    | none => exact terminates_of_none hnext
    | some s' => exact terminates_step hnext (ih _ (hm ▸ h s s' hnext) s' rfl)

theorem not_terminates_of_invariant (P : σ → Prop) (h : ∀ s, P s → ∃ s', next s = some s' ∧ P s')
    (hs : P s) : ¬Terminates next s := by
  rintro ⟨n, hn⟩
  suffices hP : P (rounds next n s) by
    obtain ⟨s', hs', -⟩ := h _ hP
    rw [hn] at hs'
    cases hs'
  clear hn
  induction n generalizing s with
  | zero => exact hs
  | succ n ih =>
    obtain ⟨s', hs', hP⟩ := h s hs
    rw [rounds, hs']
    exact ih hP

-- ---- Loops that return

section Returning

variable {β : Type} {round : σ → σ ⊕ β} {b b' : β}

def loopFor (round : σ → σ ⊕ β) : σ → Nat → Option β
  | _, 0 => none
  | s, n + 1 =>
    match round s with
    | .inl s' => loopFor round s' n
    | .inr b => some b

/-- However many rounds above some number are allowed, this is the value. -/
def Gives (run : Nat → Option β) (b : β) : Prop := ∃ n, ∀ m, n ≤ m → run m = some b

theorem Gives.unique {run : Nat → Option β} (h : Gives run b) (h' : Gives run b') : b = b' := by
  obtain ⟨n, hn⟩ := h
  obtain ⟨n', hn'⟩ := h'
  have heq := (hn (n + n') (Nat.le_add_right n n')).symm.trans (hn' _ (Nat.le_add_left n' n))
  exact Option.some.inj heq

theorem gives_done (h : round s = .inr b) : Gives (loopFor round s) b := by
  refine ⟨1, fun m hm => ?_⟩
  obtain ⟨m, rfl⟩ : ∃ k, m = k + 1 := ⟨m - 1, by omega⟩
  simp [loopFor, h]

theorem gives_step (h : round s = .inl s') (hgives : Gives (loopFor round s') b) :
    Gives (loopFor round s) b := by
  obtain ⟨n, hn⟩ := hgives
  refine ⟨n + 1, fun m hm => ?_⟩
  obtain ⟨m, rfl⟩ : ∃ k, m = k + 1 := ⟨m - 1, by omega⟩
  simpa [loopFor, h] using hn m (by omega)

/-- A loop whose rounds keep an invariant and lower a rank returns, and what holds of a state if
it holds of the next one, and of the last one with what it returns, holds of the first one. -/
theorem gives_of_rank {γ : Type} {r : γ → γ → Prop} (hwf : WellFounded r) (rank : σ → γ)
    (Inv : σ → Prop) (Post : σ → β → Prop)
    (hstep : ∀ s s', Inv s → round s = .inl s' →
      Inv s' ∧ r (rank s') (rank s) ∧ ∀ b, Post s' b → Post s b)
    (hdone : ∀ s b, Inv s → round s = .inr b → Post s b) (h : Inv s) :
    ∃ b, Gives (loopFor round s) b ∧ Post s b := by
  induction hr : rank s using hwf.induction generalizing s with
  | _ _ ih =>
    cases hround : round s with
    | inr b => exact ⟨b, gives_done hround, hdone s b h hround⟩
    | inl s' =>
      obtain ⟨hinv, hrank, hpost⟩ := hstep s s' h hround
      obtain ⟨b, hgives, hb⟩ := ih (rank s') (hr ▸ hrank) hinv rfl
      exact ⟨b, gives_step hround hgives, hpost b hb⟩

theorem loopFor_eq_of_related {τ : Type} {other : τ → τ ⊕ β} (R : σ → τ → Prop)
    (hround : ∀ s t, R s t → Sum.LiftRel R Eq (round s) (other t)) {t : τ} (h : R s t) (n : Nat) :
    loopFor round s n = loopFor other t n := by
  induction n generalizing s t with
  | zero => rfl
  | succ n ih =>
    have hrel := hround s t h
    cases hs : round s with
    | inl s' =>
      cases ht : other t with
      | inl t' =>
        rw [hs, ht, Sum.liftRel_inl_inl] at hrel
        simpa [loopFor, hs, ht] using ih hrel
      | inr b => simp [hs, ht] at hrel
    | inr b =>
      cases ht : other t with
      | inl t' => simp [hs, ht] at hrel
      | inr b' =>
        rw [hs, ht, Sum.liftRel_inr_inr] at hrel
        simp [loopFor, hs, ht, hrel]

end Returning

end Rekuiper.Lib
