import Mathlib.Data.Set.Lattice
import Mathlib.Order.CompletePartialOrder

/-!
# Footprints

A computation on a state that is read and written under keys. Its footprint are the keys whose
entries decide what it does, and those among them that it may change. Computations whose footprints
do not overlap do not notice each other, however their steps are interleaved.
-/

namespace Rekuiper.Lib

variable {σ κ β ρ α ι ε : Type}

/-- The keys that a computation reads, and the ones among them that it writes. -/
structure Footprint (κ : Type) where
  reads : Set κ
  writes : Set κ
  reads_writes : writes ⊆ reads

namespace Footprint

def touching (keys : Set κ) : Footprint κ := ⟨keys, keys, Set.Subset.rfl⟩

def Within (φ ψ : Footprint κ) : Prop := φ.reads ⊆ ψ.reads ∧ φ.writes ⊆ ψ.writes

/-- Neither of two footprints writes what the other reads. -/
def Separate (φ ψ : Footprint κ) : Prop := Disjoint φ.writes ψ.reads ∧ Disjoint ψ.writes φ.reads

theorem Separate.symm {φ ψ : Footprint κ} (h : φ.Separate ψ) : ψ.Separate φ := ⟨h.2, h.1⟩

end Footprint

/-- The two states hold the same under these keys. -/
def Agree (look : σ → κ → Option β) (keys : Set κ) (s t : σ) : Prop :=
  ∀ k ∈ keys, look s k = look t k

namespace Agree

variable {look : σ → κ → Option β} {keys keys' : Set κ} {s t u : σ}

theorem refl (look : σ → κ → Option β) (keys : Set κ) (s : σ) : Agree look keys s s :=
  fun _ _ => rfl

theorem trans (h : Agree look keys s t) (h' : Agree look keys t u) : Agree look keys s u :=
  fun k hk => (h k hk).trans (h' k hk)

theorem mono (h : Agree look keys' s t) (hkeys : keys ⊆ keys') : Agree look keys s t :=
  fun k hk => h k (hkeys hk)

end Agree

/-- On states with the invariant the computation depends on nothing but what it reads, and
changes nothing but what it writes. -/
structure Confined (look : σ → κ → Option β) (Inv : σ → Prop) (φ : Footprint κ)
    (x : σ → ρ × σ) : Prop where
  keeps : ∀ s, Inv s → Inv (x s).2
  frame : ∀ s, Inv s → ∀ k ∉ φ.writes, look (x s).2 k = look s k
  agree : ∀ s t, Inv s → Inv t → Agree look φ.reads s t →
    (x s).1 = (x t).1 ∧ Agree look φ.reads (x s).2 (x t).2

namespace Confined

variable {look : σ → κ → Option β} {Inv : σ → Prop} {φ ψ : Footprint κ}

theorem mono {x : σ → ρ × σ} (h : Confined look Inv φ x) (hφ : φ.Within ψ) :
    Confined look Inv ψ x where
  keeps := h.keeps
  frame s hs k hk := h.frame s hs k fun hw => hk (hφ.2 hw)
  agree s t hs ht hst := by
    obtain ⟨hresult, hagree⟩ := h.agree s t hs ht (hst.mono hφ.1)
    refine ⟨hresult, fun k hk => ?_⟩
    by_cases hw : k ∈ φ.writes
    · exact hagree k (φ.reads_writes hw)
    · rw [h.frame s hs k hw, h.frame t ht k hw, hst k hk]

theorem unseen {x : σ → ρ × σ} (h : Confined look Inv φ x) (hφψ : φ.Separate ψ) {s : σ}
    (hs : Inv s) : Agree look ψ.reads (x s).2 s := fun k hk =>
  h.frame s hs k fun hw => Set.disjoint_left.mp hφψ.1 hw hk

theorem const (r : ρ) : Confined look Inv φ fun s => (r, s) where
  keeps _ hs := hs
  frame _ _ _ _ := rfl
  agree _ _ _ _ hst := ⟨rfl, hst⟩

theorem congr {x y : σ → ρ × σ} (h : Confined look Inv φ y) (hxy : ∀ s, Inv s → x s = y s) :
    Confined look Inv φ x where
  keeps s hs := hxy s hs ▸ h.keeps s hs
  frame s hs := hxy s hs ▸ h.frame s hs
  agree s t hs ht := hxy s hs ▸ hxy t ht ▸ h.agree s t hs ht

theorem bind_of {x : ExceptT ε (StateM σ) α} {f : α → ExceptT ε (StateM σ) ρ}
    (hx : Confined look Inv φ (x : σ → Except ε α × σ))
    (hf : ∀ a s, (x s).1 = .ok a → Confined look Inv φ (f a : σ → Except ε ρ × σ)) :
    Confined look Inv φ (x >>= f : σ → Except ε ρ × σ) := by
  have hrun : ∀ s, (x >>= f) s = match x s with
      | (.ok a, s') => f a s'
      | (.error e, s') => (.error e, s') := by
    intro s
    change (match x s with | (r, s') => ExceptT.bindCont f r s') = _
    obtain ⟨r, s'⟩ := x s
    cases r <;> rfl
  constructor
  · intro s hs
    have hs' := hx.keeps s hs
    rw [hrun]
    have hfs := fun a => hf a s
    generalize x s = result at hs' hfs
    obtain ⟨r, s'⟩ := result
    cases r with
    | ok a => exact (hfs a rfl).keeps s' hs'
    | error e => exact hs'
  · intro s hs k hk
    have hs' := hx.keeps s hs
    have hk' := hx.frame s hs k hk
    rw [hrun]
    have hfs := fun a => hf a s
    generalize x s = result at hs' hk' hfs
    obtain ⟨r, s'⟩ := result
    cases r with
    | ok a => exact ((hfs a rfl).frame s' hs' k hk).trans hk'
    | error e => exact hk'
  · intro s t hs ht hst
    have hs' := hx.keeps s hs
    have ht' := hx.keeps t ht
    obtain ⟨hresult, hst'⟩ := hx.agree s t hs ht hst
    rw [hrun, hrun]
    have hfs := fun a => hf a s
    generalize x s = result at hs' hresult hst' hfs
    generalize x t = result' at ht' hresult hst'
    obtain ⟨r, s'⟩ := result
    obtain ⟨r', t'⟩ := result'
    obtain rfl : r = r' := hresult
    cases r with
    | ok a => exact (hfs a rfl).agree s' t' hs' ht' hst'
    | error e => exact ⟨rfl, hst'⟩

end Confined

-- ---- Runs

/-- The results of a computation on each input, in order. -/
def results (f : ι → σ → ρ × σ) : List ι → σ → List ρ
  | [], _ => []
  | i :: is, s => (f i s).1 :: results f is (f i s).2

def both (f : ι → σ → ρ × σ) (g : ι → σ → α × σ) (i : ι) (s : σ) : (ρ × α) × σ :=
  let (a, s') := f i s
  let (b, s'') := g i s'
  ((a, b), s'')

section
variable {look : σ → κ → Option β} {Inv : σ → Prop} {φ ψ : Footprint κ}

theorem results_both {f : ι → σ → ρ × σ} {g : ι → σ → α × σ} (hφψ : φ.Separate ψ) {is : List ι}
    (hf : ∀ i ∈ is, Confined look Inv φ (f i)) (hg : ∀ i ∈ is, Confined look Inv ψ (g i))
    {s s₁ s₂ : σ} (hs : Inv s) (hs₁ : Inv s₁) (hs₂ : Inv s₂) (h₁ : Agree look φ.reads s s₁)
    (h₂ : Agree look ψ.reads s s₂) :
    results (both f g) is s = (results f is s₁).zip (results g is s₂) := by
  induction is generalizing s s₁ s₂ with
  | nil => rfl
  | cons i is ih =>
    have hfi := hf i List.mem_cons_self
    have hgi := hg i List.mem_cons_self
    obtain ⟨hresult₁, hagree₁⟩ := hfi.agree s s₁ hs hs₁ h₁
    have hmid := hfi.keeps s hs
    obtain ⟨hresult₂, hagree₂⟩ := hgi.agree (f i s).2 s₂ hmid hs₂ ((hfi.unseen hφψ hs).trans h₂)
    have hrest := ih (fun j hj => hf j (List.mem_cons_of_mem _ hj))
      (fun j hj => hg j (List.mem_cons_of_mem _ hj)) (hgi.keeps _ hmid) (hfi.keeps s₁ hs₁)
      (hgi.keeps s₂ hs₂) ((hgi.unseen hφψ.symm hmid).trans hagree₁) hagree₂
    change ((f i s).1, (g i (f i s).2).1) :: _ = _
    rw [hresult₁, hresult₂]
    exact congrArg _ hrest

/-- The results for the inputs of one kind are the same without the inputs of other kinds, if
these write nothing that the first read. -/
theorem results_filter {f : ι → σ → ρ × σ} (p : ι → Bool) {is : List ι}
    (hf : ∀ i ∈ is, p i = true → Confined look Inv φ (f i))
    (hother : ∀ i ∈ is, p i = false →
      (∀ s, Inv s → Inv (f i s).2) ∧ ∀ s, Inv s → Agree look φ.reads (f i s).2 s)
    {s t : σ} (hs : Inv s) (ht : Inv t) (hst : Agree look φ.reads s t) :
    ((is.zip (results f is s)).filter fun entry => p entry.1) =
      (is.filter p).zip (results f (is.filter p) t) := by
  induction is generalizing s t with
  | nil => rfl
  | cons i is ih =>
    have ih' := @ih (fun j hj => hf j (List.mem_cons_of_mem _ hj))
      (fun j hj => hother j (List.mem_cons_of_mem _ hj))
    rw [results, List.zip_cons_cons, List.filter_cons, List.filter_cons]
    cases hp : p i with
    | true =>
      have hfi := hf i List.mem_cons_self hp
      obtain ⟨hresult, hagree⟩ := hfi.agree s t hs ht hst
      have hrest := ih' (hfi.keeps s hs) (hfi.keeps t ht) hagree
      simp only [if_true]
      rw [hrest, results, List.zip_cons_cons, hresult]
    | false =>
      obtain ⟨hkeeps, hsame⟩ := hother i List.mem_cons_self hp
      simp only [Bool.false_eq_true, if_false]
      exact ih' (hkeeps s hs) ht ((hsame s hs).trans hst)

end

end Rekuiper.Lib
