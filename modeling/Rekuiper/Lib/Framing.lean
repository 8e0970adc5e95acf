import Mathlib.Data.List.Basic

/-!
# Length-prefixed frames

A frame is a header that tells a length, and as many symbols. What a sequence of
frames was made of can be read off their concatenation, as headers have one width
and tell lengths apart.
-/

namespace Rekuiper.Lib

variable {α β : Type}

def framed (header : Nat → List β) (items : List (List β)) : List β :=
  items.flatMap fun item => header item.length ++ item

/-- Headers of one width that tell the lengths below `bound` apart. -/
structure TellsLength (header : Nat → List β) (width bound : Nat) : Prop where
  width_pos : 0 < width
  length_eq : ∀ n, (header n).length = width
  inj : ∀ m n, m < bound → n < bound → header m = header n → m = n

theorem TellsLength.framed_inj {header : Nat → List β} {width bound : Nat}
    (ht : TellsLength header width bound) {xs ys : List (List β)}
    (hx : ∀ x ∈ xs, x.length < bound) (hy : ∀ y ∈ ys, y.length < bound)
    (h : framed header xs = framed header ys) : xs = ys := by
  have hne : ∀ (item : List β) (rest : List (List β)), framed header (item :: rest) ≠ [] := by
    intro item rest hnil
    have hlen := congrArg List.length hnil
    have hwidth := ht.length_eq item.length
    have hpos := ht.width_pos
    simp only [framed, List.flatMap_cons, List.length_append, List.length_nil] at hlen
    omega
  induction xs generalizing ys with
  | nil =>
    cases ys with
    | nil => rfl
    | cons y ys => exact absurd h.symm (hne y ys)
  | cons x xs ih =>
    cases ys with
    | nil => exact absurd h (hne x xs)
    | cons y ys =>
      obtain ⟨hxlt, hxs⟩ := List.forall_mem_cons.mp hx
      obtain ⟨hylt, hys⟩ := List.forall_mem_cons.mp hy
      simp only [framed, List.flatMap_cons, List.append_assoc] at h
      obtain ⟨hheader, hrest⟩ := List.append_inj h (by rw [ht.length_eq, ht.length_eq])
      obtain ⟨rfl, hitems⟩ := List.append_inj hrest (ht.inj _ _ hxlt hylt hheader)
      rw [ih hxs hys hitems]

theorem append_separator_inj {c : β} {xs ys rest rest' : List β} (hx : c ∉ xs) (hy : c ∉ ys)
    (h : xs ++ c :: rest = ys ++ c :: rest') : xs = ys ∧ rest = rest' := by
  induction xs generalizing ys with
  | nil =>
    cases ys with
    | nil => exact ⟨rfl, (List.cons.inj h).2⟩
    | cons y ys => exact absurd (List.cons.inj h).1 (List.ne_of_not_mem_cons hy)
  | cons x xs ih =>
    cases ys with
    | nil => exact absurd (List.cons.inj h).1.symm (List.ne_of_not_mem_cons hx)
    | cons y ys =>
      obtain ⟨rfl, htail⟩ := List.cons.inj h
      obtain ⟨rfl, hrest⟩ := ih (List.not_mem_of_not_mem_cons hx) (List.not_mem_of_not_mem_cons hy)
        htail
      exact ⟨rfl, hrest⟩

/-- The codes of values tell where they end. -/
structure SelfDelimiting (encode : α → List β) (valid : α → Prop) : Prop where
  ne_nil : ∀ x, valid x → encode x ≠ []
  inj : ∀ x y rest rest', valid x → valid y → encode x ++ rest = encode y ++ rest' →
    x = y ∧ rest = rest'

theorem SelfDelimiting.flatMap_inj {encode : α → List β} {valid : α → Prop}
    (h : SelfDelimiting encode valid) {xs ys : List α} (hx : ∀ x ∈ xs, valid x)
    (hy : ∀ y ∈ ys, valid y) (heq : xs.flatMap encode = ys.flatMap encode) : xs = ys := by
  induction xs generalizing ys with
  | nil =>
    cases ys with
    | nil => rfl
    | cons y ys =>
      have hnil := (List.append_eq_nil_iff.mp heq.symm).1
      exact absurd hnil (h.ne_nil y (hy y List.mem_cons_self))
  | cons x xs ih =>
    obtain ⟨hx, hxs⟩ := List.forall_mem_cons.mp hx
    cases ys with
    | nil => exact absurd (List.append_eq_nil_iff.mp heq).1 (h.ne_nil x hx)
    | cons y ys =>
      obtain ⟨hy, hys⟩ := List.forall_mem_cons.mp hy
      obtain ⟨rfl, hrest⟩ := h.inj x y _ _ hx hy heq
      rw [ih hxs hys hrest]

theorem flatMap_pieces_inj {f g : α → List β} {xs : List α}
    (hlen : ∀ x ∈ xs, (f x).length = (g x).length) (h : xs.flatMap f = xs.flatMap g) :
    ∀ x ∈ xs, f x = g x := by
  induction xs with
  | nil => exact fun _ hx => absurd hx List.not_mem_nil
  | cons x xs ih =>
    obtain ⟨hfirst, hrest⟩ := List.forall_mem_cons.mp hlen
    simp only [List.flatMap_cons] at h
    obtain ⟨hx, h⟩ := List.append_inj h hfirst
    exact List.forall_mem_cons.mpr ⟨hx, ih hrest h⟩

end Rekuiper.Lib
