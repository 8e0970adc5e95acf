import Mathlib.Data.List.DropRight
import Mathlib.Data.List.Induction

/-!
# Cells of a line

A line is cells around a separator. It is read by position: the piece at a position,
without the blanks around it. Blanks at the end of a line change no piece, and the first
cell that holds the separator itself is read up to it.
-/

namespace Rekuiper.Lib

variable {α : Type}

-- ---- Blanks around a piece

section Strip

variable (blank : α → Bool)

def strip (xs : List α) : List α := ((xs.dropWhile blank).reverse.dropWhile blank).reverse

variable {blank}

theorem strip_append_blank {x : α} (hx : blank x = true) (xs : List α) :
    strip blank (xs ++ [x]) = strip blank xs := by
  unfold strip
  by_cases hall : ∀ y ∈ xs, blank y = true
  · have hxs : xs.dropWhile blank = [] := List.dropWhile_eq_nil_iff.mpr hall
    have happend : (xs ++ [x]).dropWhile blank = [] := by
      refine List.dropWhile_eq_nil_iff.mpr fun y hy => ?_
      rcases List.mem_append.mp hy with hy | hy
      · exact hall y hy
      · rwa [List.mem_singleton.mp hy]
    rw [hxs, happend]
  · have hxs : xs.dropWhile blank ≠ [] := mt List.dropWhile_eq_nil_iff.mp hall
    rw [List.dropWhile_append]
    simp [hxs, hx]

theorem strip_cons_blank {x : α} (hx : blank x = true) (xs : List α) :
    strip blank (x :: xs) = strip blank xs := by
  rw [strip, List.dropWhile_cons_of_pos hx, strip]

theorem strip_around {front back : List α} (hfront : ∀ x ∈ front, blank x = true)
    (hback : ∀ x ∈ back, blank x = true) (xs : List α) :
    strip blank (front ++ xs ++ back) = strip blank xs := by
  induction front with
  | nil =>
    induction back using List.reverseRecOn with
    | nil => simp
    | append_singleton back x ih =>
      rw [← List.append_assoc, strip_append_blank (hback x (by simp))]
      exact ih fun y hy => hback y (List.mem_append_left _ hy)
  | cons x front ih =>
    obtain ⟨hx, hfront⟩ := List.forall_mem_cons.mp hfront
    exact (strip_cons_blank hx _).trans (ih hfront)

theorem strip_of_head {xs : List α} (h : ∀ x ∈ xs.head?, blank x = false) :
    strip blank xs = (xs.reverse.dropWhile blank).reverse := by
  cases xs with
  | nil => rfl
  | cons x xs => simp [strip, h x rfl]

theorem strip_eq_self {xs : List α} (hhead : ∀ x ∈ xs.head?, blank x = false)
    (hlast : ∀ x ∈ xs.getLast?, blank x = false) : strip blank xs = xs := by
  rw [strip_of_head hhead]
  cases hrev : xs.reverse with
  | nil => simpa using hrev.symm
  | cons x rest =>
    have hx : blank x = false := hlast x (by simp [← List.head?_reverse, hrev])
    rw [List.dropWhile_cons_of_neg (by simp [hx]), ← hrev, List.reverse_reverse]

theorem strip_subset (xs : List α) : strip blank xs ⊆ xs := by
  intro x hx
  have hdrop := (List.dropWhile_suffix blank).subset (List.mem_reverse.mp hx)
  exact (List.dropWhile_suffix blank).subset (List.mem_reverse.mp hdrop)

theorem head?_strip {xs : List α} {x : α} (hx : x ∈ (strip blank xs).head?) : blank x = false := by
  have hprefix : strip blank xs <+: xs.dropWhile blank := by
    have hsuffix := List.dropWhile_suffix blank (l := (xs.dropWhile blank).reverse)
    rw [← List.reverse_prefix] at hsuffix
    simpa [strip] using hsuffix
  have hhead : x ∈ (xs.dropWhile blank).head? := by
    obtain ⟨rest, hrest⟩ := hprefix
    rw [← hrest, List.head?_append]
    simp [Option.mem_def.mp hx]
  have := List.head?_dropWhile_not blank xs
  rw [Option.mem_def.mp hhead] at this
  simpa using this

theorem getLast?_strip {xs : List α} {x : α} (hx : x ∈ (strip blank xs).getLast?) :
    blank x = false := by
  rw [strip, List.getLast?_reverse] at hx
  have := List.head?_dropWhile_not blank (xs.dropWhile blank).reverse
  rw [Option.mem_def.mp hx] at this
  simpa using this

theorem strip_ne_nil {xs : List α} {x : α} (hx : x ∈ xs) (hblank : blank x = false) :
    strip blank xs ≠ [] := by
  intro h
  have hdrop : ∀ y ∈ xs.dropWhile blank, blank y = true := by
    have := List.dropWhile_eq_nil_iff.mp (List.reverse_eq_nil_iff.mp h)
    simpa using this
  have hnil : xs.dropWhile blank = [] := by
    cases hxs : xs.dropWhile blank with
    | nil => rfl
    | cons y rest =>
      have hhead := List.head?_dropWhile_not blank xs
      rw [hxs] at hhead hdrop
      simp [hdrop y List.mem_cons_self] at hhead
  simpa [hblank] using List.dropWhile_eq_nil_iff.mp hnil x hx

end Strip

-- ---- The piece at a position

variable [DecidableEq α] {d : α}

theorem splitOn_cons_self (xs : List α) : (d :: xs).splitOn d = [] :: xs.splitOn d := by
  rw [List.splitOn_cons_eq_if_modifyHead, if_pos (by simp)]

theorem splitOn_cons_ne {x : α} (hx : x ≠ d) (xs : List α) :
    (x :: xs).splitOn d = (xs.splitOn d).modifyHead (x :: ·) := by
  rw [List.splitOn_cons_eq_if_modifyHead, if_neg (by simpa using hx)]

theorem getD_modifyHead_zero {β : Type} (f : β → β) {ys : List β} (hys : ys ≠ []) (b : β) :
    (ys.modifyHead f).getD 0 b = f (ys.getD 0 b) := by
  cases ys with
  | nil => exact absurd rfl hys
  | cons y ys => rfl

theorem getD_modifyHead_succ {β : Type} (f : β → β) (ys : List β) (i : Nat) (b : β) :
    (ys.modifyHead f).getD (i + 1) b = ys.getD (i + 1) b := by
  cases ys <;> rfl

theorem getD_splitOn_append (xs : List α) (x : α) (i : Nat) :
    ((xs ++ [x]).splitOn d).getD i [] = (xs.splitOn d).getD i [] ∨
      ((xs ++ [x]).splitOn d).getD i [] = (xs.splitOn d).getD i [] ++ [x] := by
  induction xs generalizing i with
  | nil =>
    by_cases hx : x = d
    · subst hx
      rw [List.nil_append, splitOn_cons_self, List.splitOn_nil]
      rcases i with _ | _ | i <;> exact .inl rfl
    · rw [List.nil_append, splitOn_cons_ne hx, List.splitOn_nil]
      rcases i with _ | i
      · exact .inr rfl
      · exact .inl rfl
  | cons y xs ih =>
    rw [List.cons_append]
    by_cases hy : y = d
    · subst hy
      rw [splitOn_cons_self, splitOn_cons_self]
      cases i with
      | zero => simp
      | succ i => simpa using ih i
    · rw [splitOn_cons_ne hy, splitOn_cons_ne hy]
      cases i with
      | zero =>
        rw [getD_modifyHead_zero _ (List.splitOn_ne_nil d _),
          getD_modifyHead_zero _ (List.splitOn_ne_nil d _)]
        rcases ih 0 with h | h
        · exact .inl (by rw [h])
        · exact .inr (by rw [h, List.cons_append])
      | succ i =>
        rw [getD_modifyHead_succ, getD_modifyHead_succ]
        exact ih (i + 1)

theorem getD_splitOn_zero (xs : List α) :
    (xs.splitOn d).getD 0 [] = xs.takeWhile (· ≠ d) := by
  induction xs with
  | nil => rfl
  | cons x xs ih =>
    by_cases hx : x = d
    · subst hx
      simp [splitOn_cons_self]
    · rw [splitOn_cons_ne hx, getD_modifyHead_zero _ (List.splitOn_ne_nil d _), ih]
      simp [hx]

theorem splitOn_append_cons {xs : List α} (hxs : d ∉ xs) (rest : List α) :
    (xs ++ d :: rest).splitOn d = xs :: rest.splitOn d := by
  induction xs with
  | nil => exact splitOn_cons_self rest
  | cons x xs ih =>
    simp only [List.mem_cons, not_or] at hxs
    rw [List.cons_append, splitOn_cons_ne (Ne.symm hxs.1), ih hxs.2, List.modifyHead_cons]

theorem takeWhile_ne_append (xs rest : List α) :
    (xs ++ d :: rest).takeWhile (· ≠ d) = xs.takeWhile (· ≠ d) := by
  induction xs with
  | nil => simp
  | cons x xs ih => by_cases hx : x = d <;> simp_all

theorem getD_splitOn_intercalate {cells : List (List α)} {i : Nat} (hi : i < cells.length)
    (hbefore : ∀ cell ∈ cells.take i, d ∉ cell) :
    (([d].intercalate cells).splitOn d).getD i [] = cells[i].takeWhile (· ≠ d) := by
  induction cells generalizing i with
  | nil => exact absurd hi (Nat.not_lt_zero i)
  | cons cell cells ih =>
    cases cells with
    | nil =>
      obtain rfl : i = 0 := by simpa using hi
      rw [List.intercalate_singleton, getD_splitOn_zero]
      rfl
    | cons next cells =>
      rw [List.intercalate_cons_cons, List.append_assoc, List.singleton_append]
      cases i with
      | zero =>
        rw [getD_splitOn_zero]
        exact takeWhile_ne_append cell _
      | succ i =>
        rw [splitOn_append_cons (hbefore cell (by simp)), List.getD_cons_succ]
        exact ih (by simpa using hi) fun c hc => hbefore c (by simp [hc])

/-- The piece at a position, without the blanks around it. -/
def token (blank : α → Bool) (d : α) (i : Nat) (xs : List α) : List α := strip blank ((xs.splitOn d).getD i [])

variable {blank : α → Bool}

theorem token_strip {xs : List α} (h : ∀ x ∈ xs.head?, blank x = false) (i : Nat) :
    token blank d i (strip blank xs) = token blank d i xs := by
  rw [strip_of_head h]
  induction xs using List.reverseRecOn with
  | nil => rfl
  | append_singleton xs x ih =>
    by_cases hx : blank x = true
    · have hxs : ∀ y ∈ xs.head?, blank y = false := by
        intro y hy
        refine h y ?_
        rw [List.head?_append, Option.mem_def.mp hy]
        rfl
      have hlast : token blank d i (xs ++ [x]) = token blank d i xs := by
        unfold token
        rcases getD_splitOn_append (d := d) xs x i with h | h
        · rw [h]
        · rw [h, strip_append_blank hx]
      rw [hlast, ← ih hxs]
      simp [hx]
    · simp [hx]

-- ---- Lines that begin with no blank

/-- The first cell is not empty, or what follows it is no blank. -/
def Leading (blank : α → Bool) (d : α) (cells : List (List α)) : Prop :=
  cells.head? ≠ some [] ∨ blank d = false ∧ 2 ≤ cells.length

variable {cells : List (List α)}

omit [DecidableEq α] in
theorem Leading.head?_intercalate (h : Leading blank d cells) (hne : cells ≠ [])
    (hcells : ∀ cell ∈ cells, ∀ x ∈ cell.head?, blank x = false) :
    ∃ x rest, [d].intercalate cells = x :: rest ∧ blank x = false := by
  cases cells with
  | nil => exact absurd rfl hne
  | cons cell cells =>
    cases cell with
    | nil =>
      rcases h with h | ⟨hd, hlength⟩
      · exact absurd rfl h
      · cases cells with
        | nil => simp at hlength
        | cons next cells => exact ⟨d, _, by rw [List.intercalate_cons_cons]; rfl, hd⟩
    | cons x cell =>
      have hx : blank x = false := hcells (x :: cell) List.mem_cons_self x rfl
      cases cells with
      | nil => exact ⟨x, cell, by rw [List.intercalate_singleton], hx⟩
      | cons next cells => exact ⟨x, _, by rw [List.intercalate_cons_cons]; rfl, hx⟩

/-- The piece at the position of the first cell that may hold a separator, once the blanks
around the line are gone. -/
theorem Leading.token_intercalate (h : Leading blank d cells)
    (hcells : ∀ cell ∈ cells, ∀ x ∈ cell.head?, blank x = false) {i : Nat} (hi : i < cells.length)
    (hbefore : ∀ cell ∈ cells.take i, d ∉ cell) :
    token blank d i (strip blank ([d].intercalate cells)) =
      strip blank (cells[i].takeWhile (· ≠ d)) := by
  have hne : cells ≠ [] := List.length_pos_iff.mp (Nat.zero_lt_of_lt hi)
  obtain ⟨x, rest, hline, hx⟩ := h.head?_intercalate hne hcells
  rw [token_strip (by simp [hline, hx]), token, getD_splitOn_intercalate hi hbefore]

omit [DecidableEq α] in
theorem intercalate_concat (front : List (List α)) (last : List α) :
    ∃ xs, [d].intercalate (front ++ [last]) = xs ++ last := by
  induction front with
  | nil => exact ⟨[], by rw [List.nil_append, List.intercalate_singleton]; rfl⟩
  | cons cell front ih =>
    obtain ⟨xs, hxs⟩ := ih
    obtain ⟨next, rest, hrest⟩ := List.exists_cons_of_ne_nil (List.append_ne_nil_of_right_ne_nil front
      (List.cons_ne_nil last []))
    refine ⟨cell ++ [d] ++ xs, ?_⟩
    rw [List.cons_append, hrest, List.intercalate_cons_cons, ← hrest, hxs]
    simp

omit [DecidableEq α] in
theorem Leading.strip_intercalate {front : List (List α)} {last : List α}
    (h : Leading blank d (front ++ [last]))
    (hcells : ∀ cell ∈ front ++ [last], ∀ x ∈ cell.head?, blank x = false) (hne : last ≠ [])
    (hlast : ∀ x ∈ last.getLast?, blank x = false) :
    strip blank ([d].intercalate (front ++ [last])) = [d].intercalate (front ++ [last]) := by
  obtain ⟨x, rest, hline, hx⟩ := h.head?_intercalate (by simp) hcells
  refine strip_eq_self (by simp [hline, hx]) fun y hy => ?_
  obtain ⟨xs, hxs⟩ := intercalate_concat (d := d) front last
  rw [hxs, List.getLast?_append_of_ne_nil _ hne] at hy
  exact hlast y hy

theorem token_zero_of_not_leading (h : ¬ Leading blank d cells)
    (hline : strip blank ([d].intercalate cells) ≠ []) :
    token blank d 0 (strip blank ([d].intercalate cells)) ≠ [] := by
  have hd : blank d = true := by
    rcases cells with _ | ⟨cell, _ | ⟨next, cells⟩⟩
    · exact absurd rfl hline
    · have hcell : cell = [] := by simpa [Leading] using h
      rw [hcell] at hline
      exact absurd rfl hline
    · by_contra hd
      exact h (.inr ⟨by simpa using hd, by simp⟩)
  obtain ⟨x, rest, hx⟩ := List.exists_cons_of_ne_nil hline
  have hhead : x ∈ (strip blank ([d].intercalate cells)).head? := by simp [hx]
  have hblank := head?_strip hhead
  have hxd : x ≠ d := by
    rintro rfl
    simp [hblank] at hd
  rw [token, getD_splitOn_zero, hx, List.takeWhile_cons_of_pos (by simpa using hxd)]
  exact strip_ne_nil List.mem_cons_self hblank

end Rekuiper.Lib
