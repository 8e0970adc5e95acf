import Mathlib.Data.List.Induction
import Mathlib.Order.Lattice

/-!
# The latest elements of a list

The element of greatest rank, and of those the last one in the list. In a list with one element
under a key, an element takes the place of the one under its key, or goes to the end, where the
oldest elements make room: what is held under a key is the last element that came with it.
-/

namespace Rekuiper.Lib

section
variable {α κ : Type} [LinearOrder κ] {rank : α → κ}

def later (rank : α → κ) (best : Option α) (x : α) : Option α :=
  match best with
  | some b => if rank b ≤ rank x then some x else some b
  | none => some x

def latest (rank : α → κ) (xs : List α) : Option α := xs.foldl (later rank) none

theorem latest_snoc (xs : List α) (x : α) :
    latest rank (xs ++ [x]) = later rank (latest rank xs) x := by
  simp [latest]

theorem latest_snoc_ne_none (xs : List α) (x : α) : latest rank (xs ++ [x]) ≠ none := by
  rw [latest_snoc]
  unfold later
  split
  · split <;> simp
  · simp

theorem latest_eq_none_iff {xs : List α} : latest rank xs = none ↔ xs = [] := by
  induction xs using List.reverseRecOn with
  | nil => simp [latest]
  | append_singleton xs x ih => simp [latest_snoc_ne_none]

structure IsLatest (rank : α → κ) (xs : List α) (m : α) (before after : List α) : Prop where
  split : xs = before ++ m :: after
  before_le : ∀ x ∈ before, rank x ≤ rank m
  after_lt : ∀ x ∈ after, rank x < rank m

theorem IsLatest.rank_le {xs before after : List α} {m : α} (h : IsLatest rank xs m before after) :
    ∀ x ∈ xs, rank x ≤ rank m := by
  rw [h.split]
  intro x hx
  rcases List.mem_append.mp hx with hx | hx
  · exact h.before_le x hx
  · rcases List.mem_cons.mp hx with rfl | hx
    · exact le_refl _
    · exact le_of_lt (h.after_lt x hx)

theorem latest_eq_some {xs : List α} {m : α} (h : latest rank xs = some m) :
    ∃ before after, IsLatest rank xs m before after := by
  induction xs using List.reverseRecOn generalizing m with
  | nil => cases h
  | append_singleton xs x ih =>
    rw [latest_snoc] at h
    unfold later at h
    split at h
    · rename_i b hb
      obtain ⟨before, after, hlatest⟩ := ih hb
      split at h
      · rename_i hle
        cases h
        exact ⟨xs, [], rfl, fun y hy => le_trans (hlatest.rank_le y hy) hle, List.forall_mem_nil _⟩
      · rename_i hlt
        cases h
        refine ⟨before, after ++ [x], by simp [hlatest.split], hlatest.before_le, ?_⟩
        intro y hy
        rcases List.mem_append.mp hy with hy | hy
        · exact hlatest.after_lt y hy
        · rw [List.mem_singleton.mp hy]
          exact lt_of_not_ge hlt
    · rename_i hnone
      cases h
      rw [latest_eq_none_iff] at hnone
      exact ⟨[], [], by simp [hnone], List.forall_mem_nil _, List.forall_mem_nil _⟩

theorem mem_of_latest {xs : List α} {m : α} (h : latest rank xs = some m) : m ∈ xs := by
  obtain ⟨before, after, hlatest⟩ := latest_eq_some h
  simp [hlatest.split]

theorem latest_filter_eq_some {p : α → Bool} {xs : List α} {m : α}
    (h : latest rank (xs.filter p) = some m) :
    ∃ before after, xs = before ++ m :: after ∧ p m = true ∧
      (∀ x ∈ xs, p x = true → rank x ≤ rank m) ∧ ∀ x ∈ after, p x = true → rank x < rank m := by
  obtain ⟨before, after, hlatest⟩ := latest_eq_some h
  obtain ⟨first, rest, rfl, hfirst, hrest⟩ := List.filter_eq_append_iff.mp hlatest.split
  obtain ⟨skipped, kept, rfl, hskipped, hm, hkept⟩ := List.filter_eq_cons_iff.mp hrest
  refine ⟨first ++ skipped, kept, by simp, hm, fun x hx hp => ?_, fun x hx hp => ?_⟩
  · exact hlatest.rank_le x (List.mem_filter.mpr ⟨hx, hp⟩)
  · refine hlatest.after_lt x ?_
    rw [← hkept]
    exact List.mem_filter.mpr ⟨hx, hp⟩

end

-- ---- One element under a key

variable {α κ : Type} (same : κ → κ → Bool) (key : α → Option κ)

def isUnder (k : κ) (x : α) : Bool := (key x).any (same · k)

/-- At most `bound` elements are kept when one goes to the end. -/
def upsertBy (bound : Nat) (held : List α) (x : α) : List α :=
  match (key x).bind fun k => held.findIdx? (isUnder same key k) with
  | some pos => held.set pos x
  | none => (held ++ [x]).drop (held.length + 1 - bound)

/-- What is held after some elements came. -/
structure Current (bound : Nat) (came held : List α) : Prop where
  distinct : held.Pairwise fun x y => ∀ k, isUnder same key k x → ¬isUnder same key k y
  latest : ∀ x ∈ held, ∀ k, isUnder same key k x →
    (came.filter (isUnder same key k)).getLast? = some x
  bounded : held.length ≤ bound
  room : held.length ≤ came.length
  complete : came.length ≤ bound → ∀ x ∈ came, ∀ k, isUnder same key k x →
    ∃ y ∈ held, isUnder same key k y

variable {same key} {bound : Nat} {came held before after : List α} {x y : α} {k : κ}

/-- Without keys the last elements are held. -/
theorem foldl_upsertBy_unkeyed (hkey : ∀ x, key x = none) (came : List α) :
    came.foldl (upsertBy same key bound) [] = came.drop (came.length - bound) := by
  induction came using List.reverseRecOn with
  | nil => simp
  | append_singleton came x ih =>
    rw [List.foldl_append, ih]
    simp only [List.foldl_cons, List.foldl_nil, upsertBy, hkey, Option.bind_none]
    rw [← List.drop_append_of_le_length (by omega), List.drop_drop, List.length_drop,
      List.length_append, List.length_singleton]
    congr 1
    omega

theorem isUnder_eq_true : isUnder same key k x = true ↔ ∃ l, key x = some l ∧ same l k = true := by
  cases hkey : key x <;> simp [isUnder, hkey]

/-- An element that shares no key with those that are held goes to the end. -/
theorem Current.add (h : Current same key bound came held)
    (hnew : ∀ y ∈ held, ∀ k, isUnder same key k y → ¬isUnder same key k x) :
    Current same key bound (came ++ [x]) ((held ++ [x]).drop (held.length + 1 - bound)) := by
  have hsub := List.drop_sublist (held.length + 1 - bound) (held ++ [x])
  refine ⟨.sublist hsub ?_, ?_, ?_, ?_, ?_⟩
  · rw [List.pairwise_append]
    exact ⟨h.distinct, List.pairwise_singleton _ _, by simpa using hnew⟩
  · rintro z hz l hl
    rw [List.filter_append, List.getLast?_append]
    rcases List.mem_append.mp (hsub.subset hz) with hz | hz
    · simpa [List.filter, Bool.eq_false_iff.mpr (hnew z hz l hl)] using h.latest z hz l hl
    · cases List.mem_singleton.mp hz
      simp [List.filter, hl]
  · simp only [List.length_drop, List.length_append, List.length_singleton]
    omega
  · have := h.room
    simp only [List.length_drop, List.length_append, List.length_singleton]
    omega
  · rintro hfits z hz l hl
    rw [List.length_append, List.length_singleton] at hfits
    have hall : held.length + 1 - bound = 0 := by have := h.room; omega
    rw [hall, List.drop_zero]
    rcases List.mem_append.mp hz with hz | hz
    · obtain ⟨w, hw, hwl⟩ := h.complete (by omega) z hz l hl
      exact ⟨w, by simp [hw], hwl⟩
    · cases List.mem_singleton.mp hz
      exact ⟨x, by simp, hl⟩

section
variable (hsymm : ∀ a b, same a b = true → same b a = true)
  (htrans : ∀ a b c, same a b = true → same b c = true → same a c = true)
include hsymm htrans

theorem isUnder_of_common (hx : isUnder same key k x) (hy : isUnder same key k y) {l : κ}
    (h : isUnder same key l x) : isUnder same key l y := by
  obtain ⟨a, ha, hak⟩ := isUnder_eq_true.mp hx
  obtain ⟨b, hb, hbk⟩ := isUnder_eq_true.mp hy
  obtain ⟨a', ha', hal⟩ := isUnder_eq_true.mp h
  obtain rfl : a = a' := Option.some.inj (ha.symm.trans ha')
  exact isUnder_eq_true.mpr ⟨b, hb, htrans _ _ _ hbk (htrans _ _ _ (hsymm _ _ hak) hal)⟩

/-- Elements with one key in common are under the same keys. -/
theorem isUnder_congr (hx : isUnder same key k x) (hy : isUnder same key k y) (l : κ) :
    isUnder same key l x = isUnder same key l y :=
  Bool.eq_iff_iff.mpr ⟨isUnder_of_common hsymm htrans hx hy, isUnder_of_common hsymm htrans hy hx⟩

theorem Current.replace (h : Current same key bound came (before ++ y :: after))
    (hx : isUnder same key k x) (hy : isUnder same key k y) :
    Current same key bound (came ++ [x]) (before ++ x :: after) := by
  have hkeys := isUnder_congr hsymm htrans hx hy
  have hpairs := h.distinct
  simp only [List.pairwise_append, List.pairwise_cons, List.mem_cons, forall_eq_or_imp] at hpairs
  obtain ⟨hbefore, ⟨hy', hafter⟩, hcross⟩ := hpairs
  refine ⟨?_, ?_, ?_, ?_, ?_⟩
  · simp only [List.pairwise_append, List.pairwise_cons, List.mem_cons, forall_eq_or_imp, hkeys]
    exact ⟨hbefore, ⟨hy', hafter⟩, hcross⟩
  · rintro z hz l hl
    rw [List.filter_append, List.getLast?_append]
    simp only [List.mem_append, List.mem_cons] at hz
    -- the others have no key in common with the one that is replaced
    have hother : z ∈ before ∨ z ∈ after → isUnder same key l x = false := by
      rintro (hz | hz) <;> rw [hkeys, ← Bool.not_eq_true]
      · exact (hcross z hz).1 l hl
      · exact fun hl' => hy' z hz l hl' hl
    rcases hz with hz | rfl | hz
    · simpa [List.filter, hother (.inl hz)] using h.latest z (by simp [hz]) l hl
    · simp [List.filter, hl]
    · simpa [List.filter, hother (.inr hz)] using h.latest z (by simp [hz]) l hl
  · simpa using h.bounded
  · simpa using Nat.le_succ_of_le h.room
  · rintro hfits z hz l hl
    rw [List.length_append] at hfits
    rcases List.mem_append.mp hz with hz | hz
    · obtain ⟨w, hw, hwl⟩ := h.complete (by omega) z hz l hl
      simp only [List.mem_append, List.mem_cons] at hw
      rcases hw with hw | rfl | hw
      · exact ⟨w, by simp [hw], hwl⟩
      · exact ⟨x, by simp, (hkeys l).trans hwl⟩
      · exact ⟨w, by simp [hw], hwl⟩
    · cases List.mem_singleton.mp hz
      exact ⟨x, by simp, hl⟩

theorem Current.step (h : Current same key bound came held) (x : α) :
    Current same key bound (came ++ [x]) (upsertBy same key bound held x) := by
  unfold upsertBy
  split
  next pos hpos =>
    obtain ⟨k, hk, hpos⟩ := Option.bind_eq_some_iff.mp hpos
    obtain ⟨hlt, hat, -⟩ := List.findIdx?_eq_some_iff_getElem.mp hpos
    -- the element that is replaced is under the key, which is then under itself
    obtain ⟨l, -, hlk⟩ := isUnder_eq_true.mp hat
    have hx : isUnder same key k x := isUnder_eq_true.mpr ⟨k, hk, htrans _ _ _ (hsymm _ _ hlk) hlk⟩
    rw [List.set_eq_take_append_cons_drop, if_pos hlt]
    rw [← List.take_append_drop pos held, List.drop_eq_getElem_cons hlt] at h
    exact h.replace hsymm htrans hx hat
  next hnone =>
    refine h.add fun y hy k hyk hxk => ?_
    obtain ⟨l, hl, hlk⟩ := isUnder_eq_true.mp hxk
    rw [hl, Option.bind_some, List.findIdx?_eq_none_iff] at hnone
    have hll : isUnder same key l x := isUnder_eq_true.mpr ⟨l, hl, htrans _ _ _ hlk (hsymm _ _ hlk)⟩
    exact absurd (isUnder_of_common hsymm htrans hxk hyk hll) (by simp [hnone y hy])

theorem current_foldl (came : List α) :
    Current same key bound came (came.foldl (upsertBy same key bound) []) := by
  induction came using List.reverseRecOn with
  | nil => exact ⟨.nil, by simp, by simp, by simp, by simp⟩
  | append_singleton came x ih =>
    rw [List.foldl_append]
    exact ih.step hsymm htrans x

end

end Rekuiper.Lib
