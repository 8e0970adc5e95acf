import Mathlib.Data.List.Sort

/-!
# Stable sorts by a key

A stable sort is determined by its result being sorted and by the order of the elements with
one key. So it commutes with filters and may be done in parts.
-/

namespace Rekuiper.Lib

variable {α κ : Type} [LinearOrder κ] (key : α → κ)

/-- The elements in the order of their keys; those with equal keys stay in order. -/
def sortByKey (xs : List α) : List α := xs.insertionSort fun a b => key a ≤ key b

variable {key}

theorem eq_of_sorted_of_filter_key {xs ys : List α} (hxs : xs.Pairwise fun a b => key a ≤ key b)
    (hys : ys.Pairwise fun a b => key a ≤ key b)
    (h : ∀ k, xs.filter (key · = k) = ys.filter (key · = k)) : xs = ys := by
  induction xs generalizing ys with
  | nil =>
    cases ys with
    | nil => rfl
    | cons b ys =>
      have := h (key b)
      simp at this
  | cons a xs ih =>
    cases ys with
    | nil =>
      have := h (key a)
      simp at this
    | cons b ys =>
      rw [List.pairwise_cons] at hxs hys
      -- the least key of one list is in the other
      have hab : key a = key b := by
        refine le_antisymm ?_ ?_
        · have hb : b ∈ (a :: xs).filter (key · = key b) := by rw [h]; simp
          rcases List.mem_cons.mp (List.mem_filter.mp hb).1 with rfl | hb
          · exact le_refl _
          · exact hxs.1 b hb
        · have ha : a ∈ (b :: ys).filter (key · = key a) := by rw [← h]; simp
          rcases List.mem_cons.mp (List.mem_filter.mp ha).1 with rfl | ha
          · exact le_refl _
          · exact hys.1 a ha
      have hhead := h (key a)
      rw [List.filter_cons_of_pos (by simp), List.filter_cons_of_pos (by simp [hab])] at hhead
      obtain ⟨rfl, -⟩ := List.cons.inj hhead
      refine congrArg _ (ih hxs.2 hys.2 fun k => ?_)
      have hk := h k
      simp only [List.filter_cons] at hk
      split at hk
      · exact (List.cons.inj hk).2
      · exact hk

instance total : Std.Total fun a b : α => key a ≤ key b := ⟨fun a b => le_total (key a) (key b)⟩

instance trans : IsTrans α fun a b : α => key a ≤ key b := ⟨fun _ _ _ => le_trans⟩

theorem sortByKey_sorted (xs : List α) :
    (sortByKey key xs).Pairwise fun a b => key a ≤ key b :=
  List.pairwise_insertionSort _ xs

theorem mem_sortByKey {xs : List α} {a : α} : a ∈ sortByKey key xs ↔ a ∈ xs :=
  List.mem_insertionSort _

theorem length_sortByKey (xs : List α) : (sortByKey key xs).length = xs.length :=
  List.length_insertionSort _ xs

theorem sortByKey_perm (xs : List α) : (sortByKey key xs).Perm xs :=
  List.perm_insertionSort _ xs

theorem map_key_sortByKey {xs ys : List α} (h : xs.Perm ys) :
    (sortByKey key xs).map key = (sortByKey key ys).map key := by
  have hperm : ((sortByKey key xs).map key).Perm ((sortByKey key ys).map key) :=
    ((sortByKey_perm xs).trans (h.trans (sortByKey_perm ys).symm)).map key
  refine hperm.eq_of_pairwise (fun a b _ _ hab hba => le_antisymm hab hba) ?_ ?_
  · exact List.pairwise_map.mpr (sortByKey_sorted xs)
  · exact List.pairwise_map.mpr (sortByKey_sorted ys)

theorem filter_key_sortByKey (xs : List α) (k : κ) :
    (sortByKey key xs).filter (key · = k) = xs.filter (key · = k) := by
  have hsub : (xs.filter (key · = k)).Sublist ((sortByKey key xs).filter (key · = k)) := by
    have hsorted : (xs.filter (key · = k)).Pairwise fun a b => key a ≤ key b := by
      refine List.pairwise_of_forall_mem_list ?_
      intro a ha b hb
      simp only [List.mem_filter, decide_eq_true_eq] at ha hb
      rw [ha.2, hb.2]
    have := (List.sublist_insertionSort hsorted List.filter_sublist).filter (key · = k)
    rw [List.filter_filter] at this
    simpa [sortByKey] using this
  refine (hsub.eq_of_length ?_).symm
  exact (((List.perm_insertionSort _ xs).filter _).length_eq).symm

theorem eq_sortByKey {xs ys : List α} (hys : ys.Pairwise fun a b => key a ≤ key b)
    (h : ∀ k, ys.filter (key · = k) = xs.filter (key · = k)) : ys = sortByKey key xs := by
  refine eq_of_sorted_of_filter_key hys (sortByKey_sorted xs) fun k => ?_
  rw [h, filter_key_sortByKey]

theorem filter_sortByKey (p : α → Bool) (xs : List α) :
    (sortByKey key xs).filter p = sortByKey key (xs.filter p) := by
  refine eq_sortByKey ((sortByKey_sorted xs).filter p) fun k => ?_
  rw [List.filter_comm, filter_key_sortByKey, List.filter_comm]

theorem sortByKey_append (xs ys : List α) :
    sortByKey key (sortByKey key xs ++ ys) = sortByKey key (xs ++ ys) := by
  refine eq_sortByKey (sortByKey_sorted _) fun k => ?_
  rw [filter_key_sortByKey, List.filter_append, filter_key_sortByKey, List.filter_append]

end Rekuiper.Lib
