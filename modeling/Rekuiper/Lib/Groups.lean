import Mathlib.Data.List.Induction

/-!
# Grouping

Groups under keys, in the order in which the keys were first seen. Folding the elements
of each group as they come in, or collecting them and folding afterwards, is the same.
-/

namespace Rekuiper.Lib

variable {α κ γ δ : Type} [DecidableEq κ]

def put (key : κ) (g : γ) : List (κ × γ) → List (κ × γ)
  | [] => [(key, g)]
  | (k, h) :: rest => if k = key then (k, g) :: rest else (k, h) :: put key g rest

def groupOn (key : α → κ) (xs : List α) : List (κ × List α) :=
  xs.foldl (fun groups x => put (key x) ((groups.lookup (key x)).getD [] ++ [x]) groups) []

@[simp] theorem groupOn_nil (key : α → κ) : groupOn key [] = [] := rfl

theorem groupOn_concat (key : α → κ) (xs : List α) (x : α) :
    groupOn key (xs ++ [x]) =
      put (key x) (((groupOn key xs).lookup (key x)).getD [] ++ [x]) (groupOn key xs) := by
  simp [groupOn]

theorem lookup_cons (k key : κ) (g : γ) (groups : List (κ × γ)) :
    ((key, g) :: groups).lookup k = if k = key then some g else groups.lookup k := by
  rw [List.lookup_cons]
  by_cases h : k = key
  · rw [beq_iff_eq.mpr h, if_pos h]
  · rw [beq_false_of_ne h, if_neg h]

theorem lookup_mapKeyed (f : κ → γ → δ) (groups : List (κ × γ)) (key : κ) :
    (groups.map fun g => (g.1, f g.1 g.2)).lookup key = (groups.lookup key).map (f key) := by
  induction groups with
  | nil => rfl
  | cons g groups ih =>
    obtain ⟨k, g⟩ := g
    simp only [List.map_cons, lookup_cons, ih]
    split
    · rename_i heq
      rw [heq]
      rfl
    · rfl

theorem lookup_mapSnd (f : γ → δ) (groups : List (κ × γ)) (key : κ) :
    (groups.map fun g => (g.1, f g.2)).lookup key = (groups.lookup key).map f :=
  lookup_mapKeyed (fun _ => f) groups key

theorem put_mapSnd (f : γ → δ) (key : κ) (g : γ) (groups : List (κ × γ)) :
    put key (f g) (groups.map fun g => (g.1, f g.2)) =
      (put key g groups).map fun g => (g.1, f g.2) := by
  induction groups with
  | nil => rfl
  | cons h groups ih =>
    simp only [List.map_cons, put, ih]
    split <;> rfl

theorem mem_put {key : κ} {g : γ} {groups : List (κ × γ)} {entry : κ × γ}
    (h : entry ∈ put key g groups) : entry = (key, g) ∨ entry ∈ groups := by
  induction groups with
  | nil => exact .inl (List.mem_singleton.mp h)
  | cons first groups ih =>
    obtain ⟨k, old⟩ := first
    unfold put at h
    split at h
    · subst k
      rcases List.mem_cons.mp h with rfl | hrest
      · exact .inl rfl
      · exact .inr (List.mem_cons_of_mem _ hrest)
    · rcases List.mem_cons.mp h with rfl | hrest
      · exact .inr List.mem_cons_self
      · exact (ih hrest).imp_right (List.mem_cons_of_mem _)

theorem mem_of_lookup {key : κ} {g : γ} {groups : List (κ × γ)}
    (h : groups.lookup key = some g) : (key, g) ∈ groups := by
  induction groups with
  | nil => cases h
  | cons first groups ih =>
    obtain ⟨k, old⟩ := first
    rw [lookup_cons] at h
    split at h
    · subst k
      cases h
      exact List.mem_cons_self
    · exact List.mem_cons_of_mem _ (ih h)

theorem lookup_put (key k : κ) (g : γ) (groups : List (κ × γ)) :
    (put key g groups).lookup k = if k = key then some g else groups.lookup k := by
  induction groups with
  | nil => rw [put, lookup_cons]
  | cons first groups ih =>
    obtain ⟨k', old⟩ := first
    unfold put
    split
    · subst k'
      rw [lookup_cons, lookup_cons]
      split <;> rfl
    · rename_i hne
      rw [lookup_cons, lookup_cons, ih]
      by_cases h : k = key
      · subst k
        rw [if_neg (Ne.symm hne), if_pos rfl, if_pos rfl]
      · rw [if_neg h, if_neg h]

-- ---- Collected groups

variable {key : α → κ}

theorem mem_groupOn {xs : List α} {k : κ} {g : List α} (h : (k, g) ∈ groupOn key xs) :
    g ≠ [] ∧ ∀ x ∈ g, x ∈ xs ∧ key x = k := by
  induction xs using List.reverseRecOn generalizing k g with
  | nil => cases h
  | append_singleton xs x ih =>
    rw [groupOn_concat] at h
    rcases mem_put h with heq | hold
    · cases heq
      refine ⟨by simp, fun y hy => ?_⟩
      rcases List.mem_append.mp hy with hy | hy
      · cases hlookup : (groupOn key xs).lookup (key x) with
        | none =>
          rw [hlookup] at hy
          cases hy
        | some old =>
          rw [hlookup] at hy
          obtain ⟨hmem, hkey⟩ := (ih (mem_of_lookup hlookup)).2 y hy
          exact ⟨List.mem_append_left _ hmem, hkey⟩
      · cases List.mem_singleton.mp hy
        exact ⟨List.mem_append_right _ hy, rfl⟩
    · obtain ⟨hne, hall⟩ := ih hold
      exact ⟨hne, fun y hy => ⟨List.mem_append_left _ (hall y hy).1, (hall y hy).2⟩⟩

theorem put_concat_perm (key : κ) (x : α) (groups : List (κ × List α)) :
    List.Perm
      ((put key ((groups.lookup key).getD [] ++ [x]) groups).map Prod.snd).flatten
      ((groups.map Prod.snd).flatten ++ [x]) := by
  induction groups with
  | nil => simp [put]
  | cons first groups ih =>
    obtain ⟨k, g⟩ := first
    rw [put, lookup_cons]
    by_cases h : key = k
    · subst h
      simp only [if_true, Option.getD_some, List.map_cons, List.flatten_cons, List.append_assoc]
      exact List.perm_append_comm.append_left g
    · rw [if_neg (Ne.symm h), if_neg h]
      simp only [List.map_cons, List.flatten_cons, List.append_assoc]
      exact ih.append_left g

theorem flatten_groupOn_perm (key : α → κ) (xs : List α) :
    List.Perm ((groupOn key xs).map Prod.snd).flatten xs := by
  induction xs using List.reverseRecOn with
  | nil => rfl
  | append_singleton xs x ih =>
    rw [groupOn_concat]
    exact (put_concat_perm _ x _).trans (ih.append_right [x])

theorem groupOn_const {xs : List α} {k : κ} (hkey : ∀ x ∈ xs, key x = k) (hne : xs ≠ []) :
    groupOn key xs = [(k, xs)] := by
  induction xs using List.reverseRecOn with
  | nil => exact absurd rfl hne
  | append_singleton xs x ih =>
    have hx : key x = k := hkey x (by simp)
    rw [groupOn_concat, hx]
    cases xs with
    | nil => rfl
    | cons y ys =>
      rw [ih (fun z hz => hkey z (List.mem_append_left _ hz)) (by simp)]
      simp [put]

/-- Folding the elements of a group, from what its first element begins with. -/
def summary (fresh : α → γ) (update : α → γ → γ) (default : γ) : List α → γ
  | [] => default
  | x :: xs => (x :: xs).foldl (fun g y => update y g) (fresh x)

theorem summary_concat (fresh : α → γ) (update : α → γ → γ) (default : γ) {xs : List α}
    (hne : xs ≠ []) (x : α) :
    summary fresh update default (xs ++ [x]) = update x (summary fresh update default xs) := by
  cases xs with
  | nil => exact absurd rfl hne
  | cons y ys => simp [summary]

theorem put_summary (key : α → κ) (fresh : α → γ) (update : α → γ → γ) (default : γ)
    (xs : List α) (x : α) :
    let summaries := (groupOn key xs).map fun g => (g.1, summary fresh update default g.2)
    put (key x) (update x ((summaries.lookup (key x)).getD (fresh x))) summaries =
      (groupOn key (xs ++ [x])).map fun g => (g.1, summary fresh update default g.2) := by
  intro summaries
  rw [groupOn_concat, ← put_mapSnd, lookup_mapSnd]
  cases hlookup : (groupOn key xs).lookup (key x) with
  | none => rfl
  | some g =>
    have hne := (mem_groupOn (mem_of_lookup hlookup)).1
    simp only [Option.map_some, Option.getD_some, summary_concat fresh update default hne]
    rfl

theorem lookup_groupOn (xs : List α) (k : κ) :
    (groupOn key xs).lookup k =
      (some (xs.filter fun x => key x = k)).filter fun g => !g.isEmpty := by
  induction xs using List.reverseRecOn with
  | nil => rfl
  | append_singleton xs x ih =>
    rw [groupOn_concat, lookup_put, List.filter_append]
    by_cases hk : k = key x
    · subst k
      rw [if_pos rfl, ih]
      cases xs.filter fun y => key y = key x <;> simp [Option.filter]
    · have hx : ¬ key x = k := fun h => hk h.symm
      rw [if_neg hk, ih]
      simp [hx]

theorem keys_put (key : κ) (g : γ) (groups : List (κ × γ)) :
    (put key g groups).map Prod.fst =
      if key ∈ groups.map Prod.fst then groups.map Prod.fst else groups.map Prod.fst ++ [key] := by
  induction groups with
  | nil => rfl
  | cons first groups ih =>
    obtain ⟨k, old⟩ := first
    unfold put
    split
    · rename_i heq
      simp [heq]
    · rename_i hne
      rw [List.map_cons, ih]
      by_cases hmem : key ∈ groups.map Prod.fst
      · simp [hmem]
      · simp [hmem, Ne.symm hne]

theorem nodup_keys (key : α → κ) (xs : List α) : ((groupOn key xs).map Prod.fst).Nodup := by
  induction xs using List.reverseRecOn with
  | nil => exact List.nodup_nil
  | append_singleton xs x ih =>
    rw [groupOn_concat, keys_put]
    split
    · exact ih
    · rename_i hnew
      refine List.nodup_append.mpr ⟨ih, by simp, fun a ha b hb heq => ?_⟩
      rw [List.mem_singleton] at hb
      exact hnew (hb ▸ heq ▸ ha)

theorem lookup_of_mem {groups : List (κ × γ)} (hnodup : (groups.map Prod.fst).Nodup) {k : κ} {g : γ}
    (h : (k, g) ∈ groups) : groups.lookup k = some g := by
  induction groups with
  | nil => cases h
  | cons first groups ih =>
    rw [List.map_cons, List.nodup_cons] at hnodup
    rw [lookup_cons]
    rcases List.mem_cons.mp h with rfl | hrest
    · exact if_pos rfl
    · rw [if_neg, ih hnodup.2 hrest]
      rintro rfl
      exact hnodup.1 (List.mem_map.mpr ⟨_, hrest, rfl⟩)

theorem group_eq_filter {xs : List α} {k : κ} {g : List α} (h : (k, g) ∈ groupOn key xs) :
    g = xs.filter fun x => key x = k := by
  have hlookup := lookup_of_mem (nodup_keys key xs) h
  rw [lookup_groupOn, Option.filter_eq_some_iff] at hlookup
  exact (Option.some.inj hlookup.1).symm

/-- The groups of a list: its first element with what has the same key, then the groups of the
rest. -/
def firstSeen (key : α → κ) : List α → List (List α)
  | [] => []
  | x :: xs =>
    (x :: xs.filter fun y => key y = key x) :: firstSeen key (xs.filter fun y => key y ≠ key x)
  termination_by xs => xs.length
  decreasing_by
    have := List.length_filter_le (fun y : { y // y ∈ xs } => !decide (key y = key x)) xs.attach
    simpa [Nat.lt_succ_iff] using this

theorem groupOn_cons (key : α → κ) (x : α) (xs : List α) :
    groupOn key (x :: xs) = (key x, x :: xs.filter fun y => key y = key x) ::
      groupOn key (xs.filter fun y => key y ≠ key x) := by
  induction xs using List.reverseRecOn with
  | nil => rfl
  | append_singleton xs y ih =>
    rw [← List.cons_append, groupOn_concat, ih, List.filter_append, List.filter_append, lookup_cons,
      put]
    by_cases h : key y = key x
    · simp [h]
    · rw [if_neg h, if_neg (Ne.symm h)]
      simp only [h, decide_false, ne_eq, not_false_eq_true, decide_true, Bool.false_eq_true,
        List.filter_cons_of_pos, List.filter_cons_of_neg, List.filter_nil, List.append_nil,
        groupOn_concat]

theorem groupOn_firstSeen (key : α → κ) (xs : List α) :
    (groupOn key xs).map Prod.snd = firstSeen key xs := by
  induction hn : xs.length using Nat.strongRecOn generalizing xs with
  | ind n ih =>
    cases xs with
    | nil => rw [firstSeen, groupOn_nil, List.map_nil]
    | cons x xs =>
      have hlt : (xs.filter fun y => key y ≠ key x).length < n :=
        hn ▸ Nat.lt_succ_of_le (List.length_filter_le _ _)
      rw [firstSeen, groupOn_cons, List.map_cons, ih _ hlt _ rfl]

theorem firstSeen_congr {κ' : Type} [DecidableEq κ'] {key' : α → κ'} {xs : List α}
    (h : ∀ x ∈ xs, ∀ y ∈ xs, key x = key y ↔ key' x = key' y) :
    firstSeen key xs = firstSeen key' xs := by
  induction hn : xs.length using Nat.strongRecOn generalizing xs with
  | ind n ih =>
    cases xs with
    | nil => rw [firstSeen, firstSeen]
    | cons x xs =>
      have hfilter : (xs.filter fun y => key y = key x) = xs.filter fun y => key' y = key' x :=
        List.filter_congr fun y hy => decide_eq_decide.mpr
          (h y (List.mem_cons_of_mem _ hy) x List.mem_cons_self)
      have hrest : (xs.filter fun y => key y ≠ key x) = xs.filter fun y => key' y ≠ key' x :=
        List.filter_congr fun y hy => decide_eq_decide.mpr
          (not_congr (h y (List.mem_cons_of_mem _ hy) x List.mem_cons_self))
      have hmem : ∀ y ∈ xs.filter fun y => key y ≠ key x, y ∈ x :: xs := fun y hy =>
        List.mem_cons_of_mem _ (List.mem_filter.mp hy).1
      have hlt : (xs.filter fun y => key y ≠ key x).length < n :=
        hn ▸ Nat.lt_succ_of_le (List.length_filter_le _ _)
      rw [firstSeen, firstSeen, ih _ hlt (fun y hy z hz => h y (hmem y hy) z (hmem z hz)) rfl,
        hfilter, hrest]

theorem groupOn_map {β : Type} (f : β → α) (xs : List β) :
    groupOn key (xs.map f) =
      (groupOn (fun x => key (f x)) xs).map fun g => (g.1, g.2.map f) := by
  induction xs using List.reverseRecOn with
  | nil => rfl
  | append_singleton xs x ih =>
    rw [List.map_append, List.map_singleton, groupOn_concat, groupOn_concat, ih, ← put_mapSnd,
      lookup_mapSnd]
    congr 1
    cases (groupOn (fun x => key (f x)) xs).lookup (key (f x)) <;> simp

theorem exists_group (key : α → κ) {xs : List α} {x : α} (hx : x ∈ xs) :
    ∃ g, (key x, g) ∈ groupOn key xs ∧ x ∈ g := by
  have hmem : x ∈ xs.filter fun y => key y = key x := List.mem_filter.mpr ⟨hx, by simp⟩
  refine ⟨xs.filter fun y => key y = key x, mem_of_lookup ?_, hmem⟩
  rw [lookup_groupOn]
  simp [Option.filter, List.ne_nil_of_mem hmem]

theorem head_of_new {xs : List α} {x : α} (hnew : (groupOn key xs).lookup (key x) = none)
    (ys : List α) : ∃ more, (key x, x :: more) ∈ groupOn key (xs ++ x :: ys) := by
  refine ⟨ys.filter fun y => key y = key x, mem_of_lookup ?_⟩
  rw [lookup_groupOn] at hnew ⊢
  have hnone : xs.filter (fun y => key y = key x) = [] := by
    cases hxs : xs.filter fun y => key y = key x with
    | nil => rfl
    | cons y rest => simp [hxs] at hnew
  simp [hnone]

end Rekuiper.Lib
