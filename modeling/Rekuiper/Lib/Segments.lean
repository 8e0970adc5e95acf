import Mathlib.Data.List.Flatten
import Mathlib.Data.List.Forall2
import Mathlib.Data.List.Induction
import Mathlib.Data.List.Perm.Basic
import Mathlib.Order.Nat

/-!
# Cutting a list into segments

The elements are taken in order. Each one is compared with the first and with the last element of
the segment that is open, and either joins this segment or starts the next.
-/

namespace Rekuiper.Lib

variable {α β : Type} {cut : α → α → α → Bool}

structure Segmented (α : Type) where
  closed : List (List α)
  current : List α

/-- Whether `x` starts a segment; the first element of all does not. -/
def isCut (cut : α → α → α → Bool) (current : List α) (x : α) : Bool :=
  match current.head?, current.getLast? with
  | some first, some last => cut first last x
  | _, _ => false

namespace Segmented

def push (cut : α → α → α → Bool) (s : Segmented α) (x : α) : Segmented α :=
  if isCut cut s.current x then ⟨s.closed ++ [s.current], [x]⟩ else ⟨s.closed, s.current ++ [x]⟩

def segments (s : Segmented α) : List (List α) :=
  s.closed ++ if s.current.isEmpty then [] else [s.current]

end Segmented

def segmented (cut : α → α → α → Bool) (l : List α) : Segmented α :=
  l.foldl (Segmented.push cut) ⟨[], []⟩

def segments (cut : α → α → α → Bool) (l : List α) : List (List α) := (segmented cut l).segments

@[simp] theorem isCut_nil (x : α) : isCut cut [] x = false := rfl

theorem segmented_snoc (l : List α) (x : α) :
    segmented cut (l ++ [x]) = (segmented cut l).push cut x := by
  simp [segmented]

theorem push_cut {s : Segmented α} {x : α} (h : isCut cut s.current x = true) :
    s.push cut x = ⟨s.closed ++ [s.current], [x]⟩ := if_pos h

theorem push_joined {s : Segmented α} {x : α} (h : isCut cut s.current x = false) :
    s.push cut x = ⟨s.closed, s.current ++ [x]⟩ := by
  simp [Segmented.push, h]

theorem flatten_segmented (l : List α) :
    (segmented cut l).closed.flatten ++ (segmented cut l).current = l := by
  induction l using List.reverseRecOn with
  | nil => rfl
  | append_singleton l x ih =>
    rw [segmented_snoc]
    cases h : isCut cut (segmented cut l).current x with
    | true => simp [push_cut h, ih]
    | false => simp [push_joined h, ← List.append_assoc, ih]

theorem current_ne_nil {l : List α} (hl : l ≠ []) : (segmented cut l).current ≠ [] := by
  induction l using List.reverseRecOn with
  | nil => exact absurd rfl hl
  | append_singleton l x ih =>
    rw [segmented_snoc]
    cases h : isCut cut (segmented cut l).current x with
    | true => simp [push_cut h]
    | false => simp [push_joined h]

theorem ne_nil_of_mem_closed {l seg : List α} (h : seg ∈ (segmented cut l).closed) :
    seg ≠ [] := by
  induction l using List.reverseRecOn with
  | nil => cases h
  | append_singleton l x ih =>
    rw [segmented_snoc] at h
    cases hcut : isCut cut (segmented cut l).current x with
    | true =>
      rw [push_cut hcut] at h
      rcases List.mem_append.mp h with h | h
      · exact ih h
      · rintro rfl
        rw [← List.mem_singleton.mp h] at hcut
        cases hcut
    | false =>
      rw [push_joined hcut] at h
      exact ih h

theorem segments_of_ne_nil {l : List α} (hl : l ≠ []) :
    segments cut l = (segmented cut l).closed ++ [(segmented cut l).current] := by
  simp [segments, Segmented.segments, current_ne_nil hl]

@[simp] theorem segments_nil : segments cut [] = [] := rfl

theorem flatten_segments (l : List α) : (segments cut l).flatten = l := by
  by_cases hl : l = []
  · simp [hl]
  · rw [segments_of_ne_nil hl, List.flatten_append, List.flatten_singleton, flatten_segmented]

theorem ne_nil_of_mem_segments {l seg : List α} (h : seg ∈ segments cut l) : seg ≠ [] := by
  by_cases hl : l = []
  · rw [hl] at h
    cases h
  · rw [segments_of_ne_nil hl] at h
    rcases List.mem_append.mp h with h | h
    · exact ne_nil_of_mem_closed h
    · exact List.mem_singleton.mp h ▸ current_ne_nil hl

theorem getLast?_current (l : List α) : (segmented cut l).current.getLast? = l.getLast? := by
  by_cases hl : l = []
  · rw [hl]
    rfl
  · conv_rhs => rw [← @flatten_segmented α cut l]
    rw [List.getLast?_append_of_ne_nil _ (current_ne_nil hl)]

-- ---- Two ways to cut the same list

theorem segmented_map (g : β → α) (l : List β) :
    segmented cut (l.map g) =
      ⟨(segmented (fun f p x => cut (g f) (g p) (g x)) l).closed.map (List.map g),
        (segmented (fun f p x => cut (g f) (g p) (g x)) l).current.map g⟩ := by
  have hcut : ∀ (current : List β) (x : β), isCut cut (current.map g) (g x) =
      isCut (fun f p x => cut (g f) (g p) (g x)) current x := by
    intro current x
    unfold isCut
    rw [List.head?_map, List.getLast?_map]
    cases current.head? <;> cases current.getLast? <;> rfl
  induction l using List.reverseRecOn with
  | nil => rfl
  | append_singleton l x ih =>
    rw [List.map_append, List.map_singleton, segmented_snoc, segmented_snoc, ih]
    unfold Segmented.push
    rw [hcut]
    split <;> simp

theorem segments_map (g : β → α) (l : List β) :
    segments cut (l.map g) =
      (segments (fun f p x => cut (g f) (g p) (g x)) l).map (List.map g) := by
  simp only [segments, Segmented.segments, segmented_map]
  split <;> simp_all

theorem segmented_snoc_eq_iff {cut' : α → α → α → Bool} (l : List α) (x : α) :
    segmented cut (l ++ [x]) = segmented cut' (l ++ [x]) ↔
      segmented cut l = segmented cut' l ∧
        isCut cut (segmented cut' l).current x = isCut cut' (segmented cut' l).current x := by
  rw [segmented_snoc, segmented_snoc]
  constructor
  · intro heq
    have hopen : ∀ {c c' : α → α → α → Bool}, isCut c (segmented c l).current x = true →
        [x] = (segmented c' l).current ++ [x] → False := by
      intro c c' hcut hcurrent
      have hl : l = [] := by
        by_contra hl
        exact current_ne_nil hl (List.append_left_eq_self.mp hcurrent.symm)
      rw [hl] at hcut
      cases hcut
    have hsame : segmented cut l = segmented cut' l := by
      cases h : isCut cut (segmented cut l).current x <;>
        cases h' : isCut cut' (segmented cut' l).current x
      all_goals simp only [Segmented.push, h, h', if_true, Bool.false_eq_true, if_false,
        Segmented.mk.injEq] at heq
      · rcases hs : segmented cut l with ⟨closed, current⟩
        rcases hs' : segmented cut' l with ⟨closed', current'⟩
        simp only [hs, hs'] at heq
        rw [heq.1, List.append_cancel_right heq.2]
      · exact (hopen h' heq.2.symm).elim
      · exact (hopen h heq.2).elim
      · rcases hs : segmented cut l with ⟨closed, current⟩
        rcases hs' : segmented cut' l with ⟨closed', current'⟩
        simp only [hs, hs'] at heq
        obtain ⟨hclosed, hcurrent⟩ := List.append_inj' heq.1 rfl
        rw [hclosed, List.singleton_inj.mp hcurrent]
    refine ⟨hsame, ?_⟩
    rw [hsame] at heq
    cases h : isCut cut (segmented cut' l).current x <;>
      cases h' : isCut cut' (segmented cut' l).current x <;>
      simp [Segmented.push, h, h'] at heq ⊢
  · rintro ⟨hsame, hcut⟩
    rw [hsame]
    unfold Segmented.push
    rw [hcut]

theorem iff_forall_initial {P : List α → Prop} {Q : List α → α → Prop} (nil : P [])
    (snoc : ∀ l x, P (l ++ [x]) ↔ P l ∧ Q l x) (l : List α) :
    P l ↔ ∀ before x, before ++ [x] <+: l → Q before x := by
  induction l using List.reverseRecOn with
  | nil => simp [nil]
  | append_singleton l x ih =>
    rw [snoc, ih]
    constructor
    · rintro ⟨hbefore, hx⟩ before y hinitial
      rcases List.prefix_concat_iff.mp hinitial with heq | hinitial
      · obtain ⟨rfl, hy⟩ := List.append_inj' heq rfl
        exact List.singleton_inj.mp hy ▸ hx
      · exact hbefore before y hinitial
    · intro h
      exact ⟨fun before y hinitial => h before y (hinitial.trans (List.prefix_append l [x])),
        h l x (List.prefix_refl _)⟩

theorem forall_prefix_of_forall_fin {Q : List α → α → Prop} {l : List α}
    (h : ∀ i : Fin l.length, Q (l.take i) (l.get i)) :
    ∀ before x, before ++ [x] <+: l → Q before x := by
  rintro before x ⟨after, rfl⟩
  have hlt : before.length < (before ++ [x] ++ after).length := by
    simp only [List.length_append, List.length_singleton]
    omega
  simpa using h ⟨before.length, hlt⟩

theorem segments_inj {cut' : α → α → α → Bool} {l : List α} :
    segments cut l = segments cut' l ↔ segmented cut l = segmented cut' l := by
  constructor
  · intro heq
    by_cases hl : l = []
    · rw [hl]
      rfl
    · rw [segments_of_ne_nil hl, segments_of_ne_nil hl] at heq
      obtain ⟨hclosed, hcurrent⟩ := List.append_inj' heq rfl
      rcases hs : segmented cut l with ⟨closed, current⟩
      rcases hs' : segmented cut' l with ⟨closed', current'⟩
      simp only [hs, hs'] at hclosed hcurrent
      rw [hclosed, List.singleton_inj.mp hcurrent]
  · intro heq
    rw [segments, heq, ← segments]

theorem segments_eq_iff {cut' : α → α → α → Bool} (l : List α) :
    segments cut l = segments cut' l ↔ ∀ before x, before ++ [x] <+: l →
      isCut cut (segmented cut' before).current x =
        isCut cut' (segmented cut' before).current x := by
  rw [segments_inj]
  exact @iff_forall_initial α (fun l => segmented cut l = segmented cut' l) _ rfl
    segmented_snoc_eq_iff l

-- ---- Segments that a key numbers

def Indexed (key : α → Nat) (segs : List (List α)) : Prop :=
  ∀ i seg, segs[i]? = some seg → ∀ x ∈ seg, key x = i

variable {key : α → Nat}

theorem indexed_nil : Indexed key [] := by
  intro i seg h
  simp at h

theorem indexed_snoc {segs : List (List α)} {seg : List α} :
    Indexed key (segs ++ [seg]) ↔ Indexed key segs ∧ ∀ x ∈ seg, key x = segs.length := by
  constructor
  · intro h
    refine ⟨fun i seg' hi => h i seg' ?_, h segs.length seg (by simp)⟩
    rw [List.getElem?_append_left (List.getElem?_eq_some_iff.mp hi).1]
    exact hi
  · rintro ⟨hsegs, hseg⟩ i seg' hi
    rcases Nat.lt_or_ge i segs.length with hlt | hge
    · rw [List.getElem?_append_left hlt] at hi
      exact hsegs i seg' hi
    · rw [List.getElem?_append_right hge] at hi
      obtain ⟨hzero, rfl⟩ : i - segs.length = 0 ∧ seg = seg' := by
        simpa [List.getElem?_singleton] using hi
      have hlen : segs.length = i := by omega
      exact hlen ▸ hseg

theorem filter_key_flatten {segs : List (List α)} (h : Indexed key segs) (i : Nat) :
    segs.flatten.filter (fun x => key x == i) = segs[i]?.getD [] := by
  induction segs using List.reverseRecOn with
  | nil => rfl
  | append_singleton segs seg ih =>
    rw [indexed_snoc] at h
    have hall : seg.filter (fun x => key x == i) = if segs.length = i then seg else [] := by
      split
      · refine List.filter_eq_self.mpr fun x hx => ?_
        simp_all
      · refine List.filter_eq_nil_iff.mpr fun x hx => ?_
        simp_all
    rw [List.flatten_append, List.filter_append, ih h.1, List.flatten_singleton, hall]
    rcases Nat.lt_trichotomy i segs.length with hlt | rfl | hgt
    · simp [List.getElem?_append_left hlt, Nat.ne_of_gt hlt]
    · simp
    · have hlen : (segs ++ [seg]).length ≤ i := by simpa using Nat.succ_le_of_lt hgt
      simp [List.getElem?_eq_none hlen, List.getElem?_eq_none (Nat.le_of_lt hgt),
        Nat.ne_of_lt hgt]

theorem isSome_getElem?_iff {segs : List (List α)} (hne : ∀ seg ∈ segs, seg ≠ []) (i : Nat) :
    segs[i]?.isSome ↔ segs[i]?.getD [] ≠ [] := by
  cases h : segs[i]? with
  | none => simp
  | some seg => simpa using hne seg (List.mem_of_getElem? h)

theorem forall₂_perm_iff_indexed {segs segs' : List (List α)} (hne : ∀ seg ∈ segs, seg ≠ [])
    (hne' : ∀ seg ∈ segs', seg ≠ []) (hindexed : Indexed key segs')
    (hperm : segs.flatten.Perm segs'.flatten) :
    List.Forall₂ List.Perm segs segs' ↔ Indexed key segs := by
  constructor
  · intro h i seg hi x hx
    obtain ⟨hlt, hget⟩ := List.getElem?_eq_some_iff.mp hi
    have hlt' : i < segs'.length := h.length_eq ▸ hlt
    have hseg := (List.forall₂_iff_get.mp h).2 i hlt hlt'
    simp only [List.get_eq_getElem, hget] at hseg
    exact hindexed i _ (List.getElem?_eq_getElem hlt') x (hseg.mem_iff.mp hx)
  · intro h
    have hseg : ∀ i : Nat, (segs[i]?.getD []).Perm (segs'[i]?.getD []) := by
      intro i
      rw [← filter_key_flatten h, ← filter_key_flatten hindexed]
      exact hperm.filter _
    have hsome : ∀ i : Nat, segs[i]?.isSome ↔ segs'[i]?.isSome := by
      intro i
      rw [isSome_getElem?_iff hne, isSome_getElem?_iff hne', ne_eq, ne_eq,
        ← List.length_eq_zero_iff, ← List.length_eq_zero_iff, (hseg i).length_eq]
    have hlen : segs.length = segs'.length := by
      refine eq_of_forall_lt_iff fun i => ?_
      simpa using hsome i
    refine List.forall₂_iff_get.mpr ⟨hlen, fun i hi hi' => ?_⟩
    simpa [hi, hi'] using hseg i

theorem forall₂_perm_map (g : α → β) {segs segs' : List (List α)}
    (h : List.Forall₂ List.Perm segs segs') :
    List.Forall₂ List.Perm (segs.map (List.map g)) (segs'.map (List.map g)) := by
  rw [List.forall₂_map_left_iff, List.forall₂_map_right_iff]
  exact h.imp fun _ _ hperm => hperm.map g

theorem forall₂_perm_symm {segs segs' : List (List α)} (h : List.Forall₂ List.Perm segs segs') :
    List.Forall₂ List.Perm segs' segs :=
  List.Forall₂.flip (h.imp fun _ _ hperm => hperm.symm)

theorem forall₂_perm_trans {segs segs' segs'' : List (List α)}
    (h : List.Forall₂ List.Perm segs segs') (h' : List.Forall₂ List.Perm segs' segs'') :
    List.Forall₂ List.Perm segs segs'' := by
  induction h generalizing segs'' with
  | nil => exact h'
  | cons hseg _ ih =>
    cases h' with
    | cons hseg' hrest' => exact .cons (hseg.trans hseg') (ih hrest')

theorem indexed_map {g : β → α} {segs : List (List β)} :
    Indexed key (segs.map (List.map g)) ↔ Indexed (fun x => key (g x)) segs := by
  simp [Indexed, List.getElem?_map]

/-- The index of the segment of `x`, from the indices of the elements before it. -/
def nextKey (cut : α → α → α → Bool) (key : α → Nat) (before : List α) (x : α) : Nat :=
  match before.getLast? with
  | none => 0
  | some last =>
    if isCut cut (before.filter fun y => key y == key last) x then key last + 1 else key last

theorem indexed_segments_snoc (l : List α) (x : α) :
    Indexed key (segments cut (l ++ [x])) ↔
      Indexed key (segments cut l) ∧ key x = nextKey cut key l x := by
  by_cases hl : l = []
  · subst hl
    have hone : segments cut ([] ++ [x]) = [] ++ [[x]] := rfl
    rw [hone, indexed_snoc]
    simp [nextKey]
  have hsegments := @segments_of_ne_nil α cut l hl
  rw [segments_of_ne_nil (by simp), segmented_snoc]
  -- the key of the last element is the index of the open segment, which has the rows of this key
  have hnext (h : Indexed key (segments cut l)) : nextKey cut key l x =
      if isCut cut (segmented cut l).current x then (segmented cut l).closed.length + 1
      else (segmented cut l).closed.length := by
    have hlast : l.getLast? = some (l.getLast hl) := List.getLast?_eq_some_getLast hl
    have hfilter := filter_key_flatten h (segmented cut l).closed.length
    have hcurrent : (segmented cut l).current.getLast? = some (l.getLast hl) := by
      rw [getLast?_current, hlast]
    rw [flatten_segments, hsegments, List.getElem?_concat_length, Option.getD_some] at hfilter
    rw [hsegments, indexed_snoc] at h
    simp only [nextKey, hlast, h.2 _ (List.mem_of_getLast? hcurrent), hfilter]
  cases hcut : isCut cut (segmented cut l).current x with
  | true =>
    rw [push_cut hcut, indexed_snoc, ← hsegments]
    refine and_congr_right fun h => ?_
    rw [hnext h, hsegments]
    simp [hcut]
  | false =>
    rw [push_joined hcut, indexed_snoc]
    constructor
    · rintro ⟨hclosed, hcurrent⟩
      have h : Indexed key (segments cut l) := by
        rw [hsegments, indexed_snoc]
        exact ⟨hclosed, fun y hy => hcurrent y (List.mem_append_left _ hy)⟩
      refine ⟨h, ?_⟩
      rw [hnext h, hcut]
      exact hcurrent x (by simp)
    · rintro ⟨h, hx⟩
      rw [hnext h, hcut] at hx
      rw [hsegments, indexed_snoc] at h
      refine ⟨h.1, fun y hy => ?_⟩
      rcases List.mem_append.mp hy with hy | hy
      · exact h.2 y hy
      · rw [List.mem_singleton.mp hy]
        exact hx

theorem indexed_segments_iff (l : List α) :
    Indexed key (segments cut l) ↔
      ∀ before x, before ++ [x] <+: l → key x = nextKey cut key before x :=
  @iff_forall_initial α (fun l => Indexed key (segments cut l)) _ indexed_nil
    indexed_segments_snoc l

-- ---- Segments of a sorted list

theorem segments_strict {κ : Type} [Preorder κ] {rank : α → κ} {l : List α}
    (hsorted : l.Pairwise fun x y => rank x ≤ rank y)
    (hstrict : ∀ before x, before ++ [x] <+: l →
      isCut cut (segmented cut before).current x = true → ∀ y ∈ before, rank y < rank x) :
    (segments cut l).Pairwise fun s t => ∀ x ∈ s, ∀ y ∈ t, rank x < rank y := by
  induction l using List.reverseRecOn with
  | nil => exact List.Pairwise.nil
  | append_singleton l x ih =>
    rw [List.pairwise_append] at hsorted
    have hx : ∀ y ∈ l, rank y ≤ rank x := fun y hy => hsorted.2.2 y hy x (by simp)
    have hl := ih hsorted.1 fun before y hinitial =>
      hstrict before y (hinitial.trans (List.prefix_append l [x]))
    by_cases hnil : l = []
    · subst hnil
      exact List.pairwise_singleton _ _
    have hmem : ∀ seg ∈ segments cut l, ∀ y ∈ seg, y ∈ l := fun seg hseg y hy =>
      @flatten_segments α cut l ▸ List.mem_flatten.mpr ⟨seg, hseg, hy⟩
    rw [segments_of_ne_nil (by simp), segmented_snoc]
    cases hcut : isCut cut (segmented cut l).current x with
    | true =>
      rw [push_cut hcut, ← segments_of_ne_nil hnil, List.pairwise_append]
      refine ⟨hl, List.pairwise_singleton _ _, fun seg hseg t ht y hy z hz => ?_⟩
      obtain rfl := List.mem_singleton.mp ht
      obtain rfl := List.mem_singleton.mp hz
      exact hstrict l z (List.prefix_refl _) hcut y (hmem seg hseg y hy)
    | false =>
      have hsegments := @segments_of_ne_nil α cut l hnil
      rw [hsegments, List.pairwise_append] at hl
      rw [push_joined hcut, List.pairwise_append]
      refine ⟨hl.1, List.pairwise_singleton _ _, fun seg hseg t ht y hy z hz => ?_⟩
      obtain rfl := List.mem_singleton.mp ht
      have hcurrent := hl.2.2 seg hseg _ (List.mem_singleton_self _) y hy
      rcases List.mem_append.mp hz with hz | hz
      · exact hcurrent z hz
      · -- through any element of the open segment
        obtain rfl := List.mem_singleton.mp hz
        obtain ⟨w, hw⟩ := List.exists_mem_of_ne_nil _ (@current_ne_nil α cut l hnil)
        refine (hcurrent w hw).trans_le (hx w (hmem _ ?_ w hw))
        simp [hsegments]

theorem indexed_findIdx {κ : Type} [Preorder κ] [DecidableEq κ] {rank : α → κ}
    {segs : List (List α)}
    (h : segs.Pairwise fun s t => ∀ x ∈ s, ∀ y ∈ t, rank x < rank y) :
    Indexed (fun x => segs.findIdx fun seg => seg.any fun y => rank y == rank x) segs := by
  intro i seg hi x hx
  obtain ⟨hlt, rfl⟩ := List.getElem?_eq_some_iff.mp hi
  refine (List.findIdx_eq hlt).mpr ⟨List.any_eq_true.mpr ⟨x, hx, by simp⟩, fun j hj => ?_⟩
  rw [List.any_eq_false]
  intro y hy
  have hyx := List.pairwise_iff_getElem.mp h j i (by omega) hlt hj y hy x hx
  simpa using hyx.ne

end Rekuiper.Lib
