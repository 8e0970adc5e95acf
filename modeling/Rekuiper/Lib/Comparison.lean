import Rekuiper.Lib.Outcome

/-!
# Comparisons that may fail

A list sorted by a comparison that is antisymmetric and transitive, as far as it returns, is in
order. Several comparisons in turn make such a one even where each tells only some elements apart,
exactly if an element that stands level with two others that differ is placed by the later ones.
-/

namespace Rekuiper.Lib

variable {α ε : Type}

abbrev Comparison (ε α : Type) := α → α → Except ε Ordering

/-- The first does not come after the second. -/
def NotAfter (cmp : Comparison ε α) (a b : α) : Prop := ∃ o, cmp a b = .ok o ∧ o ≠ .gt

structure Orders (cmp : Comparison ε α) (valid : α → Prop) : Prop where
  swap : ∀ a b o, valid a → valid b → cmp a b = .ok o → cmp b a = .ok o.swap
  trans : ∀ a b c, valid a → valid b → valid c → NotAfter cmp a b → NotAfter cmp b c →
    NotAfter cmp a c

/-- Decides by the first comparison, and where it tells no difference by the second. -/
def thenBy (first second : Comparison ε α) : Comparison ε α := fun a b => do
  let o ← first a b
  if o = .eq then second a b else return o

namespace Orders

variable {cmp first second : Comparison ε α} {valid : α → Prop}

theorem notAfter_of_eq {a b : α} (h : Orders cmp valid) (ha : valid a) (hb : valid b)
    (heq : cmp a b = .ok .eq) : NotAfter cmp b a := ⟨.eq, h.swap a b .eq ha hb heq, nofun⟩

theorem not_notAfter {a b : α} (h : Orders cmp valid) (ha : valid a) (hb : valid b)
    (hlt : cmp a b = .ok .lt) : ¬NotAfter cmp b a := by
  rintro ⟨o, ho, hne⟩
  rw [h.swap a b .lt ha hb hlt] at ho
  cases ho
  exact hne rfl

end Orders

-- ---- Several comparisons in turn

variable {cmp first second : Comparison ε α} {valid : α → Prop}

/-- Comes strictly before: a partial order. -/
structure PartlyOrders (cmp : Comparison ε α) (valid : α → Prop) : Prop where
  swap : ∀ a b o, valid a → valid b → cmp a b = .ok o → cmp b a = .ok o.swap
  returns : ∀ a b c o o', valid a → valid b → valid c → cmp a b = .ok o → cmp b c = .ok o' →
    ∃ p, cmp a c = .ok p
  trans : ∀ a b c, valid a → valid b → valid c → cmp a b = .ok .lt → cmp b c = .ok .lt →
    cmp a c = .ok .lt

/-- Decides by the first of the comparisons that tells a difference. -/
def lexicographic : List (Comparison ε α) → Comparison ε α
  | [] => fun _ _ => .ok .eq
  | cmp :: cmps => thenBy cmp (lexicographic cmps)

/-- An element that stands level with two that differ is not level with both for `later`: the first
comes before it, or it comes before the second. (Nothing is asked where `later` compares it to
neither.) -/
def Places (cmp later : Comparison ε α) (x y z : α) : Prop :=
  cmp x y = .ok .lt → cmp x z = .ok .eq → cmp z y = .ok .eq →
    (∃ o, later x z = .ok o ∨ later z y = .ok o) → later x z = .ok .lt ∨ later z y = .ok .lt

/-- Each comparison, among elements that those before it do not tell apart, has its undecided
elements placed by those after it. -/
def AllPlaced (cmps : List (Comparison ε α)) (valid : α → Prop) : Prop :=
  ∀ before cmp after, cmps = before ++ cmp :: after → ∀ x y z, valid x → valid y → valid z →
    lexicographic before x y = .ok .eq → lexicographic before x z = .ok .eq →
      lexicographic before z y = .ok .eq → Places cmp (lexicographic after) x y z

theorem thenBy_of_eq {a b : α} (h : first a b = .ok .eq) : thenBy first second a b = second a b := by
  rw [thenBy, h]
  rfl

theorem thenBy_of_ne {a b : α} {o : Ordering} (h : first a b = .ok o) (hne : o ≠ .eq) :
    thenBy first second a b = .ok o := by
  rw [thenBy, h]
  exact if_neg hne

theorem thenBy_eq_iff {a b : α} :
    thenBy first second a b = .ok .eq ↔ first a b = .ok .eq ∧ second a b = .ok .eq := by
  constructor
  · intro h
    obtain ⟨o, ho, h⟩ := bind_eq_ok h
    by_cases heq : o = .eq
    · subst heq
      exact ⟨ho, h⟩
    · rw [if_neg heq] at h
      exact absurd (Except.ok.inj h) heq
  · rintro ⟨hfirst, hsecond⟩
    rwa [thenBy_of_eq hfirst]

theorem notAfter_thenBy_of_eq {a b : α} (h : first a b = .ok .eq) :
    NotAfter (thenBy first second) a b ↔ NotAfter second a b := by
  rw [NotAfter, thenBy_of_eq h, NotAfter]

namespace PartlyOrders

theorem mono {other : α → Prop} (h : PartlyOrders cmp valid) (hsub : ∀ a, other a → valid a) :
    PartlyOrders cmp other where
  swap a b o ha hb := h.swap a b o (hsub a ha) (hsub b hb)
  returns a b c o o' ha hb hc := h.returns a b c o o' (hsub a ha) (hsub b hb) (hsub c hc)
  trans a b c ha hb hc := h.trans a b c (hsub a ha) (hsub b hb) (hsub c hc)

theorem gt {a b : α} (h : PartlyOrders cmp valid) (ha : valid a) (hb : valid b)
    (hab : cmp a b = .ok .gt) : cmp b a = .ok .lt := h.swap a b .gt ha hb hab

theorem level {a b : α} (h : PartlyOrders cmp valid) (ha : valid a) (hb : valid b)
    (hab : cmp a b = .ok .eq) : cmp b a = .ok .eq := h.swap a b .eq ha hb hab

/-- Three elements that are level with each other are so with themselves. -/
theorem level_among {x y z : α} (h : PartlyOrders cmp valid) (hx : valid x) (hy : valid y)
    (hz : valid z) (hxy : cmp x y = .ok .eq) (hxz : cmp x z = .ok .eq) (hzy : cmp z y = .ok .eq)
    (a b : α) (ha : a = x ∨ a = y ∨ a = z) (hb : b = x ∨ b = y ∨ b = z) : cmp a b = .ok .eq := by
  have hself : ∀ {a b : α}, valid a → valid b → cmp a b = .ok .eq → cmp a a = .ok .eq := by
    rintro a b ha hb hab
    obtain ⟨o, ho⟩ := h.returns a b a .eq .eq ha hb ha hab (h.level ha hb hab)
    have hswap := h.swap a a o ha ha ho
    rw [ho] at hswap ⊢
    cases o <;> cases hswap
    rfl
  have hyx := h.level hx hy hxy
  have hyz := h.level hz hy hzy
  rcases ha with rfl | rfl | rfl
  · rcases hb with rfl | rfl | rfl
    exacts [hself hx hy hxy, hxy, hxz]
  · rcases hb with rfl | rfl | rfl
    exacts [hyx, hself hy hx hyx, hyz]
  · rcases hb with rfl | rfl | rfl
    exacts [h.level hx hz hxz, hzy, hself hz hy hzy]

theorem swap_thenBy (h : PartlyOrders first valid)
    (hsecond : ∀ a b o, valid a → valid b → second a b = .ok o → second b a = .ok o.swap) (a b : α)
    (o : Ordering) (ha : valid a) (hb : valid b) (hab : thenBy first second a b = .ok o) :
    thenBy first second b a = .ok o.swap := by
  obtain ⟨p, hp, hab⟩ := bind_eq_ok hab
  have hswap := h.swap a b p ha hb hp
  cases p with
  | eq =>
    rw [thenBy_of_eq hswap]
    exact hsecond a b o ha hb hab
  | lt | gt =>
    cases hab
    exact thenBy_of_ne hswap nofun

theorem swap_lexicographic {cmps : List (Comparison ε α)}
    (h : ∀ cmp ∈ cmps, PartlyOrders cmp valid) (a b : α) (o : Ordering) (ha : valid a) (hb : valid b)
    (hab : lexicographic cmps a b = .ok o) : lexicographic cmps b a = .ok o.swap := by
  induction cmps generalizing a b o with
  | nil =>
    cases hab
    rfl
  | cons cmp cmps ih =>
    obtain ⟨hcmp, hcmps⟩ := List.forall_mem_cons.mp h
    exact hcmp.swap_thenBy (ih hcmps) a b o ha hb hab

/-- Three elements of which the first comparison tells some apart are placed in line. -/
theorem notAfter_thenBy (h : PartlyOrders first valid)
    (hswap : ∀ a b o, valid a → valid b → second a b = .ok o → second b a = .ok o.swap)
    (hplaces : ∀ x y z, valid x → valid y → valid z → Places first second x y z) {a b c : α}
    (ha : valid a) (hb : valid b) (hc : valid c)
    (hlevel : first a b = .ok .eq → first b c = .ok .eq → first a c = .ok .eq →
      NotAfter second a b → NotAfter second b c → NotAfter second a c)
    (hab : NotAfter (Lib.thenBy first second) a b) (hbc : NotAfter (Lib.thenBy first second) b c) :
    NotAfter (Lib.thenBy first second) a c := by
  obtain ⟨o, hab, hne⟩ := hab
  obtain ⟨o', hbc, hne'⟩ := hbc
  obtain ⟨p, hp, hab⟩ := bind_eq_ok hab
  obtain ⟨p', hp', hbc⟩ := bind_eq_ok hbc
  obtain ⟨q, hq⟩ := h.returns a b c p p' ha hb hc hp hp'
  -- `second` puts neither `b` before `a` nor `c` before `b` where it decides
  have hback : ∀ {x y : α} {o : Ordering}, valid x → valid y → second x y = .ok o → o ≠ .gt →
      second y x ≠ .ok .lt := by
    rintro x y o hx hy hxy hne hyx
    rw [hswap x y o hx hy hxy] at hyx
    cases o <;> cases hyx
    exact hne rfl
  have hlt : q = .lt → NotAfter (Lib.thenBy first second) a c := by
    rintro rfl
    exact ⟨.lt, thenBy_of_ne hq nofun, nofun⟩
  cases p with
  | gt =>
    cases hab
    exact absurd rfl hne
  | lt =>
    cases p' with
    | gt =>
      cases hbc
      exact absurd rfl hne'
    | lt => exact hlt (Except.ok.inj (hq.symm.trans (h.trans a b c ha hb hc hp hp')))
    | eq =>
      cases q with
      | lt => exact hlt rfl
      | gt =>
        have hcb := h.trans c a b hc ha hb (h.gt ha hc hq) hp
        cases (h.level hb hc hp').symm.trans hcb
      | eq =>
        have hcb := hswap b c o' hb hc hbc
        rcases hplaces a b c ha hb hc hp hq (h.level hb hc hp') ⟨_, .inr hcb⟩ with hac | hlast
        · exact ⟨.lt, (thenBy_of_eq hq).trans hac, nofun⟩
        · exact absurd hlast (hback hb hc hbc hne')
  | eq =>
    cases p' with
    | gt =>
      cases hbc
      exact absurd rfl hne'
    | lt =>
      cases q with
      | lt => exact hlt rfl
      | gt =>
        have hba := h.trans b c a hb hc ha hp' (h.gt ha hc hq)
        cases (h.level ha hb hp).symm.trans hba
      | eq =>
        have hba := hswap a b o ha hb hab
        rcases hplaces b c a hb hc ha hp' (h.level ha hb hp) hq ⟨_, .inl hba⟩ with hfront | hac
        · exact absurd hfront (hback ha hb hab hne)
        · exact ⟨.lt, (thenBy_of_eq hq).trans hac, nofun⟩
    | eq =>
      cases q with
      | lt => exact hlt rfl
      | gt =>
        have hba := hswap a b o ha hb hab
        rcases hplaces c a b hc ha hb (h.gt ha hc hq) (h.level hb hc hp') (h.level ha hb hp)
          ⟨_, .inr hba⟩ with hlast | hfront
        · exact absurd hlast (hback hb hc hbc hne')
        · exact absurd hfront (hback ha hb hab hne)
      | eq =>
        obtain ⟨r, hr, hrne⟩ := hlevel hp hp' hq ⟨o, hab, hne⟩ ⟨o', hbc, hne'⟩
        exact ⟨r, (thenBy_of_eq hq).trans hr, hrne⟩

end PartlyOrders

theorem Orders.places (h : Orders (thenBy first second) valid) {x y z : α} (hx : valid x)
    (hy : valid y) (hz : valid z) : Places first second x y z := by
  rintro hxy hxz hzy ⟨o, hdecides⟩
  have hlt : thenBy first second x y = .ok .lt := thenBy_of_ne hxy nofun
  have hnot := h.not_notAfter hx hy hlt
  have hmiddle : thenBy first second x z = second x z := thenBy_of_eq hxz
  have hmiddle' : thenBy first second z y = second z y := thenBy_of_eq hzy
  rw [← hmiddle, ← hmiddle'] at hdecides ⊢
  rcases hdecides with hxz | hzy
  · by_cases ho : o = .lt
    · exact .inl (ho ▸ hxz)
    -- `z` does not come after `x`, so not after `y`
    have hzx : NotAfter (thenBy first second) z x := by
      refine ⟨o.swap, h.swap x z o hx hz hxz, ?_⟩
      cases o <;> simp_all
    obtain ⟨p, hp, hne⟩ := h.trans z x y hz hx hy hzx ⟨.lt, hlt, nofun⟩
    cases p with
    | lt => exact .inr hp
    | gt => exact absurd rfl hne
    | eq => exact absurd (h.trans y z x hy hz hx (h.notAfter_of_eq hz hy hp) hzx) hnot
  · by_cases ho : o = .lt
    · exact .inr (ho ▸ hzy)
    have hyz : NotAfter (thenBy first second) y z := by
      refine ⟨o.swap, h.swap z y o hz hy hzy, ?_⟩
      cases o <;> simp_all
    obtain ⟨p, hp, hne⟩ := h.trans x y z hx hy hz ⟨.lt, hlt, nofun⟩ hyz
    cases p with
    | lt => exact .inl hp
    | gt => exact absurd rfl hne
    | eq => exact absurd (h.trans y z x hy hz hx hyz (h.notAfter_of_eq hx hz hp)) hnot

theorem orders_lexicographic_iff {cmps : List (Comparison ε α)}
    (h : ∀ cmp ∈ cmps, PartlyOrders cmp valid) :
    Orders (lexicographic cmps) valid ↔ AllPlaced cmps valid := by
  induction cmps generalizing valid with
  | nil =>
    refine iff_of_true ⟨fun a b o _ _ hab => ?_, fun a b c _ _ _ _ _ => ⟨.eq, rfl, nofun⟩⟩ ?_
    · cases hab
      rfl
    · rintro before cmp after heq
      simp at heq
  | cons first rest ih =>
    obtain ⟨hfirst, hrest⟩ := List.forall_mem_cons.mp h
    have hswap := PartlyOrders.swap_lexicographic hrest
    -- what the rest does to three elements that `first` does not tell apart
    have hthree : ∀ {other : α → Prop}, (∀ a, other a → valid a) →
        (Orders (lexicographic rest) other ↔ AllPlaced rest other) :=
      fun hsub => ih fun cmp hcmp => (hrest cmp hcmp).mono hsub
    constructor
    · rintro horders before cmp after heq x y z hx hy hz hxy hxz hzy
      cases before with
      | nil =>
        obtain ⟨rfl, rfl⟩ := List.cons.inj heq
        exact horders.places hx hy hz
      | cons first' before =>
        obtain ⟨rfl, rfl⟩ := List.cons.inj heq
        obtain ⟨hxy, hxy'⟩ := thenBy_eq_iff.mp hxy
        obtain ⟨hxz, hxz'⟩ := thenBy_eq_iff.mp hxz
        obtain ⟨hzy, hzy'⟩ := thenBy_eq_iff.mp hzy
        have hsub : ∀ a, a = x ∨ a = y ∨ a = z → valid a := by
          rintro a (rfl | rfl | rfl) <;> assumption
        refine (hthree hsub).mp ⟨fun a b o ha hb => hswap a b o (hsub a ha) (hsub b hb), ?_⟩ before
          cmp after rfl x y z (.inl rfl) (.inr (.inl rfl)) (.inr (.inr rfl)) hxy' hxz' hzy'
        rintro a b c ha hb hc hab hbc
        have hlevel := hfirst.level_among hx hy hz hxy hxz hzy
        rw [← notAfter_thenBy_of_eq (hlevel a b ha hb)] at hab
        rw [← notAfter_thenBy_of_eq (hlevel b c hb hc)] at hbc
        exact (notAfter_thenBy_of_eq (hlevel a c ha hc)).mp
          (horders.trans a b c (hsub a ha) (hsub b hb) (hsub c hc) hab hbc)
    · intro hplaced
      refine ⟨hfirst.swap_thenBy hswap, fun a b c ha hb hc hab hbc => ?_⟩
      refine hfirst.notAfter_thenBy hswap (fun x y z hx hy hz => ?_) ha hb hc ?_ hab hbc
      · exact hplaced [] first rest rfl x y z hx hy hz rfl rfl rfl
      · rintro hfab hfbc hfac
        have hsub : ∀ d, d = a ∨ d = c ∨ d = b → valid d := by
          rintro d (rfl | rfl | rfl) <;> assumption
        refine ((hthree hsub).mpr ?_).trans a b c (.inl rfl) (.inr (.inr rfl)) (.inr (.inl rfl))
        rintro before cmp after rfl x y z hx hy hz hxy hxz hzy
        have hlevel := hfirst.level_among ha hc hb hfac hfab hfbc
        exact hplaced (first :: before) cmp after rfl x y z (hsub x hx) (hsub y hy) (hsub z hz)
          (thenBy_eq_iff.mpr ⟨hlevel x y hx hy, hxy⟩) (thenBy_eq_iff.mpr ⟨hlevel x z hx hz, hxz⟩)
          (thenBy_eq_iff.mpr ⟨hlevel z y hz hy, hzy⟩)

-- ---- Sorting

theorem insertTail_ordered (h : Orders cmp valid) {x : α} (hx : valid x) {xs ys : List α}
    (hxs : ∀ y ∈ xs, valid y) (hordered : xs.Pairwise fun a b => NotAfter cmp b a)
    (hinsert : insertTail (fun a b => do return (← cmp a b) == .lt) x xs = .ok ys) :
    ys.Perm (x :: xs) ∧ ys.Pairwise fun a b => NotAfter cmp b a := by
  induction xs generalizing ys with
  | nil =>
    cases hinsert
    exact ⟨.refl _, List.pairwise_singleton _ _⟩
  | cons y rest ih =>
    obtain ⟨hy, hrest⟩ := List.forall_mem_cons.mp hxs
    obtain ⟨hlast, hordered'⟩ := List.pairwise_cons.mp hordered
    unfold insertTail at hinsert
    obtain ⟨less, hless, hinsert⟩ := bind_eq_ok hinsert
    obtain ⟨o, ho, hless⟩ := bind_eq_ok hless
    cases hless
    by_cases hlt : o = .lt
    · rw [hlt] at hinsert
      obtain ⟨zs, hzs, hinsert⟩ := bind_eq_ok hinsert
      cases hinsert
      obtain ⟨hperm, hzsordered⟩ := ih hrest hordered' hzs
      refine ⟨(hperm.cons y).trans (List.Perm.swap x y rest), List.pairwise_cons.mpr ⟨?_, hzsordered⟩⟩
      intro z hz
      rcases List.mem_cons.mp (hperm.subset hz) with rfl | hz
      · exact ⟨o, ho, by simp [hlt]⟩
      · exact hlast z hz
    · rw [beq_false_of_ne hlt] at hinsert
      cases hinsert
      have hyx : NotAfter cmp y x := by
        refine ⟨o.swap, h.swap x y o hx hy ho, ?_⟩
        cases o <;> simp_all
      refine ⟨.refl _, List.pairwise_cons.mpr ⟨fun z hz => ?_, hordered⟩⟩
      rcases List.mem_cons.mp hz with rfl | hz
      · exact hyx
      · exact h.trans z y x (hrest z hz) hy hx (hlast z hz) hyx

theorem insertTail_ok (less : α → α → Bool) (x : α) (xs : List α) :
    ∃ ys, insertTail (fun a b => .ok (less a b)) x xs = (.ok ys : Except ε (List α)) := by
  induction xs with
  | nil => exact ⟨_, rfl⟩
  | cons y rest ih =>
    obtain ⟨ys, hys⟩ := ih
    cases hless : less x y with
    | true => exact ⟨y :: ys, by simp [insertTail, hless, hys, bind, Except.bind, pure, Except.pure]⟩
    | false => exact ⟨x :: y :: rest, by simp [insertTail, hless, bind, Except.bind, pure, Except.pure]⟩

theorem sortBy_ok (cmp : α → α → Ordering) (xs : List α) :
    ∃ ys, sortBy (fun a b => .ok (cmp a b)) xs = (.ok ys : Except ε (List α)) := by
  suffices hloop : ∀ front, ∃ sorted, xs.foldlM (fun sorted x =>
      insertTail (fun a b => .ok (cmp a b == .lt)) x sorted) front =
        (.ok sorted : Except ε (List α)) by
    obtain ⟨sorted, hsorted⟩ := hloop []
    have hreverse := congrArg
      (fun result : Except ε (List α) => result >>= fun sorted => .ok sorted.reverse) hsorted
    exact ⟨sorted.reverse, hreverse⟩
  induction xs with
  | nil => exact fun front => ⟨front, rfl⟩
  | cons x xs ih =>
    intro front
    obtain ⟨next, hnext⟩ := insertTail_ok (ε := ε) (fun a b => cmp a b == .lt) x front
    rw [List.foldlM_cons, hnext]
    exact ih next

theorem sortBy_ordered (h : Orders cmp valid) {xs ys : List α} (hxs : ∀ x ∈ xs, valid x)
    (hsort : sortBy cmp xs = .ok ys) : ys.Perm xs ∧ ys.Pairwise (NotAfter cmp) := by
  obtain ⟨sorted, hsorted, hreverse⟩ := bind_eq_ok hsort
  cases hreverse
  suffices hloop : ∀ front, (∀ x ∈ front, valid x) →
      front.Pairwise (fun a b => NotAfter cmp b a) →
      xs.foldlM (fun sorted x => insertTail (fun a b => do return (← cmp a b) == .lt) x sorted)
        front = .ok sorted →
      sorted.Perm (xs ++ front) ∧ sorted.Pairwise fun a b => NotAfter cmp b a by
    obtain ⟨hperm, hordered⟩ := hloop [] (List.forall_mem_nil _) .nil hsorted
    rw [List.append_nil] at hperm
    exact ⟨(List.reverse_perm sorted).trans hperm, List.pairwise_reverse.mpr hordered⟩
  clear hsorted hsort
  induction xs with
  | nil =>
    intro front _ hordered hrun
    cases hrun
    exact ⟨.refl _, hordered⟩
  | cons x xs ih =>
    intro front hfront hordered hrun
    obtain ⟨hx, hxs⟩ := List.forall_mem_cons.mp hxs
    rw [List.foldlM_cons] at hrun
    obtain ⟨next, hnext, hrun⟩ := bind_eq_ok hrun
    obtain ⟨hperm, hordered⟩ := insertTail_ordered h hx hfront hordered hnext
    have hvalid : ∀ y ∈ next, valid y := fun y hy =>
      List.forall_mem_cons.mpr ⟨hx, hfront⟩ y (hperm.subset hy)
    obtain ⟨hperm', hordered⟩ := ih hxs next hvalid hordered hrun
    refine ⟨(hperm'.trans (hperm.append_left xs)).trans ?_, hordered⟩
    exact List.perm_middle

end Rekuiper.Lib
