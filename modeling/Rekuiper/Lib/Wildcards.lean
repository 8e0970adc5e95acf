import Mathlib.Data.List.Basic
import Mathlib.Data.List.Infix
import Mathlib.Data.Prod.Lex
import Rekuiper.Lib.Loop

/-!
# Wildcards

A pattern is a list of items: each is one character of some kind, or any text. The matcher takes
as few characters as it can for each `many` and goes back to the last one only. That is enough:
whatever an earlier one could take instead, the last one can take too.
-/

namespace Rekuiper.Lib.Wildcards

inductive Item (α : Type) where
  | many
  | single (accepts : α → Bool)

def Item.isMany {α : Type} : Item α → Bool
  | .many => true
  | .single _ => false

inductive Matches {α : Type} : List (Item α) → List α → Prop
  | nil : Matches [] []
  | single {accepts : α → Bool} {c : α} {items : List (Item α)} {text : List α} :
    accepts c = true → Matches items text → Matches (.single accepts :: items) (c :: text)
  | skip {items : List (Item α)} {text : List α} :
    Matches items text → Matches (.many :: items) text
  | take {items : List (Item α)} {c : α} {text : List α} :
    Matches (.many :: items) text → Matches (.many :: items) (c :: text)

variable {α : Type} {items items' passed : List (Item α)} {text text' read : List α} {c : α}
  {accepts : α → Bool}

@[simp] theorem matches_nil : Matches [] text ↔ text = [] := by
  constructor
  · rintro ⟨⟩
    rfl
  · rintro rfl
    exact .nil

@[simp] theorem matches_single_cons :
    Matches (.single accepts :: items) (c :: text) ↔ accepts c = true ∧ Matches items text := by
  constructor
  · rintro (_ | ⟨h, hrest⟩)
    exact ⟨h, hrest⟩
  · rintro ⟨h, hrest⟩
    exact .single h hrest

@[simp] theorem not_matches_single_nil : ¬Matches (.single accepts :: items) [] := by
  rintro ⟨⟩

@[simp] theorem matches_many_nil : Matches (.many :: items) [] ↔ Matches items [] := by
  constructor
  · rintro (_ | _ | h)
    exact h
  · exact .skip

theorem matches_many_cons :
    Matches (.many :: items) (c :: text) ↔
      Matches items (c :: text) ∨ Matches (.many :: items) text := by
  constructor
  · rintro (_ | _ | h | h)
    · exact .inl h
    · exact .inr h
  · rintro (h | h)
    · exact .skip h
    · exact .take h

theorem matches_nil_right : Matches items [] ↔ items.all Item.isMany = true := by
  induction items with
  | nil => simp
  | cons item items ih => cases item <;> simp [Item.isMany, ih]

theorem matches_many_append (h : Matches (.many :: items) text) :
    Matches (.many :: items) (read ++ text) := by
  induction read with
  | nil => exact h
  | cons c read ih => exact .take ih

theorem matches_many_split (h : Matches (.many :: items) text) :
    ∃ read rest, text = read ++ rest ∧ Matches items rest := by
  induction text with
  | nil => exact ⟨[], [], rfl, matches_many_nil.mp h⟩
  | cons c text ih =>
    rcases matches_many_cons.mp h with hskip | htake
    · exact ⟨[], c :: text, rfl, hskip⟩
    · obtain ⟨read, rest, rfl, hrest⟩ := ih htake
      exact ⟨c :: read, rest, rfl, hrest⟩

theorem matches_single :
    Matches (.single accepts :: items) text ↔
      ∃ c rest, text = c :: rest ∧ accepts c = true ∧ Matches items rest := by
  cases text <;> simp

theorem matches_many :
    Matches (.many :: items) text ↔ ∃ read rest, text = read ++ rest ∧ Matches items rest := by
  constructor
  · exact matches_many_split
  · rintro ⟨read, rest, rfl, h⟩
    exact matches_many_append (.skip h)

theorem matches_passed (hpassed : ∀ item ∈ passed, item.isMany = false)
    (h : Matches (passed ++ items) text) :
    ∃ read rest, text = read ++ rest ∧ read.length = passed.length ∧ Matches items rest := by
  induction passed generalizing text with
  | nil => exact ⟨[], text, rfl, rfl, h⟩
  | cons item passed ih =>
    cases item with
    | many => exact absurd (hpassed .many (by simp)) (by simp [Item.isMany])
    | single accepts =>
      cases text with
      | nil => exact absurd h not_matches_single_nil
      | cons c text =>
        obtain ⟨-, h⟩ := matches_single_cons.mp h
        obtain ⟨read, rest, rfl, hlen, hrest⟩ :=
          ih (fun item hitem => hpassed item (List.mem_cons_of_mem _ hitem)) h
        exact ⟨c :: read, rest, rfl, by simp [hlen], hrest⟩

-- ---- The matcher

/-- What is still to be matched, and what was when the last `many` was met: the items behind it
and the text from where it takes characters. -/
structure Cursor (α : Type) where
  text : List α
  items : List (Item α)
  star : Option (List (Item α) × List α)

/-- The last `many` takes one character more. -/
def retry : Option (List (Item α) × List α) → Cursor α ⊕ Bool
  | some (items, _ :: text) => .inl ⟨text, items, some (items, text)⟩
  | _ => .inr false

def scan (cursor : Cursor α) : Cursor α ⊕ Bool :=
  match cursor.text, cursor.items with
  | [], items => .inr (items.all Item.isMany)
  | c :: text, .many :: items => .inl ⟨c :: text, items, some (items, c :: text)⟩
  | c :: text, .single accepts :: items =>
    if accepts c then .inl ⟨text, items, cursor.star⟩ else retry cursor.star
  | _ :: _, [] => retry cursor.star

/-- Since the last `many`, each item has taken one character. -/
def Cursor.Tracked (cursor : Cursor α) : Prop :=
  ∀ items text, cursor.star = some (items, text) →
    ∃ passed read, (∀ item ∈ passed, item.isMany = false) ∧ passed.length = read.length ∧
      items = passed ++ cursor.items ∧ text = read ++ cursor.text

/-- The text can be matched from here, or after the last `many` takes more. -/
def Cursor.Accepts (cursor : Cursor α) : Prop :=
  Matches cursor.items cursor.text ∨
    ∃ items c text, cursor.star = some (items, c :: text) ∧ Matches (.many :: items) text

/-- Items left after the last `many`, characters left to it, and characters left. -/
def Cursor.rank (cursor : Cursor α) : Nat × Nat × Nat :=
  match cursor.star with
  | none => (cursor.items.length + 1, 0, cursor.text.length)
  | some (items, text) => (items.length, text.length, cursor.text.length)

/-- What an earlier `many` could take more, the one met now can take too. -/
theorem Cursor.Tracked.forget {cursor : Cursor α} (h : cursor.Tracked)
    (hitems : cursor.items = .many :: items) (hstar : cursor.star = some (items', c :: text'))
    (hmatch : Matches (.many :: items') text') : Matches (.many :: items) cursor.text := by
  obtain ⟨passed, read, hsingle, hlen, rfl, hread⟩ := h _ _ hstar
  obtain ⟨first, rest, rfl, hrest⟩ := matches_many_split hmatch
  obtain ⟨second, rest, rfl, hsecond, hrest⟩ := matches_passed hsingle hrest
  rw [hitems] at hrest
  have htail : rest <:+ cursor.text := by
    have hpassed : rest <:+ c :: (first ++ (second ++ rest)) := ⟨c :: first ++ second, by simp⟩
    apply List.suffix_of_suffix_length_le hpassed
    · exact ⟨read, hread.symm⟩
    · have := congrArg List.length hread
      simp at this
      omega
  obtain ⟨before, hbefore⟩ := htail
  rw [← hbefore]
  exact matches_many_append hrest

theorem Cursor.Tracked.exhausted {cursor : Cursor α} (h : cursor.Tracked)
    (htext : cursor.text = []) (hstar : cursor.star = some (items', c :: text')) :
    ¬Matches (.many :: items') text' := by
  intro hmatch
  obtain ⟨passed, read, hsingle, hlen, rfl, hread⟩ := h _ _ hstar
  obtain ⟨first, rest, rfl, hrest⟩ := matches_many_split hmatch
  obtain ⟨second, rest, rfl, hsecond, -⟩ := matches_passed hsingle hrest
  have := congrArg List.length hread
  simp [htext] at this
  omega

theorem retry_step {cursor next : Cursor α} (hstuck : ¬Matches cursor.items cursor.text)
    (hretry : retry cursor.star = .inl next) :
    next.Tracked ∧ Prod.Lex (· < ·) (Prod.Lex (· < ·) (· < ·)) next.rank cursor.rank ∧
      (next.Accepts ↔ cursor.Accepts) := by
  obtain ⟨items, c, text, hstar⟩ :
      ∃ items c text, cursor.star = some (items, c :: text) := by
    revert hretry
    rcases cursor.star with _ | ⟨items, _ | ⟨c, text⟩⟩ <;> simp [retry]
  simp only [hstar, retry, Sum.inl.injEq] at hretry
  subst hretry
  refine ⟨?_, ?_, ?_⟩
  · rintro items' text' hnew
    cases hnew
    exact ⟨[], [], by simp, rfl, rfl, rfl⟩
  · simp [Cursor.rank, hstar, Prod.lex_def]
  · simp only [Cursor.Accepts, hstar, hstuck, false_or]
    cases text with
    | nil => simp
    | cons d text => simp [matches_many_cons]

theorem retry_none (cursor : Cursor α) (hretry : retry cursor.star = .inr b) :
    b = false ∧ (cursor.Accepts ↔ Matches cursor.items cursor.text) := by
  revert hretry
  rcases hstar : cursor.star with _ | ⟨items, _ | ⟨c, text⟩⟩ <;>
    simp_all [retry, Cursor.Accepts]

theorem scan_step {cursor next : Cursor α} (h : cursor.Tracked) (hscan : scan cursor = .inl next) :
    next.Tracked ∧ Prod.Lex (· < ·) (Prod.Lex (· < ·) (· < ·)) next.rank cursor.rank ∧
      (next.Accepts ↔ cursor.Accepts) := by
  obtain ⟨text, items, star⟩ := cursor
  cases text with
  | nil => simp [scan] at hscan
  | cons c text =>
    cases items with
    | nil => exact retry_step (by simp) (by simpa [scan] using hscan)
    | cons item items =>
      cases item with
      | many =>
        simp only [scan, Sum.inl.injEq] at hscan
        subst hscan
        refine ⟨?_, ?_, ?_⟩
        · rintro items' text' hnew
          cases hnew
          exact ⟨[], [], by simp, rfl, rfl, rfl⟩
        · cases star with
          | none =>
            have hshorter : items.length < items.length + 1 + 1 := by omega
            exact .left _ _ hshorter
          | some star =>
            obtain ⟨passed, read, -, -, hitems, -⟩ := h _ _ rfl
            have hlength := congrArg List.length hitems
            simp only [List.length_append, List.length_cons] at hlength
            have hshorter : items.length < star.1.length := by omega
            exact .left _ _ hshorter
        · constructor
          · rintro (hmatch | ⟨items', d, text', hstar, hmatch⟩)
            · exact .inl (.skip hmatch)
            · cases hstar
              exact .inl (.take hmatch)
          · rintro (hmatch | ⟨items', d, text', hstar, hmatch⟩)
            · rcases matches_many_cons.mp hmatch with hskip | htake
              · exact .inl hskip
              · exact .inr ⟨items, c, text, rfl, htake⟩
            · rcases matches_many_cons.mp (h.forget rfl hstar hmatch) with hskip | htake
              · exact .inl hskip
              · exact .inr ⟨items, c, text, rfl, htake⟩
      | single accepts =>
        by_cases haccepts : accepts c = true
        · simp only [scan, haccepts, if_true, Sum.inl.injEq] at hscan
          subst hscan
          refine ⟨?_, ?_, ?_⟩
          · rintro items' text' hstar
            obtain ⟨passed, read, hsingle, hlen, rfl, rfl⟩ := h _ _ hstar
            refine ⟨passed ++ [.single accepts], read ++ [c], ?_, by simp [hlen], by simp, by simp⟩
            rintro item hitem
            rcases List.mem_append.mp hitem with hpassed | hlast
            · exact hsingle item hpassed
            · rw [List.mem_singleton.mp hlast]
              rfl
          · cases star <;> simp [Cursor.rank, Prod.lex_def]
          · simp [Cursor.Accepts, haccepts]
        · exact retry_step (by simp [haccepts]) (by simpa [scan, haccepts] using hscan)

theorem scan_done {cursor : Cursor α} (h : cursor.Tracked) (hscan : scan cursor = .inr b) :
    b = true ↔ cursor.Accepts := by
  obtain ⟨text, items, star⟩ := cursor
  cases text with
  | nil =>
    simp only [scan, Sum.inr.injEq] at hscan
    subst hscan
    constructor
    · intro hall
      exact .inl (matches_nil_right.mpr hall)
    · rintro (hmatch | ⟨items', d, text', hstar, hmatch⟩)
      · exact matches_nil_right.mp hmatch
      · exact absurd hmatch (h.exhausted rfl hstar)
  | cons c text =>
    cases items with
    | nil =>
      obtain ⟨rfl, haccepts⟩ := retry_none ⟨c :: text, [], star⟩ hscan
      simp [haccepts]
    | cons item items =>
      cases item with
      | many => simp [scan] at hscan
      | single accepts =>
        by_cases haccepts : accepts c = true
        · simp [scan, haccepts] at hscan
        · simp only [scan, haccepts, Bool.false_eq_true, if_false] at hscan
          obtain ⟨rfl, hrest⟩ :=
            retry_none ⟨c :: text, .single accepts :: items, star⟩ hscan
          simp [hrest, haccepts]

theorem scan_exact (text : List α) (items : List (Item α)) :
    ∃ b, Gives (loopFor scan ⟨text, items, none⟩) b ∧ (b = true ↔ Matches items text) := by
  have hwf : WellFounded (Prod.Lex (· < ·) (Prod.Lex (· < ·) (· < ·)) :
      Nat × Nat × Nat → Nat × Nat × Nat → Prop) :=
    WellFoundedRelation.wf
  have htracked : Cursor.Tracked ⟨text, items, none⟩ := by
    rintro items' text' ⟨⟩
  obtain ⟨b, hgives, hb⟩ :=
    gives_of_rank hwf Cursor.rank Cursor.Tracked (fun cursor b => b = true ↔ cursor.Accepts)
      (fun s s' hs hstep => by
        obtain ⟨hnext, hrank, hsame⟩ := scan_step hs hstep
        exact ⟨hnext, hrank, fun b hb => hb.trans hsame⟩)
      (fun s b hs hdone => scan_done hs hdone) htracked
  refine ⟨b, hgives, hb.trans ?_⟩
  simp [Cursor.Accepts]

-- ---- Written patterns

structure Signs (α : Type) where
  escape : α
  one : α
  many : α
  distinct : escape ≠ one ∧ escape ≠ many ∧ one ≠ many

inductive InLanguage {α : Type} (signs : Signs α) : List α → List α → Prop
  | nil : InLanguage signs [] []
  | many {read pattern text : List α} :
    InLanguage signs pattern text → InLanguage signs (signs.many :: pattern) (read ++ text)
  | one {c : α} {pattern text : List α} :
    InLanguage signs pattern text → InLanguage signs (signs.one :: pattern) (c :: text)
  | escaped {c : α} {pattern text : List α} :
    InLanguage signs pattern text →
      InLanguage signs (signs.escape :: c :: pattern) (c :: text)
  | itself {c : α} {pattern text : List α} :
    c ≠ signs.escape → c ≠ signs.one → c ≠ signs.many → InLanguage signs pattern text →
      InLanguage signs (c :: pattern) (c :: text)

variable {signs : Signs α} {pattern : List α} {dangling : α → Bool}

theorem inLanguage_nil : InLanguage signs [] text ↔ text = [] := by
  constructor
  · rintro ⟨⟩
    rfl
  · rintro rfl
    exact .nil

theorem not_inLanguage_escape : ¬InLanguage signs [signs.escape] text := by
  intro h
  generalize hp : [signs.escape] = pattern at h
  cases h with
  | nil => cases hp
  | many => exact absurd (List.cons.inj hp).1 signs.distinct.2.1
  | one => exact absurd (List.cons.inj hp).1 signs.distinct.1
  | escaped => simp at hp
  | itself hescape => exact absurd (List.cons.inj hp).1.symm hescape

theorem inLanguage_escape :
    InLanguage signs (signs.escape :: c :: pattern) text ↔
      ∃ rest, text = c :: rest ∧ InLanguage signs pattern rest := by
  constructor
  · intro h
    generalize hp : signs.escape :: c :: pattern = whole at h
    cases h with
    | nil => cases hp
    | many => exact absurd (List.cons.inj hp).1 signs.distinct.2.1
    | one => exact absurd (List.cons.inj hp).1 signs.distinct.1
    | escaped h =>
      cases hp
      exact ⟨_, rfl, h⟩
    | itself hescape => exact absurd (List.cons.inj hp).1.symm hescape
  · rintro ⟨rest, rfl, h⟩
    exact .escaped h

theorem inLanguage_one :
    InLanguage signs (signs.one :: pattern) text ↔
      ∃ c rest, text = c :: rest ∧ InLanguage signs pattern rest := by
  constructor
  · intro h
    generalize hp : signs.one :: pattern = whole at h
    cases h with
    | nil => cases hp
    | many => exact absurd (List.cons.inj hp).1 signs.distinct.2.2
    | one h =>
      cases hp
      exact ⟨_, _, rfl, h⟩
    | escaped => exact absurd (List.cons.inj hp).1.symm signs.distinct.1
    | itself _ hone => exact absurd (List.cons.inj hp).1.symm hone
  · rintro ⟨c, rest, rfl, h⟩
    exact .one h

theorem inLanguage_many :
    InLanguage signs (signs.many :: pattern) text ↔
      ∃ read rest, text = read ++ rest ∧ InLanguage signs pattern rest := by
  constructor
  · intro h
    generalize hp : signs.many :: pattern = whole at h
    cases h with
    | nil => cases hp
    | many h =>
      cases hp
      exact ⟨_, _, rfl, h⟩
    | one => exact absurd (List.cons.inj hp).1.symm signs.distinct.2.2
    | escaped => exact absurd (List.cons.inj hp).1.symm signs.distinct.2.1
    | itself _ _ hmany => exact absurd (List.cons.inj hp).1.symm hmany
  · rintro ⟨read, rest, rfl, h⟩
    exact .many h

theorem inLanguage_itself (hescape : c ≠ signs.escape) (hone : c ≠ signs.one)
    (hmany : c ≠ signs.many) :
    InLanguage signs (c :: pattern) text ↔
      ∃ rest, text = c :: rest ∧ InLanguage signs pattern rest := by
  constructor
  · intro h
    generalize hp : c :: pattern = whole at h
    cases h with
    | nil => cases hp
    | many => exact absurd (List.cons.inj hp).1 hmany
    | one => exact absurd (List.cons.inj hp).1 hone
    | escaped => exact absurd (List.cons.inj hp).1 hescape
    | itself _ _ _ h =>
      cases hp
      exact ⟨_, rfl, h⟩
  · rintro ⟨rest, rfl, h⟩
    exact .itself hescape hone hmany h

theorem pattern_cases (signs : Signs α) (P : List α → Prop) (hnil : P [])
    (hdangling : P [signs.escape])
    (hescape : ∀ c pattern, P pattern → P (signs.escape :: c :: pattern))
    (hone : ∀ pattern, P pattern → P (signs.one :: pattern))
    (hmany : ∀ pattern, P pattern → P (signs.many :: pattern))
    (hitself : ∀ c pattern, c ≠ signs.escape → c ≠ signs.one → c ≠ signs.many → P pattern →
      P (c :: pattern)) (pattern : List α) : P pattern := by
  induction hn : pattern.length using Nat.strongRecOn generalizing pattern with
  | ind n ih =>
    have hrec : ∀ shorter : List α, shorter.length < n → P shorter := fun shorter hlt =>
      ih shorter.length hlt shorter rfl
    cases pattern with
    | nil => exact hnil
    | cons c pattern =>
      simp only [List.length_cons] at hn
      by_cases hc : c = signs.escape
      · subst hc
        cases pattern with
        | nil => exact hdangling
        | cons d pattern =>
          refine hescape d pattern (hrec pattern ?_)
          simp at hn
          omega
      · by_cases ho : c = signs.one
        · exact ho ▸ hone pattern (hrec pattern (by omega))
        · by_cases hm : c = signs.many
          · exact hm ▸ hmany pattern (hrec pattern (by omega))
          · exact hitself c pattern hc ho hm (hrec pattern (by omega))

theorem exists_map_eq_cons {β : Type} {f : α → β} {P : α → Prop} {Q : List β → Prop}
    (hinj : ∀ c d, P c → P d → f c = f d → c = d) (hc : P c) (htext : ∀ d ∈ text, P d) :
    (∃ rest, text.map f = f c :: rest ∧ Q rest) ↔ ∃ rest, text = c :: rest ∧ Q (rest.map f) := by
  constructor
  · rintro ⟨rest, heq, h⟩
    obtain ⟨d, rest, rfl, hd, rfl⟩ := List.map_eq_cons_iff.mp heq
    obtain rfl := hinj d c (htext d (by simp)) hc hd
    exact ⟨rest, rfl, h⟩
  · rintro ⟨rest, rfl, h⟩
    exact ⟨rest.map f, by simp, h⟩

theorem inLanguage_map {β : Type} {signs' : Signs β} (f : α → β) (P : α → Prop)
    (hinj : ∀ c d, P c → P d → f c = f d → c = d) (hescape : f signs.escape = signs'.escape)
    (hone : f signs.one = signs'.one) (hmany : f signs.many = signs'.many)
    (hsigns : P signs.escape ∧ P signs.one ∧ P signs.many) (hpattern : ∀ c ∈ pattern, P c)
    (htext : ∀ c ∈ text, P c) :
    InLanguage signs' (pattern.map f) (text.map f) ↔ InLanguage signs pattern text := by
  have hsign : ∀ {c sign}, P c → P sign → c ≠ sign → f c ≠ f sign := fun hc hs hne heq =>
    hne (hinj _ _ hc hs heq)
  suffices h : ∀ text, (∀ c ∈ text, P c) → (∀ c ∈ pattern, P c) →
      (InLanguage signs' (pattern.map f) (text.map f) ↔ InLanguage signs pattern text) from
    h text htext hpattern
  clear hpattern htext
  refine pattern_cases signs (fun pattern => ∀ text, (∀ c ∈ text, P c) → (∀ c ∈ pattern, P c) →
    (InLanguage signs' (pattern.map f) (text.map f) ↔ InLanguage signs pattern text))
    ?nil ?dangling ?escape ?one ?many ?itself pattern
  case nil =>
    intro text _ _
    simp [inLanguage_nil]
  case dangling =>
    intro text _ _
    simp [hescape, not_inLanguage_escape]
  case escape =>
    intro c pattern ih text htext hpattern
    have hrest : ∀ c ∈ pattern, P c := fun c hc => hpattern c (by simp [hc])
    have hc : P c := hpattern c (by simp)
    rw [List.map_cons, List.map_cons, hescape, inLanguage_escape, inLanguage_escape,
      exists_map_eq_cons hinj hc htext]
    refine exists_congr fun rest => and_congr_right ?_
    rintro rfl
    exact ih rest (fun c hc => htext c (by simp [hc])) hrest
  case one =>
    intro pattern ih text htext hpattern
    have hrest : ∀ c ∈ pattern, P c := fun c hc => hpattern c (by simp [hc])
    rw [List.map_cons, hone, inLanguage_one, inLanguage_one]
    constructor
    · rintro ⟨c, rest, heq, h⟩
      obtain ⟨d, rest, rfl, -, rfl⟩ := List.map_eq_cons_iff.mp heq
      exact ⟨d, rest, rfl, (ih rest (fun c hc => htext c (by simp [hc])) hrest).mp h⟩
    · rintro ⟨c, rest, rfl, h⟩
      exact ⟨f c, rest.map f, by simp, (ih rest (fun c hc => htext c (by simp [hc])) hrest).mpr h⟩
  case many =>
    intro pattern ih text htext hpattern
    have hrest : ∀ c ∈ pattern, P c := fun c hc => hpattern c (by simp [hc])
    rw [List.map_cons, hmany, inLanguage_many, inLanguage_many]
    constructor
    · rintro ⟨read, rest, heq, h⟩
      obtain ⟨read, rest, rfl, rfl, rfl⟩ := List.map_eq_append_iff.mp heq
      exact ⟨read, rest, rfl, (ih rest (fun c hc => htext c (by simp [hc])) hrest).mp h⟩
    · rintro ⟨read, rest, rfl, h⟩
      exact ⟨read.map f, rest.map f, by simp, (ih rest (fun c hc => htext c (by simp [hc])) hrest).mpr h⟩
  case itself =>
    intro c pattern hce hco hcm ih text htext hpattern
    have hrest : ∀ c ∈ pattern, P c := fun c hc => hpattern c (by simp [hc])
    have hc : P c := hpattern c (by simp)
    rw [List.map_cons, inLanguage_itself hce hco hcm,
      inLanguage_itself (hescape ▸ hsign hc hsigns.1 hce) (hone ▸ hsign hc hsigns.2.1 hco)
        (hmany ▸ hsign hc hsigns.2.2 hcm), exists_map_eq_cons hinj hc htext]
    refine exists_congr fun rest => and_congr_right ?_
    rintro rfl
    exact ih rest (fun c hc => htext c (by simp [hc])) hrest

variable [DecidableEq α]

def Signs.Dangling (signs : Signs α) : List α → Bool
  | [] => false
  | [c] => c = signs.escape
  | c :: d :: pattern =>
    if c = signs.escape then signs.Dangling pattern else signs.Dangling (d :: pattern)

/-- The items of a pattern; what a dangling escape stands for is left to the reader. -/
def Signs.parse (signs : Signs α) (dangling : α → Bool) : List α → List (Item α)
  | [] => []
  | [c] =>
    if c = signs.escape then [.single dangling]
    else if c = signs.one then [.single fun _ => true]
    else if c = signs.many then [.many]
    else [.single (c = ·)]
  | c :: d :: pattern =>
    if c = signs.escape then .single (d = ·) :: signs.parse dangling pattern
    else if c = signs.one then .single (fun _ => true) :: signs.parse dangling (d :: pattern)
    else if c = signs.many then .many :: signs.parse dangling (d :: pattern)
    else .single (c = ·) :: signs.parse dangling (d :: pattern)

theorem parse_nil : signs.parse dangling [] = [] := rfl

theorem parse_escape_nil : signs.parse dangling [signs.escape] = [.single dangling] := by
  simp [Signs.parse]

theorem parse_escape :
    signs.parse dangling (signs.escape :: c :: pattern) =
      .single (c = ·) :: signs.parse dangling pattern := by
  simp [Signs.parse]

theorem parse_one :
    signs.parse dangling (signs.one :: pattern) =
      .single (fun _ => true) :: signs.parse dangling pattern := by
  cases pattern <;> simp [Signs.parse, signs.distinct.1.symm]

theorem parse_many :
    signs.parse dangling (signs.many :: pattern) = .many :: signs.parse dangling pattern := by
  cases pattern <;> simp [Signs.parse, signs.distinct.2.1.symm, signs.distinct.2.2.symm]

theorem parse_itself (hescape : c ≠ signs.escape) (hone : c ≠ signs.one) (hmany : c ≠ signs.many) :
    signs.parse dangling (c :: pattern) = .single (c = ·) :: signs.parse dangling pattern := by
  cases pattern <;> simp [Signs.parse, hescape, hone, hmany]

@[simp] theorem dangling_nil : signs.Dangling [] = false := rfl

@[simp] theorem dangling_escape_nil : signs.Dangling [signs.escape] = true := by
  simp [Signs.Dangling]

@[simp] theorem dangling_escape :
    signs.Dangling (signs.escape :: c :: pattern) = signs.Dangling pattern := by
  simp [Signs.Dangling]

theorem dangling_cons (hescape : c ≠ signs.escape) :
    signs.Dangling (c :: pattern) = signs.Dangling pattern := by
  cases pattern <;> simp [Signs.Dangling, hescape]

theorem dangling_map {β : Type} [DecidableEq β] {signs' : Signs β} (f : α → β) (P : α → Prop)
    (hinj : ∀ c d, P c → P d → f c = f d → c = d) (hescape : f signs.escape = signs'.escape)
    (hsign : P signs.escape) (hpattern : ∀ c ∈ pattern, P c) :
    signs'.Dangling (pattern.map f) = signs.Dangling pattern := by
  revert hpattern
  have hcons : ∀ c pattern, c ≠ signs.escape →
      ((∀ c ∈ pattern, P c) → signs'.Dangling (pattern.map f) = signs.Dangling pattern) →
      (∀ d ∈ c :: pattern, P d) →
        signs'.Dangling ((c :: pattern).map f) = signs.Dangling (c :: pattern) := by
    intro c pattern hc ih hpattern
    have hfc : f c ≠ signs'.escape := fun h =>
      hc (hinj _ _ (hpattern c (by simp)) hsign (h.trans hescape.symm))
    rw [List.map_cons, dangling_cons hfc, dangling_cons hc]
    exact ih fun d hd => hpattern d (by simp [hd])
  refine pattern_cases signs (fun pattern => (∀ c ∈ pattern, P c) →
    signs'.Dangling (pattern.map f) = signs.Dangling pattern)
    ?nil ?dangling ?escape ?one ?many ?itself pattern
  case nil =>
    intro _
    rfl
  case dangling =>
    intro _
    simp [hescape]
  case escape =>
    intro c pattern ih hpattern
    rw [List.map_cons, List.map_cons, hescape, dangling_escape, dangling_escape]
    exact ih fun d hd => hpattern d (by simp [hd])
  case one =>
    intro pattern ih
    exact hcons _ _ signs.distinct.1.symm ih
  case many =>
    intro pattern ih
    exact hcons _ _ signs.distinct.2.1.symm ih
  case itself =>
    intro c pattern hescape _ _ ih
    exact hcons c pattern hescape ih

theorem matches_parse (h : signs.Dangling pattern = false) (text : List α) :
    Matches (signs.parse dangling pattern) text ↔ InLanguage signs pattern text := by
  revert h text
  refine pattern_cases signs (fun pattern => signs.Dangling pattern = false → ∀ text,
    (Matches (signs.parse dangling pattern) text ↔ InLanguage signs pattern text))
    ?nil ?dangling ?escape ?one ?many ?itself pattern
  case nil =>
    rintro - text
    rw [parse_nil, matches_nil, inLanguage_nil]
  case dangling =>
    intro h
    simp at h
  case escape =>
    intro c pattern ih h text
    rw [dangling_escape] at h
    simp [parse_escape, inLanguage_escape, matches_single, ih h]
  case one =>
    intro pattern ih h text
    rw [dangling_cons signs.distinct.1.symm] at h
    simp [parse_one, inLanguage_one, matches_single, ih h]
  case many =>
    intro pattern ih h text
    rw [dangling_cons signs.distinct.2.1.symm] at h
    simp [parse_many, inLanguage_many, matches_many, ih h]
  case itself =>
    intro c pattern hescape hone hmany ih h text
    rw [dangling_cons hescape] at h
    simp [parse_itself hescape hone hmany, inLanguage_itself hescape hone hmany, matches_single,
      ih h]

/-- What a pattern that ends in an escape matches, where at most the escape itself may stand for
it. -/
theorem matches_dangling (hdangling : ∀ c, dangling c = true → c = signs.escape)
    (h : signs.Dangling pattern = true) (text : List α) :
    Matches (signs.parse dangling pattern) text ↔
      dangling signs.escape = true ∧ InLanguage signs (pattern ++ [signs.escape]) text := by
  revert h text
  refine pattern_cases signs (fun pattern => signs.Dangling pattern = true → ∀ text,
    (Matches (signs.parse dangling pattern) text ↔
      dangling signs.escape = true ∧ InLanguage signs (pattern ++ [signs.escape]) text))
    ?nil ?dangling ?escape ?one ?many ?itself pattern
  case nil =>
    intro h
    simp at h
  case dangling =>
    intro h text
    simp only [parse_escape_nil, matches_single, List.cons_append, List.nil_append,
      inLanguage_escape, inLanguage_nil, matches_nil]
    constructor
    · rintro ⟨c, rest, rfl, hc, rfl⟩
      obtain rfl := hdangling c hc
      exact ⟨hc, [], rfl, rfl⟩
    · rintro ⟨hc, rest, rfl, rfl⟩
      exact ⟨_, [], rfl, hc, rfl⟩
  case escape =>
    intro c pattern ih h text
    rw [dangling_escape] at h
    simp [parse_escape, inLanguage_escape, matches_single, ih h, and_left_comm]
  case one =>
    intro pattern ih h text
    rw [dangling_cons signs.distinct.1.symm] at h
    simp [parse_one, inLanguage_one, matches_single, ih h, and_left_comm]
  case many =>
    intro pattern ih h text
    rw [dangling_cons signs.distinct.2.1.symm] at h
    simp [parse_many, inLanguage_many, matches_many, ih h, and_left_comm]
  case itself =>
    intro c pattern hescape hone hmany ih h text
    rw [dangling_cons hescape] at h
    simp [parse_itself hescape hone hmany, inLanguage_itself hescape hone hmany, matches_single,
      ih h, and_left_comm]

end Rekuiper.Lib.Wildcards
