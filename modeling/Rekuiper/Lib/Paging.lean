import Mathlib.Order.Defs.Unbundled
import Mathlib.Data.List.Basic

/-!
# Reading a growing list page by page

A reader keeps the key of the last element that it has seen, and each page is the first of
the elements behind that key. Where the list only grows at its end, in the order of the
keys, the pages make up the whole list behind the first key, without repetition.
-/

namespace Rekuiper.Lib

variable {α κ : Type} (lt : κ → κ → Prop) [DecidableRel lt] (key : α → κ)

def behind (k : κ) (xs : List α) : List α := xs.filter fun x => lt k (key x)

def Ascending (xs : List α) : Prop := xs.Pairwise fun x y => lt (key x) (key y)

/-- The first elements; `0` is no limit. -/
def page (limit : Nat) (xs : List α) : List α := if limit = 0 then xs else xs.take limit

theorem page_isPrefixOf (limit : Nat) (xs : List α) : page limit xs <+: xs := by
  unfold page
  split
  · exact List.prefix_rfl
  · exact List.take_prefix _ _

theorem page_ne_nil {n : Nat} {xs : List α} (h : xs ≠ []) : page n xs ≠ [] := by
  unfold page
  split
  · exact h
  · simp [*]

variable {lt key}

theorem behind_append {k : κ} (xs ys : List α) :
    behind lt key k (xs ++ ys) = behind lt key k xs ++ behind lt key k ys := List.filter_append _ _

theorem behind_last [IsStrictOrder κ lt] {k : κ} {xs front rest : List α} {last : α}
    (hxs : Ascending lt key xs) (h : behind lt key k xs = front ++ last :: rest) :
    behind lt key (key last) xs = rest := by
  have hlast : lt k (key last) := by
    have hmem : last ∈ behind lt key k xs := by simp [h]
    simpa [behind] using (List.mem_filter.mp hmem).2
  -- what is behind the last element is behind `k` too
  have htwice : behind lt key (key last) xs = behind lt key (key last) (behind lt key k xs) := by
    rw [behind, behind, behind, List.filter_filter]
    refine List.filter_congr fun x _ => ?_
    by_cases hx : lt (key last) (key x)
    · simp [hx, trans_of lt hlast hx]
    · simp [hx]
  have hsorted : Ascending lt key (front ++ last :: rest) := h ▸ hxs.sublist List.filter_sublist
  obtain ⟨-, htail, hfront⟩ := List.pairwise_append.mp hsorted
  rw [htwice, h, behind, List.filter_append, List.filter_cons_of_neg (by simp [irrefl_of lt]),
    List.filter_eq_nil_iff.mpr, List.filter_eq_self.mpr, List.nil_append]
  · simpa using (List.pairwise_cons.mp htail).1
  · intro x hx
    have hle := hfront x hx last List.mem_cons_self
    simpa using fun hlt => irrefl_of lt _ (trans_of lt hlt hle)

variable (lt key)

-- ---- The reader

structure Pager (α κ : Type) where
  items : List α
  cursor : κ
  delivered : List α

inductive PagerEvent (α : Type)
  | insert (x : α)
  | read

def PagerEvent.isRead : PagerEvent α → Bool
  | .insert _ => false
  | .read => true

def Pager.pending (p : Pager α κ) : List α := behind lt key p.cursor p.items

def Pager.step (limit : Nat) (p : Pager α κ) : PagerEvent α → Pager α κ
  | .insert x => { p with items := p.items ++ [x] }
  | .read =>
    let rows := page limit (p.pending lt key)
    { p with
      cursor := (rows.getLast?.map key).getD p.cursor
      delivered := p.delivered ++ rows }

/-- The events insert each element behind all the others. -/
def Appends (items : List α) : List (PagerEvent α) → Prop
  | [] => True
  | .insert x :: events =>
    (∀ y ∈ items, lt (key y) (key x)) ∧ Appends (items ++ [x]) events
  | .read :: events => Appends items events

/-- What is delivered and what is pending make up what is behind the first key. -/
structure Pager.Inv (start : κ) (p : Pager α κ) : Prop where
  ascending : Ascending lt key p.items
  cursor : p.cursor = start ∨ ∃ x ∈ p.items, p.cursor = key x ∧ lt start (key x)
  whole : p.delivered ++ p.pending lt key = behind lt key start p.items

variable {lt key} {n : Nat} {start : κ} {p : Pager α κ}

theorem Pager.Inv.insert [IsStrictOrder κ lt] (hinv : p.Inv lt key start) {x : α}
    (hx : ∀ y ∈ p.items, lt (key y) (key x)) :
    (p.step lt key n (.insert x)).Inv lt key start where
  ascending := by
    refine List.pairwise_append.mpr ⟨hinv.ascending, List.pairwise_singleton _ _, ?_⟩
    simpa using hx
  cursor := by
    refine hinv.cursor.imp_right ?_
    rintro ⟨y, hy, hcursor⟩
    exact ⟨y, List.mem_append_left _ hy, hcursor⟩
  whole := by
    have hsame : lt p.cursor (key x) ↔ lt start (key x) := by
      rcases hinv.cursor with h | ⟨y, hy, h, hstart⟩
      · rw [h]
      · rw [h]
        exact ⟨fun hlt => trans_of lt hstart hlt, fun _ => hx y hy⟩
    have hnew : behind lt key p.cursor [x] = behind lt key start [x] := by
      by_cases h : lt start (key x) <;> simp [behind, h, hsame.mpr, mt hsame.mp]
    calc p.delivered ++ behind lt key p.cursor (p.items ++ [x])
        = p.delivered ++ p.pending lt key ++ behind lt key p.cursor [x] := by
          simp [Pager.pending, behind_append]
      _ = behind lt key start (p.items ++ [x]) := by rw [hinv.whole, hnew, behind_append]

theorem Pager.Inv.read [IsStrictOrder κ lt] (hinv : p.Inv lt key start) :
    (p.step lt key n .read).Inv lt key start := by
  obtain ⟨rest, hrest⟩ := page_isPrefixOf n (p.pending lt key)
  cases hrows : (page n (p.pending lt key)).getLast? with
  | none =>
    have hstep : p.step lt key n .read = p := by
      simp [Pager.step, List.getLast?_eq_none_iff.mp hrows]
    rwa [hstep]
  | some last =>
    obtain ⟨front, hfront⟩ := List.getLast?_eq_some_iff.mp hrows
    rw [hfront, List.append_assoc, List.singleton_append] at hrest
    have hlast : last ∈ p.pending lt key := by simp [← hrest]
    obtain ⟨hmem, hbehind⟩ := List.mem_filter.mp hlast
    have hstep : p.step lt key n .read =
        { p with cursor := key last, delivered := p.delivered ++ (front ++ [last]) } := by
      simp [Pager.step, hfront]
    rw [hstep]
    refine ⟨hinv.ascending, .inr ⟨last, hmem, rfl, ?_⟩, ?_⟩
    · rcases hinv.cursor with h | ⟨y, -, h, hstart⟩
      · simpa [← h] using hbehind
      · exact trans_of lt hstart (by simpa [← h] using hbehind)
    · have hpending : Pager.pending lt key { p with
          cursor := key last, delivered := p.delivered ++ (front ++ [last]) } = rest :=
        behind_last hinv.ascending hrest.symm
      rw [hpending, ← hinv.whole, ← hrest]
      simp

theorem Pager.Inv.run [IsStrictOrder κ lt] {events : List (PagerEvent α)}
    (hinv : p.Inv lt key start) (happend : Appends lt key p.items events) :
    (events.foldl (Pager.step lt key n) p).Inv lt key start := by
  induction events generalizing p with
  | nil => exact hinv
  | cons event events ih =>
    cases event with
    | insert x => exact ih (hinv.insert happend.1) happend.2
    | read => exact ih hinv.read happend

theorem Pager.Inv.nodup [IsStrictOrder κ lt] (hinv : p.Inv lt key start) : p.delivered.Nodup := by
  have hsub : p.delivered.Sublist p.items := by
    refine (List.sublist_append_left _ (p.pending lt key)).trans ?_
    rw [hinv.whole]
    exact List.filter_sublist
  refine (hinv.ascending.sublist hsub).imp ?_
  rintro x _ hlt rfl
  exact irrefl_of lt _ hlt

theorem Pager.delivered_mono {x : α} (hx : x ∈ p.delivered) (events : List (PagerEvent α)) :
    x ∈ (events.foldl (Pager.step lt key n) p).delivered := by
  induction events generalizing p with
  | nil => exact hx
  | cons event events ih =>
    cases event with
    | insert y => exact ih hx
    | read => exact ih (List.mem_append_left _ hx)

theorem Pager.pending_delivered [IsStrictOrder κ lt] {events : List (PagerEvent α)}
    (hinv : p.Inv lt key start) (happend : Appends lt key p.items events) {x : α}
    {before after : List α} (hpending : p.pending lt key = before ++ x :: after)
    (hreads : before.length < events.countP PagerEvent.isRead) :
    x ∈ (events.foldl (Pager.step lt key n) p).delivered := by
  induction events generalizing p before after with
  | nil => simp at hreads
  | cons event events ih =>
    cases event with
    | insert y =>
      have hgrown : (p.step lt key n (.insert y)).pending lt key =
          before ++ x :: (after ++ behind lt key p.cursor [y]) := by
        have happended : (p.step lt key n (.insert y)).pending lt key =
            p.pending lt key ++ behind lt key p.cursor [y] := behind_append ..
        rw [happended, hpending]
        simp
      exact ih (hinv.insert happend.1) happend.2 hgrown (by simpa [PagerEvent.isRead] using hreads)
    | read =>
      by_cases hx : x ∈ page n (p.pending lt key)
      · exact Pager.delivered_mono (List.mem_append_right _ hx) events
      · -- the page is a part of what comes before `x`
        obtain ⟨rest, hrest⟩ := page_isPrefixOf n (p.pending lt key)
        have hread := (hinv.read (n := n)).whole
        have hpage : page n (p.pending lt key) ≠ [] := page_ne_nil (by simp [hpending])
        have hleft : (p.step lt key n .read).pending lt key = rest := by
          have hsame : p.delivered ++ page n (p.pending lt key) ++
              (p.step lt key n .read).pending lt key =
                p.delivered ++ page n (p.pending lt key) ++ rest := by
            refine hread.trans ?_
            rw [List.append_assoc, hrest]
            exact hinv.whole.symm
          exact List.append_cancel_left hsame
        rw [hpending] at hrest hx hpage
        obtain ⟨middle, hbefore, hmiddle⟩ :
            ∃ middle, before = page n (before ++ x :: after) ++ middle ∧
              rest = middle ++ x :: after := by
          rcases List.append_eq_append_iff.mp hrest with h | ⟨middle, hpagex, hafter⟩
          · exact h
          · cases middle with
            | nil => exact ⟨[], by simpa using hpagex.symm, by simpa using hafter.symm⟩
            | cons y middle =>
              obtain ⟨rfl, -⟩ := List.cons.inj hafter
              exact absurd (by simp [hpagex]) hx
        refine ih hinv.read happend (hleft.trans hmiddle) ?_
        have hpositive := List.length_pos_iff.mpr hpage
        have hlength := congrArg List.length hbefore
        rw [List.countP_cons_of_pos rfl] at hreads
        rw [List.length_append] at hlength
        omega

theorem Pager.Inv.delivered_of_reads [IsStrictOrder κ lt] {events : List (PagerEvent α)}
    (hinv : p.Inv lt key start) (happend : Appends lt key p.items events) {x : α}
    (hx : x ∈ p.items) (hbehind : lt start (key x))
    (hreads : p.items.length ≤ events.countP PagerEvent.isRead) :
    x ∈ (events.foldl (Pager.step lt key n) p).delivered := by
  have hmem : x ∈ p.delivered ++ p.pending lt key := by
    rw [hinv.whole]
    exact List.mem_filter.mpr ⟨hx, decide_eq_true hbehind⟩
  rcases List.mem_append.mp hmem with hdelivered | hpending
  · exact Pager.delivered_mono hdelivered events
  · obtain ⟨before, after, hsplit⟩ := List.append_of_mem hpending
    refine Pager.pending_delivered hinv happend hsplit (Nat.lt_of_lt_of_le ?_ hreads)
    have hlength : (p.pending lt key).length ≤ p.items.length := List.length_filter_le _ _
    rw [hsplit, List.length_append, List.length_cons] at hlength
    omega

theorem Appends.split {before after : List (PagerEvent α)}
    (h : Appends lt key p.items (before ++ after)) :
    Appends lt key p.items before ∧
      Appends lt key (before.foldl (Pager.step lt key n) p).items after := by
  induction before generalizing p with
  | nil => exact ⟨trivial, h⟩
  | cons event before ih =>
    cases event with
    | insert x =>
      obtain ⟨hbefore, hafter⟩ := ih (p := p.step lt key n (.insert x)) h.2
      exact ⟨⟨h.1, hbefore⟩, hafter⟩
    | read => exact ih (p := p.step lt key n .read) h

end Rekuiper.Lib
