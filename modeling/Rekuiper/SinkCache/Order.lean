import Mathlib.Algebra.Order.BigOperators.Group.List
import Mathlib.Algebra.Order.Group.Nat
import Rekuiper.Lib.Flow
import Rekuiper.SinkCache.Basic

/-!
# The cache is a drop-oldest queue

`held` lists the records in the order `pop_front` returns them. Every call moves
`held` like a first-in first-out stage that drops from the front only, as long
as the push keeps the tiers in order (`KeepsOrder`). Two pushes do not: one
whose page write fails while pages stay on disk, and one in memory-only mode
while pages adopted at open are on disk. Both put the newest records into the
head, in front of older pages. No call loses or duplicates a record.
-/

namespace Rekuiper.SinkCache

open Lib (Flow Shuffle delivered lost)

variable {ρ Line : Type} (codec : LineCodec ρ Line)

-- ---- The records held

/-- The records of a page as `load_oldest_page` reads them. -/
def pageRecords (files : PageDir Line) (page : Page) : List ρ :=
  ((files.lookup page.seq).map (readRecords codec)).getD []

/-- All records, oldest first: head, disk pages in order, tail. -/
def held (c : SinkCache ρ Line) : List ρ :=
  c.head ++ c.pages.flatMap (pageRecords codec c.files) ++ c.tail

/-- The pages are exactly the files of the directory, each with the records it
counts, under increasing sequence numbers. -/
structure PagesOk (c : SinkCache ρ Line) : Prop where
  filed : ∀ page ∈ c.pages, ∃ records, records ≠ [] ∧ records.length = page.count ∧
    c.files.lookup page.seq = some (records.map fun r => some (codec.encode r))
  owned : ∀ seq ∈ c.files, ∃ page ∈ c.pages, page.seq = seq
  sorted : c.pages.Pairwise (·.seq < ·.seq)
  fresh : ∀ page ∈ c.pages, page.seq < c.nextSeq
  counted : c.diskRecords = (c.pages.map Page.count).sum

/-- What every reachable cache satisfies between calls. -/
structure Ok (c : SinkCache ρ Line) : Prop extends PagesOk codec c where
  tail_lt : c.tail.length < c.cfg.pageSize
  memoryOnly : c.cfg.diskEnabled = false → c.tail = []

theorem readRecords_encode (records : List ρ) :
    readRecords codec (records.map fun r => some (codec.encode r)) = records := by
  induction records with
  | nil => rfl
  | cons r rest ih =>
    simp only [readRecords, List.map_cons, List.takeWhile_cons, Option.isSome_some] at ih ⊢
    simp [codec.readsBack, ih]

variable {codec} {c c' c'' : SinkCache ρ Line} {files : PageDir Line} {page : Page}
  {pages : List Page} {front back input input' popped popped' : List ρ} {count : Nat}
  {p q : Prop}

theorem pageRecords_of_lookup
    (h : files.lookup page.seq = some (records.map fun r => some (codec.encode r))) :
    pageRecords codec files page = records := by
  rw [pageRecords, h]
  exact readRecords_encode codec records

theorem pageRecords_congr {files files' : PageDir Line}
    (h : files.lookup page.seq = files'.lookup page.seq) :
    pageRecords codec files page = pageRecords codec files' page := by
  rw [pageRecords, pageRecords, h]

theorem PagesOk.length_pageRecords (hc : PagesOk codec c) (hp : page ∈ c.pages) :
    (pageRecords codec c.files page).length = page.count := by
  obtain ⟨records, -, hlen, hfile⟩ := hc.filed page hp
  rw [pageRecords_of_lookup hfile, hlen]

theorem PagesOk.length_held (hc : PagesOk codec c) : (held codec c).length = c.len := by
  have hpages : (c.pages.flatMap (pageRecords codec c.files)).length = c.diskRecords := by
    rw [hc.counted, List.length_flatMap]
    exact congrArg List.sum (List.map_congr_left fun page hp => hc.length_pageRecords hp)
  simp [held, len, hpages, Nat.add_assoc]

-- ---- Moving pages into memory

theorem loadOldestPage_nil (h : c.pages = []) : c.loadOldestPage codec = (c, false) := by
  simp [loadOldestPage, h]

theorem PagesOk.tail (hc : PagesOk codec c) (h : c.pages = page :: pages) :
    PagesOk codec { c with
      pages := pages
      files := c.files.erase page.seq
      diskRecords := c.diskRecords - page.count
      head := front
      dropped := count } := by
  have hsorted := List.pairwise_cons.mp (h ▸ hc.sorted)
  constructor
  · intro other hother
    obtain ⟨records, hne, hlen, hfile⟩ := hc.filed other (by simp [h, hother])
    refine ⟨records, hne, hlen, ?_⟩
    rw [AList.lookup_erase_ne (Nat.ne_of_gt (hsorted.1 other hother)), hfile]
  · intro seq hseq
    obtain ⟨hne, hmem⟩ := AList.mem_erase.mp hseq
    obtain ⟨other, hother, rfl⟩ := hc.owned seq hmem
    rcases List.mem_cons.mp (h ▸ hother) with rfl | hother
    · contradiction
    · exact ⟨other, hother, rfl⟩
  · exact hsorted.2
  · intro other hother
    exact hc.fresh other (by simp [h, hother])
  · simp [hc.counted, h]

theorem PagesOk.pageRecords_tail (hc : PagesOk codec c) (h : c.pages = page :: pages) :
    pages.flatMap (pageRecords codec (c.files.erase page.seq)) =
      pages.flatMap (pageRecords codec c.files) := by
  have hsorted := List.pairwise_cons.mp (h ▸ hc.sorted)
  refine List.flatMap_congr fun other hother => pageRecords_congr ?_
  exact AList.lookup_erase_ne (Nat.ne_of_gt (hsorted.1 other hother))

theorem loadOldestPage_cons (hc : PagesOk codec c) (h : c.pages = page :: pages) :
    ∃ c', c.loadOldestPage codec = (c', true) ∧ PagesOk codec c' ∧
      held codec c' = held codec c ∧ c'.head ≠ [] ∧ c'.pages = pages ∧ c'.tail = c.tail ∧
      c'.cfg = c.cfg ∧ c'.dropped = c.dropped := by
  obtain ⟨records, hne, hlen, hfile⟩ := hc.filed page (by simp [h])
  have hload : ((c.files.lookup page.seq).map (readRecords codec)).getD [] = records :=
    pageRecords_of_lookup hfile
  have hcount : page.count - records.length = 0 := by omega
  refine ⟨_, by simp [loadOldestPage, h, hload, hcount]; rfl, hc.tail h, ?_, by simp [hne],
    rfl, rfl, rfl, rfl⟩
  simp [held, hc.pageRecords_tail h, h, ← pageRecords_of_lookup hfile]

-- ---- What a call does to the records held

/-- `c'` is `c` after `input` was pushed and `popped` was returned: every other
record is held or was dropped and counted, and with `inOrder` the records held
moved like a queue that drops its oldest. -/
structure Conserves (codec : LineCodec ρ Line) (inOrder : Prop) (c : SinkCache ρ Line)
    (input popped : List ρ) (c' : SinkCache ρ Line) : Prop where
  cfg : c'.cfg = c.cfg
  records : ∃ out, Shuffle (held codec c) input out (held codec c') ∧
    (inOrder → Flow (held codec c) input out (held codec c')) ∧
    delivered out = popped ∧ c'.dropped = c.dropped + lost out

theorem Conserves.of_flow (out : List (ρ × Lib.Fate)) (hcfg : c'.cfg = c.cfg)
    (hflow : Flow (held codec c) input out (held codec c')) (hout : delivered out = popped)
    (hdropped : c'.dropped = c.dropped + lost out) : Conserves codec p c input popped c' :=
  ⟨hcfg, out, hflow.shuffle, fun _ => hflow, hout, hdropped⟩

theorem Conserves.refl (c : SinkCache ρ Line) : Conserves codec p c [] [] c :=
  .of_flow [] rfl (Flow.idle _) rfl rfl

theorem Conserves.trans (first : Conserves codec p c input popped c')
    (second : Conserves codec q c' input' popped' c'') :
    Conserves codec (p ∧ q) c (input ++ input') (popped ++ popped') c'' := by
  obtain ⟨out, hshuffle, hflow, hout, hdropped⟩ := first.records
  obtain ⟨out', hshuffle', hflow', hout', hdropped'⟩ := second.records
  refine ⟨second.cfg.trans first.cfg, out ++ out', hshuffle.trans hshuffle',
    fun h => (hflow h.1).trans (hflow' h.2), ?_, ?_⟩
  · rw [Lib.delivered_append, hout, hout']
  · rw [hdropped', hdropped, Lib.lost_append, Nat.add_assoc]

theorem Conserves.mono (h : Conserves codec p c input popped c') (hpq : q → p) :
    Conserves codec q c input popped c' := by
  obtain ⟨out, hshuffle, hflow, hrest⟩ := h.records
  exact ⟨h.cfg, out, hshuffle, fun hq => hflow (hpq hq), hrest⟩

theorem Conserves.drop (n : Nat) (hn : n ≤ (held codec c).length)
    (hheld : held codec c' = (held codec c).drop n) (hcfg : c'.cfg = c.cfg)
    (hdropped : c'.dropped = c.dropped + n) : Conserves codec p c [] [] c' := by
  refine .of_flow (Lib.discard ((held codec c).take n)) hcfg ?_ ?_ ?_
  · rw [hheld]
    exact Flow.discard n _
  · simp
  · rw [hdropped, Lib.lost_discard, List.length_take_of_le hn]

theorem Conserves.dropHead (n : Nat) (hn : n ≤ c.head.length) :
    Conserves codec p c [] [] { c with head := c.head.drop n, dropped := c.dropped + n } := by
  refine .drop n ?_ ?_ rfl rfl
  · simp only [held, List.length_append]
    omega
  · simp only [held, List.append_assoc]
    rw [List.drop_append_of_le_length hn]

-- ---- Rotation and spilling

theorem PagesOk.withHead (hc : PagesOk codec c) :
    PagesOk codec { c with head := front, dropped := count } :=
  ⟨hc.filed, hc.owned, hc.sorted, hc.fresh, hc.counted⟩

theorem PagesOk.withTail (hc : PagesOk codec c) :
    PagesOk codec { c with tail := back, dropped := count } :=
  ⟨hc.filed, hc.owned, hc.sorted, hc.fresh, hc.counted⟩

theorem rotate_spec (hc : PagesOk codec c) (h : c.pages = pages) :
    Conserves codec p c [] [] (rotate codec pages c) ∧
      PagesOk codec (rotate codec pages c) := by
  induction pages generalizing c with
  | nil =>
    rw [rotate]
    split
    · exact ⟨.refl c, hc⟩
    · have hn : min c.cfg.pageSize c.head.length ≤ c.head.length := Nat.min_le_right ..
      have hpos := c.cfg.pageSize_pos
      dsimp only
      split
      · -- the head is empty and there is no page: the tail is all there is
        have hhead : c.head = [] := List.length_eq_zero_iff.mp (by omega)
        have hmin : min c.cfg.pageSize c.head.length = 0 := by omega
        refine ⟨.drop (min (c.diskRecords + c.tail.length - c.cfg.maxDisk) c.tail.length)
          ?_ ?_ rfl ?_, ⟨hc.filed, hc.owned, hc.sorted, hc.fresh, hc.counted⟩⟩
        · simp [held, h, hhead]
        · simp [held, h, hhead]
        · rw [hmin]; rfl
      · exact ⟨.dropHead _ hn, hc.withHead⟩
  | cons page pages ih =>
    rw [rotate]
    split
    · exact ⟨.refl c, hc⟩
    · have hn : min c.cfg.pageSize c.head.length ≤ c.head.length := Nat.min_le_right ..
      have hdrop : Conserves codec p c [] [] { c with
          head := c.head.drop (min c.cfg.pageSize c.head.length)
          dropped := c.dropped + min c.cfg.pageSize c.head.length } := .dropHead _ hn
      obtain ⟨c', hload, hok, hheld, -, hpages, -, hcfg, hdropped⟩ :=
        loadOldestPage_cons (c := { c with
          head := c.head.drop (min c.cfg.pageSize c.head.length)
          dropped := c.dropped + min c.cfg.pageSize c.head.length }) hc.withHead h
      have hmoved := Conserves.drop (p := p) 0 (Nat.zero_le _) hheld hcfg hdropped
      obtain ⟨hrest, hok'⟩ := ih hok hpages
      dsimp only
      rw [hload]
      exact ⟨((hdrop.trans hmoved).trans hrest).mono fun h => ⟨⟨h, h⟩, h⟩, hok'⟩

theorem rotate_clears (hc : PagesOk codec c) (h : c.pages = pages)
    (hlast : ∀ page, pages.getLast? = some page → c.cfg.maxDisk < page.count + c.tail.length) :
    (rotate codec pages c).pages = [] := by
  induction pages generalizing c with
  | nil =>
    rw [rotate]
    dsimp only
    split
    · exact h
    · split <;> exact h
  | cons page pages ih =>
    have hover : ¬ c.diskRecords + c.tail.length ≤ c.cfg.maxDisk := by
      have hmem := List.getLast_mem (List.cons_ne_nil page pages)
      have hle := List.le_sum_of_mem (List.mem_map_of_mem (f := Page.count) hmem)
      have := hlast _ (List.getLast?_eq_some_getLast (List.cons_ne_nil page pages))
      rw [hc.counted, h]
      omega
    obtain ⟨c', hload, hok, -, -, hpages, htail, hcfg, -⟩ :=
      loadOldestPage_cons (c := { c with
        head := c.head.drop (min c.cfg.pageSize c.head.length)
        dropped := c.dropped + min c.cfg.pageSize c.head.length }) hc.withHead h
    rw [rotate, if_neg hover]
    dsimp only
    rw [hload]
    refine ih hok hpages fun last hl => ?_
    rw [htail, hcfg]
    refine hlast last ?_
    cases pages with
    | nil => simp at hl
    | cons second rest => rwa [List.getLast?_cons_cons]

theorem PagesOk.append (hc : PagesOk codec c) (hne : c.tail ≠ []) :
    PagesOk codec { c with
      files := c.files.insert c.nextSeq (c.tail.map fun r => some (codec.encode r))
      tail := back
      nextSeq := c.nextSeq + 1
      diskRecords := c.diskRecords + c.tail.length
      pages := c.pages ++ [⟨c.nextSeq, c.tail.length⟩] } := by
  constructor
  · intro page hp
    rcases List.mem_append.mp hp with hp | hp
    · obtain ⟨records, hrecords⟩ := hc.filed page hp
      refine ⟨records, ?_⟩
      rwa [AList.lookup_insert_ne (Nat.ne_of_lt (hc.fresh page hp))]
    · obtain rfl := List.mem_singleton.mp hp
      exact ⟨c.tail, hne, rfl, AList.lookup_insert _⟩
  · intro seq hseq
    rcases (AList.mem_insert _).mp hseq with rfl | hseq
    · exact ⟨_, List.mem_append_right _ (List.mem_singleton_self _), rfl⟩
    · obtain ⟨page, hp, rfl⟩ := hc.owned seq hseq
      exact ⟨page, List.mem_append_left _ hp, rfl⟩
  · simp only [List.pairwise_append, hc.sorted, List.pairwise_singleton, List.mem_singleton,
      true_and]
    rintro page hp _ rfl
    exact hc.fresh page hp
  · intro page hp
    rcases List.mem_append.mp hp with hp | hp
    · exact Nat.lt_succ_of_lt (hc.fresh page hp)
    · obtain rfl := List.mem_singleton.mp hp
      exact Nat.lt_succ_self _
  · simp [hc.counted]

theorem PagesOk.held_append (hc : PagesOk codec c) :
    held codec { c with
      files := c.files.insert c.nextSeq (c.tail.map fun r => some (codec.encode r))
      tail := []
      nextSeq := c.nextSeq + 1
      diskRecords := c.diskRecords + c.tail.length
      pages := c.pages ++ [⟨c.nextSeq, c.tail.length⟩] } = held codec c := by
  have hold : c.pages.flatMap (pageRecords codec
      (c.files.insert c.nextSeq (c.tail.map fun r => some (codec.encode r)))) =
      c.pages.flatMap (pageRecords codec c.files) :=
    List.flatMap_congr fun page hp =>
      pageRecords_congr (AList.lookup_insert_ne (Nat.ne_of_lt (hc.fresh page hp)))
  have hnew : pageRecords codec
      (c.files.insert c.nextSeq (c.tail.map fun r => some (codec.encode r)))
      ⟨c.nextSeq, c.tail.length⟩ = c.tail :=
    pageRecords_of_lookup (AList.lookup_insert c.files)
  simp [held, hold, hnew]

/-- Spilling drops from the front, then moves the tail to disk. Where the write
fails the tail joins the head, which is its place only if no page is left. -/
theorem spillTail_spec (hc : PagesOk codec c) (ok : Bool) :
    Conserves codec
        (ok = true ∨ ∀ page, c.pages.getLast? = some page →
          c.cfg.maxDisk < page.count + c.tail.length)
        c [] [] (c.spillTail codec ok) ∧
      PagesOk codec (c.spillTail codec ok) ∧ (c.spillTail codec ok).tail = [] := by
  rw [spillTail]
  split
  · exact ⟨.refl c, hc, ‹_›⟩
  · obtain ⟨hdrops, hrot⟩ := rotate_spec (p := True) hc rfl
    have hclear := rotate_clears hc rfl
    dsimp only
    generalize rotate codec c.pages c = r at hdrops hrot hclear ⊢
    split
    · exact ⟨hdrops.mono fun _ => trivial, hrot, ‹_›⟩
    · cases ok with
      | true =>
        refine ⟨?_, hrot.append ‹_›, rfl⟩
        have hmoved := Conserves.drop (p := True) 0 (Nat.zero_le _) hrot.held_append rfl rfl
        exact (hdrops.trans hmoved).mono fun _ => ⟨trivial, trivial⟩
      | false =>
        refine ⟨?_, ⟨hrot.filed, hrot.owned, hrot.sorted, hrot.fresh, hrot.counted⟩, rfl⟩
        -- the tail overtakes the pages that are left
        have hmoved : Conserves codec (r.pages = []) r [] []
            { r with tail := [], head := r.head ++ r.tail } := by
          refine ⟨rfl, [], ⟨?_⟩, fun h => ⟨?_⟩, rfl, rfl⟩
          · simpa [held] using List.perm_append_comm.append_left r.head
          · simp [held, h]
        exact (hdrops.trans hmoved).mono fun h => ⟨trivial, hclear (by simpa using h)⟩

-- ---- The calls

/-- The push leaves the tiers in order: in memory-only mode no page is on disk;
otherwise the page write succeeds, or the push makes none, or the newest page
does not fit on disk beside the spilled tail, so that rotation clears the disk
before the write fails. -/
def KeepsOrder (c : SinkCache ρ Line) : Op ρ → Prop
  | .push _ ok =>
    if c.cfg.diskEnabled then
      ok = true ∨ c.tail.length + 1 < c.cfg.pageSize ∨
        ∀ page, c.pages.getLast? = some page → c.cfg.maxDisk < page.count + c.cfg.pageSize
    else c.pages = []
  | .front | .popFront => True

theorem Conserves.pushHead (record : ρ) :
    Conserves codec (c.pages = [] ∧ c.tail = []) c [record] []
      { c with head := c.head ++ [record] } := by
  refine ⟨rfl, [], ⟨?_⟩, fun h => ⟨?_⟩, rfl, rfl⟩
  · have hlast := List.perm_append_singleton record
      (c.pages.flatMap (pageRecords codec c.files) ++ c.tail)
    simpa [held] using hlast.append_left c.head
  · simp [held, h]

theorem Conserves.pushTail (record : ρ) :
    Conserves codec p c [record] [] { c with tail := c.tail ++ [record] } :=
  .of_flow [] rfl ⟨by simp [held]⟩ rfl rfl

theorem push_spec (hc : Ok codec c) (record : ρ) (ok : Bool) :
    Conserves codec (c.KeepsOrder (.push record ok)) c [record] [] (c.push codec record ok) ∧
      Ok codec (c.push codec record ok) := by
  rw [push]
  split
  · rename_i hoff
    have htail := hc.memoryOnly (by simpa using hoff)
    split
    · rename_i hfull
      have hpos := c.cfg.memoryThreshold_pos
      refine ⟨((Conserves.dropHead (p := True) 1 (by omega)).trans
        (.pushHead record)).mono ?_, hc.withHead, hc.tail_lt, hc.memoryOnly⟩
      intro h
      simp only [KeepsOrder, hoff, Bool.false_eq_true, if_false] at h
      exact ⟨trivial, h, htail⟩
    · refine ⟨(Conserves.pushHead record).mono ?_, hc.withHead, hc.tail_lt, hc.memoryOnly⟩
      intro h
      simp only [KeepsOrder, hoff, Bool.false_eq_true, if_false] at h
      exact ⟨h, htail⟩
  · rename_i hon
    have hon : c.cfg.diskEnabled = true := by simpa using hon
    have hmode : c.cfg.diskEnabled = false → (c.tail ++ [record] = []) := by simp [hon]
    split
    · rename_i hempty
      exact ⟨(Conserves.pushHead record).mono fun _ => ⟨hempty.1, hempty.2.1⟩, hc.withHead,
        hc.tail_lt, hc.memoryOnly⟩
    · dsimp only
      split
      · rename_i hspill
        obtain ⟨hspilled, hpages, htail⟩ := spillTail_spec
          (c := { c with tail := c.tail ++ [record] }) hc.toPagesOk.withTail ok
        refine ⟨((Conserves.pushTail (p := True) record).trans hspilled).mono ?_, hpages,
          ?_, fun _ => htail⟩
        · intro h
          refine ⟨trivial, ?_⟩
          simp only [KeepsOrder, hon, if_true] at h
          simp only [List.length_append, List.length_singleton] at hspill ⊢
          have hlt := hc.tail_lt
          rcases h with h | h | h
          · exact .inl h
          · omega
          · refine .inr fun page hp => ?_
            have := h page hp
            omega
        · rw [htail, hspilled.cfg]
          exact c.cfg.pageSize_pos
      · rename_i hroom
        exact ⟨.pushTail record, hc.toPagesOk.withTail, Nat.lt_of_not_le hroom, hmode⟩

theorem front_spec (hc : Ok codec c) :
    Conserves codec p c [] [] (c.front codec).1 ∧ Ok codec (c.front codec).1 ∧
      (c.front codec).2 = (held codec c).head? ∧
      (c.front codec).2 = (c.front codec).1.head.head? := by
  rw [front]
  dsimp only
  split
  · rename_i hhead
    cases hpages : c.pages with
    | nil =>
      rw [loadOldestPage_nil hpages]
      dsimp only
      split
      · exact ⟨.refl c, hc, by simp [held, *], rfl⟩
      · refine ⟨.of_flow [] rfl ⟨by simp [held, *]⟩ rfl rfl,
          ⟨⟨hc.filed, hc.owned, hc.sorted, hc.fresh, hc.counted⟩, ?_, fun _ => rfl⟩,
          by simp [held, *], rfl⟩
        exact c.cfg.pageSize_pos
    | cons page pages =>
      obtain ⟨c', hload, hok, hheld, hne, -, htail, hcfg, hdropped⟩ :=
        loadOldestPage_cons hc.toPagesOk hpages
      rw [hload]
      dsimp only
      refine ⟨.drop 0 (Nat.zero_le _) hheld hcfg hdropped, ⟨hok, ?_, ?_⟩, ?_, rfl⟩
      · rw [htail, hcfg]
        exact hc.tail_lt
      · rw [htail, hcfg]
        exact hc.memoryOnly
      · rw [← hheld, held, List.append_assoc, List.head?_append_of_ne_nil _ hne]
  · rename_i hhead
    refine ⟨.refl c, hc, ?_, rfl⟩
    rw [held, List.append_assoc, List.head?_append_of_ne_nil _ hhead]

theorem popFront_spec (hc : Ok codec c) :
    Conserves codec p c [] (c.popFront codec).2.toList (c.popFront codec).1 ∧
      Ok codec (c.popFront codec).1 ∧ (c.popFront codec).2 = (held codec c).head? := by
  obtain ⟨hfront, hok, hresult, hhead⟩ := front_spec (p := True) hc
  rw [popFront]
  generalize c.front codec = f at hfront hok hresult hhead ⊢
  obtain ⟨c', result⟩ := f
  dsimp only at hfront hok hresult hhead
  cases result with
  | none => exact ⟨hfront.mono fun _ => trivial, hok, hresult⟩
  | some r =>
    obtain ⟨rest, hrest⟩ : ∃ rest, c'.head = r :: rest := List.head?_eq_some_iff.mp hhead.symm
    have hpop : Conserves codec True c' [] [r] { c' with head := c'.head.drop 1 } :=
      .of_flow [(r, .delivered)] rfl ⟨by simp [held, hrest]⟩ (by simp) (by simp)
    dsimp only
    rw [← hhead]
    exact ⟨(hfront.trans hpop).mono fun _ => ⟨trivial, trivial⟩,
      ⟨hok.toPagesOk.withHead, hok.tail_lt, hok.memoryOnly⟩, hresult⟩

/-- Looking at the oldest record moves records between the tiers and nothing else. -/
theorem front_held (hc : Ok codec c) :
    held codec (c.front codec).1 = held codec c ∧ (c.front codec).1.dropped = c.dropped := by
  rw [front]
  dsimp only
  split
  · cases hpages : c.pages with
    | nil =>
      rw [loadOldestPage_nil hpages]
      dsimp only
      split
      · exact ⟨rfl, rfl⟩
      · exact ⟨by simp [held, *], rfl⟩
    | cons page pages =>
      obtain ⟨c', hload, -, hheld, -, -, -, -, hdropped⟩ :=
        loadOldestPage_cons hc.toPagesOk hpages
      rw [hload]
      exact ⟨hheld, hdropped⟩
  · exact ⟨rfl, rfl⟩

theorem popFront_held (hc : Ok codec c) :
    held codec (c.popFront codec).1 = (held codec c).tail ∧
      (c.popFront codec).1.dropped = c.dropped := by
  obtain ⟨hheld, hdropped⟩ := front_held hc
  obtain ⟨-, -, hresult, hhead⟩ := front_spec (p := True) hc
  rw [popFront]
  generalize c.front codec = f at hheld hdropped hresult hhead ⊢
  obtain ⟨c', result⟩ := f
  dsimp only at hheld hdropped hresult hhead
  cases result with
  | none =>
    refine ⟨?_, hdropped⟩
    rw [hheld, List.head?_eq_none_iff.mp hresult.symm]
    rfl
  | some r =>
    obtain ⟨rest, hrest⟩ : ∃ rest, c'.head = r :: rest := List.head?_eq_some_iff.mp hhead.symm
    refine ⟨?_, hdropped⟩
    rw [← hheld]
    simp [held, hrest]

theorem step_spec (hc : Ok codec c) (op : Op ρ) :
    Conserves codec (c.KeepsOrder op) c (pushes [op]) (c.step codec op).2 (c.step codec op).1 ∧
      Ok codec (c.step codec op).1 := by
  cases op with
  | push record ok => exact push_spec hc record ok
  | front =>
    obtain ⟨hfront, hok, -⟩ := front_spec hc
    exact ⟨hfront, hok⟩
  | popFront =>
    obtain ⟨hpop, hok, -⟩ := popFront_spec hc
    exact ⟨hpop, hok⟩

-- ---- Runs

/-- Every call of the run keeps the tiers in order. -/
def KeepsOrderThroughout (codec : LineCodec ρ Line) (c : SinkCache ρ Line) : List (Op ρ) → Prop
  | [] => True
  | op :: ops => c.KeepsOrder op ∧ KeepsOrderThroughout codec (c.step codec op).1 ops

theorem pushes_cons (op : Op ρ) (ops : List (Op ρ)) :
    pushes (op :: ops) = pushes [op] ++ pushes ops := by
  cases op <;> rfl

/-- Over a whole run no record is lost, duplicated or invented, and the records
keep their order if every call keeps it. -/
theorem run_spec (hc : Ok codec c) (ops : List (Op ρ)) :
    Conserves codec (c.KeepsOrderThroughout codec ops) c (pushes ops) (c.run codec ops).2
        (c.run codec ops).1 ∧ Ok codec (c.run codec ops).1 := by
  induction ops generalizing c with
  | nil => exact ⟨.refl c, hc⟩
  | cons op ops ih =>
    obtain ⟨hstep, hok⟩ := step_spec hc op
    obtain ⟨hrest, hok'⟩ := ih hok
    rw [pushes_cons]
    exact ⟨hstep.trans hrest, hok'⟩

end Rekuiper.SinkCache
