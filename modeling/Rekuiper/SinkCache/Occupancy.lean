import Rekuiper.SinkCache.Delivery

/-!
# What the tiers hold

Two results on the sizes of the three tiers. With spilling on and file operations
that succeed, every run stays within the configured budget. With page files that
may be damaged at any time, `front` finds a record unless the oldest page, which
is the only one a call loads, has none: then it answers `none` even where newer
pages or the tail hold records.
-/

namespace Rekuiper.SinkCache

variable {ρ Line : Type} {codec : LineCodec ρ Line} {c : SinkCache ρ Line} {cfg : CacheConfig}
  {page : Page} {pages : List Page} {dir : PageDir Line} {memory : List ρ} {next lost : Nat}

-- ---- The budget

/-- The occupancy `cfg` allows, tier by tier. -/
structure WithinBudget (codec : LineCodec ρ Line) (cfg : CacheConfig) (c : SinkCache ρ Line) :
    Prop where
  counted : c.diskRecords = (c.pages.map Page.count).sum
  disk : c.diskRecords ≤ cfg.maxDisk
  tail : c.tail.length < cfg.pageSize
  page : ∀ page ∈ c.pages,
    (pageRecords codec c.files page).length = page.count ∧ page.count ≤ cfg.pageSize
  head : c.head.length ≤ max cfg.memoryThreshold cfg.pageSize

/-- The part of the budget that is not already in `Ok`. -/
structure Bounded (cfg : CacheConfig) (c : SinkCache ρ Line) : Prop where
  cfg_eq : c.cfg = cfg
  page : ∀ page ∈ c.pages, page.count ≤ cfg.pageSize
  head : c.head.length ≤ max cfg.memoryThreshold cfg.pageSize

theorem Ok.withinBudget (hc : Ok codec c) (hb : Bounded cfg c) (hdisk : c.diskRecords ≤ cfg.maxDisk) :
    WithinBudget codec cfg c where
  counted := hc.counted
  disk := hdisk
  tail := hb.cfg_eq ▸ hc.tail_lt
  page page hp := ⟨hc.length_pageRecords hp, hb.page page hp⟩
  head := hb.head

theorem loadOldestPage_head (hc : PagesOk codec c) (h : c.pages = page :: pages) :
    (c.loadOldestPage codec).1.head.length = c.head.length + page.count := by
  have hmem : page ∈ c.pages := by simp [h]
  have hlen := hc.length_pageRecords hmem
  simp only [loadOldestPage, h, List.length_append]
  exact congrArg (c.head.length + ·) hlen

theorem rotate_bounded (hc : PagesOk codec c) (h : c.pages = pages) (hb : Bounded cfg c)
    (htail : c.tail.length ≤ cfg.maxDisk) :
    Bounded cfg (rotate codec pages c) ∧ (rotate codec pages c).tail = c.tail ∧
      (rotate codec pages c).diskRecords + c.tail.length ≤ cfg.maxDisk := by
  have hcfg := hb.cfg_eq
  induction pages generalizing c with
  | nil =>
    have hdisk : c.diskRecords = 0 := by simp [hc.counted, h]
    have hfits : c.diskRecords + c.tail.length ≤ c.cfg.maxDisk := by
      rw [hdisk, hcfg, Nat.zero_add]
      exact htail
    rw [rotate, if_pos hfits]
    exact ⟨hb, rfl, hcfg ▸ hfits⟩
  | cons page pages ih =>
    rw [rotate]
    split
    · rename_i hfits
      exact ⟨hb, rfl, hcfg ▸ hfits⟩
    · have hbefore : PagesOk codec { c with
          head := c.head.drop (min c.cfg.pageSize c.head.length)
          dropped := c.dropped + min c.cfg.pageSize c.head.length } := hc.withHead
      obtain ⟨c', hload, hok, -, -, hpages, htail', hcfg', -⟩ := loadOldestPage_cons hbefore h
      have hlen := loadOldestPage_head hbefore h
      have hcount : page.count ≤ cfg.pageSize := hb.page page (by simp [h])
      have hhead := hb.head
      rw [hload] at hlen
      simp only [List.length_drop, hcfg] at hlen
      have hb' : Bounded cfg c' := by
        refine ⟨hcfg'.trans hcfg, fun other hother => hb.page other ?_, by omega⟩
        rw [h]
        exact List.mem_cons_of_mem _ (hpages ▸ hother)
      obtain ⟨hbounded, hkept, hroom⟩ := ih hok hpages hb' (htail' ▸ htail) hb'.cfg_eq
      dsimp only
      rw [hload]
      exact ⟨hbounded, hkept.trans htail', htail' ▸ hroom⟩

theorem spillTail_bounded (hc : PagesOk codec c) (hb : Bounded cfg c)
    (htail : c.tail.length ≤ cfg.maxDisk) (hpage : c.tail.length ≤ cfg.pageSize)
    (hdisk : c.diskRecords ≤ cfg.maxDisk) :
    Bounded cfg (c.spillTail codec true) ∧ (c.spillTail codec true).diskRecords ≤ cfg.maxDisk := by
  rw [spillTail]
  split
  · exact ⟨hb, hdisk⟩
  · obtain ⟨hrot, hkept, hroom⟩ := rotate_bounded hc rfl hb htail
    dsimp only
    generalize rotate codec c.pages c = r at hrot hkept hroom ⊢
    rw [if_neg (hkept ▸ ‹_›)]
    simp only [writePage, if_true]
    refine ⟨⟨hrot.cfg_eq, ?_, hrot.head⟩, hkept ▸ hroom⟩
    intro page hp
    rcases List.mem_append.mp hp with hp | hp
    · exact hrot.page page hp
    · obtain rfl := List.mem_singleton.mp hp
      exact hkept ▸ hpage

theorem push_bounded (hc : Ok codec c) (hb : Bounded cfg c) (hon : cfg.pageSize ≤ cfg.maxDisk)
    (hdisk : c.diskRecords ≤ cfg.maxDisk) (record : ρ) :
    Bounded cfg (c.push codec record true) ∧
      (c.push codec record true).diskRecords ≤ cfg.maxDisk := by
  have hcfg := hb.cfg_eq
  have henabled : c.cfg.diskEnabled = true := by simpa [hcfg, CacheConfig.diskEnabled] using hon
  have hlt := hc.tail_lt
  rw [push, if_neg (by simp [henabled])]
  split
  · rename_i hroom
    refine ⟨⟨hcfg, hb.page, ?_⟩, hdisk⟩
    have hthreshold := hroom.2.2
    rw [hcfg] at hthreshold
    simp only [List.length_append, List.length_singleton]
    omega
  · dsimp only
    split
    · have hpage : (c.tail ++ [record]).length ≤ cfg.pageSize := by
        rw [hcfg] at hlt
        simp only [List.length_append, List.length_singleton]
        omega
      exact spillTail_bounded (c := { c with tail := c.tail ++ [record] }) hc.toPagesOk.withTail
        ⟨hcfg, hb.page, hb.head⟩ (Nat.le_trans hpage hon) hpage hdisk
    · exact ⟨⟨hcfg, hb.page, hb.head⟩, hdisk⟩

theorem front_bounded (hc : Ok codec c) (hb : Bounded cfg c) (hdisk : c.diskRecords ≤ cfg.maxDisk) :
    Bounded cfg (c.front codec).1 ∧ (c.front codec).1.diskRecords ≤ cfg.maxDisk := by
  have hcfg := hb.cfg_eq
  have hlt := hc.tail_lt
  rw [hcfg] at hlt
  rw [front]
  dsimp only
  split
  · rename_i hhead
    cases hpages : c.pages with
    | nil =>
      rw [loadOldestPage_nil hpages]
      dsimp only
      split
      · exact ⟨hb, hdisk⟩
      · exact ⟨⟨hcfg, hb.page, by simp only; omega⟩, hdisk⟩
    | cons page pages =>
      have hlen := loadOldestPage_head hc.toPagesOk hpages
      have hcount : page.count ≤ cfg.pageSize := hb.page page (by simp [hpages])
      have hload : c.loadOldestPage codec = ((c.loadOldestPage codec).1, true) := by
        simp [loadOldestPage, hpages]
      rw [hload]
      dsimp only
      refine ⟨⟨?_, ?_, ?_⟩, ?_⟩
      · simpa [loadOldestPage, hpages] using hcfg
      · intro other hother
        refine hb.page other ?_
        rw [hpages]
        exact List.mem_cons_of_mem _ (by simpa [loadOldestPage, hpages] using hother)
      · rw [hhead] at hlen
        simp only [List.length_nil, Nat.zero_add] at hlen
        omega
      · simp only [loadOldestPage, hpages]
        omega
  · exact ⟨hb, hdisk⟩

theorem popFront_bounded (hc : Ok codec c) (hb : Bounded cfg c)
    (hdisk : c.diskRecords ≤ cfg.maxDisk) :
    Bounded cfg (c.popFront codec).1 ∧ (c.popFront codec).1.diskRecords ≤ cfg.maxDisk := by
  obtain ⟨hfront, hfrontDisk⟩ := front_bounded hc hb hdisk
  rw [popFront]
  generalize c.front codec = f at hfront hfrontDisk ⊢
  obtain ⟨c', result⟩ := f
  cases result with
  | none => exact ⟨hfront, hfrontDisk⟩
  | some record =>
    have hhead := hfront.head
    dsimp only at hhead hfrontDisk ⊢
    refine ⟨⟨hfront.cfg_eq, hfront.page, ?_⟩, hfrontDisk⟩
    simp only [List.length_drop]
    omega

theorem step_bounded (hc : Ok codec c) (hb : Bounded cfg c) (hon : cfg.pageSize ≤ cfg.maxDisk)
    (hdisk : c.diskRecords ≤ cfg.maxDisk) (op : Op ρ) (hw : ∀ record, op ≠ .push record false) :
    Bounded cfg (c.step codec op).1 ∧ (c.step codec op).1.diskRecords ≤ cfg.maxDisk := by
  cases op with
  | push record ok =>
    cases ok with
    | true => exact push_bounded hc hb hon hdisk record
    | false => exact absurd rfl (hw record)
  | front => exact front_bounded hc hb hdisk
  | popFront => exact popFront_bounded hc hb hdisk

theorem run_bounded (hc : Ok codec c) (hb : Bounded cfg c) (hon : cfg.pageSize ≤ cfg.maxDisk)
    (hdisk : c.diskRecords ≤ cfg.maxDisk) (ops : List (Op ρ)) (hw : WritesSucceed ops) :
    Bounded cfg (c.run codec ops).1 ∧ (c.run codec ops).1.diskRecords ≤ cfg.maxDisk := by
  induction ops generalizing c with
  | nil => exact ⟨hb, hdisk⟩
  | cons op ops ih =>
    have hop : ∀ record, op ≠ .push record false := by
      rintro record rfl
      exact hw record (by simp)
    obtain ⟨hstep, hstepDisk⟩ := step_bounded hc hb hon hdisk op hop
    exact ih (step_spec hc op).2 hstep hstepDisk fun record hmem => hw record (by simp [hmem])

/-- From an empty directory, with spilling on and page writes that succeed, the
cache is within its budget after every call of every run. -/
theorem run_within_budget (codec : LineCodec ρ Line) (cfg : CacheConfig) (ops : List (Op ρ))
    (hon : cfg.pageSize ≤ cfg.maxDisk) (hw : WritesSucceed ops) :
    WithinBudget codec cfg ((openDir cfg ∅ : SinkCache ρ Line).run codec ops).1 := by
  rw [openDir_empty]
  have hok : Ok codec (blank cfg ∅) := blank_ok cfg
  have hblank : Bounded cfg (blank cfg ∅ : SinkCache ρ Line) :=
    ⟨rfl, fun _ hp => absurd hp List.not_mem_nil, Nat.zero_le _⟩
  obtain ⟨hbounded, hdisk⟩ := run_bounded hok hblank hon (Nat.zero_le _) ops hw
  exact (run_spec hok ops).2.withinBudget hbounded hdisk

/-- Five pushes and a pop under a budget of two records on disk. -/
theorem run_within_budget_small :
    smallConfig.pageSize ≤ smallConfig.maxDisk ∧
      WithinBudget plainCodec smallConfig ((openDir smallConfig ∅ : SinkCache Nat Nat).run
        plainCodec [.push 1 true, .push 2 true, .push 3 true, .push 4 true, .push 5 true,
          .popFront]).1 :=
  have hon : smallConfig.pageSize ≤ smallConfig.maxDisk := by decide
  ⟨hon, run_within_budget plainCodec smallConfig _ hon (by intro record; simp)⟩

-- ---- Damaged pages

/-- Reached from whatever a directory holds, by calls between which the page
files may change in any way: lines garbled, cut off or unreadable, files gone. -/
inductive Damaged (codec : LineCodec ρ Line) : SinkCache ρ Line → Prop
  | opened (cfg : CacheConfig) (files : PageDir Line) : Damaged codec (openDir cfg files)
  | step {c : SinkCache ρ Line} (op : Op ρ) : Damaged codec c → Damaged codec (c.step codec op).1
  | damage {c : SinkCache ρ Line} (files : PageDir Line) :
    Damaged codec c → Damaged codec { c with files := files }

/-- What the cache knows about its pages without reading them. -/
structure PagesCounted (c : SinkCache ρ Line) : Prop where
  counted : c.diskRecords = (c.pages.map Page.count).sum
  positive : ∀ page ∈ c.pages, 0 < page.count

theorem PagesCounted.rest (hc : PagesCounted c) (h : c.pages = page :: pages) :
    PagesCounted { c with
      head := memory
      files := dir
      pages := pages
      diskRecords := c.diskRecords - page.count
      dropped := lost } where
  counted := by simp [hc.counted, h]
  positive other hother := hc.positive other (by rw [h]; exact List.mem_cons_of_mem _ hother)

theorem loadOldestPage_counted (hc : PagesCounted c) : PagesCounted (c.loadOldestPage codec).1 := by
  rw [loadOldestPage]
  split
  · exact hc
  · exact hc.rest ‹_›

theorem dropOldestPage_counted (hc : PagesCounted c) : PagesCounted c.dropOldestPage.1 := by
  rw [dropOldestPage]
  split
  · exact hc
  · exact hc.rest ‹_›

theorem rotate_counted (hc : PagesCounted c) : PagesCounted (rotate codec pages c) := by
  induction pages generalizing c with
  | nil =>
    rw [rotate]
    dsimp only
    split
    · exact hc
    · split <;> exact ⟨hc.counted, hc.positive⟩
  | cons page pages ih =>
    rw [rotate]
    split
    · exact hc
    · exact ih (loadOldestPage_counted ⟨hc.counted, hc.positive⟩)

theorem trim_counted (hc : PagesCounted c) : PagesCounted (trim pages c) := by
  induction pages generalizing c with
  | nil =>
    rw [trim]
    split <;> exact hc
  | cons page pages ih =>
    rw [trim]
    split
    · exact hc
    · exact ih (dropOldestPage_counted hc)

theorem PagesCounted.append (hc : PagesCounted c) (hpage : 0 < page.count) :
    PagesCounted { c with
      files := dir
      tail := memory
      nextSeq := next
      diskRecords := c.diskRecords + page.count
      pages := c.pages ++ [page] } where
  counted := by simp [hc.counted]
  positive := by
    intro other hother
    rcases List.mem_append.mp hother with hother | hother
    · exact hc.positive other hother
    · obtain rfl := List.mem_singleton.mp hother
      exact hpage

theorem spillTail_counted (hc : PagesCounted c) (ok : Bool) :
    PagesCounted (c.spillTail codec ok) := by
  rw [spillTail]
  split
  · exact hc
  · have hrot : PagesCounted (rotate codec c.pages c) := rotate_counted hc
    dsimp only
    generalize rotate codec c.pages c = r at hrot ⊢
    split
    · exact hrot
    · split
      · have hpage : 0 < (⟨r.nextSeq, r.tail.length⟩ : Page).count := List.length_pos_iff.mpr ‹_›
        exact hrot.append hpage
      · exact ⟨hrot.counted, hrot.positive⟩

theorem push_counted (hc : PagesCounted c) (record : ρ) (ok : Bool) :
    PagesCounted (c.push codec record ok) := by
  have hkept : ∀ (head tail : List ρ) (dropped : Nat), PagesCounted { c with
      head := head, tail := tail, dropped := dropped } := fun _ _ _ => ⟨hc.counted, hc.positive⟩
  rw [push]
  split
  · split <;> exact hkept ..
  · split
    · exact hkept ..
    · dsimp only
      split
      · exact spillTail_counted (hkept ..) ok
      · exact hkept ..

theorem front_counted (hc : PagesCounted c) : PagesCounted (c.front codec).1 := by
  have hload : PagesCounted (c.loadOldestPage codec).1 := loadOldestPage_counted hc
  rw [front]
  dsimp only
  split
  · split
    · rename_i h
      rw [h] at hload
      exact hload
    · rename_i h
      rw [h] at hload
      split
      · exact hload
      · exact ⟨hload.counted, hload.positive⟩
  · exact hc

theorem popFront_counted (hc : PagesCounted c) : PagesCounted (c.popFront codec).1 := by
  have hfront : PagesCounted (c.front codec).1 := front_counted hc
  rw [popFront]
  generalize c.front codec = f at hfront ⊢
  obtain ⟨c', result⟩ := f
  cases result with
  | none => exact hfront
  | some record => exact ⟨hfront.counted, hfront.positive⟩

theorem adoptPages_counted (hc : PagesCounted c) : PagesCounted (adoptPages c) := by
  have hadopt : ∀ (seqs : List Nat) (c : SinkCache ρ Line), PagesCounted c →
      PagesCounted (seqs.foldl adoptPage c) := by
    intro seqs
    induction seqs with
    | nil => exact fun _ hc => hc
    | cons seq seqs ih =>
      refine fun c hc => ih _ ?_
      rw [adoptPage]
      split
      · exact ⟨hc.counted, hc.positive⟩
      · rename_i hcount
        have hpage : 0 < (pageOf c.files seq).count := Nat.pos_of_ne_zero hcount
        exact hc.append hpage
  exact trim_counted (hadopt _ c hc)

/-- Damage never upsets the counts: they are taken when a page is adopted or
written, not from what the file holds later. -/
theorem Damaged.counted (hc : Damaged codec c) : PagesCounted c := by
  induction hc with
  | opened cfg files => exact adoptPages_counted ⟨rfl, fun _ hp => absurd hp List.not_mem_nil⟩
  | step op _ ih =>
    cases op with
    | push record ok => exact push_counted ih record ok
    | front => exact front_counted ih
    | popFront => exact popFront_counted ih
  | damage files _ ih => exact ⟨ih.counted, ih.positive⟩

theorem PagesCounted.len_eq_zero (hc : PagesCounted c) :
    c.len = 0 ↔ c.head = [] ∧ c.pages = [] ∧ c.tail = [] := by
  have hdisk : c.diskRecords = 0 ↔ c.pages = [] := by
    constructor
    · intro h
      cases hpages : c.pages with
      | nil => rfl
      | cons page pages =>
        have hpos := hc.positive page (by simp [hpages])
        have hcount := hc.counted
        simp only [h, hpages, List.map_cons, List.sum_cons] at hcount
        omega
    · intro h
      simp [hc.counted, h]
  simp only [len, Nat.add_eq_zero_iff, List.length_eq_zero_iff, hdisk, and_assoc]

/-- `front` and `pop_front` answer `none` only where nothing is left. -/
def EmptyWhenNone (codec : LineCodec ρ Line) (c : SinkCache ρ Line) : Prop :=
  ((c.front codec).2 = none → (c.front codec).1.len = 0) ∧
    ((c.popFront codec).2 = none → (c.popFront codec).1.len = 0)

/-- With nothing in memory to return, the oldest page has a record, or there is
nothing behind it. -/
def OldestPageShows (codec : LineCodec ρ Line) (c : SinkCache ρ Line) : Prop :=
  c.head = [] → ∀ page pages, c.pages = page :: pages →
    pageRecords codec c.files page ≠ [] ∨ pages = [] ∧ c.tail = []

theorem popFront_none :
    ((c.popFront codec).2 = none ↔ (c.front codec).2 = none) ∧
      ((c.front codec).2 = none → (c.popFront codec).1 = (c.front codec).1) := by
  have hhead : (c.front codec).2 = (c.front codec).1.head.head? := rfl
  rw [popFront]
  generalize c.front codec = f at hhead ⊢
  obtain ⟨c', result⟩ := f
  cases result with
  | none => exact ⟨Iff.rfl, fun _ => rfl⟩
  | some record =>
    dsimp only at hhead ⊢
    rw [← hhead]
    exact ⟨Iff.rfl, by simp⟩

theorem front_of_page (codec : LineCodec ρ Line) (hhead : c.head = []) (h : c.pages = page :: pages) :
    (c.front codec).1.head = pageRecords codec c.files page ∧ (c.front codec).1.pages = pages ∧
      (c.front codec).1.tail = c.tail := by
  rw [front, if_pos hhead]
  simp [loadOldestPage, h, hhead, pageRecords]

theorem front_empty_iff (hc : Damaged codec c) :
    ((c.front codec).2 = none → (c.front codec).1.len = 0) ↔ OldestPageShows codec c := by
  have hnone : (c.front codec).2 = none ↔ (c.front codec).1.head = [] := List.head?_eq_none_iff
  rw [hnone, (front_counted hc.counted).len_eq_zero]
  by_cases hhead : c.head = []
  · cases hpages : c.pages with
    | nil =>
      -- the tail is next, and it comes whole
      have hfront : (c.front codec).1.pages = [] ∧ (c.front codec).1.tail = [] := by
        rw [front, if_pos hhead, loadOldestPage_nil hpages]
        dsimp only
        split
        · exact ⟨hpages, ‹_›⟩
        · exact ⟨hpages, rfl⟩
      refine ⟨fun _ _ page pages h => ?_, fun _ h => ⟨h, hfront⟩⟩
      rw [hpages] at h
      cases h
    | cons page pages =>
      obtain ⟨hrecords, hrest, htail⟩ := front_of_page codec hhead hpages
      rw [hrecords, hrest, htail]
      constructor
      · intro h _ other others hothers
        rw [hpages] at hothers
        cases hothers
        by_cases hshows : pageRecords codec c.files page = []
        · exact .inr (h hshows).2
        · exact .inl hshows
      · intro h hempty
        rcases h hhead page pages hpages with hshows | hlast
        · exact absurd hempty hshows
        · exact ⟨hempty, hlast⟩
  · refine ⟨fun _ h => absurd h hhead, fun _ h => absurd ?_ hhead⟩
    rwa [front, if_neg hhead] at h

/-- Whatever happened to the page files, `front` and `pop_front` report an empty
cache only where it is empty if and only if the oldest page has a record to show
when one is needed. -/
theorem empty_when_none_iff (codec : LineCodec ρ Line) (c : SinkCache ρ Line)
    (hc : Damaged codec c) : EmptyWhenNone codec c ↔ OldestPageShows codec c := by
  rw [← front_empty_iff hc, EmptyWhenNone]
  refine ⟨And.left, fun h => ⟨h, fun hpop => ?_⟩⟩
  have hfront := popFront_none.1.mp hpop
  rw [popFront_none.2 hfront]
  exact h hfront

/-- A directory left with a page nobody can read, and a good one behind it. -/
def damagedDir : PageDir Nat := ⟨[⟨1, [none]⟩, ⟨2, [some 7]⟩], by simp [List.NodupKeys]⟩

theorem empty_when_none_iff_damaged :
    Damaged plainCodec (openDir smallConfig damagedDir) ∧
      (EmptyWhenNone plainCodec (openDir smallConfig damagedDir) ↔
        OldestPageShows plainCodec (openDir smallConfig damagedDir)) :=
  have hc : Damaged plainCodec (openDir smallConfig damagedDir) := .opened _ _
  ⟨hc, empty_when_none_iff plainCodec _ hc⟩

/-- The unreadable page hides the good one: `front` answers `none` with one
record left. -/
theorem damaged_page_hides_records :
    Damaged plainCodec (openDir smallConfig damagedDir) ∧
      ((openDir smallConfig damagedDir).front plainCodec).2 = none ∧
      ((openDir smallConfig damagedDir).front plainCodec).1.len = 1 ∧
      ¬ EmptyWhenNone plainCodec (openDir smallConfig damagedDir) := by
  have hnone : ((openDir smallConfig damagedDir).front plainCodec).2 = none := by decide
  have hlen : ((openDir smallConfig damagedDir).front plainCodec).1.len = 1 := by decide
  refine ⟨.opened _ _, hnone, hlen, fun h => ?_⟩
  have hzero := h.1 hnone
  rw [hlen] at hzero
  cases hzero

end Rekuiper.SinkCache
