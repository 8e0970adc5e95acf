import Mathlib.Data.List.Flatten
import Rekuiper.SinkCache.Order

/-!
# Closing and opening again

`close` leaves the records in page files, `openDir` adopts what it finds. A
directory with intact pages opens to a well-formed cache, and what `close` wrote
comes back in order: the head's chunks sort below the first page. What does not
fit the disk budget is dropped from the front.
-/

namespace Rekuiper.SinkCache

open Lib (Flow Shuffle delivered lost)

variable {ρ Line : Type} {codec : LineCodec ρ Line} {c c' : SinkCache ρ Line}
  {files : PageDir Line} {page : Page} {pages : List Page} {chunks : List (List ρ)}

def DirOk (codec : LineCodec ρ Line) (files : PageDir Line) : Prop :=
  ∀ seq file, files.lookup seq = some file →
    ∃ records, records ≠ [] ∧ file = records.map fun r => some (codec.encode r)

/-- The sequence numbers in a directory, as `adopt_pages` sorts them. -/
def sortedSeqs (files : PageDir Line) : List Nat := files.keys.insertionSort (· ≤ ·)

/-- The page `adopt_pages` makes of a file. -/
def pageOf (files : PageDir Line) (seq : Nat) : Page :=
  ⟨seq, ((files.lookup seq).map List.length).getD 0⟩

theorem DirOk.lookup (hd : DirOk codec files) (hseq : seq ∈ files) :
    ∃ records, records ≠ [] ∧
      files.lookup seq = some (records.map fun r => some (codec.encode r)) := by
  obtain ⟨file, hfile⟩ := Option.isSome_iff_exists.mp (AList.lookup_isSome.mpr hseq)
  obtain ⟨records, hne, rfl⟩ := hd seq file hfile
  exact ⟨records, hne, hfile⟩

theorem PagesOk.dirOk (hc : PagesOk codec c) : DirOk codec c.files := by
  intro seq file hfile
  obtain ⟨page, hp, rfl⟩ := hc.owned seq (AList.lookup_isSome.mp (by simp [hfile]))
  obtain ⟨records, hne, -, hrecords⟩ := hc.filed page hp
  exact ⟨records, hne, Option.some.inj (hfile.symm.trans hrecords)⟩

theorem mem_sortedSeqs : seq ∈ sortedSeqs files ↔ seq ∈ files := by
  rw [sortedSeqs, List.mem_insertionSort, AList.mem_keys]

theorem sortedSeqs_eq (hl : seqs.Pairwise (· < ·)) (hmem : ∀ seq, seq ∈ seqs ↔ seq ∈ files) :
    sortedSeqs files = seqs := by
  have hperm : (sortedSeqs files).Perm seqs := by
    refine (List.perm_insertionSort _ _).trans ?_
    refine (List.perm_ext_iff_of_nodup files.keys_nodup (hl.imp Nat.ne_of_lt)).mpr fun seq => ?_
    rw [hmem, AList.mem_keys]
  exact hperm.eq_of_pairwise' (List.pairwise_insertionSort _ _) (hl.imp Nat.le_of_lt)

theorem sortedSeqs_pairwise (files : PageDir Line) : (sortedSeqs files).Pairwise (· < ·) := by
  have hle : (sortedSeqs files).Pairwise (· ≤ ·) := List.pairwise_insertionSort _ _
  have hne : (sortedSeqs files).Nodup :=
    (List.perm_insertionSort _ _).nodup_iff.mpr files.keys_nodup
  exact (hle.and hne).imp fun h => Nat.lt_of_le_of_ne h.1 h.2

-- ---- Opening

theorem foldl_adoptPage (seqs : List Nat) (hseqs : ∀ seq ∈ seqs, (pageOf c.files seq).count ≠ 0) :
    ∃ next, seqs.foldl adoptPage c = { c with
        pages := c.pages ++ seqs.map (pageOf c.files)
        diskRecords := c.diskRecords + ((seqs.map (pageOf c.files)).map Page.count).sum
        nextSeq := next } ∧
      c.nextSeq ≤ next ∧ ∀ seq ∈ seqs, seq < next := by
  induction seqs generalizing c with
  | nil => exact ⟨c.nextSeq, by simp, Nat.le_refl _, by simp⟩
  | cons seq seqs ih =>
    have hadopt : adoptPage c seq = { c with
        nextSeq := max c.nextSeq (seq + 1)
        diskRecords := c.diskRecords + (pageOf c.files seq).count
        pages := c.pages ++ [pageOf c.files seq] } := by
      rw [adoptPage]
      exact if_neg (hseqs seq (by simp))
    obtain ⟨next, hfold, hle, hlt⟩ := ih (c := adoptPage c seq) (by
      intro other hother
      rw [hadopt]
      exact hseqs other (by simp [hother]))
    refine ⟨next, ?_, ?_, ?_⟩
    · rw [List.foldl_cons, hfold, hadopt]
      simp [Nat.add_assoc]
    · rw [hadopt] at hle
      simp only at hle
      omega
    · intro other hother
      rw [hadopt] at hle
      simp only at hle
      rcases List.mem_cons.mp hother with rfl | hother
      · omega
      · exact hlt other hother

theorem trim_spec (hc : PagesOk codec c) (h : c.pages = pages) (hhead : c.head = []) :
    Conserves codec p c [] [] (trim pages c) ∧ PagesOk codec (trim pages c) ∧
      (trim pages c).head = [] ∧ (trim pages c).tail = c.tail := by
  induction pages generalizing c with
  | nil =>
    rw [trim]
    split <;> exact ⟨.refl c, hc, hhead, rfl⟩
  | cons page pages ih =>
    rw [trim]
    split
    · exact ⟨.refl c, hc, hhead, rfl⟩
    · have hcount : (pageRecords codec c.files page).length = page.count :=
        hc.length_pageRecords (by simp [h])
      have hdrop : dropOldestPage c = ({ c with
          pages := pages
          files := c.files.erase page.seq
          diskRecords := c.diskRecords - page.count
          head := c.head
          dropped := c.dropped + page.count }, true) := by
        simp [dropOldestPage, h]
      have hfirst : Conserves codec p c [] [] c.dropOldestPage.1 := by
        rw [hdrop]
        refine .drop page.count ?_ ?_ rfl rfl
        · simp [held, hhead, h, hcount]
        · simp [held, hhead, h, hc.pageRecords_tail h, ← hcount]
      obtain ⟨hrest, hok, hhead', htail'⟩ := ih (c := c.dropOldestPage.1)
        (by rw [hdrop]; exact hc.tail h) (by rw [hdrop]) (by rw [hdrop]; exact hhead)
      refine ⟨(hfirst.trans hrest).mono fun h => ⟨h, h⟩, hok, hhead', ?_⟩
      rw [htail', hdrop]

def dirRecords (codec : LineCodec ρ Line) (files : PageDir Line) : List ρ :=
  (sortedSeqs files).flatMap fun seq => pageRecords codec files (pageOf files seq)

theorem adopted_spec (cfg : CacheConfig) (hd : DirOk codec files) :
    ∃ c : SinkCache ρ Line, (sortedSeqs files).foldl adoptPage (blank cfg files) = c ∧
      PagesOk codec c ∧ c.cfg = cfg ∧ c.head = [] ∧ c.tail = [] ∧
      held codec c = dirRecords codec files := by
  obtain ⟨next, hfold, -, hlt⟩ := foldl_adoptPage (c := (blank cfg files : SinkCache ρ Line))
    (sortedSeqs files) (by
      intro seq hseq
      obtain ⟨records, hne, hfile⟩ := hd.lookup (mem_sortedSeqs.mp hseq)
      simp [blank, pageOf, hfile, hne])
  refine ⟨_, hfold, ?_, rfl, rfl, rfl, ?_⟩
  · constructor
    · intro page hp
      obtain ⟨seq, hseq, rfl⟩ := List.mem_map.mp (by simpa [blank] using hp)
      obtain ⟨records, hne, hfile⟩ := hd.lookup (mem_sortedSeqs.mp hseq)
      exact ⟨records, hne, by simp [pageOf, hfile], hfile⟩
    · intro seq hseq
      refine ⟨pageOf files seq, ?_, rfl⟩
      exact List.mem_append_right _ (List.mem_map_of_mem (mem_sortedSeqs.mpr hseq))
    · exact List.pairwise_map.mpr (sortedSeqs_pairwise files)
    · intro page hp
      obtain ⟨seq, hseq, rfl⟩ := List.mem_map.mp (by simpa [blank] using hp)
      exact hlt seq hseq
    · simp [blank]
  · simp [held, blank, dirRecords, List.flatMap_map]

/-- An intact directory opens to a well-formed cache with nothing in memory,
which holds the newest of the directory's records. -/
theorem openDir_spec (cfg : CacheConfig) (hd : DirOk codec files) :
    Ok codec (openDir cfg files) ∧ (openDir cfg files : SinkCache ρ Line).cfg = cfg ∧
      held codec (openDir cfg files) <:+ dirRecords codec files := by
  obtain ⟨c, hfold, hc, hcfg, hhead, htail, hheld⟩ := adopted_spec cfg hd
  obtain ⟨htrim, hok, -, htail'⟩ := trim_spec (p := True) hc rfl hhead
  have hopen : openDir cfg files = trim c.pages c := by
    rw [openDir, adoptPages]
    exact congrArg (fun c => trim c.pages c) hfold
  obtain ⟨out, -, hflow, -⟩ := htrim.records
  have hsuffix := (hflow trivial).suffix
  rw [hheld, List.append_nil] at hsuffix
  rw [hopen]
  refine ⟨⟨hok, ?_, fun _ => htail'.trans htail⟩, htrim.cfg.trans hcfg, hsuffix⟩
  rw [htail', htail]
  exact CacheConfig.pageSize_pos _

-- ---- Closing

theorem writePage_lookup (ok : Bool) (seq other : Nat) (records : List ρ) :
    ((writePage codec files seq records ok).getD files).lookup other =
      if ok = true ∧ other = seq then some (records.map fun r => some (codec.encode r))
      else files.lookup other := by
  cases ok with
  | false => simp [writePage]
  | true =>
    by_cases h : other = seq
    · subst h
      simp [writePage]
    · simp [writePage, h, AList.lookup_insert_ne]

theorem DirOk.writeChunks (hd : DirOk codec files) (hchunks : ∀ chunk ∈ chunks, chunk ≠ []) :
    DirOk codec (writeChunks codec files seq ok chunks) := by
  induction chunks generalizing files seq ok with
  | nil => exact hd
  | cons chunk chunks ih =>
    rw [SinkCache.writeChunks]
    refine ih ?_ fun other hother => hchunks other (by simp [hother])
    intro other file hfile
    rw [writePage_lookup] at hfile
    split at hfile
    · exact ⟨chunk, hchunks chunk (by simp), (Option.some.inj hfile).symm⟩
    · exact hd other file hfile

theorem writeChunks_lookup (other : Nat) (chunks : List (List ρ)) :
    (writeChunks codec files seq (fun _ => true) chunks).lookup other =
      if seq ≤ other ∧ other < seq + chunks.length then
        chunks[other - seq]?.map fun records => records.map fun r => some (codec.encode r)
      else files.lookup other := by
  induction chunks generalizing files seq with
  | nil =>
    rw [SinkCache.writeChunks, if_neg (by simp)]
  | cons chunk chunks ih =>
    rw [SinkCache.writeChunks, ih, writePage_lookup]
    simp only [List.length_cons, true_and]
    by_cases hlt : other < seq
    · rw [if_neg (by omega), if_neg (by omega), if_neg (by omega)]
    · by_cases heq : other = seq
      · subst heq
        rw [if_neg (by omega), if_pos rfl, if_pos (by omega)]
        simp
      · have hsub : other - seq = (other - (seq + 1)) + 1 := by omega
        by_cases hin : other < seq + (chunks.length + 1)
        · rw [if_pos (by omega), if_pos (by omega), hsub, List.getElem?_cons_succ]
        · rw [if_neg (by omega), if_neg heq, if_neg (by omega)]

/-- The sequence numbers after `close`: the head's chunks, then the pages they
did not replace. Chunks replace pages only where the numbers below the first
page run out. -/
theorem sortedSeqs_writeChunks (hc : PagesOk codec c) (hfirst : ∀ page ∈ c.pages, seq ≤ page.seq)
    (chunks : List (List ρ)) :
    sortedSeqs (writeChunks codec c.files seq (fun _ => true) chunks) =
      List.range' seq chunks.length ++
        (c.pages.filter (seq + chunks.length ≤ ·.seq)).map Page.seq := by
  refine sortedSeqs_eq ?_ fun other => ?_
  · refine List.pairwise_append.mpr ⟨List.pairwise_lt_range' .., ?_, ?_⟩
    · exact List.pairwise_map.mpr (hc.sorted.sublist List.filter_sublist)
    · intro a ha b hb
      obtain ⟨page, hp, rfl⟩ := List.mem_map.mp hb
      have hle : seq + chunks.length ≤ page.seq := by simpa using (List.mem_filter.mp hp).2
      have := (List.mem_range'_1.mp ha).2
      omega
  · rw [← AList.lookup_isSome, writeChunks_lookup, List.mem_append, List.mem_range'_1]
    split
    · rename_i hin
      have : other - seq < chunks.length := by omega
      simp [hin, this]
    · rename_i hout
      rw [AList.lookup_isSome]
      constructor
      · rintro (h | h)
        · exact absurd h hout
        · obtain ⟨page, hp, rfl⟩ := List.mem_map.mp h
          obtain ⟨records, -, -, hfile⟩ := hc.filed page (List.mem_filter.mp hp).1
          exact AList.lookup_isSome.mp (by simp [hfile])
      · intro h
        obtain ⟨page, hp, rfl⟩ := hc.owned other h
        have := hfirst page hp
        refine .inr (List.mem_map.mpr ⟨page, List.mem_filter.mpr ⟨hp, ?_⟩, rfl⟩)
        simp only [decide_eq_true_eq]
        omega

theorem dirRecords_writeChunks (hc : PagesOk codec c)
    (hfirst : ∀ page ∈ c.pages, seq ≤ page.seq) (chunks : List (List ρ)) :
    dirRecords codec (writeChunks codec c.files seq (fun _ => true) chunks) =
      chunks.flatten ++ (c.pages.filter (seq + chunks.length ≤ ·.seq)).flatMap
        (pageRecords codec c.files) := by
  rw [dirRecords, sortedSeqs_writeChunks hc hfirst, List.flatMap_append]
  have hchunks : (List.range' seq chunks.length).map (fun other => pageRecords codec
      (writeChunks codec c.files seq (fun _ => true) chunks)
      (pageOf (writeChunks codec c.files seq (fun _ => true) chunks) other)) = chunks := by
    refine List.ext_getElem (by simp) fun i hi hi' => ?_
    simp only [List.getElem_map, List.getElem_range', Nat.one_mul]
    refine pageRecords_of_lookup ?_
    show AList.lookup (seq + i) _ = _
    rw [writeChunks_lookup, if_pos (by omega)]
    simp [hi']
  have hpages : ((c.pages.filter (seq + chunks.length ≤ ·.seq)).map Page.seq).flatMap
      (fun other => pageRecords codec (writeChunks codec c.files seq (fun _ => true) chunks)
        (pageOf (writeChunks codec c.files seq (fun _ => true) chunks) other)) =
      (c.pages.filter (seq + chunks.length ≤ ·.seq)).flatMap (pageRecords codec c.files) := by
    rw [List.flatMap_map]
    refine List.flatMap_congr fun page hp => ?_
    have hle : seq + chunks.length ≤ page.seq := by simpa using (List.mem_filter.mp hp).2
    simp only [pageRecords, pageOf]
    rw [writeChunks_lookup, if_neg (by omega)]
  rw [hpages, List.flatMap_def, hchunks]

theorem PagesOk.first_le (hc : PagesOk codec c) (hp : page ∈ c.pages) :
    (c.pages.head?.map Page.seq).getD c.nextSeq ≤ page.seq := by
  cases h : c.pages with
  | nil => simp [h] at hp
  | cons first rest =>
    rw [h] at hp
    rcases List.mem_cons.mp hp with rfl | hp
    · simp
    · simpa using Nat.le_of_lt ((List.pairwise_cons.mp (h ▸ hc.sorted)).1 page hp)

/-- The chunks of the memory head find room below the first page: their number does not
exceed its sequence number. -/
def HeadFits (codec : LineCodec ρ Line) (c : SinkCache ρ Line) : Prop :=
  (Lib.chunks (c.spillTail codec true).cfg.pageSize (c.spillTail codec true).head).length ≤
    ((c.spillTail codec true).pages.head?.map Page.seq).getD (c.spillTail codec true).nextSeq

instance (codec : LineCodec ρ Line) (c : SinkCache ρ Line) : Decidable (HeadFits codec c) :=
  Nat.decLe _ _

theorem close_eq (hclean : c.cfg.cleanAtStop = false) (ok : Nat → Bool) :
    c.close codec ok = writeChunks codec (c.spillTail codec (ok 0)).files
      (((c.spillTail codec (ok 0)).pages.head?.map Page.seq).getD
          (c.spillTail codec (ok 0)).nextSeq -
        (Lib.chunks (c.spillTail codec (ok 0)).cfg.pageSize
          (c.spillTail codec (ok 0)).head).length)
      (fun i => ok (i + 1))
      (Lib.chunks (c.spillTail codec (ok 0)).cfg.pageSize (c.spillTail codec (ok 0)).head) := by
  rw [close, if_neg (by simp [hclean])]
  dsimp only
  split
  · rename_i hhead
    rw [hhead]
    rfl
  · rfl

theorem close_dirOk (hc : Ok codec c) (ok : Nat → Bool) : DirOk codec (c.close codec ok) := by
  cases hclean : c.cfg.cleanAtStop with
  | true =>
    rw [close, if_pos hclean]
    intro seq file hfile
    simp at hfile
  | false =>
    rw [close_eq hclean]
    obtain ⟨-, hpages, -⟩ := spillTail_spec hc.toPagesOk (ok 0)
    exact hpages.dirOk.writeChunks fun chunk hchunk =>
      Lib.ne_nil_of_mem_chunks (CacheConfig.pageSize_pos _) hchunk

/-- Where all writes succeed, the directory left behind has the head's records and those
of the pages the head's chunks did not replace. -/
theorem close_dirRecords (hc : Ok codec c) (hclean : c.cfg.cleanAtStop = false) :
    ∃ pages, List.Sublist pages (c.spillTail codec true).pages ∧
      dirRecords codec (c.close codec fun _ => true) = (c.spillTail codec true).head ++
        pages.flatMap (pageRecords codec (c.spillTail codec true).files) ∧
      (HeadFits codec c → pages = (c.spillTail codec true).pages) := by
  obtain ⟨-, hpages, -⟩ := spillTail_spec hc.toPagesOk true
  have hfirst : ∀ page ∈ (c.spillTail codec true).pages,
      ((c.spillTail codec true).pages.head?.map Page.seq).getD (c.spillTail codec true).nextSeq -
        (Lib.chunks (c.spillTail codec true).cfg.pageSize (c.spillTail codec true).head).length ≤
        page.seq :=
    fun page hp => Nat.le_trans (Nat.sub_le ..) (hpages.first_le hp)
  have hwritten := dirRecords_writeChunks hpages hfirst
    (Lib.chunks (c.spillTail codec true).cfg.pageSize (c.spillTail codec true).head)
  rw [Lib.flatten_chunks (CacheConfig.pageSize_pos _)] at hwritten
  rw [close_eq hclean]
  refine ⟨_, List.filter_sublist, hwritten, fun hfits => List.filter_eq_self.mpr fun page hp => ?_⟩
  have hle := hpages.first_le hp
  unfold HeadFits at hfits
  simp only [decide_eq_true_eq]
  omega

/-- Where all writes succeed, the directory left behind has the records held, in
order, less those dropped to make room for the tail. -/
theorem close_records (hc : Ok codec c) (hclean : c.cfg.cleanAtStop = false) :
    List.Sublist (dirRecords codec (c.close codec fun _ => true)) (held codec c) := by
  obtain ⟨hspill, hpages, htail⟩ := spillTail_spec hc.toPagesOk true
  obtain ⟨out, -, hflow, -⟩ := hspill.records
  have hsuffix := (hflow (.inl rfl)).suffix
  rw [List.append_nil] at hsuffix
  refine .trans ?_ hsuffix.sublist
  obtain ⟨pages, hsub, hrecords, -⟩ := close_dirRecords hc hclean
  rw [hrecords, held, htail, List.append_nil]
  exact (hsub.flatMap _).append_left _

theorem close_records_all (hc : Ok codec c) (hclean : c.cfg.cleanAtStop = false)
    (hdropped : (c.spillTail codec true).dropped = c.dropped) (hfits : HeadFits codec c) :
    dirRecords codec (c.close codec fun _ => true) = held codec c := by
  obtain ⟨hspill, hpages, htail⟩ := spillTail_spec hc.toPagesOk true
  obtain ⟨out, -, hflow, hout, hlost⟩ := hspill.records
  have hnone : out = [] := by
    have hlen := Lib.length_delivered_add_lost out
    rw [hout, List.length_nil] at hlen
    exact List.length_eq_zero_iff.mp (by omega)
  obtain ⟨pages, -, hrecords, hall⟩ := close_dirRecords hc hclean
  have hheld := (hflow (.inl rfl)).conserves
  rw [hnone, List.append_nil] at hheld
  rw [hrecords, hall hfits, hheld]
  simp [held, htail]

-- ---- Reachable caches

theorem restart_spec (hc : Ok codec c) (cfg : CacheConfig) (ok : Nat → Bool) :
    Ok codec (c.restart codec cfg ok) ∧ (c.restart codec cfg ok).cfg = cfg := by
  obtain ⟨hok, hcfg, -⟩ := openDir_spec cfg (close_dirOk hc ok)
  exact ⟨hok, hcfg⟩

theorem restart_records (hc : Ok codec c) (hclean : c.cfg.cleanAtStop = false)
    (cfg : CacheConfig) :
    List.Sublist (held codec (c.restart codec cfg fun _ => true)) (held codec c) := by
  obtain ⟨-, -, hsuffix⟩ := openDir_spec cfg (close_dirOk hc fun _ => true)
  exact hsuffix.sublist.trans (close_records hc hclean)

theorem openDir_empty (cfg : CacheConfig) :
    (openDir cfg ∅ : SinkCache ρ Line) = blank cfg ∅ := rfl

theorem blank_ok (cfg : CacheConfig) : Ok codec (blank cfg ∅) where
  filed := by simp [blank]
  owned := by simp [blank]
  sorted := .nil
  fresh := by simp [blank]
  counted := rfl
  tail_lt := cfg.pageSize_pos
  memoryOnly _ := rfl

theorem Reachable.ok (h : Reachable codec c) : Ok codec c := by
  induction h with
  | opened cfg =>
    rw [openDir_empty]
    exact blank_ok cfg
  | step op _ ih => exact (step_spec ih op).2
  | restart cfg ok _ ih => exact (restart_spec ih cfg ok).1

end Rekuiper.SinkCache
