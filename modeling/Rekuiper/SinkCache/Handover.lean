import Rekuiper.SinkCache.Delivery

/-!
# Two workers on one directory

A rule that restarts drops the input of its sink worker and spawns the next one
without waiting: the old worker still pushes what is queued and closes its cache
while the new one opens the same directory and works on it. Each of them knows
the pages from its own look at the directory. Reading a page the other has taken
away finds nothing, and writing one replaces what the other wrote under that
number.

Where nothing is dropped for want of room, a record is lost exactly where a page
write meets a file under its number (`handover_loses_no_record`).
-/

namespace Rekuiper.SinkCache

variable {ρ Line : Type} {codec : LineCodec ρ Line} {c : SinkCache ρ Line}
  {files : PageDir Line} {writes : List (List ρ × Nat)}

-- ---- Reading and writing single pages

def fileRecords (codec : LineCodec ρ Line) (files : PageDir Line) (seq : Nat) : List ρ :=
  ((files.lookup seq).map (readRecords codec)).getD []

theorem dirRecords_perm (codec : LineCodec ρ Line) (files : PageDir Line) :
    (dirRecords codec files).Perm (files.keys.flatMap (fileRecords codec files)) :=
  (List.perm_insertionSort _ _).flatMap_right _

theorem fileRecords_of_notMem (h : seq ∉ files) : fileRecords codec files seq = [] := by
  rw [fileRecords, AList.lookup_eq_none.mpr h]
  rfl

theorem dirRecords_erase (codec : LineCodec ρ Line) (files : PageDir Line) (seq : Nat) :
    (dirRecords codec files).Perm
      (fileRecords codec files seq ++ dirRecords codec (files.erase seq)) := by
  refine (dirRecords_perm codec files).trans ?_
  refine .trans ?_ ((dirRecords_perm codec (files.erase seq)).symm.append_left _)
  have hothers : (files.keys.erase seq).flatMap (fileRecords codec files) =
      (files.erase seq).keys.flatMap (fileRecords codec (files.erase seq)) := by
    rw [AList.keys_erase]
    refine List.flatMap_congr fun other hother => ?_
    have hne : other ≠ seq := (files.keys_nodup.mem_erase_iff.mp hother).1
    rw [fileRecords, fileRecords, AList.lookup_erase_ne hne]
  rw [← hothers]
  by_cases hseq : seq ∈ files.keys
  · exact (List.perm_cons_erase hseq).flatMap_right _
  · rw [List.erase_of_not_mem hseq, fileRecords_of_notMem (mt AList.mem_keys.mp hseq)]
    exact .refl _

theorem dirRecords_insert (codec : LineCodec ρ Line) (files : PageDir Line) (seq : Nat)
    (records : List ρ) :
    (dirRecords codec (files.insert seq (records.map fun r => some (codec.encode r))) ++
      fileRecords codec files seq).Perm (records ++ dirRecords codec files) := by
  have hwritten : fileRecords codec
      (files.insert seq (records.map fun r => some (codec.encode r))) seq = records := by
    rw [fileRecords, AList.lookup_insert]
    exact readRecords_encode codec records
  have herased := dirRecords_erase codec
    (files.insert seq (records.map fun r => some (codec.encode r))) seq
  rw [hwritten] at herased
  have hothers : (dirRecords codec
      ((files.insert seq (records.map fun r => some (codec.encode r))).erase seq)).Perm
      (dirRecords codec (files.erase seq)) := by
    refine (dirRecords_perm _ _).trans (.trans ?_ (dirRecords_perm _ _).symm)
    rw [AList.keys_erase, AList.keys_insert, List.erase_cons_head, AList.keys_erase]
    refine .of_eq (List.flatMap_congr fun other hother => ?_)
    have hne : other ≠ seq := (files.keys_nodup.mem_erase_iff.mp hother).1
    rw [fileRecords, fileRecords, AList.lookup_erase_ne hne, AList.lookup_erase_ne hne,
      AList.lookup_insert_ne hne]
  have hbefore := dirRecords_erase codec files seq
  classical
  refine List.perm_iff_count.mpr fun a => ?_
  have hcounts := And.intro (herased.count_eq a) (And.intro (hothers.count_eq a) (hbefore.count_eq a))
  simp only [List.count_append] at hcounts ⊢
  omega

def writePages (codec : LineCodec ρ Line) (files : PageDir Line) :
    List (List ρ × Nat) → PageDir Line
  | [] => files
  | (records, seq) :: writes =>
    writePages codec ((writePage codec files seq records true).getD files) writes

def FreeNumbers (files : PageDir Line) (writes : List (List ρ × Nat)) : Prop :=
  (writes.map Prod.snd).Nodup ∧ ∀ seq ∈ writes.map Prod.snd, seq ∉ files

instance (files : PageDir Line) (writes : List (List ρ × Nat)) :
    Decidable (FreeNumbers files writes) :=
  inferInstanceAs (Decidable (_ ∧ _))

theorem freeNumbers_cons {records : List ρ} :
    FreeNumbers files ((records, seq) :: writes) ↔
      seq ∉ files ∧
        FreeNumbers (files.insert seq (records.map fun r => some (codec.encode r))) writes := by
  simp only [FreeNumbers, List.map_cons, List.nodup_cons, List.forall_mem_cons, AList.mem_insert,
    not_or]
  constructor
  · rintro ⟨⟨hnew, hnodup⟩, hseq, hfree⟩
    exact ⟨hseq, hnodup, fun other hother => ⟨fun h => hnew (h ▸ hother), hfree other hother⟩⟩
  · rintro ⟨hseq, hnodup, hfree⟩
    exact ⟨⟨fun hmem => (hfree seq hmem).1 rfl, hnodup⟩, hseq, fun other hother =>
      (hfree other hother).2⟩

theorem DirOk.insert {records : List ρ} (hd : DirOk codec files) (seq : Nat)
    (hne : records ≠ []) :
    DirOk codec (files.insert seq (records.map fun r => some (codec.encode r))) := by
  intro other file hfile
  by_cases h : other = seq
  · subst h
    rw [AList.lookup_insert] at hfile
    exact ⟨records, hne, (Option.some.inj hfile).symm⟩
  · rw [AList.lookup_insert_ne h] at hfile
    exact hd other file hfile

theorem DirOk.erase (hd : DirOk codec files) (seq : Nat) : DirOk codec (files.erase seq) := by
  intro other file hfile
  by_cases h : other = seq
  · subst h
    simp at hfile
  · rw [AList.lookup_erase_ne h] at hfile
    exact hd other file hfile

theorem DirOk.fileRecords_eq_nil (hd : DirOk codec files) :
    fileRecords codec files seq = [] ↔ seq ∉ files := by
  refine ⟨fun h hseq => ?_, fileRecords_of_notMem⟩
  obtain ⟨records, hne, hfile⟩ := hd.lookup hseq
  rw [fileRecords, hfile] at h
  exact hne ((readRecords_encode codec records).symm.trans h)

theorem writePages_spec (hd : DirOk codec files) (writes : List (List ρ × Nat))
    (hne : ∀ write ∈ writes, write.1 ≠ []) :
    DirOk codec (writePages codec files writes) ∧ ∃ lost,
      (dirRecords codec (writePages codec files writes) ++ lost).Perm
        (writes.flatMap Prod.fst ++ dirRecords codec files) ∧
      (lost = [] ↔ FreeNumbers files writes) := by
  induction writes generalizing files with
  | nil => exact ⟨hd, [], by simp [writePages], by simp [FreeNumbers]⟩
  | cons write writes ih =>
    obtain ⟨records, seq⟩ := write
    have hfirst := dirRecords_insert codec files seq records
    obtain ⟨hok, lost, hlost, hfree⟩ := ih
      (hd.insert seq (hne (records, seq) (by simp)))
      (fun write hwrite => hne write (by simp [hwrite]))
    refine ⟨hok, fileRecords codec files seq ++ lost, ?_, ?_⟩
    · classical
      refine List.perm_iff_count.mpr fun a => ?_
      have hcounts := And.intro (hfirst.count_eq a) (hlost.count_eq a)
      simp only [writePages, writePage, if_true, Option.getD_some, List.flatMap_cons,
        List.count_append] at hcounts ⊢
      omega
    · rw [List.append_eq_nil_iff, hd.fileRecords_eq_nil, hfree, freeNumbers_cons]

theorem writeChunks_eq_writePages (chunks : List (List ρ)) :
    writeChunks codec files seq (fun _ => true) chunks =
      writePages codec files (chunks.zipIdx seq) := by
  induction chunks generalizing files seq with
  | nil => rfl
  | cons chunk chunks ih => rw [writeChunks, ih, List.zipIdx_cons, writePages]

-- ---- What the cache does on a directory it shares

def inMemory (c : SinkCache ρ Line) : List ρ := c.head ++ c.tail

def RoomToSpill (c : SinkCache ρ Line) : Prop :=
  c.tail = [] ∨ c.diskRecords + c.tail.length ≤ c.cfg.maxDisk

def PushesToHead (c : SinkCache ρ Line) : Prop :=
  c.pages = [] ∧ c.tail = [] ∧ c.head.length < c.cfg.memoryThreshold

def PushSpills (c : SinkCache ρ Line) : Prop :=
  c.cfg.diskEnabled = true ∧ ¬ c.PushesToHead ∧ c.cfg.pageSize ≤ c.tail.length + 1

def RoomToPush (c : SinkCache ρ Line) : Prop :=
  if c.cfg.diskEnabled then
    ¬ c.PushSpills ∨ c.diskRecords + (c.tail.length + 1) ≤ c.cfg.maxDisk
  else c.head.length < c.cfg.memoryThreshold

def RoomToOpen (cfg : CacheConfig) (files : PageDir Line) : Prop :=
  (((sortedSeqs files).map (pageOf files)).map Page.count).sum ≤ cfg.maxDisk

instance (c : SinkCache ρ Line) : Decidable c.RoomToSpill :=
  decidable_of_iff (c.tail.isEmpty ∨ c.diskRecords + c.tail.length ≤ c.cfg.maxDisk) (by
    rw [RoomToSpill, List.isEmpty_iff])

instance (c : SinkCache ρ Line) : Decidable c.PushesToHead :=
  decidable_of_iff (c.pages = [] ∧ c.tail.isEmpty ∧ c.head.length < c.cfg.memoryThreshold) (by
    rw [PushesToHead, List.isEmpty_iff])

instance (c : SinkCache ρ Line) : Decidable c.PushSpills :=
  inferInstanceAs (Decidable (_ ∧ _))

instance (c : SinkCache ρ Line) : Decidable c.RoomToPush :=
  inferInstanceAs (Decidable (ite _ _ _))

instance (cfg : CacheConfig) (files : PageDir Line) : Decidable (RoomToOpen cfg files) :=
  Nat.decLe _ _

def tailPage (c : SinkCache ρ Line) : List (List ρ × Nat) :=
  if c.tail.isEmpty then [] else [(c.tail, c.nextSeq)]

def pushPages (c : SinkCache ρ Line) (record : ρ) : List (List ρ × Nat) :=
  if c.PushSpills then [(c.tail ++ [record], c.nextSeq)] else []

/-- The page writes of `close`: the tail, then the head's chunks below the first page. -/
def closePages (c : SinkCache ρ Line) : List (List ρ × Nat) :=
  let chunks := Lib.chunks c.cfg.pageSize c.head
  c.tailPage ++ chunks.zipIdx ((c.pages.head?.map Page.seq).getD c.nextSeq - chunks.length)

theorem loadOldestPage_shared (hd : DirOk codec c.files) :
    DirOk codec (c.loadOldestPage codec).1.files ∧
      (inMemory (c.loadOldestPage codec).1 ++
        dirRecords codec (c.loadOldestPage codec).1.files).Perm
        (inMemory c ++ dirRecords codec c.files) := by
  cases h : c.pages with
  | nil =>
    rw [loadOldestPage_nil h]
    exact ⟨hd, .refl _⟩
  | cons page pages =>
    have hload : (c.loadOldestPage codec).1 = { c with
        pages := pages
        files := c.files.erase page.seq
        head := c.head ++ fileRecords codec c.files page.seq
        diskRecords := c.diskRecords - page.count
        dropped := c.dropped + (page.count - (fileRecords codec c.files page.seq).length) } := by
      simp [loadOldestPage, h, fileRecords]
    rw [hload]
    refine ⟨hd.erase page.seq, ?_⟩
    have hmoved := dirRecords_erase codec c.files page.seq
    classical
    refine List.perm_iff_count.mpr fun a => ?_
    have hcount := hmoved.count_eq a
    simp only [inMemory, List.count_append] at hcount ⊢
    omega

theorem front_shared (hd : DirOk codec c.files) :
    DirOk codec (c.front codec).1.files ∧
      (inMemory (c.front codec).1 ++ dirRecords codec (c.front codec).1.files).Perm
        (inMemory c ++ dirRecords codec c.files) := by
  have hload := loadOldestPage_shared hd
  rw [front]
  dsimp only
  split
  · rename_i hhead
    split
    · rename_i c' hc'
      rw [hc'] at hload
      exact hload
    · rename_i c' hc'
      rw [hc'] at hload
      split
      · exact hload
      · have hhead' : c'.head = [] := by
          cases hpages : c.pages with
          | nil =>
            rw [loadOldestPage_nil hpages] at hc'
            cases hc'
            exact hhead
          | cons page pages => simp [loadOldestPage, hpages] at hc'
        simpa [inMemory, hhead'] using hload
  · exact ⟨hd, .refl _⟩

theorem popFront_shared (hd : DirOk codec c.files) :
    DirOk codec (c.popFront codec).1.files ∧
      ((c.popFront codec).2.toList ++ (inMemory (c.popFront codec).1 ++
        dirRecords codec (c.popFront codec).1.files)).Perm
        (inMemory c ++ dirRecords codec c.files) := by
  obtain ⟨hok, hperm⟩ := front_shared hd
  cases hhead : (c.front codec).1.head with
  | nil =>
    have hpop : c.popFront codec = ((c.front codec).1, none) := by
      rw [popFront]
      split
      · rename_i h
        rw [h]
      · rename_i record h
        have hfront : (c.front codec).2 = (c.front codec).1.head.head? := rfl
        rw [hhead, h] at hfront
        simp at hfront
    rw [hpop]
    exact ⟨hok, hperm⟩
  | cons record rest =>
    have hpop : c.popFront codec =
        ({ (c.front codec).1 with head := rest }, some record) := by
      rw [popFront]
      split
      · rename_i c' h
        have hfront : (c.front codec).2 = (c.front codec).1.head.head? := rfl
        rw [hhead, h] at hfront
        simp at hfront
      · rename_i c' first h
        rw [h] at hhead
        simp only at hhead
        simp [h, hhead]
    rw [hpop]
    refine ⟨hok, .trans (.of_eq ?_) hperm⟩
    simp [inMemory, hhead]

theorem spillTail_room (hroom : c.RoomToSpill) :
    c.spillTail codec true = { c with
      files := writePages codec c.files c.tailPage
      tail := []
      nextSeq := c.nextSeq + c.tailPage.length
      diskRecords := c.diskRecords + c.tail.length
      pages := c.pages ++ c.tailPage.map fun write => ⟨write.2, write.1.length⟩ } := by
  rw [spillTail, tailPage]
  split
  · rename_i htail
    simp only [htail, List.isEmpty_nil, if_true, writePages, List.length_nil, Nat.add_zero,
      List.map_nil, List.append_nil]
    rw [← htail]
  · rename_i htail
    have hbudget : c.diskRecords + c.tail.length ≤ c.cfg.maxDisk := hroom.resolve_left htail
    have hrotate : rotate codec c.pages c = c := by rw [rotate, if_pos hbudget]
    simp [hrotate, htail, writePage, writePages]

theorem push_shared (record : ρ) (hd : DirOk codec c.files) (hroom : c.RoomToPush) :
    DirOk codec (c.push codec record true).files ∧ ∃ lost,
      (inMemory (c.push codec record true) ++
        dirRecords codec (c.push codec record true).files ++ lost).Perm
        (inMemory c ++ dirRecords codec c.files ++ [record]) ∧
      (lost = [] ↔ FreeNumbers c.files (c.pushPages record)) := by
  have hquiet : ¬ c.PushSpills → (([] : List ρ) = [] ↔ FreeNumbers c.files (c.pushPages record)) := by
    intro hspills
    simp [pushPages, hspills, FreeNumbers]
  rw [push]
  cases hon : c.cfg.diskEnabled with
  | false =>
    have hhead : c.head.length < c.cfg.memoryThreshold := by simpa [RoomToPush, hon] using hroom
    have hspills : ¬ c.PushSpills := fun h => by simp [h.1] at hon
    rw [if_pos (by simp), if_neg (Nat.not_le.mpr hhead)]
    refine ⟨hd, [], ?_, hquiet hspills⟩
    classical
    refine List.perm_iff_count.mpr fun a => ?_
    simp only [inMemory, List.count_append, List.count_nil]
    omega
  | true =>
    rw [if_neg (by simp)]
    split
    · rename_i htohead
      have hspills : ¬ c.PushSpills := fun h => h.2.1 htohead
      refine ⟨hd, [], ?_, hquiet hspills⟩
      classical
      refine List.perm_iff_count.mpr fun a => ?_
      simp only [inMemory, List.count_append, List.count_nil]
      omega
    · rename_i htohead
      dsimp only
      split
      · rename_i hfull
        have hspills : c.PushSpills := ⟨hon, htohead, by simpa using hfull⟩
        have hbudget : c.diskRecords + (c.tail.length + 1) ≤ c.cfg.maxDisk := by
          simpa [RoomToPush, hon, hspills] using hroom
        rw [spillTail_room (c := { c with tail := c.tail ++ [record] }) (.inr (by simpa using hbudget))]
        have hpage : ({ c with tail := c.tail ++ [record] } : SinkCache ρ Line).tailPage =
            c.pushPages record := by
          simp [tailPage, pushPages, hspills]
        have hwrites : c.pushPages record = [(c.tail ++ [record], c.nextSeq)] := by
          simp [pushPages, hspills]
        rw [hpage]
        obtain ⟨hok, lost, hlost, hfree⟩ := writePages_spec hd (c.pushPages record) (by
          simp [hwrites])
        refine ⟨hok, lost, ?_, hfree⟩
        classical
        refine List.perm_iff_count.mpr fun a => ?_
        have hcount := hlost.count_eq a
        simp only [inMemory, hwrites, List.flatMap_cons, List.flatMap_nil, List.count_append,
          List.count_nil] at hcount ⊢
        omega
      · rename_i hfull
        have hspills : ¬ c.PushSpills := fun h => hfull (by simpa using h.2.2)
        refine ⟨hd, [], ?_, hquiet hspills⟩
        simp only [inMemory, List.append_nil]
        classical
        refine List.perm_iff_count.mpr fun a => ?_
        simp only [List.count_append]
        omega

theorem close_shared (hd : DirOk codec c.files) (hclean : c.cfg.cleanAtStop = false)
    (hroom : c.RoomToSpill) :
    DirOk codec (c.close codec fun _ => true) ∧ ∃ lost,
      (dirRecords codec (c.close codec fun _ => true) ++ lost).Perm
        (inMemory c ++ dirRecords codec c.files) ∧
      (lost = [] ↔ FreeNumbers c.files c.closePages) := by
  have happend : ∀ first rest : List (List ρ × Nat),
      writePages codec c.files (first ++ rest) =
        writePages codec (writePages codec c.files first) rest := by
    intro first rest
    generalize c.files = files
    induction first generalizing files with
    | nil => rfl
    | cons write first ih => exact ih _
  have hfirst : ((c.pages ++ c.tailPage.map fun write => (⟨write.2, write.1.length⟩ : Page)).head?.map
      Page.seq).getD (c.nextSeq + c.tailPage.length) =
      (c.pages.head?.map Page.seq).getD c.nextSeq := by
    cases c.pages with
    | cons page pages => rfl
    | nil =>
      rw [tailPage]
      split <;> rfl
  have hclose : c.close codec (fun _ => true) = writePages codec c.files c.closePages := by
    rw [close_eq hclean, spillTail_room hroom, writeChunks_eq_writePages, closePages, happend, hfirst]
  have hrecords : c.closePages.flatMap Prod.fst = c.tail ++ c.head := by
    have htail : c.tailPage.flatMap Prod.fst = c.tail := by
      rw [tailPage]
      split
      · rename_i h
        exact (List.isEmpty_iff.mp h).symm
      · simp
    rw [closePages, List.flatMap_append, htail, List.flatMap_def, List.zipIdx_map_fst,
      Lib.flatten_chunks c.cfg.pageSize_pos]
  obtain ⟨hok, lost, hlost, hfree⟩ := writePages_spec hd c.closePages (by
    intro write hwrite
    rcases List.mem_append.mp hwrite with h | h
    · rw [tailPage] at h
      split at h
      · simp at h
      · rename_i htail
        rw [List.mem_singleton.mp h]
        simpa using htail
    · refine Lib.ne_nil_of_mem_chunks c.cfg.pageSize_pos (l := c.head) ?_
      exact List.fst_mem_of_mem_zipIdx h)
  rw [hclose]
  refine ⟨hok, lost, hlost.trans ?_, hfree⟩
  rw [hrecords, inMemory]
  exact List.perm_append_comm.append_right _

theorem trim_of_fits (h : c.diskRecords ≤ c.cfg.maxDisk) (pages : List Page) :
    trim pages c = c := by
  cases pages <;> rw [trim, if_pos h]

theorem openDir_shared (cfg : CacheConfig) (hd : DirOk codec files)
    (hroom : RoomToOpen cfg files) :
    (openDir cfg files : SinkCache ρ Line).files = files ∧
      inMemory (openDir cfg files : SinkCache ρ Line) = [] := by
  obtain ⟨next, hfold, -⟩ := foldl_adoptPage (c := (blank cfg files : SinkCache ρ Line))
    (sortedSeqs files) (by
      intro seq hseq
      obtain ⟨records, hne, hfile⟩ := hd.lookup (mem_sortedSeqs.mp hseq)
      simp [blank, pageOf, hfile, hne])
  have hopen : (openDir cfg files : SinkCache ρ Line) =
      trim ((sortedSeqs files).foldl adoptPage (blank cfg files)).pages
        ((sortedSeqs files).foldl adoptPage (blank cfg files)) := rfl
  have hbudget : (blank cfg files : SinkCache ρ Line).diskRecords +
      (((sortedSeqs files).map (pageOf files)).map Page.count).sum ≤ cfg.maxDisk := by
    rw [show (blank cfg files : SinkCache ρ Line).diskRecords = 0 from rfl, Nat.zero_add]
    exact hroom
  rw [hopen, hfold, trim_of_fits hbudget]
  exact ⟨rfl, rfl⟩

-- ---- The two workers

/-- What a worker does with its cache, each file operation succeeding. -/
inductive Move (ρ : Type)
  | start
  | push (record : ρ)
  | front
  | popFront
  | close

/-- The cache of one sink worker. What a running worker's cache says of the directory is
its own look at it; the files themselves are shared. -/
inductive Worker (ρ Line : Type)
  | starting (cfg : CacheConfig)
  | running (cache : SinkCache ρ Line)
  | closed

structure Moved (ρ Line : Type) where
  files : PageDir Line
  worker : Worker ρ Line
  pushed : List ρ
  popped : List ρ

namespace Worker

def inMemory : Worker ρ Line → List ρ
  | .running c => c.inMemory
  | .starting _ | .closed => []

def move (codec : LineCodec ρ Line) (files : PageDir Line) :
    Worker ρ Line → Move ρ → Moved ρ Line
  | .starting cfg, .start =>
    let c := openDir cfg files
    ⟨c.files, .running c, [], []⟩
  | .running c, .push record =>
    let c := { c with files := files }.push codec record true
    ⟨c.files, .running c, [record], []⟩
  | .running c, .front =>
    let c := ({ c with files := files }.front codec).1
    ⟨c.files, .running c, [], []⟩
  | .running c, .popFront =>
    let (c, record) := { c with files := files }.popFront codec
    ⟨c.files, .running c, [], record.toList⟩
  | .running c, .close => ⟨{ c with files := files }.close codec fun _ => true, .closed, [], []⟩
  | w, _ => ⟨files, w, [], []⟩

def HasRoom (files : PageDir Line) : Worker ρ Line → Move ρ → Prop
  | .starting cfg, .start => RoomToOpen cfg files
  | .running c, .push _ => c.RoomToPush
  | .running c, .close => c.cfg.cleanAtStop = false ∧ c.RoomToSpill
  | _, _ => True

def pageWrites : Worker ρ Line → Move ρ → List (List ρ × Nat)
  | .running c, .push record => c.pushPages record
  | .running c, .close => c.closePages
  | _, _ => []

instance (files : PageDir Line) (w : Worker ρ Line) (m : Move ρ) :
    Decidable (w.HasRoom files m) := by
  unfold HasRoom
  split <;> infer_instance

instance : (w : Worker ρ Line) → Decidable (w = .closed)
  | .closed => .isTrue rfl
  | .starting _ => .isFalse (by simp)
  | .running _ => .isFalse (by simp)

theorem move_spec (w : Worker ρ Line) (m : Move ρ) (hd : DirOk codec files)
    (hroom : w.HasRoom files m) :
    DirOk codec (w.move codec files m).files ∧ ∃ lost,
      ((w.move codec files m).popped ++ ((w.move codec files m).worker.inMemory ++
          dirRecords codec (w.move codec files m).files) ++ lost).Perm
        (w.inMemory ++ dirRecords codec files ++ (w.move codec files m).pushed) ∧
      (lost = [] ↔ FreeNumbers files (w.pageWrites m)) := by
  have hnone : ([] : List ρ) = [] ↔ FreeNumbers files ([] : List (List ρ × Nat)) := by
    simp [FreeNumbers]
  have hidle : ([] ++ (w.inMemory ++ dirRecords codec files) ++ []).Perm
      (w.inMemory ++ dirRecords codec files ++ []) := by simp
  cases w with
  | starting cfg =>
    cases m with
    | start =>
      obtain ⟨hfiles, hmemory⟩ := openDir_shared cfg hd hroom
      simp only [move, hfiles, Worker.inMemory, hmemory]
      exact ⟨hd, [], by simp, hnone⟩
    | push record | front | popFront | close => exact ⟨hd, [], hidle, hnone⟩
  | closed => cases m <;> exact ⟨hd, [], hidle, hnone⟩
  | running c =>
    cases m with
    | start => exact ⟨hd, [], hidle, hnone⟩
    | push record =>
      obtain ⟨hok, lost, hlost, hfree⟩ :=
        push_shared (c := { c with files := files }) record hd hroom
      exact ⟨hok, lost, hlost, hfree⟩
    | front =>
      obtain ⟨hok, hperm⟩ := front_shared (c := { c with files := files }) hd
      refine ⟨hok, [], ?_, hnone⟩
      rw [List.append_nil]
      exact hperm.trans (.of_eq (List.append_nil _).symm)
    | popFront =>
      obtain ⟨hok, hperm⟩ := popFront_shared (c := { c with files := files }) hd
      refine ⟨hok, [], ?_, hnone⟩
      rw [List.append_nil]
      exact hperm.trans (.of_eq (List.append_nil _).symm)
    | close =>
      obtain ⟨hok, lost, hlost, hfree⟩ :=
        close_shared (c := { c with files := files }) hd hroom.1 hroom.2
      exact ⟨hok, lost, hlost.trans (.of_eq (List.append_nil _).symm), hfree⟩

end Worker

inductive Side
  | old
  | new

/-- The directory of one action while a rule restarts: its files, the old and the new
worker, and what they have pushed and popped. -/
structure Handover (ρ Line : Type) where
  files : PageDir Line
  old : Worker ρ Line
  new : Worker ρ Line
  pushed : List ρ
  popped : List ρ

namespace Handover

/-- The restart: the old worker runs on a cache it has to itself, whose records count as
pushed, and the new one has still to open. -/
def start (codec : LineCodec ρ Line) (c : SinkCache ρ Line) (cfg : CacheConfig) :
    Handover ρ Line :=
  ⟨c.files, .running c, .starting cfg, held codec c, []⟩

def worker (h : Handover ρ Line) : Side → Worker ρ Line
  | .old => h.old
  | .new => h.new

def step (codec : LineCodec ρ Line) (h : Handover ρ Line) (move : Side × Move ρ) :
    Handover ρ Line :=
  let moved := (h.worker move.1).move codec h.files move.2
  let pushed := h.pushed ++ moved.pushed
  let popped := h.popped ++ moved.popped
  match move.1 with
  | .old => ⟨moved.files, moved.worker, h.new, pushed, popped⟩
  | .new => ⟨moved.files, h.old, moved.worker, pushed, popped⟩

def run (codec : LineCodec ρ Line) (h : Handover ρ Line) (moves : List (Side × Move ρ)) :
    Handover ρ Line :=
  moves.foldl (step codec) h

/-- No move finds a cache full or cleans one at the stop. -/
def NeverFull (codec : LineCodec ρ Line) (h : Handover ρ Line) : List (Side × Move ρ) → Prop
  | [] => True
  | move :: moves =>
    (h.worker move.1).HasRoom h.files move.2 ∧ NeverFull codec (h.step codec move) moves

/-- No page write of the run meets a file under its number. -/
def WritesFree (codec : LineCodec ρ Line) (h : Handover ρ Line) : List (Side × Move ρ) → Prop
  | [] => True
  | move :: moves =>
    FreeNumbers h.files ((h.worker move.1).pageWrites move.2) ∧
      WritesFree codec (h.step codec move) moves

/-- Every record pushed by either worker and not popped is in a page file. -/
def KeepsRecords (codec : LineCodec ρ Line) (h : Handover ρ Line) : Prop :=
  h.pushed.Subperm (h.popped ++ dirRecords codec h.files)

/-- Where the records are: popped, in a worker's memory, or in a page file. -/
def places (codec : LineCodec ρ Line) (h : Handover ρ Line) : List ρ :=
  h.popped ++ (h.old.inMemory ++ h.new.inMemory ++ dirRecords codec h.files)

variable {h : Handover ρ Line}

theorem step_spec (hd : DirOk codec h.files) (move : Side × Move ρ)
    (hroom : (h.worker move.1).HasRoom h.files move.2) :
    DirOk codec (h.step codec move).files ∧ ∃ lost,
      ((h.step codec move).places codec ++ lost ++ h.pushed).Perm
        (h.places codec ++ (h.step codec move).pushed) ∧
      (lost = [] ↔ FreeNumbers h.files ((h.worker move.1).pageWrites move.2)) := by
  obtain ⟨side, m⟩ := move
  obtain ⟨hok, lost, hlost, hfree⟩ := (h.worker side).move_spec m hd hroom
  cases side with
  | old | new =>
    refine ⟨hok, lost, ?_, hfree⟩
    classical
    refine List.perm_iff_count.mpr fun a => ?_
    have hcount := hlost.count_eq a
    simp only [step, places, worker, List.count_append] at hcount ⊢
    omega

theorem run_spec (hd : DirOk codec h.files) (moves : List (Side × Move ρ))
    (hroom : h.NeverFull codec moves) :
    ∃ lost, ((h.run codec moves).places codec ++ lost ++ h.pushed).Perm
        (h.places codec ++ (h.run codec moves).pushed) ∧
      (lost = [] ↔ h.WritesFree codec moves) := by
  induction moves generalizing h with
  | nil => exact ⟨[], by simp [run], by simp [WritesFree]⟩
  | cons move moves ih =>
    obtain ⟨hok, lost, hlost, hfree⟩ := step_spec hd move hroom.1
    obtain ⟨later, hlater, hrest⟩ := ih hok hroom.2
    refine ⟨lost ++ later, ?_, ?_⟩
    · classical
      refine List.perm_iff_count.mpr fun a => ?_
      have hcounts := And.intro (hlost.count_eq a) (hlater.count_eq a)
      simp only [run, List.foldl_cons, List.count_append] at hcounts ⊢
      omega
    · rw [List.append_eq_nil_iff, hfree, hrest]
      rfl

theorem held_perm (hc : PagesOk codec c) :
    (held codec c).Perm (c.inMemory ++ dirRecords codec c.files) := by
  have hdir := dirRecords_writeChunks hc (fun page _ => Nat.zero_le page.seq) []
  simp only [writeChunks, List.flatten_nil, List.nil_append, List.length_nil, Nat.add_zero,
    Nat.zero_le, decide_true, List.filter_true] at hdir
  rw [held, hdir, inMemory, List.append_assoc, List.append_assoc]
  exact List.perm_append_comm.append_left _

/-- The old worker's remaining moves and the new worker's, interleaved in any way, with
caches never full and not cleaned at the stop: once both have closed, every record pushed
and not popped is in a page file exactly if no page write met a file under its number. -/
theorem handover_loses_no_record (codec : LineCodec ρ Line) (c : SinkCache ρ Line)
    (cfg : CacheConfig) (moves : List (Side × Move ρ)) (hc : Reachable codec c)
    (hroom : (start codec c cfg).NeverFull codec moves)
    (hold : ((start codec c cfg).run codec moves).old = .closed)
    (hnew : ((start codec c cfg).run codec moves).new = .closed) :
    ((start codec c cfg).run codec moves).KeepsRecords codec ↔
      (start codec c cfg).WritesFree codec moves := by
  obtain ⟨lost, hlost, hfree⟩ := run_spec (h := start codec c cfg) hc.ok.dirOk moves hroom
  have hstart : (held codec c).Perm ((start codec c cfg).places codec) := by
    simpa [places, start, Worker.inMemory] using held_perm hc.ok.toPagesOk
  have hpushed : (((start codec c cfg).run codec moves).popped ++
      dirRecords codec ((start codec c cfg).run codec moves).files ++ lost).Perm
      ((start codec c cfg).run codec moves).pushed := by
    rw [places, hold, hnew] at hlost
    classical
    refine List.perm_iff_count.mpr fun a => ?_
    have hcounts := And.intro (hlost.count_eq a) (hstart.count_eq a)
    simp only [start, Worker.inMemory, List.count_append, List.count_nil] at hcounts ⊢
    omega
  rw [← hfree, KeepsRecords]
  constructor
  · intro hkept
    have hlen := hkept.length_le
    rw [← hpushed.length_eq, List.length_append] at hlen
    exact List.length_eq_zero_iff.mp (by omega)
  · rintro rfl
    rw [List.append_nil] at hpushed
    exact hpushed.symm.subperm

instance NeverFull.decidable : (h : Handover ρ Line) → (moves : List (Side × Move ρ)) →
    Decidable (h.NeverFull codec moves)
  | _, [] => .isTrue trivial
  | h, move :: moves =>
    have := NeverFull.decidable (h.step codec move) moves
    inferInstanceAs (Decidable (_ ∧ _))

instance WritesFree.decidable : (h : Handover ρ Line) → (moves : List (Side × Move ρ)) →
    Decidable (h.WritesFree codec moves)
  | _, [] => .isTrue trivial
  | h, move :: moves =>
    have := WritesFree.decidable (h.step codec move) moves
    inferInstanceAs (Decidable (_ ∧ _))

def handoverConfig : CacheConfig where
  memoryThreshold := 2
  maxDisk := 8
  pageSize := 1
  cleanAtStop := false
  memoryThreshold_pos := Nat.two_pos
  pageSize_pos := Nat.one_pos

/-- The new worker opens after the old one has closed: it finds the record and pops it. -/
theorem handover_loses_no_record_small :
    let c : SinkCache Nat Nat := openDir handoverConfig ∅
    let moves := [(.old, .push 1), (.old, .close), (.new, .start), (.new, .push 2),
      (.new, .popFront), (.new, .close)]
    ((start plainCodec c handoverConfig).run plainCodec moves).KeepsRecords plainCodec := by
  intro c moves
  exact (handover_loses_no_record plainCodec c handoverConfig moves (.opened _) (by decide)
    (by decide) (by decide)).mpr (by decide)

/-- Both workers have one record in memory when they close. They have seen the same
directory, and write their heads under the same number. -/
theorem closing_workers_replace_page :
    let c : SinkCache Nat Nat := openDir handoverConfig ∅
    let moves := [(.old, .push 1), (.new, .start), (.new, .push 2), (.old, .close), (.new, .close)]
    let h := (start plainCodec c handoverConfig).run plainCodec moves
    Reachable plainCodec c ∧ (start plainCodec c handoverConfig).NeverFull plainCodec moves ∧
      h.old = .closed ∧ h.new = .closed ∧ ¬ h.KeepsRecords plainCodec := by
  intro c moves h
  refine ⟨.opened _, by decide, by decide, by decide, ?_⟩
  unfold KeepsRecords
  decide

end Handover

end Rekuiper.SinkCache
