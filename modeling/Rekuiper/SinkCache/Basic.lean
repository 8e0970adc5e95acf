import Mathlib.Algebra.GroupWithZero.Nat
import Mathlib.Data.List.AList
import Mathlib.Data.List.Sort
import Rekuiper.Lib.Chunks

/-!
# The sink cache

`SinkCache` keeps the records whose send failed in three tiers: a memory head
(oldest), page files on disk, and a memory tail (newest) that is written as a
page once it holds `pageSize` records. The page directory is part of the state,
so that closing a cache and opening another one on the same directory is a
function of it.

A page file is a list of lines. `none` is a line that cannot be read (it is not
UTF-8): `lines().count()` counts it, reading records stops there. What a line
says is a `LineCodec`'s business; the code uses JSON.
-/

namespace Rekuiper

structure LineCodec (ρ Line : Type) where
  encode : ρ → Line
  decode : Line → Option ρ
  readsBack : ∀ record, decode (encode record) = some record

/-- The options of one action that the cache itself reads. `from_action` raises
a threshold or page size of zero to one. -/
structure CacheConfig where
  memoryThreshold : Nat
  maxDisk : Nat
  pageSize : Nat
  cleanAtStop : Bool
  memoryThreshold_pos : 0 < memoryThreshold
  pageSize_pos : 0 < pageSize

structure Page where
  seq : Nat
  count : Nat
  deriving DecidableEq, Repr

abbrev PageFile (Line : Type) := List (Option Line)

abbrev PageDir (Line : Type) := AList fun _ : Nat => PageFile Line

def seqBase : Nat := 2 ^ 40

variable {ρ Line : Type}

structure SinkCache (ρ Line : Type) where
  cfg : CacheConfig
  files : PageDir Line
  head : List ρ
  pages : List Page
  tail : List ρ
  diskRecords : Nat
  nextSeq : Nat
  dropped : Nat

namespace SinkCache

def len (c : SinkCache ρ Line) : Nat := c.head.length + c.diskRecords + c.tail.length

def isEmpty (c : SinkCache ρ Line) : Bool := c.len == 0

end SinkCache

def CacheConfig.diskEnabled (cfg : CacheConfig) : Bool := cfg.pageSize ≤ cfg.maxDisk

/-- The records read from a page: up to the first line that cannot be read,
skipping the corrupt ones. -/
def readRecords (codec : LineCodec ρ Line) (file : PageFile Line) : List ρ :=
  (file.takeWhile Option.isSome).filterMap fun line => line.bind codec.decode

def writePage (codec : LineCodec ρ Line) (files : PageDir Line) (seq : Nat) (records : List ρ)
    (ok : Bool) : Option (PageDir Line) :=
  if ok then some (files.insert seq (records.map fun r => some (codec.encode r))) else none

namespace SinkCache

variable (codec : LineCodec ρ Line)

def dropOldestPage (c : SinkCache ρ Line) : SinkCache ρ Line × Bool :=
  match c.pages with
  | [] => (c, false)
  | page :: pages =>
    ({ c with
        pages := pages
        files := c.files.erase page.seq
        diskRecords := c.diskRecords - page.count
        dropped := c.dropped + page.count }, true)

def loadOldestPage (c : SinkCache ρ Line) : SinkCache ρ Line × Bool :=
  match c.pages with
  | [] => (c, false)
  | page :: pages =>
    let loaded := ((c.files.lookup page.seq).map (readRecords codec)).getD []
    ({ c with
        pages := pages
        files := c.files.erase page.seq
        head := c.head ++ loaded
        diskRecords := c.diskRecords - page.count
        dropped := c.dropped + (page.count - loaded.length) }, true)

/-- The rotation loop of `spill_tail`. The list is `c.pages`, passed along so
that the recursion runs on it: an iteration either loads the first page or
leaves the loop. -/
def rotate : List Page → SinkCache ρ Line → SinkCache ρ Line
  | pages, c =>
    if c.diskRecords + c.tail.length ≤ c.cfg.maxDisk then c
    else
      let n := min c.cfg.pageSize c.head.length
      let c := { c with head := c.head.drop n, dropped := c.dropped + n }
      match pages with
      | [] =>
        if n = 0 then
          -- nothing older left to drop: discard the oldest tail records
          let excess := min (c.diskRecords + c.tail.length - c.cfg.maxDisk) c.tail.length
          { c with tail := c.tail.drop excess, dropped := c.dropped + excess }
        else c
      | _ :: rest => rotate rest (c.loadOldestPage codec).1

/-- Writes the tail as a page, dropping the oldest data if disk is full; `ok`
says whether the page write succeeds. -/
def spillTail (c : SinkCache ρ Line) (ok : Bool) : SinkCache ρ Line :=
  if c.tail = [] then c
  else
    let c := rotate codec c.pages c
    if c.tail = [] then c
    else
      let records := c.tail
      match writePage codec c.files c.nextSeq records ok with
      | some files =>
        { c with
          files := files
          tail := []
          nextSeq := c.nextSeq + 1
          diskRecords := c.diskRecords + records.length
          pages := c.pages ++ [⟨c.nextSeq, records.length⟩] }
      | none =>
        -- disk unavailable: the records stay in memory, behind the head
        { c with tail := [], head := c.head ++ records }

def push (c : SinkCache ρ Line) (record : ρ) (ok : Bool) : SinkCache ρ Line :=
  if ¬ c.cfg.diskEnabled then
    if c.cfg.memoryThreshold ≤ c.head.length then
      { c with head := c.head.drop 1 ++ [record], dropped := c.dropped + 1 }
    else { c with head := c.head ++ [record] }
  else if c.pages = [] ∧ c.tail = [] ∧ c.head.length < c.cfg.memoryThreshold then
    { c with head := c.head ++ [record] }
  else
    let c := { c with tail := c.tail ++ [record] }
    if c.cfg.pageSize ≤ c.tail.length then c.spillTail codec ok else c

/-- The oldest cached record, refilling memory from disk if needed. -/
def front (c : SinkCache ρ Line) : SinkCache ρ Line × Option ρ :=
  let c :=
    if c.head = [] then
      match c.loadOldestPage codec with
      | (c, true) => c
      | (c, false) => if c.tail = [] then c else { c with head := c.tail, tail := [] }
    else c
  (c, c.head.head?)

def popFront (c : SinkCache ρ Line) : SinkCache ρ Line × Option ρ :=
  match c.front codec with
  | (c, none) => (c, none)
  | (c, some _) => ({ c with head := c.head.drop 1 }, c.head.head?)

-- ---- Opening and closing

def adoptPage (c : SinkCache ρ Line) (seq : Nat) : SinkCache ρ Line :=
  let count := ((c.files.lookup seq).map List.length).getD 0
  if count = 0 then { c with files := c.files.erase seq }
  else
    { c with
      nextSeq := max c.nextSeq (seq + 1)
      diskRecords := c.diskRecords + count
      pages := c.pages ++ [⟨seq, count⟩] }

/-- The budget loop of `adopt_pages`; as in `rotate` the list is `c.pages`. -/
def trim : List Page → SinkCache ρ Line → SinkCache ρ Line
  | pages, c =>
    if c.diskRecords ≤ c.cfg.maxDisk then c
    else
      match pages with
      | [] => c
      | _ :: rest => trim rest c.dropOldestPage.1

def adoptPages (c : SinkCache ρ Line) : SinkCache ρ Line :=
  let found := c.files.keys.insertionSort (· ≤ ·)
  let c := found.foldl adoptPage c
  trim c.pages c

/-- The cache `open` starts from, before it looks into the directory. -/
def blank (cfg : CacheConfig) (files : PageDir Line) : SinkCache ρ Line where
  cfg := cfg
  files := files
  head := []
  pages := []
  tail := []
  diskRecords := 0
  nextSeq := seqBase
  dropped := 0

/-- `open`: adopts the pages left in the directory by a previous run. -/
def openDir (cfg : CacheConfig) (files : PageDir Line) : SinkCache ρ Line :=
  adoptPages (blank cfg files)

/-- Writes `chunks` under the sequence numbers from `seq` on; the `i`-th write
succeeds if `ok i` does. -/
def writeChunks (files : PageDir Line) (seq : Nat) (ok : Nat → Bool) :
    List (List ρ) → PageDir Line
  | [] => files
  | chunk :: rest =>
    writeChunks ((writePage codec files seq chunk (ok 0)).getD files) (seq + 1)
      (fun i => ok (i + 1)) rest

/-- Rule stop: the directory left behind. `ok 0` is the write of the tail, the
head's chunks follow. -/
def close (c : SinkCache ρ Line) (ok : Nat → Bool) : PageDir Line :=
  if c.cfg.cleanAtStop then ∅
  else
    let c := c.spillTail codec (ok 0)
    if c.head = [] then c.files
    else
      -- the head is older than every page: it goes below the first one
      let first := (c.pages.head?.map Page.seq).getD c.nextSeq
      let chunks := Lib.chunks c.cfg.pageSize c.head
      writeChunks codec c.files (first - chunks.length) (fun i => ok (i + 1)) chunks

/-- Stop and start again on the same directory, possibly under other options. -/
def restart (c : SinkCache ρ Line) (cfg : CacheConfig) (ok : Nat → Bool) : SinkCache ρ Line :=
  openDir cfg (c.close codec ok)

end SinkCache

-- ---- Runs

/-- One call of the cache's interface; `ok` is the outcome of the page write, if
the push makes one. -/
inductive SinkCache.Op (ρ : Type)
  | push (record : ρ) (ok : Bool)
  | front
  | popFront

namespace SinkCache

variable (codec : LineCodec ρ Line)

def pushes : List (Op ρ) → List ρ
  | [] => []
  | .push record _ :: ops => record :: pushes ops
  | .front :: ops | .popFront :: ops => pushes ops

def WritesSucceed (ops : List (Op ρ)) : Prop := ∀ record, .push record false ∉ ops

/-- The cache after a call and the record the call removed, if any. -/
def step (c : SinkCache ρ Line) : Op ρ → SinkCache ρ Line × List ρ
  | .push record ok => (c.push codec record ok, [])
  | .front => ((c.front codec).1, [])
  | .popFront => ((c.popFront codec).1, (c.popFront codec).2.toList)

/-- The cache after a sequence of calls and the records `pop_front` returned. -/
def run (c : SinkCache ρ Line) : List (Op ρ) → SinkCache ρ Line × List ρ
  | [] => (c, [])
  | op :: ops =>
    let (next, popped) := c.step codec op
    let (last, rest) := next.run ops
    (last, popped ++ rest)

/-- Reached from an empty directory by calls and restarts, whatever the outcome
of the page writes and whatever the options after each restart. -/
inductive Reachable : SinkCache ρ Line → Prop
  | opened (cfg : CacheConfig) : Reachable (openDir cfg ∅)
  | step (op : Op ρ) : Reachable c → Reachable (c.step codec op).1
  | restart (cfg : CacheConfig) (ok : Nat → Bool) : Reachable c → Reachable (c.restart codec cfg ok)

end SinkCache

end Rekuiper
