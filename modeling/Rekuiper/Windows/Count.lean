import Rekuiper.Lib.Chunks
import Rekuiper.Pipeline.WindowRows

/-!
# Count windows

`run_count_window_rule`. Rows of the `FROM` stream and rows of the joined streams are taken by
two copies of the same code. When the hop is longer than the window, only the first of them
keeps the buffer at the size of the window.
-/

namespace Rekuiper.Windows

open Pipeline (TaggedRow)

variable {F : Type}

/-- A row, and whether it comes from a joined stream. -/
structure CountArrival (F : Type) where
  joined : Bool
  tagged : TaggedRow F

structure CountWindow (F : Type) where
  buffer : List (TaggedRow F)
  eventsSinceTrigger : Nat

namespace CountWindow

def overlapping (count hop : Nat) (buffer : List (TaggedRow F)) :
    List (TaggedRow F) × List (List (TaggedRow F)) :=
  if count ≤ buffer.length then
    if hop = count then (buffer.drop count, [buffer.take count])
    else (buffer.drop (min hop buffer.length), [buffer.take count])
  else (buffer, [])

/-- `buffer.remove(0)` if there are more rows than the window has. -/
def trim (count : Nat) (buffer : List (TaggedRow F)) : List (TaggedRow F) :=
  if count < buffer.length then buffer.drop 1 else buffer

def flush (buffer : List (TaggedRow F)) : CountWindow F × List (List (TaggedRow F)) :=
  (⟨[], 0⟩, if buffer.isEmpty then [] else [buffer])

def ingestFrom (count hop : Nat) (s : CountWindow F) (tagged : TaggedRow F) :
    CountWindow F × List (List (TaggedRow F)) :=
  let buffer := s.buffer ++ [tagged]
  let events := s.eventsSinceTrigger + 1
  if hop ≤ count then
    let (buffer, batches) := overlapping count hop buffer
    (⟨buffer, events⟩, batches)
  else
    let buffer := trim count buffer
    if hop ≤ events then flush buffer else (⟨buffer, events⟩, [])

def ingestJoined (count hop : Nat) (s : CountWindow F) (tagged : TaggedRow F) :
    CountWindow F × List (List (TaggedRow F)) :=
  let buffer := s.buffer ++ [tagged]
  let events := s.eventsSinceTrigger + 1
  if hop ≤ count then
    let (buffer, batches) := overlapping count hop buffer
    (⟨buffer, events⟩, batches)
  else if hop ≤ events then flush (trim count buffer)
  else (⟨buffer, events⟩, [])

/-- A row; `passes` is `window_ingest_passes`. -/
def step (passes : TaggedRow F → Bool) (count hop : Nat) (s : CountWindow F)
    (arrival : CountArrival F) : CountWindow F × List (List (TaggedRow F)) :=
  if !passes arrival.tagged then (s, [])
  else if arrival.joined then s.ingestJoined count hop arrival.tagged
  else s.ingestFrom count hop arrival.tagged

def runFrom (passes : TaggedRow F → Bool) (count hop : Nat) (s : CountWindow F) :
    List (CountArrival F) → CountWindow F × List (List (TaggedRow F))
  | [] => (s, [])
  | arrival :: rest =>
    let (s, batches) := s.step passes count hop arrival
    let (s, later) := s.runFrom passes count hop rest
    (s, batches ++ later)

def run (passes : TaggedRow F → Bool) (size : Nat) (interval : Option Nat)
    (arrivals : List (CountArrival F)) : CountWindow F × List (List (TaggedRow F)) :=
  let count := max size 1
  let hop := max (interval.getD count) 1
  runFrom passes count hop ⟨[], 0⟩ arrivals

end CountWindow

-- ---- The specification

/-- How many windows have all their rows among the first `n`. -/
def fullWindows (size hop n : Nat) : Nat := if n < size then 0 else (n - size) / hop + 1

/-- The batches for some accepted rows: the slices that start at the multiples of the hop, or
the last rows of each hop if the hop is longer than the window. -/
def countBatches {α : Type} (size hop : Nat) (rows : List α) : List (List α) :=
  if hop ≤ size then
    (List.range (fullWindows size hop rows.length)).map fun k => (rows.drop (k * hop)).take size
  else
    (List.range (rows.length / hop)).map fun k =>
      (rows.drop (k * hop + (hop - size))).take size

theorem lt_fullWindows_iff {size hop n k : Nat} (hhop : 1 ≤ hop) :
    k < fullWindows size hop n ↔ k * hop + size ≤ n := by
  unfold fullWindows
  split
  · have := Nat.zero_le (k * hop)
    omega
  · rw [Nat.lt_succ_iff, Nat.le_div_iff_mul_le (by omega)]
    omega

theorem fullWindows_of_le {size hop n : Nat} (hhop : 1 ≤ hop) (hle : hop ≤ size)
    (hn : size ≤ n) : fullWindows size hop n = fullWindows size hop (n - hop) + 1 := by
  refine eq_of_forall_lt_iff fun k => ?_
  rw [lt_fullWindows_iff hhop]
  cases k with
  | zero => simpa using hn
  | succ k =>
    rw [Nat.succ_lt_succ_iff, lt_fullWindows_iff hhop, Nat.succ_mul]
    omega

theorem countBatches_of_lt {α : Type} {size hop : Nat} {rows : List α} (hle : hop ≤ size)
    (hlt : rows.length < size) : countBatches size hop rows = [] := by
  simp [countBatches, fullWindows, hle, hlt]

theorem countBatches_of_le {α : Type} {size hop : Nat} {rows : List α} (hhop : 1 ≤ hop)
    (hle : hop ≤ size) (hn : size ≤ rows.length) :
    countBatches size hop rows = rows.take size :: countBatches size hop (rows.drop hop) := by
  simp only [countBatches, if_pos hle]
  rw [fullWindows_of_le hhop hle hn, List.range_succ_eq_map, List.map_cons, List.map_map,
    List.length_drop]
  congr 1
  · simp
  · refine List.map_congr_left fun k _ => ?_
    simp only [Function.comp_apply, List.drop_drop]
    rw [Nat.succ_mul, Nat.add_comm]

theorem countBatches_sparse_of_lt {α : Type} {size hop : Nat} {rows : List α} (hlt : size < hop)
    (hn : rows.length < hop) : countBatches size hop rows = [] := by
  simp [countBatches, Nat.not_le.mpr hlt, Nat.div_eq_of_lt hn]

theorem countBatches_sparse_of_le {α : Type} {size hop : Nat} {rows : List α} (hlt : size < hop)
    (hn : hop ≤ rows.length) :
    countBatches size hop rows =
      (rows.take hop).drop (hop - size) :: countBatches size hop (rows.drop hop) := by
  simp only [countBatches, if_neg (Nat.not_le.mpr hlt)]
  rw [Nat.div_eq_sub_div (by omega) hn, List.range_succ_eq_map, List.map_cons, List.map_map,
    List.length_drop]
  congr 1
  · rw [List.drop_take, Nat.zero_mul, Nat.zero_add]
    congr 1
    omega
  · refine List.map_congr_left fun k _ => ?_
    simp only [Function.comp_apply, List.drop_drop]
    congr 2
    rw [Nat.succ_mul]
    omega

-- ---- Overlapping windows

namespace CountWindow

def accepted (passes : TaggedRow F → Bool) (arrivals : List (CountArrival F)) :
    List (CountArrival F) :=
  arrivals.filter fun arrival => passes arrival.tagged

theorem runFrom_accepted (passes : TaggedRow F → Bool) (count hop : Nat)
    (arrivals : List (CountArrival F)) : ∀ s : CountWindow F,
    s.runFrom passes count hop arrivals =
      s.runFrom (fun _ => true) count hop (accepted passes arrivals) := by
  induction arrivals with
  | nil => exact fun s => rfl
  | cons arrival rest ih =>
    intro s
    cases hpass : passes arrival.tagged with
    | false => simp [accepted, runFrom, step, hpass, ih]
    | true => simp [accepted, runFrom, step, hpass, ih]

theorem runFrom_append (passes : TaggedRow F → Bool) (count hop : Nat)
    (first later : List (CountArrival F)) : ∀ s : CountWindow F,
    s.runFrom passes count hop (first ++ later) =
      (((s.runFrom passes count hop first).1.runFrom passes count hop later).1,
        (s.runFrom passes count hop first).2 ++
          ((s.runFrom passes count hop first).1.runFrom passes count hop later).2) := by
  induction first with
  | nil => exact fun s => rfl
  | cons arrival rest ih =>
    intro s
    simp [runFrom, ih]

theorem step_overlapping {count hop : Nat} (hle : hop ≤ count) (s : CountWindow F)
    (arrival : CountArrival F) :
    s.step (fun _ => true) count hop arrival =
      (⟨(overlapping count hop (s.buffer ++ [arrival.tagged])).1, s.eventsSinceTrigger + 1⟩,
        (overlapping count hop (s.buffer ++ [arrival.tagged])).2) := by
  cases hjoin : arrival.joined <;> simp [step, ingestFrom, ingestJoined, hle, hjoin]

theorem overlapping_of_lt {count hop : Nat} {buffer : List (TaggedRow F)}
    (h : buffer.length < count) : overlapping count hop buffer = (buffer, []) := by
  simp [overlapping, h]

theorem overlapping_of_le {count hop : Nat} {buffer : List (TaggedRow F)} (hle : hop ≤ count)
    (h : count ≤ buffer.length) :
    overlapping count hop buffer = (buffer.drop hop, [buffer.take count]) := by
  have hmin : min hop buffer.length = hop := by omega
  by_cases heq : hop = count
  · simp [overlapping, h, heq]
  · simp [overlapping, h, heq, hmin]

theorem runFrom_overlapping {count hop : Nat} (hhop : 1 ≤ hop) (hle : hop ≤ count)
    (arrivals : List (CountArrival F)) : ∀ s : CountWindow F, s.buffer.length < count →
    (s.runFrom (fun _ => true) count hop arrivals).2 =
      countBatches count hop (s.buffer ++ arrivals.map CountArrival.tagged) := by
  induction arrivals with
  | nil =>
    intro s hlen
    rw [countBatches_of_lt hle (by simpa using hlen)]
    rfl
  | cons arrival rest ih =>
    intro s hlen
    have hrows : s.buffer ++ (arrival :: rest).map CountArrival.tagged =
        (s.buffer ++ [arrival.tagged]) ++ rest.map CountArrival.tagged := by simp
    simp only [runFrom, step_overlapping hle]
    rw [hrows]
    have hlen' : (s.buffer ++ [arrival.tagged]).length ≤ count := by
      simpa using Nat.succ_le_of_lt hlen
    generalize s.buffer ++ [arrival.tagged] = buffer at hlen'
    by_cases hfull : count ≤ buffer.length
    · have hdrop : (buffer.drop hop).length < count := by
        rw [List.length_drop]
        omega
      have hall : count ≤ (buffer ++ rest.map CountArrival.tagged).length := by
        rw [List.length_append]
        omega
      rw [countBatches_of_le hhop hle hall, List.take_append_of_le_length hfull,
        List.drop_append_of_le_length (by omega), overlapping_of_le hle hfull, ih _ hdrop]
      rfl
    · rw [overlapping_of_lt (by omega), ih _ (by simpa using hfull)]
      rfl

-- ---- A hop longer than the window

/-- What the buffer holds after some rows of a hop that has not ended. -/
def held (count : Nat) (rows : List (CountArrival F)) : List (TaggedRow F) :=
  rows.foldl (fun buffer arrival =>
    if arrival.joined then buffer ++ [arrival.tagged] else trim count (buffer ++ [arrival.tagged]))
    []

theorem held_snoc (count : Nat) (rows : List (CountArrival F)) (arrival : CountArrival F) :
    held count (rows ++ [arrival]) =
      if arrival.joined then held count rows ++ [arrival.tagged]
      else trim count (held count rows ++ [arrival.tagged]) := by
  simp [held]

theorem trim_suffix (count : Nat) (buffer : List (TaggedRow F)) : trim count buffer <:+ buffer := by
  unfold trim
  split
  · exact List.drop_suffix 1 buffer
  · exact List.suffix_refl buffer

theorem length_trim (count : Nat) (buffer : List (TaggedRow F)) :
    (trim count buffer).length = if count < buffer.length then buffer.length - 1
      else buffer.length := by
  unfold trim
  split
  · exact List.length_drop
  · rfl

theorem push_suffix {count : Nat} {rows : List (CountArrival F)} (arrival : CountArrival F)
    (h : held count rows <:+ rows.map CountArrival.tagged) :
    held count rows ++ [arrival.tagged] <:+ (rows ++ [arrival]).map CountArrival.tagged := by
  rw [List.map_append]
  exact List.suffix_append_self_iff.mpr h

theorem held_suffix (count : Nat) (rows : List (CountArrival F)) :
    held count rows <:+ rows.map CountArrival.tagged := by
  induction rows using List.reverseRecOn with
  | nil => exact List.suffix_refl _
  | append_singleton rows arrival ih =>
    rw [held_snoc]
    split
    · exact push_suffix arrival ih
    · exact (trim_suffix count _).trans (push_suffix arrival ih)

theorem length_held (count : Nat) (rows : List (CountArrival F)) :
    (held count rows).length =
      min rows.length count + (rows.drop count).countP CountArrival.joined := by
  induction rows using List.reverseRecOn with
  | nil => simp [held]
  | append_singleton rows arrival ih =>
    rw [held_snoc]
    by_cases hlen : count ≤ rows.length
    · rw [List.drop_append_of_le_length hlen, List.countP_append]
      cases hjoin : arrival.joined
      · rw [if_neg Bool.false_ne_true, length_trim, List.length_append, ih]
        simp only [List.length_singleton, List.countP_cons, hjoin]
        split <;> simp <;> omega
      · simp [hjoin, ih]
        omega
    · have hdrop : (rows ++ [arrival]).drop count = [] := by
        refine List.drop_eq_nil_of_le ?_
        rw [List.length_append]
        exact Nat.lt_of_not_le hlen
      rw [List.drop_eq_nil_of_le (by omega), List.countP_nil] at ih
      rw [hdrop, List.countP_nil]
      split
      · rw [List.length_append, ih, List.length_append]
        simp only [List.length_singleton]
        omega
      · rw [length_trim, List.length_append, ih, List.length_append]
        simp only [List.length_singleton]
        split <;> omega

def closing (count : Nat) (block : List (CountArrival F)) (last : CountArrival F) :
    List (TaggedRow F) :=
  trim count (held count block ++ [last.tagged])

theorem length_closing {count : Nat} {block : List (CountArrival F)} (last : CountArrival F)
    (hlen : count ≤ block.length) :
    (closing count block last).length =
      count + (block.drop count).countP CountArrival.joined := by
  unfold closing
  rw [length_trim, List.length_append, length_held, Nat.min_eq_right hlen]
  simp only [List.length_singleton]
  split <;> omega

theorem closing_eq_iff {count : Nat} {block : List (CountArrival F)} (last : CountArrival F)
    (hlen : count ≤ block.length) :
    closing count block last =
        ((block ++ [last]).map CountArrival.tagged).drop (block.length + 1 - count) ↔
      ∀ a ∈ block.drop count, a.joined = false := by
  have hsuffix : closing count block last <:+ (block ++ [last]).map CountArrival.tagged :=
    (trim_suffix count _).trans (push_suffix last (held_suffix count block))
  have hclosing := List.suffix_iff_eq_drop.mp hsuffix
  have hall : (block.drop count).countP CountArrival.joined = 0 ↔
      ∀ a ∈ block.drop count, a.joined = false := by
    simp [List.countP_eq_zero]
  rw [← hall]
  constructor
  · intro heq
    have := congrArg List.length heq
    rw [length_closing last hlen] at this
    simp at this
    omega
  · intro hzero
    rw [hclosing, length_closing last hlen, hzero]
    simp

theorem runFrom_held {count hop : Nat} (hlt : count < hop) (rows : List (CountArrival F))
    (hlen : rows.length < hop) :
    (⟨[], 0⟩ : CountWindow F).runFrom (fun _ => true) count hop rows =
      (⟨held count rows, rows.length⟩, []) := by
  induction rows using List.reverseRecOn with
  | nil => rfl
  | append_singleton rows arrival ih =>
    rw [List.length_append] at hlen
    have hopen : ¬hop ≤ rows.length + 1 := Nat.not_le.mpr hlen
    rw [runFrom_append, ih (by omega), held_snoc]
    cases hjoin : arrival.joined <;>
      simp [runFrom, step, ingestFrom, ingestJoined, hjoin, Nat.not_le.mpr hlt, hopen]

theorem runFrom_block {count hop : Nat} (hcount : 1 ≤ count) (hlt : count < hop)
    {block : List (CountArrival F)} (last : CountArrival F) (hlen : block.length + 1 = hop) :
    (⟨[], 0⟩ : CountWindow F).runFrom (fun _ => true) count hop (block ++ [last]) =
      (⟨[], 0⟩, [closing count block last]) := by
  have hne : closing count block last ≠ [] := by
    have := length_closing last (show count ≤ block.length by omega)
    exact List.ne_nil_of_length_pos (by omega)
  have hflush : flush (closing count block last) = (⟨[], 0⟩, [closing count block last]) := by
    simp [flush, hne]
  rw [runFrom_append, runFrom_held hlt block (by omega), ← hflush]
  cases hjoin : last.joined <;>
    simp [runFrom, step, ingestFrom, ingestJoined, hjoin, Nat.not_le.mpr hlt, hlen, closing]

/-- No joined row comes between the first `count` rows of a whole hop and its last row. -/
def SampledFromStream (count hop : Nat) (rows : List (CountArrival F)) : Prop :=
  ∀ k < rows.length / hop, ∀ a ∈ ((rows.drop (k * hop)).take (hop - 1)).drop count,
    a.joined = false

instance (count hop : Nat) (rows : List (CountArrival F)) :
    Decidable (SampledFromStream count hop rows) :=
  inferInstanceAs (Decidable (∀ k < rows.length / hop,
    ∀ a ∈ ((rows.drop (k * hop)).take (hop - 1)).drop count, a.joined = false))

theorem sampledFromStream_of_le {count hop : Nat} (hhop : 1 ≤ hop)
    {rows : List (CountArrival F)} (hn : hop ≤ rows.length) :
    SampledFromStream count hop rows ↔
      (∀ a ∈ (rows.take (hop - 1)).drop count, a.joined = false) ∧
        SampledFromStream count hop (rows.drop hop) := by
  have hdiv : rows.length / hop = (rows.drop hop).length / hop + 1 := by
    rw [List.length_drop, Nat.div_eq_sub_div (by omega) hn]
  unfold SampledFromStream
  rw [hdiv, Nat.forall_lt_succ_left]
  simp only [Nat.zero_mul, List.drop_zero, List.drop_drop, Nat.succ_mul, Nat.add_comm]

theorem split_block {hop : Nat} (hhop : 1 ≤ hop) {rows : List (CountArrival F)}
    (hn : hop ≤ rows.length) : ∃ block last, block.length + 1 = hop ∧
      rows.take hop = block ++ [last] ∧ rows.take (hop - 1) = block := by
  refine ⟨rows.take (hop - 1), rows.get ⟨hop - 1, by omega⟩, ?_, ?_, rfl⟩
  · rw [List.length_take]
    omega
  · conv_lhs => rw [show hop = hop - 1 + 1 by omega]
    exact List.take_succ_eq_append_getElem (by omega)

theorem runFrom_sparse {count hop : Nat} (hcount : 1 ≤ count) (hlt : count < hop)
    (rows : List (CountArrival F)) :
    ((⟨[], 0⟩ : CountWindow F).runFrom (fun _ => true) count hop rows).2 =
        countBatches count hop (rows.map CountArrival.tagged) ↔
      SampledFromStream count hop rows := by
  have hhop : 0 < hop := by omega
  have hshort (rows : List (CountArrival F)) (hn : rows.length < hop) :
      ((⟨[], 0⟩ : CountWindow F).runFrom (fun _ => true) count hop rows).2 =
          countBatches count hop (rows.map CountArrival.tagged) ↔
        SampledFromStream count hop rows := by
    rw [runFrom_held hlt rows hn,
      countBatches_sparse_of_lt hlt (by rw [List.length_map]; exact hn)]
    simp [SampledFromStream, Nat.div_eq_of_lt hn]
  induction rows using Lib.chunks_induction hhop with
  | nil => exact hshort [] hhop
  | step rows hne ih =>
    by_cases hfull : hop ≤ rows.length
    · obtain ⟨block, last, hblock, htake, hinit⟩ := split_block hhop hfull
      have hrun : (⟨[], 0⟩ : CountWindow F).runFrom (fun _ => true) count hop rows =
          (((⟨[], 0⟩ : CountWindow F).runFrom (fun _ => true) count hop (rows.drop hop)).1,
            closing count block last ::
              ((⟨[], 0⟩ : CountWindow F).runFrom (fun _ => true) count hop (rows.drop hop)).2) := by
        conv_lhs => rw [← List.take_append_drop hop rows, htake]
        rw [runFrom_append, runFrom_block hcount hlt last hblock]
        rfl
      rw [hrun, countBatches_sparse_of_le hlt (by rw [List.length_map]; exact hfull),
        sampledFromStream_of_le hhop hfull, List.cons.injEq, ← List.map_drop, ← List.map_take,
        htake, hinit]
      refine and_congr ?_ ih
      rw [← closing_eq_iff last (by omega), hblock]
    · exact hshort rows (Nat.lt_of_not_le hfull)

end CountWindow

-- ---- The batches of a run

section Batches

variable (passes : TaggedRow F → Bool) (size : Nat) (interval : Option Nat)
  (arrivals : List (CountArrival F))

/-- The batches are the specified ones if the hop is at most the window, or if in every whole hop
the rows between the first `size` and the last are of the `FROM` stream, and only then. -/
theorem count_batches_iff (hsize : 1 ≤ size) (hhop : 1 ≤ interval.getD size) :
    (CountWindow.run passes size interval arrivals).2 =
        countBatches size (interval.getD size)
          ((CountWindow.accepted passes arrivals).map CountArrival.tagged) ↔
      interval.getD size ≤ size ∨
        CountWindow.SampledFromStream size (interval.getD size)
          (CountWindow.accepted passes arrivals) := by
  have hrun : CountWindow.run passes size interval arrivals =
      CountWindow.runFrom (fun _ => true) size (interval.getD size) ⟨[], 0⟩
        (CountWindow.accepted passes arrivals) := by
    simp only [CountWindow.run, Nat.max_eq_left hsize, Nat.max_eq_left hhop]
    exact CountWindow.runFrom_accepted passes _ _ arrivals _
  rw [hrun]
  by_cases hle : interval.getD size ≤ size
  · have hbatches := CountWindow.runFrom_overlapping hhop hle
      (CountWindow.accepted passes arrivals) ⟨[], 0⟩ hsize
    simp [hle, hbatches]
  · rw [CountWindow.runFrom_sparse hsize (Nat.lt_of_not_le hle)]
    simp [hle]

end Batches

/-- Rows of a joined stream (`true`) and of the `FROM` stream, in order. -/
def countRows (joined : List Bool) : List (CountArrival Unit) :=
  joined.map fun joined => ⟨joined, ⟨if joined then "b" else "a", ∅⟩⟩

theorem sparse_from_rows :
    (CountWindow.run (fun _ => true) 2 (some 4) (countRows [true, false, false, true])).2 =
      countBatches 2 4 ((CountWindow.accepted (fun _ => true)
        (countRows [true, false, false, true])).map CountArrival.tagged) :=
  (count_batches_iff (fun _ => true) 2 (some 4) (countRows [true, false, false, true])
    (by decide) (by decide)).mpr (.inr (by decide))

/-- Four joined rows with a hop of four and a window of two: the batch has three rows. -/
theorem joined_rows_not_trimmed :
    ¬∀ arrivals : List (CountArrival Unit),
      (CountWindow.run (fun _ => true) 2 (some 4) arrivals).2 =
        countBatches 2 4 ((CountWindow.accepted (fun _ => true) arrivals).map
          CountArrival.tagged) := by
  intro h
  have := congrArg (·.map List.length) (h (countRows [true, true, true, true]))
  revert this
  decide

end Rekuiper.Windows
