import Mathlib.Data.List.Basic

/-!
# Splitting a list into chunks

`chunks n` cuts a list into consecutive pieces of `n` elements, the last one
possibly shorter. The recursion runs on a bound for the length, so the function
computes inside the kernel; with the length itself as the bound it never stops
early, which is `chunks_eq`.
-/

namespace Rekuiper.Lib

def chunksAux (n : Nat) : Nat → List α → List (List α)
  | 0, _ => []
  | _ + 1, [] => []
  | fuel + 1, a :: l => (a :: l).take n :: chunksAux n fuel ((a :: l).drop n)

/-- Consecutive pieces of `n` elements. -/
def chunks (n : Nat) (l : List α) : List (List α) := chunksAux n l.length l

theorem chunksAux_fuel {l : List α} (hn : 0 < n) (hf : l.length ≤ fuel)
    (hg : l.length ≤ fuel') : chunksAux n fuel l = chunksAux n fuel' l := by
  induction fuel generalizing l fuel' with
  | zero =>
    obtain rfl : l = [] := List.length_eq_zero_iff.mp (by omega)
    cases fuel' <;> rfl
  | succ fuel ih =>
    cases l with
    | nil => cases fuel' <;> rfl
    | cons a l =>
      cases fuel' with
      | zero => simp at hg
      | succ fuel' =>
        have hd : ((a :: l).drop n).length ≤ l.length := by
          simp only [List.length_drop, List.length_cons]
          omega
        simp only [List.length_cons] at hf hg
        rw [chunksAux, chunksAux, ih (by omega : _ ≤ fuel) (by omega : _ ≤ fuel')]

@[simp] theorem chunks_nil (n : Nat) : chunks n ([] : List α) = [] := rfl

theorem chunks_eq {l : List α} (hn : 0 < n) (hl : l ≠ []) :
    chunks n l = l.take n :: chunks n (l.drop n) := by
  cases l with
  | nil => contradiction
  | cons a l =>
    have hd : ((a :: l).drop n).length ≤ l.length := by
      simp only [List.length_drop, List.length_cons]
      omega
    show chunksAux n (l.length + 1) (a :: l) = _
    rw [chunksAux, chunksAux_fuel hn hd (Nat.le_refl _)]
    rfl

theorem chunks_induction {motive : List α → Prop} (hn : 0 < n) (nil : motive [])
    (step : ∀ l, l ≠ [] → motive (l.drop n) → motive l) (l : List α) : motive l := by
  induction h : l.length using Nat.strongRecOn generalizing l with
  | ind len ih =>
    by_cases hl : l = []
    · exact hl ▸ nil
    · have hpos := List.length_pos_iff.mpr hl
      refine step l hl (ih _ ?_ _ rfl)
      rw [List.length_drop]
      omega

theorem flatten_chunks (hn : 0 < n) (l : List α) : (chunks n l).flatten = l := by
  induction l using chunks_induction hn with
  | nil => rfl
  | step l hl ih => rw [chunks_eq hn hl, List.flatten_cons, ih, List.take_append_drop]

theorem flatten_drop_chunks (hn : 0 < n) (j : Nat) (l : List α) :
    ((chunks n l).drop j).flatten = l.drop (j * n) := by
  induction j generalizing l with
  | zero => simpa using flatten_chunks hn l
  | succ j ih =>
    by_cases hl : l = []
    · simp [hl]
    · rw [chunks_eq hn hl, List.drop_succ_cons, ih, List.drop_drop]
      congr 1
      rw [Nat.succ_mul, Nat.add_comm]

theorem flatten_take_chunks (hn : 0 < n) (j : Nat) (l : List α) :
    ((chunks n l).take j).flatten = l.take (j * n) := by
  induction j generalizing l with
  | zero => simp
  | succ j ih =>
    by_cases hl : l = []
    · simp [hl]
    · rw [chunks_eq hn hl, List.take_succ_cons, List.flatten_cons, ih, Nat.succ_mul,
        Nat.add_comm (j * n), List.take_add]

theorem ne_nil_of_mem_chunks (hn : 0 < n) {l c : List α} (hc : c ∈ chunks n l) : c ≠ [] := by
  induction l using chunks_induction hn with
  | nil => simp at hc
  | step l hl ih =>
    rw [chunks_eq hn hl] at hc
    rcases List.mem_cons.mp hc with rfl | hc
    · simp [hl]
      omega
    · exact ih hc

theorem mul_lt_of_lt_length_chunks (hn : 0 < n) {j : Nat} {l : List α}
    (hj : j < (chunks n l).length) : j * n < l.length := by
  by_contra hle
  have hrest := flatten_drop_chunks hn j l
  rw [List.drop_eq_nil_of_le (Nat.le_of_not_lt hle), List.flatten_eq_nil_iff] at hrest
  have hmem : (chunks n l)[j] ∈ (chunks n l).drop j := by
    rw [List.drop_eq_getElem_cons hj]
    exact List.mem_cons_self
  exact ne_nil_of_mem_chunks hn (List.getElem_mem hj) (hrest _ hmem)

end Rekuiper.Lib
