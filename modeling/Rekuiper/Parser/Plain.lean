import Rekuiper.Parser.Columns

/-!
# Plain texts

Two scans move by single bytes: the one for the backtick that closes a name, and the one for the
default of a column. Here is what they can read without a panic.
-/

namespace Rekuiper.Parser

open Lib Scan

-- ---- Quoted names

/-- The text has only characters of one byte before the next backtick. -/
def PlainQuoted (text : List Char) : Prop := ∀ c ∈ text.takeWhile (· != '\x60'), c.utf8Size = 1

instance (text : List Char) : Decidable (PlainQuoted text) :=
  inferInstanceAs (Decidable (∀ c ∈ text.takeWhile (· != '\x60'), c.utf8Size = 1))

-- ---- Types of columns

def atDefault (prev : Option Char) (text : List Char) : Bool :=
  startsDefault text && prev.all isAsciiBlank && (text.drop 7).head?.all isAsciiBlank

/-- Before its `DEFAULT` the text has only characters of one byte outside parentheses, brackets and
quotes. -/
def plainTypeFrom : Option Char → Nat → Option Char → List Char → Bool
  | _, _, _, [] => true
  | _, depth, some quote, c :: text => plainTypeFrom (some c) depth (quoteAfter quote c) text
  | prev, depth, none, c :: text =>
    match nestingAfter depth c with
    | some (depth, quote) => plainTypeFrom (some c) depth quote text
    | none =>
      if depth == 0 then
        atDefault prev (c :: text) || c.utf8Size == 1 && plainTypeFrom (some c) depth none text
      else plainTypeFrom (some c) depth none text

def plainType (text : List Char) : Bool := plainTypeFrom none 0 none text

theorem charAt_append (before text : List Char) :
    charAt (before ++ text) (byteLen before) = text.head? := by
  rw [charAt, sliceFrom_eq_some_iff.mpr ⟨before, rfl, rfl⟩]
  rfl

theorem charAt_inside (before : List Char) {c : Char} (text : List Char) {k : Nat} (hk : 0 < k)
    (hlt : k < c.utf8Size) : charAt (before ++ c :: text) (byteLen before + k) = none := by
  rw [charAt, sliceFrom_inside before text hk hlt]
  rfl

theorem utf8Size_of_isAsciiBlank {c : Char} (h : isAsciiBlank c = true) : c.utf8Size = 1 := by
  simp only [isAsciiBlank, Bool.or_eq_true, beq_iff_eq] at h
  rcases h with (((rfl | rfl) | rfl) | rfl) | rfl <;> rfl

theorem utf8Size_of_toLower {c : Char} (h : c.toLower.utf8Size = 1) : c.utf8Size = 1 := by
  rw [Char.utf8Size_eq_one_iff] at h ⊢
  unfold Char.toLower at h
  split at h
  · rename_i hc
    exact UInt32.le_trans hc.2 (by decide)
  · exact h

theorem utf8Size_of_nestingAfter {depth : Nat} {c : Char} {state : Nat × Option Char}
    (h : nestingAfter depth c = some state) :
    c.utf8Size = 1 ∧ ∀ q ∈ state.2, q.utf8Size = 1 := by
  have hone : ∀ d e : Char, d.utf8Size = 1 → e.utf8Size = 1 → (c == d || c == e) = true →
      c.utf8Size = 1 := by
    intro d e hd he hc
    rcases Bool.or_eq_true_iff.mp hc with hc | hc
    · exact eq_of_beq hc ▸ hd
    · exact eq_of_beq hc ▸ he
  unfold nestingAfter at h
  split at h
  · cases h
    exact ⟨hone _ _ rfl rfl ‹_›, fun _ hq => nomatch hq⟩
  split at h
  · cases h
    exact ⟨hone _ _ rfl rfl ‹_›, fun _ hq => nomatch hq⟩
  split at h
  · cases h
    have hc : c.utf8Size = 1 := hone _ _ rfl rfl ‹_›
    exact ⟨hc, fun q hq => Option.some.inj hq ▸ hc⟩
  · cases h

theorem byteLen_of_startsDefault {text : List Char} (h : startsDefault text = true) :
    ∃ word, text = word ++ text.drop 7 ∧ byteLen word = 7 := by
  obtain ⟨rest, hrest⟩ := List.isPrefixOf_iff_prefix.mp h
  have hsizes : ∀ word : List Char, (∀ c ∈ word, c.utf8Size = 1) → byteLen word = word.length := by
    intro word hword
    induction word with
    | nil => rfl
    | cons c word ih =>
      rw [byteLen_cons, hword c List.mem_cons_self, List.length_cons,
        ih fun d hd => hword d (List.mem_cons_of_mem _ hd), Nat.add_comm]
  have hlen : 7 ≤ text.length := by
    have := congrArg List.length hrest
    rw [List.length_append, List.length_map] at this
    exact this ▸ Nat.le_add_right 7 _
  have hword : (text.take 7).map Char.toLower = "default".toList := by
    rw [List.map_take, ← hrest]
    rfl
  refine ⟨text.take 7, (List.take_append_drop 7 text).symm, ?_⟩
  rw [hsizes, List.length_take_of_le hlen]
  intro c hc
  refine utf8Size_of_toLower ?_
  have hmem : c.toLower ∈ "default".toList := hword ▸ List.mem_map_of_mem hc
  have hletters : "default".toList.all (fun d => d.utf8Size == 1) = true := by decide
  exact eq_of_beq (List.all_eq_true.mp hletters _ hmem)

theorem blankBefore_eq (before text : List Char) :
    (byteLen before == 0 || (charAt (before ++ text) (byteLen before - 1)).any isAsciiBlank) =
      before.getLast?.all isAsciiBlank := by
  rcases List.eq_nil_or_concat before with rfl | ⟨before, p, rfl⟩
  · rfl
  rw [List.concat_eq_append]
  have hpos := p.utf8Size_pos
  have hne : (byteLen (before ++ [p]) == 0) = false := by
    rw [byteLen_append, byteLen_cons, beq_eq_false_iff_ne]
    omega
  rw [hne, Bool.false_or, List.getLast?_concat, Option.all_some, List.append_assoc,
    List.singleton_append, byteLen_append, byteLen_cons, byteLen_nil, Nat.add_zero]
  by_cases hp : p.utf8Size = 1
  · rw [hp, Nat.add_sub_cancel, charAt_append]
    rfl
  · have hblank : isAsciiBlank p = false :=
      Bool.eq_false_iff.mpr fun h => hp (utf8Size_of_isAsciiBlank h)
    rw [Nat.add_sub_assoc hpos, charAt_inside before text (by omega) (by omega), hblank]
    rfl

theorem standsDefault_append (before text : List Char) :
    standsDefault (before ++ text) (byteLen before) = some (atDefault before.getLast? text) := by
  rw [standsDefault, sliceFrom_eq_some_iff.mpr ⟨before, rfl, rfl⟩, Option.bind_eq_bind,
    Option.bind_some]
  simp only [blankBefore_eq, Option.pure_def, Option.some.injEq, atDefault]
  cases hstarts : startsDefault text with
  | false => rfl
  | true =>
    obtain ⟨word, htext, hword⟩ := byteLen_of_startsDefault hstarts
    generalize text.drop 7 = rest at htext
    subst htext
    rw [← List.append_assoc, ← hword, ← byteLen_append, charAt_append, byteLen_append _ rest]
    cases rest with
    | nil => simp
    | cons c rest =>
      have hpos := c.utf8Size_pos
      have hle : ¬byteLen (before ++ word) + byteLen (c :: rest) ≤ byteLen (before ++ word) := by
        rw [byteLen_cons]
        omega
      rw [decide_eq_false hle, Bool.false_or]
      rfl

theorem splitDefaultAt_isSome {before text : List Char} (h : startsDefault text = true) :
    (splitDefaultAt (before ++ text) (byteLen before)).isSome = true := by
  obtain ⟨word, htext, hword⟩ := byteLen_of_startsDefault h
  generalize text.drop 7 = rest at htext
  subst htext
  have hafter : sliceFrom (before ++ (word ++ rest)) (byteLen before + 7) = some rest :=
    sliceFrom_eq_some_iff.mpr ⟨before ++ word, by rw [List.append_assoc], by rw [byteLen_append, hword]⟩
  rw [splitDefaultAt, sliceTo_append, hafter]
  rfl

theorem splitAtDefaultFrom_inside {s : List Char} {depth : Nat} {quote : Option Char}
    (hstate : depth ≠ 0 ∨ quote ≠ none) (left : Nat) {i k : Nat}
    (h : ∀ j, i ≤ j → j < i + k → charAt s j = none) :
    splitAtDefaultFrom s (k + left) i depth quote = splitAtDefaultFrom s left (i + k) depth quote := by
  induction k generalizing i with
  | zero => rw [Nat.zero_add, Nat.add_zero]
  | succ k ih =>
    have hchar := h i (Nat.le_refl i) (by omega)
    have hnext : splitAtDefaultFrom s (k + left) (i + 1) depth quote =
        splitAtDefaultFrom s left (i + (k + 1)) depth quote := by
      rw [ih fun j hj hlt => h j (by omega) (by omega)]
      congr 1
      omega
    rw [← hnext, show k + 1 + left = k + left + 1 by omega]
    cases quote with
    | some quote =>
      rw [splitAtDefaultFrom, hchar]
      rfl
    | none =>
      have hdepth : (depth == 0) = false := beq_eq_false_iff_ne.mpr (hstate.resolve_right (· rfl))
      rw [splitAtDefaultFrom, hchar]
      simp only [Option.bind_none, hdepth]
      rfl

theorem splitAtDefaultFrom_rest (before : List Char) (c : Char) (text : List Char) {depth : Nat}
    {quote : Option Char} (h : c.utf8Size = 1 ∨ depth ≠ 0 ∨ quote ≠ none) :
    splitAtDefaultFrom (before ++ c :: text) (c.utf8Size - 1 + byteLen text) (byteLen before + 1)
        depth quote =
      splitAtDefaultFrom ((before ++ [c]) ++ text) (byteLen text) (byteLen (before ++ [c])) depth
        quote := by
  have hpos := c.utf8Size_pos
  have hlen : byteLen (before ++ [c]) = byteLen before + 1 + (c.utf8Size - 1) := by
    rw [byteLen_append, byteLen_cons, byteLen_nil]
    omega
  rw [hlen, List.append_assoc, List.singleton_append]
  rcases h with h | h
  · rw [h, Nat.sub_self, Nat.zero_add, Nat.add_zero]
  · refine splitAtDefaultFrom_inside h _ fun j hj hlt => ?_
    obtain ⟨k, rfl⟩ := Nat.exists_eq_add_of_le hj
    rw [Nat.add_assoc]
    exact charAt_inside before text (by omega) (by omega)

theorem splitAtDefaultFrom_panics (before : List Char) {c : Char} (text : List Char) {depth : Nat}
    (hc : 1 < c.utf8Size) (hdepth : (depth == 0) = true) :
    splitAtDefaultFrom (before ++ c :: text) (c.utf8Size - 1 + byteLen text) (byteLen before + 1)
      depth none = none := by
  rw [show c.utf8Size - 1 + byteLen text = c.utf8Size - 2 + byteLen text + 1 by omega,
    splitAtDefaultFrom, charAt_inside before text Nat.one_pos hc, Option.bind_none]
  simp only
  rw [if_pos hdepth, standsDefault, sliceFrom_inside before text Nat.one_pos hc]
  rfl

theorem splitAtDefaultFrom_isSome (before text : List Char) (depth : Nat) (quote : Option Char)
    (hquote : ∀ q ∈ quote, q.utf8Size = 1) :
    (splitAtDefaultFrom (before ++ text) (byteLen text) (byteLen before) depth quote).isSome =
      plainTypeFrom before.getLast? depth quote text := by
  induction text generalizing before depth quote with
  | nil => rfl
  | cons c text ih =>
    have hpos := c.utf8Size_pos
    have hlast : (before ++ [c]).getLast? = some c := List.getLast?_concat
    have hnext := ih (before ++ [c])
    rw [hlast] at hnext
    rw [byteLen_cons, show c.utf8Size + byteLen text = c.utf8Size - 1 + byteLen text + 1 by omega]
    cases quote with
    | some quote =>
      rw [splitAtDefaultFrom, charAt_append, List.head?_cons, Option.elim_some, plainTypeFrom,
        quoteAfter]
      by_cases hc : (c == quote) = true
      · have hsize : c.utf8Size = 1 := eq_of_beq hc ▸ hquote quote rfl
        rw [if_pos hc, splitAtDefaultFrom_rest before c text (.inl hsize)]
        exact hnext depth none fun _ h => nomatch h
      · rw [if_neg hc, splitAtDefaultFrom_rest before c text (.inr (.inr (Option.some_ne_none _)))]
        exact hnext depth (some quote) hquote
    | none =>
      rw [splitAtDefaultFrom, charAt_append, List.head?_cons, Option.bind_some, plainTypeFrom]
      cases hnesting : nestingAfter depth c with
      | some state =>
        obtain ⟨hsize, hquote⟩ := utf8Size_of_nestingAfter hnesting
        obtain ⟨depth', quote⟩ := state
        simp only
        rw [splitAtDefaultFrom_rest before c text (.inl hsize)]
        exact hnext depth' quote hquote
      | none =>
        simp only
        by_cases hdepth : (depth == 0) = true
        · rw [if_pos hdepth, if_pos hdepth, standsDefault_append]
          cases hdefault : atDefault before.getLast? (c :: text) with
          | true =>
            rw [atDefault, Bool.and_assoc] at hdefault
            exact splitDefaultAt_isSome (Bool.and_eq_true_iff.mp hdefault).1
          | false =>
            simp only [Bool.false_or]
            by_cases hsize : c.utf8Size = 1
            · rw [splitAtDefaultFrom_rest before c text (.inl hsize), hnext depth none hquote, hsize]
              rfl
            · have hpanic := splitAtDefaultFrom_panics before text (c := c) (by omega) hdepth
              rw [hpanic, beq_eq_false_iff_ne.mpr hsize]
              rfl
        · rw [if_neg hdepth, if_neg hdepth, splitAtDefaultFrom_rest before c text
            (.inr (.inl fun h => hdepth (beq_iff_eq.mpr h)))]
          exact hnext depth none hquote

theorem splitAtDefault_isSome (text : List Char) :
    (splitAtDefault text).isSome = plainType text :=
  splitAtDefaultFrom_isSome [] text 0 none fun _ h => nomatch h

end Rekuiper.Parser
