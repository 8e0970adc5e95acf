import Mathlib.Data.List.Infix
import Rekuiper.Codecs.RoundTrip
import Rekuiper.Connectors.Delimited

/-!
# What a delimited file brings back

The source reads back what the sink has written if and only if no cell needed quotes and
no line lost a delimiter at its beginning: the source knows no quotes, and takes the
whitespace off a line before it splits it.
-/

namespace Rekuiper.Connectors

open Lib

variable {F : Type} [Float64 F] [Codecs.FloatBits F] {json : JsonTexts F} {d : Char}

-- ---- The cells of values

def PlainText (F : Type) [Float64 F] [Codecs.FloatBits F] (s : String) : Prop :=
  trim s = s ∧ '\n' ∉ s.toList ∧ '\r' ∉ s.toList ∧
    parseI64 s = none ∧ (Codecs.FloatBits.parseF64 s : Option F).bind Codecs.finiteNumber = none

/-- An integer or such a text. -/
def CellValue (v : Value F) : Prop :=
  (∃ n, v = .number (.int n) ∧ minI64 ≤ n ∧ n ≤ maxI64) ∨ ∃ s, v = .string s ∧ PlainText F s

def Unquoted (d : Char) : Value F → Prop
  | .number (.int n) => d ∉ (toString n).toList
  | .string s => d ∉ s.toList ∧ '"' ∉ s.toList
  | _ => True

def cellChars (json : JsonTexts F) (d : Char) (v : Value F) : List Char :=
  (csvField json (some v) (String.singleton d)).toList

omit [Float64 F] [Codecs.FloatBits F] in
theorem trim_eq (s : String) : trim s = String.ofList (strip isWhitespace s.toList) := rfl

theorem parse_eq_int {s : String} {n : Int}
    (h : (parseDelimitedToken s : Value F) = .number (.int n)) : parseI64 s = some n := by
  unfold parseDelimitedToken at h
  cases hint : parseI64 s with
  | some i =>
    rw [hint] at h
    simpa using h
  | none =>
    rw [hint] at h
    cases hfloat : (Codecs.FloatBits.parseF64 s : Option F) with
    | none => simp [hfloat] at h
    | some f =>
      simp only [hfloat, Option.bind_some, Codecs.finiteNumber] at h
      split at h <;> simp at h

theorem parse_eq_string {s t : String} (h : (parseDelimitedToken s : Value F) = .string t) :
    s = t := by
  unfold parseDelimitedToken at h
  cases hint : parseI64 s with
  | some i => simp [hint] at h
  | none =>
    rw [hint] at h
    cases hfloat : (Codecs.FloatBits.parseF64 s : Option F) with
    | none => simpa [hfloat] using h
    | some f =>
      simp only [hfloat, Option.bind_some, Codecs.finiteNumber] at h
      split at h <;> simp at h
      exact h

theorem parse_plain {s : String} (h : PlainText F s) :
    (parseDelimitedToken s : Value F) = .string s := by
  obtain ⟨-, -, -, hint, hfloat⟩ := h
  simp [parseDelimitedToken, hint, hfloat]

theorem parse_int {n : Int} (hlow : minI64 ≤ n) (hhigh : n ≤ maxI64) :
    (parseDelimitedToken (toString n) : Value F) = .number (.int n) := by
  have hint : parseI64 (toString n) = some n := by
    rw [parseI64, parseInt_toString]
    simp [hlow, hhigh]
  simp only [parseDelimitedToken, hint]

omit [Float64 F] [Codecs.FloatBits F] in
theorem not_whitespace_of_toString {n : Int} {c : Char} (h : c ∈ (toString n).toList) :
    isWhitespace c = false := by
  rcases mem_toString h with rfl | h
  · decide
  · exact isWhitespace_of_isDigit h

omit [Codecs.FloatBits F] in
theorem cellChars_int (n : Int) :
    cellChars json d (.number (.int n) : Value F) = (toString n).toList := rfl

theorem cellChars_string {s : String} (hs : PlainText F s) :
    cellChars json d (.string s : Value F) =
      if d ∈ s.toList ∨ '"' ∈ s.toList then (quoted s).toList else s.toList := by
  have hinfix : [d] <:+: s.toList ↔ d ∈ s.toList := List.singleton_infix_iff d s.toList
  have hany : (s.toList.any fun c => c = '"' || c = '\n' || c = '\r') = true ↔ '"' ∈ s.toList := by
    rw [List.any_eq_true]
    refine ⟨?_, fun h => ⟨_, h, by simp⟩⟩
    rintro ⟨c, hc, hmatch⟩
    simp only [Bool.or_eq_true, decide_eq_true_eq] at hmatch
    rcases hmatch with (rfl | rfl) | rfl
    · exact hc
    · exact absurd hc hs.2.1
    · exact absurd hc hs.2.2.1
  simp only [cellChars, csvField, csvEscape, String.toList_singleton]
  rw [← apply_ite String.toList]
  congr 1
  simp only [Bool.or_eq_true, decide_eq_true_eq, hinfix, hany]

theorem strip_cellChars {v : Value F} (hv : CellValue v) :
    strip isWhitespace (cellChars json d v) = cellChars json d v := by
  rcases hv with ⟨n, rfl, -⟩ | ⟨s, rfl, hs⟩
  · rw [cellChars_int]
    refine strip_eq_self (fun x hx => ?_) fun x hx => ?_
    · exact not_whitespace_of_toString (List.mem_of_mem_head? hx)
    · exact not_whitespace_of_toString (List.mem_of_mem_getLast? hx)
  · rw [cellChars_string hs]
    split
    · rw [quoted, String.toList_ofList]
      refine strip_eq_self ?_ ?_
      · rintro x hx
        obtain rfl : '"' = x := by simpa using hx
        decide
      · rintro x hx
        rw [List.getLast?_concat] at hx
        obtain rfl : '"' = x := by simpa using hx
        decide
    · have htrim := congrArg String.toList hs.1
      rwa [trim_eq, String.toList_ofList] at htrim

theorem length_quoted (s : String) : s.toList.length < (quoted s).toList.length := by
  have hlength : ∀ cs : List Char,
      cs.length ≤ (cs.flatMap fun c => if c = '"' then ['"', '"'] else [c]).length := by
    intro cs
    induction cs with
    | nil => exact Nat.le_refl 0
    | cons c cs ih =>
      rw [List.flatMap_cons, List.length_append, List.length_cons]
      split <;> simp only [List.length_cons, List.length_nil] <;> omega
  have := hlength s.toList
  simp only [quoted, String.toList_ofList, List.length_cons, List.length_append]
  omega

theorem not_mem_quoted {s : String} (hd : d ≠ '"') (hs : d ∉ s.toList) : d ∉ (quoted s).toList := by
  simp only [quoted, String.toList_ofList, List.mem_cons, List.mem_append, List.mem_flatMap,
    List.not_mem_nil, or_false, not_or, not_exists, not_and]
  refine ⟨⟨hd, fun c hc hmem => ?_⟩, hd⟩
  split at hmem
  · simp [hd] at hmem
  · exact hs (List.mem_singleton.mp hmem ▸ hc)

omit [Codecs.FloatBits F] [Float64 F] in
theorem takeWhile_of_not_mem {cs : List Char} (h : d ∉ cs) : cs.takeWhile (· ≠ d) = cs := by
  refine List.takeWhile_eq_self_iff.mpr fun c hc => ?_
  simp only [decide_eq_true_eq]
  rintro rfl
  exact h hc

theorem read_cell_iff {v : Value F} (hd : d ≠ '"') (hv : CellValue v) :
    parseDelimitedToken (String.ofList (strip isWhitespace
      ((cellChars json d v).takeWhile (· ≠ d)))) = v ↔ Unquoted d v := by
  have hstrip : strip isWhitespace (cellChars json d v) = cellChars json d v := strip_cellChars hv
  rcases hv with ⟨n, rfl, hlow, hhigh⟩ | ⟨s, rfl, hs⟩
  · rw [cellChars_int] at hstrip ⊢
    by_cases hmem : d ∈ (toString n).toList
    · refine iff_of_false (fun h => ?_) (fun h => h hmem)
      have hfront : strip isWhitespace ((toString n).toList.takeWhile (· ≠ d)) =
          (toString n).toList.takeWhile (· ≠ d) := by
        refine strip_eq_self (fun x hx => ?_) fun x hx => ?_
        · exact not_whitespace_of_toString
            ((List.takeWhile_prefix _).subset (List.mem_of_mem_head? hx))
        · exact not_whitespace_of_toString
            ((List.takeWhile_prefix _).subset (List.mem_of_mem_getLast? hx))
      rw [hfront] at h
      refine parseInt_leading (n := n) (List.takeWhile_append_dropWhile).symm ?_
        (Option.mem_def.mp (Option.mem_filter_iff.mp (parse_eq_int h)).1)
      exact fun hnil => by simpa using List.dropWhile_eq_nil_iff.mp hnil d hmem
    · rw [takeWhile_of_not_mem hmem, hstrip, String.ofList_toList]
      exact iff_of_true (parse_int hlow hhigh) hmem
  · rw [cellChars_string hs] at hstrip ⊢
    split
    · rename_i hquoted
      refine iff_of_false (fun h => ?_) (fun h => not_or.mpr h hquoted)
      have heq := congrArg String.toList (parse_eq_string h)
      rw [String.toList_ofList] at heq
      by_cases hmem : d ∈ s.toList
      · rw [← heq] at hmem
        simpa using List.mem_takeWhile_imp (strip_subset _ hmem)
      · rw [if_pos hquoted] at hstrip
        rw [takeWhile_of_not_mem (not_mem_quoted hd hmem), hstrip] at heq
        exact Nat.lt_irrefl _ (heq ▸ length_quoted s)
    · rename_i hplain
      rw [if_neg hplain] at hstrip
      obtain ⟨hdelim, hquote⟩ := not_or.mp hplain
      rw [takeWhile_of_not_mem hdelim, hstrip, String.ofList_toList]
      exact iff_of_true (parse_plain hs) ⟨hdelim, hquote⟩

theorem Unquoted.not_mem_cell {v : Value F} (hv : CellValue v) (h : Unquoted d v) :
    d ∉ cellChars json d v := by
  rcases hv with ⟨n, rfl, -⟩ | ⟨s, rfl, hs⟩
  · exact h
  · rw [cellChars_string hs, if_neg (not_or.mpr h)]
    exact h.1

theorem cellChars_eq_nil_iff {v : Value F} (hv : CellValue v) :
    cellChars json d v = [] ↔ v = .string "" := by
  rcases hv with ⟨n, rfl, -⟩ | ⟨s, rfl, hs⟩
  · simpa [cellChars_int] using toString_ne_empty n
  · rw [cellChars_string hs]
    split
    · rename_i hquoted
      refine iff_of_false (fun h => ?_) ?_
      · simp [quoted] at h
      · rintro h
        cases h
        simp at hquoted
    · simp

-- ---- Rows

omit [Codecs.FloatBits F] in
theorem toList_csvRow {data : List (String × Value F)} (h : SortedFields data) :
    (csvRow json (data.map Prod.fst) data (String.singleton d)).toList =
      [d].intercalate (data.map fun entry => cellChars json d entry.2) := by
  rw [csvRow, joinWith, String.toList_ofList, String.toList_singleton, List.map_map, List.map_map]
  refine congrArg _ (List.map_congr_left fun entry hentry => ?_)
  simp [cellChars, h.field_of_mem hentry]

omit [Float64 F] [Codecs.FloatBits F] in
theorem foldl_setField {pairs : List (String × Value F)} (h : SortedFields pairs) :
    pairs.foldl (fun map pair => setField pair.1 pair.2 map) [] = pairs := by
  have happend : ∀ (acc : List (String × Value F)) (k : String) (v : Value F),
      (∀ entry ∈ acc, entry.1 < k) → setField k v acc = acc ++ [(k, v)] := by
    intro acc k v
    induction acc with
    | nil => exact fun _ => rfl
    | cons first acc ih =>
      intro hacc
      obtain ⟨hfirst, hacc⟩ := List.forall_mem_cons.mp hacc
      rw [setField, if_neg (ne_of_gt hfirst), if_neg (lt_asymm hfirst), ih hacc]
      rfl
  induction pairs using List.reverseRecOn with
  | nil => rfl
  | append_singleton pairs pair ih =>
    obtain ⟨hpairs, -, hlast⟩ := List.pairwise_append.mp h
    rw [List.foldl_append, ih hpairs]
    exact happend pairs pair.1 pair.2 fun entry hentry => hlast entry hentry pair (by simp)

def readCell (line : String) (d : Char) (i : Nat) : Value F :=
  parseDelimitedToken (trim ((splitText d line).getD i ""))

theorem readCell_eq (line : String) (i : Nat) :
    (readCell line d i : Value F) =
      parseDelimitedToken (String.ofList (token isWhitespace d i line.toList)) := by
  have hpiece : (splitText d line).getD i "" = String.ofList ((line.toList.splitOn d).getD i []) := by
    simp only [splitText, List.getD_eq_getElem?_getD, List.getElem?_map]
    cases (line.toList.splitOn d)[i]? <;> rfl
  rw [readCell, hpiece, trim_eq, String.toList_ofList, token]

def readCells (line : String) (d : Char) (headers : List String) : List (String × Value F) :=
  headers.zipIdx.map fun header => (header.1, readCell line d header.2)

theorem map_fst_readCells (line : String) (headers : List String) :
    (readCells line d headers : List (String × Value F)).map Prod.fst = headers := by
  rw [readCells, List.map_map]
  exact List.zipIdx_map_fst 0 headers

theorem parseDelimitedLine_eq {line : String} {headers : List String}
    (h : headers.Pairwise (· < ·)) :
    parseDelimitedLine line d headers = (readCells line d headers : List (String × Value F)) := by
  have hsorted : SortedFields (readCells line d headers : List (String × Value F)) := by
    rw [← map_fst_readCells (F := F) (d := d) line headers, List.pairwise_map] at h
    exact h
  refine Eq.trans ?_ (foldl_setField hsorted)
  simp only [readCells, List.foldl_map, parseDelimitedLine, readCell]

omit [Float64 F] [Codecs.FloatBits F] in
theorem map_zipIdx_eq_iff {α β : Type} {pairs : List (α × β)} {f : Nat → β} :
    ((pairs.map Prod.fst).zipIdx.map fun entry => (entry.1, f entry.2)) = pairs ↔
      ∀ i (hi : i < pairs.length), f i = pairs[i].2 := by
  constructor
  · intro h i hi
    have hget := congrArg (fun xs => xs[i]?.map Prod.snd) h
    simpa [hi] using hget
  · intro h
    refine List.ext_getElem (by simp) fun i hi hi' => ?_
    simp [h i hi']

/-- The first value of a row is not the empty text, or the delimiter that follows it is no
whitespace. -/
def RowLeads (d : Char) (data : List (String × Value F)) : Prop :=
  data.head?.map Prod.snd ≠ some (.string "") ∨ isWhitespace d = false ∧ 2 ≤ data.length

theorem leading_cells_iff {data : List (String × Value F)} (hv : ∀ entry ∈ data, CellValue entry.2) :
    Leading isWhitespace d (data.map fun entry => cellChars json d entry.2) ↔ RowLeads d data := by
  cases data with
  | nil => simp [Leading, RowLeads]
  | cons first data =>
    simp [Leading, RowLeads, cellChars_eq_nil_iff (hv first List.mem_cons_self)]

theorem row_read_iff {data : List (String × Value F)} (hd : d ≠ '"') (hsorted : SortedFields data)
    (hne : data ≠ []) (hv : ∀ entry ∈ data, CellValue entry.2) {line : String}
    (hline : line = csvRow json (data.map Prod.fst) data (String.singleton d)) :
    (trim line ≠ "" ∧ parseDelimitedLine (trim line) d (data.map Prod.fst) = data) ↔
      RowLeads d data ∧ ∀ entry ∈ data, Unquoted d entry.2 := by
  have hcells : ∀ cell ∈ data.map fun entry => cellChars json d entry.2, ∀ x ∈ cell.head?,
      isWhitespace x = false := by
    rintro cell hcell x hx
    obtain ⟨entry, hentry, rfl⟩ := List.mem_map.mp hcell
    rw [← strip_cellChars (hv entry hentry)] at hx
    exact head?_strip hx
  have hchars : (trim line).toList =
      strip isWhitespace ([d].intercalate (data.map fun entry => cellChars json d entry.2)) := by
    rw [trim_eq, String.toList_ofList, hline, toList_csvRow hsorted]
  rw [parseDelimitedLine_eq (List.pairwise_map.mpr hsorted), readCells, map_zipIdx_eq_iff]
  by_cases hlead : Leading isWhitespace d (data.map fun entry => cellChars json d entry.2)
  · have hread : ∀ i (hi : i < data.length),
        (∀ j (hj : j < i), Unquoted d data[j].2) →
          (readCell (trim line) d i = data[i].2 ↔ Unquoted d data[i].2) := by
      intro i hi hbefore
      have htoken := hlead.token_intercalate hcells (i := i) (by simpa using hi) ?_
      · rw [readCell_eq, hchars, htoken, List.getElem_map]
        exact read_cell_iff hd (hv _ (List.getElem_mem hi))
      · rintro cell hcell
        obtain ⟨j, hj, rfl⟩ := List.mem_take_iff_getElem.mp hcell
        rw [List.getElem_map]
        exact (hbefore j (by omega)).not_mem_cell (hv _ (List.getElem_mem _))
    have htrim : trim line ≠ "" := by
      obtain ⟨x, rest, hjoin, hx⟩ := hlead.head?_intercalate (by simpa using hne) hcells
      intro h
      have hnil := congrArg String.toList h
      rw [hchars, hjoin] at hnil
      exact strip_ne_nil List.mem_cons_self hx hnil
    rw [and_iff_right htrim, and_iff_right ((leading_cells_iff hv).mp hlead)]
    constructor
    · intro h entry hentry
      obtain ⟨i, hi, rfl⟩ := List.getElem_of_mem hentry
      -- the cells before a cell hold no delimiter, so its piece is its own
      induction i using Nat.strongRecOn with
      | ind i ih =>
        refine (hread i hi fun j hj => ih j hj (by omega) (List.getElem_mem _)).mp (h i hi)
    · intro h i hi
      exact (hread i hi fun j hj => h _ (List.getElem_mem _)).mpr (h _ (List.getElem_mem hi))
  · refine iff_of_false ?_ fun h => hlead ((leading_cells_iff hv).mpr h.1)
    rintro ⟨htrim, hread⟩
    obtain ⟨first, rest, rfl⟩ := List.exists_cons_of_ne_nil hne
    have hfirst : first.2 = .string "" := by
      by_contra hfirst
      exact hlead ((leading_cells_iff hv).mpr (.inl (by simpa using hfirst)))
    have hzero := hread 0 (by simp)
    rw [readCell_eq, hchars, List.getElem_cons_zero, hfirst] at hzero
    have htoken := congrArg String.toList (parse_eq_string hzero)
    refine token_zero_of_not_leading hlead ?_ (by simpa using htoken)
    intro hnil
    rw [hnil] at hchars
    exact htrim (String.toList_inj.mp hchars)

-- ---- Headers

structure PlainKey (d : Char) (key : String) : Prop where
  delimiter : d ∉ key.toList
  quote : '"' ∉ key.toList
  trimmed : trim key = key

def headersOf (d : Char) (line : String) : List String :=
  (splitText d (trim line)).map fun h => trimMatches '"' (trim h)

section Headers

omit [Float64 F] [Codecs.FloatBits F]

variable {keys : List String}

theorem PlainKey.strip_eq {key : String} (h : PlainKey d key) :
    strip isWhitespace key.toList = key.toList := by
  have htrim := congrArg String.toList h.trimmed
  rwa [trim_eq, String.toList_ofList] at htrim

theorem PlainKey.read {key : String} (h : PlainKey d key) : trimMatches '"' (trim key) = key := by
  have hquote : strip (fun c => decide (c = '"')) key.toList = key.toList := by
    refine strip_eq_self ?_ ?_
    · rintro c hc
      simp only [decide_eq_false_iff_not]
      rintro rfl
      exact h.quote (List.mem_of_mem_head? hc)
    · rintro c hc
      simp only [decide_eq_false_iff_not]
      rintro rfl
      exact h.quote (List.mem_of_mem_getLast? hc)
  calc trimMatches '"' (trim key)
      = String.ofList (strip (fun c => decide (c = '"')) key.toList) := by rw [h.trimmed]; rfl
    _ = key := by rw [hquote, String.ofList_toList]

theorem headersOf_eq {line : String} (hne : keys ≠ []) (hplain : ∀ key ∈ keys, PlainKey d key)
    (hline : trim line = joinText d keys) : headersOf d line = keys := by
  rw [headersOf, hline, splitText_joinText hne fun key hkey => (hplain key hkey).delimiter]
  exact (List.map_congr_left fun key hkey => (hplain key hkey).read).trans (List.map_id' keys)

theorem ne_empty_of_lt {a b : String} (h : a < b) : b ≠ "" := by
  rintro rfl
  exact List.not_lt_nil _ (String.lt_iff_toList_lt.mp h)

/-- The first key is not empty, or the delimiter that follows it is no whitespace. -/
def KeysLead (d : Char) (keys : List String) : Prop :=
  keys.head? ≠ some "" ∨ isWhitespace d = false ∧ 2 ≤ keys.length

theorem leading_keys_iff : Leading isWhitespace d (keys.map String.toList) ↔ KeysLead d keys := by
  cases keys <;> simp [Leading, KeysLead]

theorem KeysLead.trim_eq (h : KeysLead d keys) (hne : keys ≠ []) (hsorted : keys.Pairwise (· < ·))
    (hplain : ∀ key ∈ keys, PlainKey d key) : trim (joinText d keys) = joinText d keys := by
  obtain ⟨front, last, rfl⟩ := (List.eq_nil_or_concat' keys).resolve_left hne
  have hlast : last ≠ "" := by
    rintro rfl
    cases front with
    | nil => simp [KeysLead] at h
    | cons first front =>
      have hlt := (List.pairwise_append.mp hsorted).2.2 first List.mem_cons_self "" (by simp)
      exact ne_empty_of_lt hlt rfl
  have hcells : ∀ cell ∈ front.map String.toList ++ [last.toList], ∀ x ∈ cell.head?,
      isWhitespace x = false := by
    rintro cell hcell x hx
    have hmem : cell ∈ (front ++ [last]).map String.toList := by simpa using hcell
    obtain ⟨key, hkey, rfl⟩ := List.mem_map.mp hmem
    rw [← (hplain key hkey).strip_eq] at hx
    exact head?_strip hx
  have hlead : Leading isWhitespace d (front.map String.toList ++ [last.toList]) := by
    have := leading_keys_iff.mpr h
    simpa using this
  have hend : ∀ x ∈ last.toList.getLast?, isWhitespace x = false := by
    rintro x hx
    rw [← (hplain last (by simp)).strip_eq] at hx
    exact getLast?_strip hx
  have hjoin : (joinText d (front ++ [last])).toList =
      [d].intercalate (front.map String.toList ++ [last.toList]) := by simp [joinText]
  rw [Connectors.trim_eq, hjoin, hlead.strip_intercalate hcells (by simpa using hlast) hend, ← hjoin,
    String.ofList_toList]

theorem headers_lost (h : ¬ KeysLead d keys) (hsorted : keys.Pairwise (· < ·))
    (hplain : ∀ key ∈ keys, PlainKey d key) :
    trim (joinText d keys) = "" ∨ headersOf d (joinText d keys) = keys.tail := by
  rcases keys with _ | ⟨key, _ | ⟨next, keys⟩⟩
  · exact absurd (.inl (by simp)) h
  · obtain rfl : key = "" := by simpa [KeysLead] using h
    exact .inl rfl
  · obtain rfl : key = "" := by
      by_contra hkey
      exact h (.inl (by simpa using hkey))
    have hd : isWhitespace d = true := by
      by_contra hd
      exact h (.inr ⟨by simpa using hd, by simp⟩)
    obtain ⟨hnext, hkeys⟩ := List.pairwise_cons.mp hsorted
    have hlead : KeysLead d (next :: keys) :=
      .inl (by simpa using ne_empty_of_lt (hnext next List.mem_cons_self))
    have hrest := fun key hkey => hplain key (List.mem_cons_of_mem _ hkey)
    refine .inr (headersOf_eq (List.cons_ne_nil _ _) hrest ?_)
    have hjoin : (joinText d ("" :: next :: keys)).toList = d :: (joinText d (next :: keys)).toList := by
      simp only [joinText, String.toList_ofList, List.map_cons, List.intercalate_cons_cons]
      rfl
    rw [Connectors.trim_eq, hjoin, strip_cons_blank hd, ← Connectors.trim_eq,
      hlead.trim_eq (List.cons_ne_nil _ _) hkeys hrest, List.tail_cons]

end Headers

-- ---- Files

structure SameFormat (sink : FileSink) (config : FileSourceConfig) (d : Char) : Prop where
  sinkHeader : sink.hasHeader = true
  sinkDelimiter : sink.delimiterStr = String.singleton d
  format : (eqIgnoreAsciiCase config.format "delimited" || eqIgnoreAsciiCase config.format "csv") = true
  sourceHeader : config.hasHeader = true
  sourceDelimiter : config.delimiter.getD ',' = d

def visibleKeys (keys : List String) : List String :=
  keys.filter fun k => k != metaKey && !startsWith k "__"

variable {sink : FileSink} {config : FileSourceConfig} {keys : List String}
  {records : List (List (String × Value F))}

omit [Codecs.FloatBits F] in
theorem written_eq (hconf : SameFormat sink config d) (hsorted : keys.Pairwise (· < ·))
    (hne : records ≠ []) (hkeys : ∀ data ∈ records, data.map Prod.fst = keys) :
    records.foldl (sink.sendDelimited json) [] =
      joinText d (visibleKeys keys) ::
        records.map fun data => csvRow json (visibleKeys keys) data (String.singleton d) := by
  have hwritten : ∀ data ∈ records, writtenKeys data = visibleKeys keys := by
    intro data hdata
    rw [writtenKeys, hkeys data hdata]
    exact ((hsorted.filter _).imp le_of_lt).insertionSort_eq
  have hrows : ∀ (rest : List (List (String × Value F))) (lines : List String), lines ≠ [] →
      (∀ data ∈ rest, writtenKeys data = visibleKeys keys) →
      rest.foldl (sink.sendDelimited json) lines = lines ++
        rest.map fun data => csvRow json (visibleKeys keys) data (String.singleton d) := by
    intro rest
    induction rest with
    | nil => simp
    | cons data rest ih =>
      intro lines hlines hrest
      obtain ⟨hdata, hrest⟩ := List.forall_mem_cons.mp hrest
      rw [List.foldl_cons, ih _ (by simp [FileSink.sendDelimited]) hrest]
      simp [FileSink.sendDelimited, hlines, hdata, hconf.sinkDelimiter]
  obtain ⟨first, rest, rfl⟩ := List.exists_cons_of_ne_nil hne
  obtain ⟨hfirst, hrest⟩ := List.forall_mem_cons.mp hwritten
  rw [List.foldl_cons, hrows rest _ (by simp [FileSink.sendDelimited]) hrest]
  simp [FileSink.sendDelimited, hfirst, hconf.sinkHeader, hconf.sinkDelimiter, joinWith, joinText]

def readRow (d : Char) (headers : List String) (line : String) : Option (List (String × Value F)) :=
  if trim line = "" then none else some (parseDelimitedLine (trim line) d headers)

theorem foldl_readLine (hconf : SameFormat sink config d) (headers : List String)
    (lines : List String) (out : List (List (String × Value F))) :
    lines.foldl (readLine json config) (some headers, out) =
      (some headers, out ++ lines.filterMap (readRow d headers)) := by
  induction lines generalizing out with
  | nil => simp
  | cons line lines ih =>
    rw [List.foldl_cons, List.filterMap_cons]
    by_cases hline : trim line = ""
    · simp [readLine, readRow, hline, ih]
    · simp [readLine, readRow, hline, decodeLine, hconf.format, hconf.sourceDelimiter, ih]

theorem length_readLines_lt (hconf : SameFormat sink config d) {lines : List String}
    (hne : lines ≠ []) :
    (lines.foldl (readLine (F := F) json config) (none, [])).2.length < lines.length := by
  induction lines with
  | nil => exact absurd rfl hne
  | cons line lines ih =>
    rw [List.foldl_cons, List.length_cons]
    by_cases hline : trim line = ""
    · rw [readLine, if_pos hline]
      cases lines with
      | nil => exact Nat.zero_lt_one
      | cons next lines => exact Nat.lt_succ_of_lt (ih (List.cons_ne_nil _ _))
    · have hread : readLine (F := F) json config (none, []) line = (some (headersOf d line), []) := by
        simp [readLine, hline, decodeLine, hconf.format, hconf.sourceHeader, hconf.sourceDelimiter,
          headersOf]
      rw [hread, foldl_readLine hconf, List.nil_append]
      exact Nat.lt_succ_of_le (List.length_filterMap_le _ _)

theorem filterMap_eq_self_iff {α : Type} {f : α → Option α} {xs : List α} :
    xs.filterMap f = xs ↔ ∀ x ∈ xs, f x = some x := by
  induction xs with
  | nil => simp
  | cons x xs ih =>
    rw [List.filterMap_cons, List.forall_mem_cons]
    cases hx : f x with
    | none =>
      refine iff_of_false (fun h => ?_) (by simp)
      have hlength := List.length_filterMap_le f xs
      rw [show xs.filterMap f = x :: xs from h, List.length_cons] at hlength
      omega
    | some y =>
      simp only [List.cons.injEq, ih, Option.some.injEq]

def ReadsBack (json : JsonTexts F) (sink : FileSink) (config : FileSourceConfig)
    (records : List (List (String × Value F))) : Prop :=
  readLines json config (records.foldl (sink.sendDelimited json) []) = records

/-- No key is internal, the lines keep their first cell, and no cell needs quotes or holds the
delimiter. -/
structure Survives (d : Char) (keys : List String) (records : List (List (String × Value F))) :
    Prop where
  visible : ∀ key ∈ keys, key ≠ metaKey ∧ startsWith key "__" = false
  columns : keys ≠ []
  header : KeysLead d keys
  rows : ∀ data ∈ records, RowLeads d data ∧ ∀ entry ∈ data, Unquoted d entry.2

omit [Codecs.FloatBits F] [Float64 F] in
theorem visibleKeys_eq_iff :
    visibleKeys keys = keys ↔ ∀ key ∈ keys, key ≠ metaKey ∧ startsWith key "__" = false := by
  simp [visibleKeys, List.filter_eq_self]

theorem rows_read_iff (hd : d ≠ '"') (hsorted : keys.Pairwise (· < ·)) (hcolumns : keys ≠ [])
    (hrecords : ∀ data ∈ records, data.map Prod.fst = keys ∧ ∀ entry ∈ data, CellValue entry.2) :
    (records.map fun data => csvRow json keys data (String.singleton d)).filterMap (readRow d keys) =
      records ↔ ∀ data ∈ records, RowLeads d data ∧ ∀ entry ∈ data, Unquoted d entry.2 := by
  rw [List.filterMap_map, filterMap_eq_self_iff]
  refine forall₂_congr fun data hdata => ?_
  obtain ⟨hkeys, hv⟩ := hrecords data hdata
  subst hkeys
  rw [← row_read_iff hd (List.pairwise_map.mp hsorted) (by simpa using hcolumns) hv
    (Eq.refl (csvRow json (data.map Prod.fst) data (String.singleton d)))]
  simp only [Function.comp_apply, readRow]
  split
  · simp [*]
  · simp [*]

theorem keys_of_read {headers lines : List String} (hsorted : headers.Pairwise (· < ·))
    (hread : lines.filterMap (readRow d headers) = records) (hne : records ≠ [])
    (hkeys : ∀ data ∈ records, data.map Prod.fst = keys) : headers = keys := by
  obtain ⟨data, rest, rfl⟩ := List.exists_cons_of_ne_nil hne
  have hmem : data ∈ lines.filterMap (readRow d headers) := hread ▸ List.mem_cons_self
  obtain ⟨line, -, hline⟩ := List.mem_filterMap.mp hmem
  rw [readRow] at hline
  split at hline
  · cases hline
  · rw [← hkeys data List.mem_cons_self, ← Option.some.inj hline, parseDelimitedLine_eq hsorted,
      map_fst_readCells]

/-- The source reads the records that the sink has written if and only if they survive. -/
theorem reads_delimited_iff (json : JsonTexts F) (sink : FileSink) (config : FileSourceConfig)
    (d : Char) (keys : List String) (records : List (List (String × Value F)))
    (hconf : SameFormat sink config d) (hd : d ≠ '"') (hsorted : keys.Pairwise (· < ·))
    (hplain : ∀ key ∈ keys, PlainKey d key) (hne : records ≠ [])
    (hrecords : ∀ data ∈ records, data.map Prod.fst = keys ∧ ∀ entry ∈ data, CellValue entry.2) :
    ReadsBack json sink config records ↔ Survives d keys records := by
  have hlines : records.foldl (sink.sendDelimited json) [] = joinText d (visibleKeys keys) ::
      records.map fun data => csvRow json (visibleKeys keys) data (String.singleton d) :=
    written_eq hconf hsorted hne fun data hdata => (hrecords data hdata).1
  have hvisible : ∀ key ∈ visibleKeys keys, PlainKey d key :=
    fun key hkey => hplain key (List.mem_filter.mp hkey).1
  rw [ReadsBack, readLines, hlines, List.foldl_cons]
  by_cases hheader : trim (joinText d (visibleKeys keys)) = ""
  · -- the line of keys is skipped, so a row is lost
    refine iff_of_false (fun h => ?_) fun h => ?_
    · rw [readLine, if_pos hheader] at h
      have hrows : (records.map fun data =>
          csvRow json (visibleKeys keys) data (String.singleton d)) ≠ [] := by simpa using hne
      have hlost := congrArg List.length h ▸ length_readLines_lt (F := F) hconf hrows
      rw [List.length_map] at hlost
      exact Nat.lt_irrefl _ hlost
    · rw [visibleKeys_eq_iff.mpr h.visible, h.header.trim_eq h.columns hsorted hplain] at hheader
      have hkeys := splitText_joinText h.columns fun key hkey => (hplain key hkey).delimiter
      rw [hheader] at hkeys
      have hlead := h.header
      rw [← hkeys] at hlead
      simp [KeysLead, splitText] at hlead
  · have hread : readLine json config (none, []) (joinText d (visibleKeys keys)) =
        (some (headersOf d (joinText d (visibleKeys keys))), ([] : List (List (String × Value F)))) := by
      simp [readLine, hheader, decodeLine, hconf.format, hconf.sourceHeader, hconf.sourceDelimiter,
        headersOf]
    rw [hread, foldl_readLine hconf, List.nil_append]
    have hvisibleSorted : (visibleKeys keys).Pairwise (· < ·) := hsorted.filter _
    have hcolumns : visibleKeys keys ≠ [] := by
      intro hnil
      rw [hnil] at hheader
      exact hheader rfl
    have hkeys := fun data hdata => (hrecords data hdata).1
    by_cases hlead : KeysLead d (visibleKeys keys)
    · rw [headersOf_eq hcolumns hvisible (hlead.trim_eq hcolumns hvisibleSorted hvisible)]
      by_cases hall : visibleKeys keys = keys
      · rw [hall] at hlead hcolumns ⊢
        rw [rows_read_iff hd hsorted hcolumns hrecords]
        exact ⟨fun hrows => ⟨visibleKeys_eq_iff.mp hall, hcolumns, hlead, hrows⟩, Survives.rows⟩
      · refine iff_of_false (fun h => hall ?_) fun h => hall (visibleKeys_eq_iff.mpr h.visible)
        exact keys_of_read hvisibleSorted h hne hkeys
    · rw [(headers_lost hlead hvisibleSorted hvisible).resolve_left hheader]
      refine iff_of_false (fun h => ?_) fun h => ?_
      · -- a key is missing among the headers
        have htail := keys_of_read (hvisibleSorted.sublist (List.tail_sublist _)) h hne hkeys
        have hfilter : (visibleKeys keys).length ≤ keys.length := List.length_filter_le _ _
        have hpos := List.length_pos_iff.mpr hcolumns
        have hlength := congrArg List.length htail
        rw [List.length_tail] at hlength
        omega
      · rw [visibleKeys_eq_iff.mpr h.visible] at hlead
        exact hlead h.header

/-- For values that are not containers. -/
def noTexts : JsonTexts ℚ := ⟨fun _ => "", fun _ => none⟩

def commaSink : FileSink := ⟨true, none⟩

def commaSource : FileSourceConfig := ⟨"csv", true, none⟩

theorem comma_sameFormat : SameFormat commaSink commaSource ',' :=
  ⟨rfl, by decide, by decide, rfl, rfl⟩

theorem cellValue_int {n : Int} (hlow : minI64 ≤ n) (hhigh : n ≤ maxI64) :
    CellValue (.number (.int n) : Value F) := .inl ⟨n, rfl, hlow, hhigh⟩

theorem reads_delimited_pump :
    ReadsBack noTexts commaSink commaSource
      [[("id", .number (.int 7)), ("name", .string "pump 1")],
        [("id", .number (.int (-8))), ("name", .string "")]] := by
  refine (reads_delimited_iff noTexts commaSink commaSource ',' ["id", "name"] _ comma_sameFormat
    (by decide) (by decide) ?_ (by simp) ?_).mpr ⟨by decide, by decide, .inr (by decide), ?_⟩
  · simp only [List.forall_mem_cons]
    exact ⟨⟨by decide, by decide, by decide⟩, ⟨by decide, by decide, by decide⟩, by simp⟩
  · have hpump : CellValue (.string "pump 1" : Value ℚ) :=
      .inr ⟨_, rfl, by decide, by decide, by decide, by decide, rfl⟩
    have hempty : CellValue (.string "" : Value ℚ) :=
      .inr ⟨_, rfl, by decide, by decide, by decide, by decide, rfl⟩
    simp only [List.forall_mem_cons]
    exact ⟨⟨rfl, cellValue_int (by decide) (by decide), hpump, by simp⟩,
      ⟨rfl, cellValue_int (by decide) (by decide), hempty, by simp⟩, by simp⟩
  · simp only [List.forall_mem_cons, Unquoted]
    exact ⟨⟨.inr (by decide), by decide, by decide, by simp⟩,
      ⟨.inr (by decide), by decide, by decide, by simp⟩, by simp⟩

/-- The cell of a text with a comma is quoted, and read as the part before the comma, with the
quote. -/
theorem quoted_cell_not_read :
    let records : List (List (String × Value ℚ)) := [[("name", .string "a,b")]]
    records.foldl (commaSink.sendDelimited noTexts) [] = ["name", "\"a,b\""] ∧
      readLines noTexts commaSource ["name", "\"a,b\""] = [[("name", .string "\"a")]] ∧
      ¬ ReadsBack noTexts commaSink commaSource records := by
  intro records
  have hlines : records.foldl (commaSink.sendDelimited noTexts) [] = ["name", "\"a,b\""] := by
    rfl
  have hread : readLines noTexts commaSource ["name", "\"a,b\""] =
      [[("name", (.string "\"a" : Value ℚ))]] := by
    rfl
  refine ⟨hlines, hread, ?_⟩
  rw [ReadsBack, hlines, hread]
  simp [records]

end Rekuiper.Connectors
