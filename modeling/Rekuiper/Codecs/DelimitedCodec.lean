import Rekuiper.Connectors.DelimitedRoundTrip
import Rekuiper.Lib.Maps

/-!
# The delimited codec

`DelimitedCodec` writes a record as one line in the order of the headers, and reads a line back by
position. The splitter keeps what is in quotes as it is, but `decode` drops the flag that says so and
trims every field; and integers are written without quotes even where they hold the delimiter. The
rest of what is written comes back.
-/

namespace Rekuiper.Codecs

open Lib

variable {F : Type}

-- ---- The codec

def endField (current : List Char) (quoted : Bool) : String × Bool :=
  if quoted then (String.ofList current, true) else (trim (String.ofList current), false)

/-- The loop of `split_quoted`: the fields that it pushes from here on -/
def splitFrom (delimiter : Char) : List Char → Bool → Bool → List Char → List (String × Bool)
  | current, quoted, _, [] => [endField current quoted]
  | current, quoted, true, '"' :: '"' :: chars =>
    splitFrom delimiter (current ++ ['"']) quoted true chars
  | current, quoted, true, c :: chars =>
    if c = '"' then splitFrom delimiter current quoted false chars
    else splitFrom delimiter (current ++ [c]) quoted true chars
  | current, quoted, false, c :: chars =>
    if c = '"' ∧ trim (String.ofList current) = "" then splitFrom delimiter [] true true chars
    else if c = delimiter then endField current quoted :: splitFrom delimiter [] false false chars
    else splitFrom delimiter (current ++ [c]) quoted false chars

def splitQuoted (line : String) (delimiter : Char) : List (String × Bool) :=
  splitFrom delimiter [] false false line.toList

def quoteCell (cell : String) (delimiter : Char) : String :=
  if cell.toList.contains delimiter || cell.toList.any (fun c => c = '"' || c = '\n' || c = '\r') then
    Connectors.quoted cell
  else cell

structure DelimitedCodec where
  delimiter : Char
  headers : List String

section

variable [Float64 F] [FloatBits F]

def parseToken (token : String) : Value F :=
  let token := trim token
  match Connectors.parseI64 token with
  | some i => .number (.int i)
  | none => ((FloatBits.parseF64 token).bind finiteNumber).getD (.string token)

namespace DelimitedCodec

def decode (codec : DelimitedCodec) (line : String) : HashMap String (Value F) :=
  let fields := splitQuoted line codec.delimiter
  codec.headers.zipIdx.foldl
    (fun map (header, i) => map.insert header (parseToken ((fields[i]?.map Prod.fst).getD ""))) ∅

def encodeCell (codec : DelimitedCodec) (record : HashMap String (Value F)) (header : String) :
    String :=
  match record.lookup header with
  | none | some .null => ""
  | some (.string s) => quoteCell s codec.delimiter
  | some (.number n) => n.render
  | some (.bool b) => toString b
  | some other => quoteCell other.toJson codec.delimiter

def encode (codec : DelimitedCodec) (record : HashMap String (Value F)) : String :=
  String.ofList ([codec.delimiter].intercalate
    (codec.headers.map fun header => (codec.encodeCell record header).toList))

end DelimitedCodec

end

-- ---- The fields of a line

variable {d : Char}

/-- What the splitter begins with at a cell, whatever is behind the cell. -/
structure Begins (d : Char) (raw : List Char) (field : String × Bool) : Prop where
  last : ∃ later, splitFrom d [] false false raw = field :: later
  inner : ∀ tail, ∃ later, splitFrom d [] false false (raw ++ d :: tail) = field :: later

structure Splits (d : Char) (raw : List Char) (field : String × Bool) : Prop where
  last : splitFrom d [] false false raw = [field]
  inner : ∀ tail,
    splitFrom d [] false false (raw ++ d :: tail) = field :: splitFrom d [] false false tail

theorem splitFrom_plain {raw : List Char} (hraw : ∀ c ∈ raw, c ≠ d ∧ c ≠ '"') (current tail : List Char)
    (quoted : Bool) :
    splitFrom d current quoted false (raw ++ tail) =
      splitFrom d (current ++ raw) quoted false tail := by
  induction raw generalizing current with
  | nil => simp
  | cons c raw ih =>
    obtain ⟨⟨hd, hq⟩, hraw⟩ := List.forall_mem_cons.mp hraw
    rw [List.cons_append, splitFrom, if_neg (fun h => hq h.1), if_neg hd, ih hraw]
    simp

theorem splitFrom_doubled (s current tail : List Char) (htail : ∀ c ∈ tail.head?, c ≠ '"') :
    splitFrom d current true true
        (s.flatMap (fun c => if c = '"' then ['"', '"'] else [c]) ++ '"' :: tail) =
      splitFrom d (current ++ s) true false tail := by
  induction s generalizing current with
  | nil =>
    cases tail with
    | nil => simp [splitFrom]
    | cons c tail =>
      have hc : c ≠ '"' := htail c rfl
      simp [splitFrom, hc]
  | cons c s ih =>
    by_cases hc : c = '"'
    · simpa [splitFrom, hc] using ih (current ++ ['"'])
    · simpa [splitFrom, hc] using ih (current ++ [c])

theorem splits_plain {raw : List Char} (hd : d ≠ '"') (hraw : ∀ c ∈ raw, c ≠ d ∧ c ≠ '"') :
    Splits d raw (trim (String.ofList raw), false) := by
  refine ⟨?_, fun tail => ?_⟩
  · have h := splitFrom_plain hraw [] [] false
    simpa [splitFrom, endField] using h
  · rw [splitFrom_plain hraw, splitFrom, if_neg (fun h => hd h.1), if_pos rfl]
    rfl

theorem splits_quoted (hd : d ≠ '"') (s : String) :
    Splits d (Connectors.quoted s).toList (s, true) := by
  have hthrough : ∀ tail : List Char, (∀ c ∈ tail.head?, c ≠ '"') →
      splitFrom d [] false false ((Connectors.quoted s).toList ++ tail) =
        splitFrom d s.toList true false tail := by
    intro tail htail
    have h := splitFrom_doubled (d := d) s.toList [] tail htail
    simpa [Connectors.quoted, splitFrom, trim] using h
  refine ⟨?_, fun tail => ?_⟩
  · have h := hthrough [] (by simp)
    simpa [splitFrom, endField] using h
  · rw [hthrough (d :: tail) (fun c hc => by cases hc; exact hd), splitFrom, if_neg (fun h => hd h.1),
      if_pos rfl]
    simp [endField]

theorem Splits.begins {raw : List Char} {field : String × Bool} (h : Splits d raw field) :
    Begins d raw field := ⟨⟨_, h.last⟩, fun tail => ⟨_, h.inner tail⟩⟩

theorem begins_takeWhile (hd : d ≠ '"') {raw : List Char} (hraw : '"' ∉ raw) :
    Begins d raw (trim (String.ofList (raw.takeWhile (· ≠ d))), false) := by
  have hfront : ∀ c ∈ raw.takeWhile (· ≠ d), c ≠ d ∧ c ≠ '"' := by
    refine fun c hc => ⟨by simpa using List.mem_takeWhile_imp hc, ?_⟩
    rintro rfl
    exact hraw ((List.takeWhile_prefix _).subset hc)
  have hfield := splits_plain hd hfront
  cases hdrop : raw.dropWhile (· ≠ d) with
  | nil =>
    have hall : raw.takeWhile (· ≠ d) = raw := by
      have hsplit := List.takeWhile_append_dropWhile (p := (· ≠ d)) (l := raw)
      rwa [hdrop, List.append_nil] at hsplit
    rw [hall] at hfield ⊢
    exact hfield.begins
  | cons c back =>
    obtain rfl : c = d := by
      have hhead := List.head?_dropWhile_not (· ≠ d) raw
      rw [hdrop] at hhead
      simpa using hhead
    have hsplit := List.takeWhile_append_dropWhile (p := (· ≠ c)) (l := raw)
    rw [hdrop] at hsplit
    refine ⟨⟨splitFrom c [] false false back, ?_⟩, fun tail =>
      ⟨splitFrom c [] false false (back ++ c :: tail), ?_⟩⟩
    · rw [← hfield.inner, hsplit]
    · rw [← hfield.inner, ← List.cons_append, ← List.append_assoc, hsplit]

-- ---- What comes back

variable [Float64 F] [FloatBits F]

def NotNumeric (F : Type) [Float64 F] [FloatBits F] (s : String) : Prop :=
  Connectors.parseI64 s = none ∧ (FloatBits.parseF64 s : Option F).bind finiteNumber = none

def NeedsQuotes (d : Char) (s : String) : Prop :=
  d ∈ s.toList ∨ '"' ∈ s.toList ∨ '\n' ∈ s.toList ∨ '\r' ∈ s.toList

/-- An `i64`, or a text that is no number and is written in quotes or has no whitespace around. -/
def Admitted (d : Char) (v : Value F) : Prop :=
  (∃ n, v = .number (.int n) ∧ minI64 ≤ n ∧ n ≤ maxI64) ∨
    ∃ s, v = .string s ∧ NotNumeric F (trim s) ∧ (NeedsQuotes d s ∨ trim s = s)

/-- An integer without the delimiter in it, or a text without whitespace around. -/
def Kept (d : Char) : Value F → Prop
  | .number (.int n) => d ∉ (toString n).toList
  | .string s => trim s = s
  | _ => True

structure CellOf (d : Char) (v : Value F) (raw : List Char) : Prop where
  begins : ∃ field, Begins d raw field ∧ (parseToken field.1 = v ↔ Kept d v) ∧
    (Kept d v → Splits d raw field)

theorem parseToken_eq (s : String) :
    (parseToken s : Value F) = Connectors.parseDelimitedToken (trim s) := rfl

theorem trim_trim (s : String) : trim (trim s) = trim s := by
  rw [Connectors.trim_eq (trim s), Connectors.trim_eq, String.toList_ofList,
    strip_eq_self (fun _ => head?_strip) fun _ => getLast?_strip]

theorem parse_notNumeric {s : String} (h : NotNumeric F (trim s)) :
    (parseToken s : Value F) = .string (trim s) := by
  simp [parseToken, h.1, h.2]

theorem quoteCell_of_needs {s : String} (h : NeedsQuotes d s) :
    quoteCell s d = Connectors.quoted s := by
  refine if_pos ?_
  rcases h with h | h | h | h
  · simp [h]
  all_goals
    simp only [Bool.or_eq_true, List.any_eq_true]
    exact .inr ⟨_, h, by simp⟩

theorem quoteCell_of_not {s : String} (h : ¬NeedsQuotes d s) : quoteCell s d = s := by
  simp only [NeedsQuotes, not_or] at h
  refine if_neg ?_
  simp only [Bool.or_eq_true, List.any_eq_true, decide_eq_true_eq, not_or, not_exists, not_and]
  refine ⟨by simpa using h.1, fun c hc => ⟨⟨?_, ?_⟩, ?_⟩⟩
  · rintro rfl; exact h.2.1 hc
  · rintro rfl; exact h.2.2.1 hc
  · rintro rfl; exact h.2.2.2 hc

theorem cellOf_int (hd : d ≠ '"') {n : Int} (hlow : minI64 ≤ n) (hhigh : n ≤ maxI64) :
    CellOf d (.number (.int n) : Value F) (toString n).toList := by
  have hquote : '"' ∉ (toString n).toList := by
    intro h
    rcases mem_toString h with h | h
    · exact absurd h (by decide)
    · exact absurd h (by decide)
  refine ⟨_, begins_takeWhile hd hquote, ?_, fun hkept => ?_⟩
  · have hread := @Connectors.read_cell_iff F _ _ ⟨fun _ => "", fun _ => none⟩ d _ hd
      (.inl ⟨n, rfl, hlow, hhigh⟩ : Connectors.CellValue (.number (.int n) : Value F))
    rw [parseToken_eq, trim_trim, Connectors.trim_eq, String.toList_ofList]
    exact hread
  · rw [Connectors.takeWhile_of_not_mem hkept]
    refine splits_plain hd fun c hc => ⟨?_, ?_⟩
    · rintro rfl; exact hkept hc
    · rintro rfl; exact hquote hc

theorem cellOf_string (hd : d ≠ '"') {s : String} (hs : NotNumeric F (trim s))
    (hquotes : NeedsQuotes d s ∨ trim s = s) :
    CellOf d (.string s : Value F) (quoteCell s d).toList := by
  by_cases hneeds : NeedsQuotes d s
  · rw [quoteCell_of_needs hneeds]
    have hsplits := splits_quoted hd s
    refine ⟨_, hsplits.begins, ?_, fun _ => hsplits⟩
    rw [parse_notNumeric hs]
    simp [Kept]
  · have htrim := hquotes.resolve_left hneeds
    rw [quoteCell_of_not hneeds]
    have hsplits : Splits d s.toList (s, false) := by
      have hplain : ∀ c ∈ s.toList, c ≠ d ∧ c ≠ '"' := by
        refine fun c hc => ⟨?_, ?_⟩
        · rintro rfl; exact hneeds (.inl hc)
        · rintro rfl; exact hneeds (.inr (.inl hc))
      have h := splits_plain hd hplain
      rwa [String.ofList_toList, htrim] at h
    refine ⟨_, hsplits.begins, ?_, fun _ => hsplits⟩
    rw [parse_notNumeric hs, htrim]
    simp [Kept, htrim]

theorem fields_read_iff {cells : List (Value F × List Char)}
    (h : ∀ cell ∈ cells, CellOf d cell.1 cell.2) (hne : cells ≠ []) :
    (∀ i (hi : i < cells.length),
      parseToken
        (((splitFrom d [] false false ([d].intercalate (cells.map Prod.snd)))[i]?.map
          Prod.fst).getD "") = cells[i].1) ↔ ∀ cell ∈ cells, Kept d cell.1 := by
  induction cells with
  | nil => exact absurd rfl hne
  | cons cell cells ih =>
    obtain ⟨⟨field, hbegins, hread, hsplits⟩, hcells⟩ := List.forall_mem_cons.mp h
    cases cells with
    | nil =>
      obtain ⟨later, hlater⟩ := hbegins.last
      simpa [hlater] using hread
    | cons next cells =>
      rw [List.map_cons, List.map_cons, List.intercalate_cons_cons, List.append_assoc,
        List.singleton_append, ← List.map_cons]
      by_cases hkept : Kept d cell.1
      · rw [(hsplits hkept).inner, List.forall_mem_cons, ← ih hcells (by simp)]
        constructor
        · exact fun hall => ⟨hkept, fun i hi => hall (i + 1) (Nat.succ_lt_succ hi)⟩
        · rintro ⟨-, hall⟩ i hi
          cases i with
          | zero => exact hread.mpr hkept
          | succ i => exact hall i (Nat.lt_of_succ_lt_succ hi)
      · obtain ⟨later, hlater⟩ := hbegins.inner ([d].intercalate ((next :: cells).map Prod.snd))
        rw [hlater]
        refine iff_of_false (fun hall => hkept (hread.mp ?_)) fun hall => hkept (hall cell (by simp))
        exact hall 0 (Nat.zero_lt_succ _)

omit [Float64 F] [FloatBits F] in
theorem lookup_insert_headers {headers : List String} (hnodup : headers.Nodup) (f : Nat → Value F)
    (start : Nat) (map : HashMap String (Value F)) :
    let filled := (headers.zipIdx start).foldl (fun map (header, i) => map.insert header (f i)) map
    (∀ i (hi : i < headers.length), filled.lookup headers[i] = some (f (start + i))) ∧
      ∀ k ∉ headers, filled.lookup k = map.lookup k := by
  induction headers generalizing start map with
  | nil => exact ⟨nofun, fun _ _ => rfl⟩
  | cons header headers ih =>
    obtain ⟨hnot, hnodup⟩ := List.nodup_cons.mp hnodup
    obtain ⟨hin, hout⟩ := ih hnodup (start + 1) (map.insert header (f start))
    refine ⟨fun i hi => ?_, fun k hk => ?_⟩
    · cases i with
      | zero => exact (hout header hnot).trans (AList.lookup_insert map)
      | succ i =>
        have h := hin i (Nat.lt_of_succ_lt_succ hi)
        rwa [Nat.add_assoc, Nat.add_comm 1] at h
    · simp only [List.mem_cons, not_or] at hk
      exact (hout k hk.2).trans (AList.lookup_insert_ne hk.1)

/-- A record of integers and texts comes back from its line exactly if no integer holds the
delimiter and no text has whitespace around. -/
theorem decode_encode_iff (codec : DelimitedCodec)
    (hd : codec.delimiter ≠ '"' ∧ codec.delimiter ≠ '\n' ∧ codec.delimiter ≠ '\r')
    (hnodup : codec.headers.Nodup) (record : HashMap String (Value F))
    (hkeys : ∀ k, k ∈ record ↔ k ∈ codec.headers)
    (hvalues : ∀ k v, record.lookup k = some v → Admitted codec.delimiter v) :
    (∀ k, (codec.decode (codec.encode record)).lookup k = record.lookup k) ↔
      ∀ k v, record.lookup k = some v → Kept codec.delimiter v := by
  have hlookup : ∀ k ∈ codec.headers, ∃ v, record.lookup k = some v := fun k hk =>
    Option.isSome_iff_exists.mp (AList.lookup_isSome.mpr ((hkeys k).mpr hk))
  have hnone : ∀ k ∉ codec.headers, record.lookup k = none := fun k hk =>
    AList.lookup_eq_none.mpr (mt (hkeys k).mp hk)
  let cells := codec.headers.map fun k =>
    ((record.lookup k).getD .null, (codec.encodeCell record k).toList)
  have hcells : ∀ cell ∈ cells, CellOf codec.delimiter cell.1 cell.2 := by
    intro cell hcell
    obtain ⟨k, hk, rfl⟩ := List.mem_map.mp hcell
    obtain ⟨v, hv⟩ := hlookup k hk
    rcases hvalues k v hv with ⟨n, rfl, hlow, hhigh⟩ | ⟨s, rfl, hs, hquotes⟩
    · simpa [DelimitedCodec.encodeCell, hv, Number.render] using cellOf_int hd.1 hlow hhigh
    · simpa [DelimitedCodec.encodeCell, hv] using cellOf_string hd.1 hs hquotes
  obtain ⟨hin, hout⟩ := lookup_insert_headers (F := F) hnodup
    (fun i =>
      parseToken (((splitQuoted (codec.encode record) codec.delimiter)[i]?.map Prod.fst).getD ""))
    0 ∅
  have hkept : (∀ cell ∈ cells, Kept codec.delimiter cell.1) ↔
      ∀ k v, record.lookup k = some v → Kept codec.delimiter v := by
    constructor
    · intro hall k v hv
      have hk := (hkeys k).mp (AList.lookup_isSome.mp (by simp [hv]))
      simpa [hv] using hall _ (List.mem_map_of_mem hk)
    · intro hall cell hcell
      obtain ⟨k, hk, rfl⟩ := List.mem_map.mp hcell
      obtain ⟨v, hv⟩ := hlookup k hk
      simpa [hv] using hall k v hv
  have hposition : (∀ k, (codec.decode (codec.encode record)).lookup k = record.lookup k) ↔
      ∀ i (hi : i < cells.length),
        parseToken (((splitQuoted (codec.encode record) codec.delimiter)[i]?.map Prod.fst).getD "") =
          cells[i].1 := by
    constructor
    · intro hall i hi
      have hi' : i < codec.headers.length := by simpa [cells] using hi
      obtain ⟨v, hv⟩ := hlookup codec.headers[i] (List.getElem_mem hi')
      have hread := (hin i hi').symm.trans ((hall codec.headers[i]).trans hv)
      simpa [cells, hv] using hread
    · intro hall k
      by_cases hk : k ∈ codec.headers
      · obtain ⟨i, hi, rfl⟩ := List.getElem_of_mem hk
        obtain ⟨v, hv⟩ := hlookup codec.headers[i] hk
        have hread := hall i (by simpa [cells] using hi)
        refine (hin i hi).trans ?_
        simpa [cells, hv] using hread
      · exact (hout k hk).trans (hnone k hk).symm
  by_cases hne : codec.headers = []
  · refine iff_of_true (fun k => ?_) fun k v hv => ?_
    · have hk : k ∉ codec.headers := by simp [hne]
      exact (hout k hk).trans (hnone k hk).symm
    · have hk := (hkeys k).mp (AList.lookup_isSome.mp (by simp [hv]))
      simp [hne] at hk
  · rw [hposition, ← hkept, ← fields_read_iff hcells (by simpa [cells] using hne)]
    simp [splitQuoted, DelimitedCodec.encode, cells, List.map_map, Function.comp_def]

def pumpCodec : DelimitedCodec := ⟨',', ["id", "name"]⟩

def pumpRecord : HashMap String (Value ℚ) :=
  (AList.insert "name" (.string "a,b") ∅).insert "id" (.number (.int 7))

theorem pump_comes_back :
    (pumpCodec.decode (pumpCodec.encode pumpRecord)).lookup = pumpRecord.lookup := by
  have hlookup : ∀ k v, pumpRecord.lookup k = some v →
      k = "id" ∧ v = .number (.int 7) ∨ k = "name" ∧ v = .string "a,b" := by
    intro k v hv
    by_cases hid : k = "id"
    · subst hid
      exact .inl ⟨rfl, (Option.some.inj ((AList.lookup_insert _).symm.trans hv)).symm⟩
    · by_cases hname : k = "name"
      · subst hname
        refine .inr ⟨rfl, ?_⟩
        rw [pumpRecord, AList.lookup_insert_ne hid, AList.lookup_insert] at hv
        exact (Option.some.inj hv).symm
      · rw [pumpRecord, AList.lookup_insert_ne hid, AList.lookup_insert_ne hname] at hv
        cases hv
  refine funext ((decode_encode_iff pumpCodec (by decide) (by decide) pumpRecord (fun k => ?_) ?_).mpr
    ?_)
  · simp only [pumpRecord, AList.mem_insert, AList.notMem_empty, or_false, pumpCodec, List.mem_cons,
      List.not_mem_nil]
  · intro k v hv
    rcases hlookup k v hv with ⟨-, rfl⟩ | ⟨-, rfl⟩
    · exact .inl ⟨7, rfl, by decide, by decide⟩
    · exact .inr ⟨"a,b", rfl, ⟨by decide, rfl⟩, .inl (.inl (by decide))⟩
  · intro k v hv
    rcases hlookup k v hv with ⟨-, rfl⟩ | ⟨-, rfl⟩
    · exact (by decide : ',' ∉ (toString (7 : Int)).toList)
    · exact (by decide : trim "a,b" = "a,b")

def blankRecord : HashMap String (Value ℚ) := AList.insert "a" (.string " x,y ") ∅

/-- The blanks inside the quotes are lost. -/
theorem quoted_blanks_lost : Admitted ',' (.string " x,y " : Value ℚ) ∧
    ¬ ∀ k, ((⟨',', ["a"]⟩ : DelimitedCodec).decode
      ((⟨',', ["a"]⟩ : DelimitedCodec).encode blankRecord) : HashMap String (Value ℚ)).lookup k =
        blankRecord.lookup k := by
  refine ⟨.inr ⟨" x,y ", rfl, ⟨by decide, rfl⟩, .inl (.inl (by decide))⟩, fun h => ?_⟩
  have hread : ((⟨',', ["a"]⟩ : DelimitedCodec).decode
      ((⟨',', ["a"]⟩ : DelimitedCodec).encode blankRecord) : HashMap String (Value ℚ)).lookup "a" =
        some (.string "x,y") := rfl
  have hsame := hread.symm.trans (h "a")
  rw [blankRecord, AList.lookup_insert] at hsame
  exact absurd (Value.string.inj (Option.some.inj hsame)) (by decide)

end Rekuiper.Codecs
