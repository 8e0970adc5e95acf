import Rekuiper.Parser.Cursor

/-!
# Columns of streams and tables

What `CREATE STREAM` and `CREATE TABLE` take apart without the cursor: lists in parentheses, the
types of columns and their defaults.
-/

namespace Rekuiper.Parser

open Lib

/-- `str::trim` of a slice -/
def trimChars (s : List Char) : List Char :=
  ((s.dropWhile isWhitespace).reverse.dropWhile isWhitespace).reverse

theorem length_trimChars_le (s : List Char) : (trimChars s).length ≤ s.length := by
  rw [trimChars, List.length_reverse]
  calc _ ≤ (s.dropWhile isWhitespace).reverse.length := (List.dropWhile_sublist _).length_le
    _ ≤ s.length := by
      rw [List.length_reverse]
      exact (List.dropWhile_sublist _).length_le

def openedQuote (c : Char) : Option Char := if c == '\'' || c == '"' then some c else none

def quoteAfter (quote c : Char) : Option Char := if c == quote then none else some quote

def textInParens : Nat → Option Char → List Char → Option (List Char)
  | _, _, [] => none
  | depth, some quote, c :: text => (textInParens depth (quoteAfter quote c) text).map (c :: ·)
  | depth, none, c :: text =>
    if c == '(' then (textInParens (depth + 1) none text).map (c :: ·)
    else if c == ')' then
      if depth - 1 = 0 then some [] else (textInParens (depth - 1) none text).map (c :: ·)
    else (textInParens depth (openedQuote c) text).map (c :: ·)

/-- The parts between the commas outside quotes, and with `nests` outside parentheses. -/
def splitCommas (nests : Bool) : Nat → Option Char → List Char → List Char → List (List Char)
  | _, _, part, [] => [part.reverse]
  | depth, some quote, part, c :: text =>
    splitCommas nests depth (quoteAfter quote c) (c :: part) text
  | depth, none, part, c :: text =>
    if nests && c == '(' then splitCommas nests (depth + 1) none (c :: part) text
    else if nests && c == ')' then splitCommas nests (depth - 1) none (c :: part) text
    else if c == ',' && depth == 0 then part.reverse :: splitCommas nests depth none [] text
    else splitCommas nests depth (openedQuote c) (c :: part) text

def splitTopLevelCommas (s : List Char) : List (List Char) := splitCommas true 0 none [] s

theorem length_le_of_mem_splitCommas {nests : Bool} {depth : Nat} {quote : Option Char}
    {part text found : List Char} (h : found ∈ splitCommas nests depth quote part text) :
    found.length ≤ part.length + text.length := by
  induction depth, quote, part, text using splitCommas.induct nests with
  | case1 depth quote part =>
    obtain rfl : found = part.reverse := by simpa [splitCommas] using h
    simp
  | case2 depth quote part c text ih =>
    rw [splitCommas] at h
    have := ih h
    simp only [List.length_cons] at this ⊢
    omega
  | case3 depth part c text hopen ih =>
    rw [splitCommas, if_pos hopen] at h
    have := ih h
    simp only [List.length_cons] at this ⊢
    omega
  | case4 depth part c text hopen hclose ih =>
    rw [splitCommas, if_neg hopen, if_pos hclose] at h
    have := ih h
    simp only [List.length_cons] at this ⊢
    omega
  | case5 depth part c text hopen hclose hcomma ih =>
    rw [splitCommas, if_neg hopen, if_neg hclose, if_pos hcomma] at h
    rcases List.mem_cons.mp h with rfl | h
    · simp
    · have := ih h
      simp only [List.length_cons, List.length_nil] at this ⊢
      omega
  | case6 depth part c text hopen hclose hcomma ih =>
    rw [splitCommas, if_neg hopen, if_neg hclose, if_neg hcomma] at h
    have := ih h
    simp only [List.length_cons] at this ⊢
    omega

-- ---- Types

def simpleStreamTypes : List String :=
  ["bigint", "int", "integer", "smallint", "tinyint", "float", "double", "real", "numeric",
    "decimal", "string", "text", "varchar", "char", "datetime", "timestamp", "date", "time",
    "boolean", "bool", "bytea", "binary", "blob", "array", "struct", "json", "object", "map"]

def insideType (start stop : String) (t : List Char) : Option (List Char) :=
  if start.toList.isPrefixOf t && stop.toList.isSuffixOf t then
    some (trimChars ((t.take (t.length - stop.length)).drop start.length))
  else none

theorem length_lt_of_insideType {start stop : String} {t inner : List Char}
    (h : insideType start stop t = some inner) (ht : t ≠ []) (hstop : 0 < stop.length) :
    inner.length < t.length := by
  rw [insideType] at h
  split at h
  · obtain rfl := Option.some.inj h
    refine Nat.lt_of_le_of_lt (length_trimChars_le _) ?_
    have := List.length_pos_iff.mpr ht
    rw [List.length_drop, List.length_take]
    omega
  · cases h

def isDigits (s : List Char) : Bool := !s.isEmpty && s.all Char.isDigit

/-- The type of a field of a `STRUCT`: the text behind its first word, or all of it. -/
def structFieldType (part : List Char) : List Char :=
  match part.dropWhile (!isWhitespace ·) with
  | [] => part
  | _ :: fieldType => trimChars fieldType

theorem length_structFieldType_le (part : List Char) :
    (structFieldType part).length ≤ part.length := by
  rw [structFieldType]
  split
  · exact Nat.le_refl _
  · rename_i c fieldType h
    have hle := (List.dropWhile_sublist (!isWhitespace ·) (l := part)).length_le
    rw [h, List.length_cons] at hle
    exact Nat.le_trans (length_trimChars_le _) (Nat.le_of_succ_le hle)

def structFieldTypes (inner : List Char) : List (List Char) :=
  (((splitTopLevelCommas inner).map trimChars).filter (!·.isEmpty)).map structFieldType

theorem length_le_of_mem_structFieldTypes {inner ty : List Char}
    (h : ty ∈ structFieldTypes inner) : ty.length ≤ inner.length := by
  obtain ⟨field, hfield, rfl⟩ := List.mem_map.mp h
  obtain ⟨part, hpart, rfl⟩ := List.mem_map.mp (List.mem_of_mem_filter hfield)
  calc (structFieldType (trimChars part)).length
    _ ≤ (trimChars part).length := length_structFieldType_le _
    _ ≤ part.length := length_trimChars_le _
    _ ≤ inner.length := by simpa using length_le_of_mem_splitCommas hpart

/-- The precision of a `DECIMAL`: one number or two. -/
def isPrecision (inner : List Char) : Bool :=
  let parts := (inner.splitOn ',').map trimChars
  (parts.length == 1 || parts.length == 2) && parts.all isDigits

def streamTypeParts (t : List Char) : Option (List (List Char)) :=
  if simpleStreamTypes.contains (String.ofList t) then some []
  else if let some inner := (insideType "decimal(" ")" t).or (insideType "numeric(" ")" t) then
    if isPrecision inner then some [] else none
  else if let some inner := (insideType "varchar(" ")" t).or (insideType "char(" ")" t) then
    if isDigits inner then some [] else none
  else if let some inner := (insideType "array(" ")" t).or (insideType "array[" "]" t) then
    if inner.isEmpty then some [] else some [inner]
  else if let some inner := insideType "" "[]" t then some [inner]
  else if let some inner := insideType "struct(" ")" t then
    if inner.isEmpty then some [] else some (structFieldTypes inner)
  else none

theorem length_lt_of_mem_streamTypeParts {t ty : List Char} {parts : List (List Char)}
    (h : streamTypeParts t = some parts) (hty : ty ∈ parts) (ht : t ≠ []) :
    ty.length < t.length := by
  unfold streamTypeParts at h
  split at h
  · cases h
    cases hty
  split at h
  · split at h <;> cases h
    cases hty
  split at h
  · split at h <;> cases h
    cases hty
  split at h
  · rename_i inner harray
    split at h <;> cases h
    · cases hty
    · obtain rfl := List.mem_singleton.mp hty
      rcases Option.or_eq_some_iff.mp harray with harray | ⟨-, harray⟩
      · exact length_lt_of_insideType harray ht (by decide)
      · exact length_lt_of_insideType harray ht (by decide)
  split at h
  · rename_i inner hlist
    cases h
    obtain rfl := List.mem_singleton.mp hty
    exact length_lt_of_insideType hlist ht (by decide)
  split at h
  · rename_i inner hstruct
    split at h <;> cases h
    · cases hty
    · exact Nat.lt_of_le_of_lt (length_le_of_mem_structFieldTypes hty)
        (length_lt_of_insideType hstruct ht (by decide))
  · cases h

def declaredTypeParts (ty : List Char) : Option (List (List Char)) :=
  let t := (trimChars ty).map Char.toLower
  if t = [] then none else streamTypeParts t

theorem length_lt_of_mem_declaredTypeParts {ty part : List Char} {parts : List (List Char)}
    (h : declaredTypeParts ty = some parts) (hpart : part ∈ parts) : part.length < ty.length := by
  have hlen : ((trimChars ty).map Char.toLower).length ≤ ty.length := by
    rw [List.length_map]
    exact length_trimChars_le ty
  simp only [declaredTypeParts] at h
  split at h
  · cases h
  · exact Nat.lt_of_lt_of_le (length_lt_of_mem_streamTypeParts h hpart ‹_›) hlen

def isValidStreamType (ty : List Char) : Bool :=
  match _hparts : declaredTypeParts ty with
  | none => false
  | some parts => parts.attach.all fun ⟨part, _⟩ => isValidStreamType part
termination_by ty.length
decreasing_by exact length_lt_of_mem_declaredTypeParts _hparts ‹_›

-- ---- Defaults

/-- The character that starts at a byte of a text, if one does. -/
def charAt (s : List Char) (i : Nat) : Option Char := (sliceFrom s i).bind List.head?

/-- `u8::is_ascii_whitespace` -/
def isAsciiBlank (c : Char) : Bool :=
  c == ' ' || c == '\t' || c == '\n' || c == '\x0c' || c == '\r'

/-- `to_ascii_lowercase().starts_with("default")` -/
def startsDefault (s : List Char) : Bool := "default".toList.isPrefixOf (s.map Char.toLower)

def nestingAfter (depth : Nat) (c : Char) : Option (Nat × Option Char) :=
  if c == '(' || c == '[' then some (depth + 1, none)
  else if c == ')' || c == ']' then some (depth - 1, none)
  else if c == '\'' || c == '"' then some (depth, some c)
  else none

/-- Whether a `DEFAULT` stands at a byte, between blanks; nothing if the slice panics. -/
def standsDefault (s : List Char) (i : Nat) : Option Bool := do
  let text ← sliceFrom s i
  let beforeOk := i == 0 || (charAt s (i - 1)).any isAsciiBlank
  let afterOk := byteLen s ≤ i + 7 || (charAt s (i + 7)).any isAsciiBlank
  return startsDefault text && beforeOk && afterOk

/-- What is before and behind the `DEFAULT` at a byte. -/
def splitDefaultAt (s : List Char) (i : Nat) : Option (List Char × Option (List Char)) := do
  let typePart ← sliceTo s i
  let defaultPart ← sliceFrom s (i + 7)
  return (trimChars typePart, some (trimChars defaultPart))

/-- The loop of `split_at_default` over the bytes from `i` on; nothing if a slice panics. -/
def splitAtDefaultFrom (s : List Char) :
    Nat → Nat → Nat → Option Char → Option (List Char × Option (List Char))
  | 0, _, _, _ => some (trimChars s, none)
  | left + 1, i, depth, some quote =>
    splitAtDefaultFrom s left (i + 1) depth ((charAt s i).elim (some quote) (quoteAfter quote))
  | left + 1, i, depth, none =>
    match (charAt s i).bind (nestingAfter depth) with
    | some (depth, quote) => splitAtDefaultFrom s left (i + 1) depth quote
    | none =>
      if depth == 0 then
        match standsDefault s i with
        | none => none
        | some true => splitDefaultAt s i
        | some false => splitAtDefaultFrom s left (i + 1) depth none
      else splitAtDefaultFrom s left (i + 1) depth none

/-- Split at `DEFAULT` keyword (case-insensitive) at depth 0 (outside parentheses and quotes); nothing
if a slice panics. -/
def splitAtDefault (s : List Char) : Option (List Char × Option (List Char)) :=
  splitAtDefaultFrom s (byteLen s) 0 0 none

end Rekuiper.Parser
