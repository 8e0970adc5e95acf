import Mathlib.Data.List.Infix

/-!
# Texts

The string operations of Rust's `str` on the characters of a string. The pieces that `split` gives
for a character hold no separator, and any pieces that hold none are what their join splits into.
The bytes of a text are UTF-8, and the text of any bytes has U+FFFD in the place of what is no
character, one for each longest start of a character that does not go on as one.
-/

namespace Rekuiper.Lib

def toAsciiLowercase (s : String) : String := String.ofList (s.toList.map Char.toLower)

def toAsciiUppercase (s : String) : String := String.ofList (s.toList.map Char.toUpper)

def eqIgnoreAsciiCase (s t : String) : Bool := toAsciiLowercase s == toAsciiLowercase t

def startsWith (s start : String) : Bool := start.toList.isPrefixOf s.toList

def endsWith (s tail : String) : Bool := tail.toList.isSuffixOf s.toList

/-- Unicode `White_Space` -/
def isWhitespace (c : Char) : Bool :=
  let n := c.toNat
  (9 ≤ n && n ≤ 13) || n == 32 || n == 0x85 || n == 0xA0 || n == 0x1680 ||
    (0x2000 ≤ n && n ≤ 0x200A) || n == 0x2028 || n == 0x2029 || n == 0x202F || n == 0x205F ||
    n == 0x3000

def trim (s : String) : String :=
  String.ofList ((s.toList.dropWhile isWhitespace).reverse.dropWhile isWhitespace).reverse

/-- `split_whitespace`, after the characters of a word that has begun. -/
def splitWords (word : List Char) : List Char → List String
  | [] => if word = [] then [] else [String.ofList word.reverse]
  | c :: rest =>
    if isWhitespace c then
      if word = [] then splitWords [] rest else String.ofList word.reverse :: splitWords [] rest
    else splitWords (c :: word) rest

def splitWhitespace (s : String) : List String := splitWords [] s.toList

/-- `trim_matches` with a set of characters -/
def trimAny (cs : List Char) (s : String) : String :=
  String.ofList ((s.toList.dropWhile cs.contains).reverse.dropWhile cs.contains).reverse

def trimMatches (c : Char) (s : String) : String :=
  String.ofList ((s.toList.dropWhile (· = c)).reverse.dropWhile (· = c)).reverse

def upperChars (c : Char) : List Char :=
  match c.toNat with
  | 0xDF => ['S', 'S']
  | 0x131 => ['I']
  | 0x17F => ['S']
  | 0xFB00 => ['F', 'F']
  | 0xFB01 => ['F', 'I']
  | 0xFB02 => ['F', 'L']
  | 0xFB03 => ['F', 'F', 'I']
  | 0xFB04 => ['F', 'F', 'L']
  | 0xFB05 => ['S', 'T']
  | 0xFB06 => ['S', 'T']
  | _ => [c.toUpper]

def toUppercase (s : String) : String := String.ofList (s.toList.flatMap upperChars)

def parseBool : String → Option Bool
  | "true" => some true
  | "false" => some false
  | _ => none

def parseDigits : List Char → Option Nat
  | [] => none
  | digits =>
    digits.foldl
      (fun n c => n.bind fun n => if c.isDigit then some (n * 10 + (c.toNat - 48)) else none)
      (some 0)

/-- `parse` of an integer, before its type's bounds are checked. -/
def parseInt (s : String) : Option Int :=
  match s.toList with
  | '-' :: digits => (parseDigits digits).map fun n => -(n : Int)
  | '+' :: digits => (parseDigits digits).map fun n => (n : Int)
  | digits => (parseDigits digits).map fun n => (n : Int)

-- ---- Splitting at a character

def splitText (c : Char) (s : String) : List String := (s.toList.splitOn c).map String.ofList

def joinText (c : Char) (pieces : List String) : String :=
  String.ofList ([c].intercalate (pieces.map String.toList))

theorem not_mem_of_mem_splitOn {α : Type} [BEq α] [LawfulBEq α] {a : α} {xs piece : List α}
    (h : piece ∈ xs.splitOn a) : a ∉ piece := by
  induction xs generalizing piece with
  | nil =>
    rw [List.splitOn_nil] at h
    obtain rfl := List.mem_singleton.mp h
    exact List.not_mem_nil
  | cons x xs ih =>
    rw [List.splitOn_cons_eq_if_modifyHead] at h
    split at h
    · rcases List.mem_cons.mp h with rfl | h
      · exact List.not_mem_nil
      · exact ih h
    · rename_i hx
      obtain ⟨first, rest, hpieces⟩ := List.exists_cons_of_ne_nil (List.splitOn_ne_nil a xs)
      rw [hpieces, List.modifyHead_cons] at h
      rcases List.mem_cons.mp h with rfl | h
      · have hfirst : a ∉ first := ih (hpieces ▸ List.mem_cons_self)
        simp only [List.mem_cons, not_or]
        exact ⟨fun ha => hx (by simp [ha]), hfirst⟩
      · exact ih (hpieces ▸ List.mem_cons_of_mem _ h)

theorem joinText_splitText (c : Char) (s : String) : joinText c (splitText c s) = s := by
  have hpieces : (splitText c s).map String.toList = s.toList.splitOn c := by
    simp [splitText, Function.comp_def]
  rw [joinText, hpieces, List.intercalate_splitOn, String.ofList_toList]

theorem not_mem_of_mem_splitText {c : Char} {s piece : String} (h : piece ∈ splitText c s) :
    c ∉ piece.toList := by
  obtain ⟨chars, hchars, rfl⟩ := List.mem_map.mp h
  rw [String.toList_ofList]
  exact not_mem_of_mem_splitOn hchars

theorem splitText_joinText {c : Char} {pieces : List String} (hne : pieces ≠ [])
    (h : ∀ piece ∈ pieces, c ∉ piece.toList) : splitText c (joinText c pieces) = pieces := by
  have hsplit : ([c].intercalate (pieces.map String.toList)).splitOn c = pieces.map String.toList := by
    refine List.splitOn_intercalate c ?_ (by simpa using hne)
    simpa using h
  rw [splitText, joinText, String.toList_ofList, hsplit]
  simp [Function.comp_def]

theorem splitText_eq_iff {c : Char} {s : String} {pieces : List String} (hne : pieces ≠ []) :
    splitText c s = pieces ↔ s = joinText c pieces ∧ ∀ piece ∈ pieces, c ∉ piece.toList := by
  constructor
  · rintro rfl
    exact ⟨(joinText_splitText c s).symm, fun _ => not_mem_of_mem_splitText⟩
  · rintro ⟨rfl, h⟩
    exact splitText_joinText hne h

-- ---- UTF-8

/-- `as_bytes` -/
def utf8Bytes (s : String) : List UInt8 := s.toList.flatMap String.utf8EncodeChar

def isContinuation (b : UInt8) : Bool := b &&& 0xC0 == 0x80

/-- What may follow the first byte of a character of three or four bytes. -/
def isSecondByte (first second : UInt8) : Bool :=
  if first = 0xE0 then 0xA0 ≤ second && second ≤ 0xBF
  else if first = 0xED then 0x80 ≤ second && second ≤ 0x9F
  else if first = 0xF0 then 0x90 ≤ second && second ≤ 0xBF
  else if first = 0xF4 then 0x80 ≤ second && second ≤ 0x8F
  else 0x80 ≤ second && second ≤ 0xBF

/-- How many of the bytes are read as one piece where no character starts. -/
def invalidLength : List UInt8 → Nat
  | [] => 0
  | [_] => 1
  | first :: second :: rest =>
    if 0xE0 ≤ first && first ≤ 0xEF then
      if isSecondByte first second then 2 else 1
    else if 0xF0 ≤ first && first ≤ 0xF4 then
      if isSecondByte first second then
        match rest with
        | third :: _ => if isContinuation third then 3 else 2
        | [] => 2
      else 1
    else 1

/-- The characters of the bytes; each piece takes at least one byte, so the length of the
bytes bounds their number. -/
def lossyChars : Nat → List UInt8 → List Char
  | 0, _ => []
  | _ + 1, [] => []
  | fuel + 1, bytes =>
    match ByteArray.utf8DecodeChar? bytes.toByteArray 0 with
    | some c => c :: lossyChars fuel (bytes.drop c.utf8Size)
    | none => Char.ofNat 0xFFFD :: lossyChars fuel (bytes.drop (invalidLength bytes))

/-- `String::from_utf8_lossy` -/
def fromUtf8Lossy (bytes : List UInt8) : String := String.ofList (lossyChars bytes.length bytes)

theorem utf8DecodeChar_encode (c : Char) (rest : List UInt8) :
    ByteArray.utf8DecodeChar? (String.utf8EncodeChar c ++ rest).toByteArray 0 = some c := by
  rw [List.toByteArray_append]
  exact ByteArray.utf8DecodeChar?_utf8EncodeChar_append

theorem lossyChars_encode (chars : List Char)
    (hf : (chars.flatMap String.utf8EncodeChar).length ≤ fuel) :
    lossyChars fuel (chars.flatMap String.utf8EncodeChar) = chars := by
  induction chars generalizing fuel with
  | nil => cases fuel <;> rfl
  | cons c chars ih =>
    have hlen : (String.utf8EncodeChar c).length = c.utf8Size := String.length_utf8EncodeChar c
    have hpos := c.utf8Size_pos
    rw [List.flatMap_cons, List.length_append, hlen] at hf
    rw [List.flatMap_cons]
    cases fuel with
    | zero => omega
    | succ fuel =>
      rw [lossyChars, utf8DecodeChar_encode]
      · dsimp only
        rw [← hlen, List.drop_left, ih (by omega)]
      · intro h
        have := congrArg List.length h
        rw [List.length_append, List.length_nil] at this
        omega

theorem fromUtf8Lossy_utf8Bytes (s : String) : fromUtf8Lossy (utf8Bytes s) = s := by
  rw [fromUtf8Lossy, utf8Bytes, lossyChars_encode _ (Nat.le_refl _), String.ofList_toList]

end Rekuiper.Lib
