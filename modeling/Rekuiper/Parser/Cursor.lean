import Rekuiper.Lib.Scanner
import Rekuiper.Lib.Text

/-!
# The cursor of the parser

`Parser`: the helpers that move over blanks, words, characters and quoted names. What is known
of characters beyond ASCII is a parameter.
-/

namespace Rekuiper.Parser

open Lib Scan

/-- What the standard library knows of characters. -/
class Unicode where
  /-- `char::is_alphanumeric` -/
  isAlphanumeric : Char → Bool
  /-- `to_uppercase` -/
  toUppercase : String → String

/-- A text that a run scans byte by byte: behind an opening backtick, or the type and the default of
a column. -/
inductive Read
  | quoted (text : List Char)
  | columnType (text : List Char)
  deriving DecidableEq, Repr

abbrev P (α : Type) := Scan Read α

section
variable [Unicode]

/-- The bytes of the blanks at the start of a text. -/
def whitespaceLen : List Char → Nat
  | [] => 0
  | c :: cs => if isWhitespace c then c.utf8Size + whitespaceLen cs else 0

def skipWhitespace : P Unit := do
  unless ← atEnd do advance (whitespaceLen (← rest))

def isWordChar (c : Char) : Bool := Unicode.isAlphanumeric c || c == '_'

def leadingWord (text : List Char) : Option String :=
  let word := text.takeWhile isWordChar
  if word.isEmpty then none else some (String.ofList word)

def wordLen (word : String) : Nat := byteLen word.toList

def peekWord : P (Option String) := return leadingWord ((← rest).dropWhile isWhitespace)

def peekWordIs (kw : String) : P Bool := return (← peekWord).any fun word => eqIgnoreAsciiCase word kw

def expectKeyword (kw : String) : P Unit := do
  skipWhitespace
  match ← peekWord with
  | none => fail s!"Expected keyword {kw}, found EOF"
  | some word =>
    if eqIgnoreAsciiCase word kw then
      skipWhitespace
      advance (wordLen word)
    else fail s!"Expected keyword {kw}, found '{word}'"

def matchKeyword (kw : String) : P Bool := do
  skipWhitespace
  match ← peekWord with
  | some word =>
    if eqIgnoreAsciiCase word kw then
      advance (wordLen word)
      return true
    else return false
  | none => return false

def optionalKeyword (kw : String) : P Bool := do
  if ← peekWordIs kw then
    let _ ← matchKeyword kw
    return true
  else return false

def expectChar (c : Char) : P Unit := do
  skipWhitespace
  if ← looksAt c then advance c.utf8Size
  else fail s!"Expected '{c}'"

def consumeWord (word : String) : P Unit := do
  skipWhitespace
  advance (wordLen word)

/-- One byte on, unless the cursor is at a backtick or at the end. -/
def scanBacktickStep (_ : Unit) : P (Unit ⊕ Unit) := do
  if ← atEnd then return .inr ()
  else if (← rest).head? == some '\x60' then return .inr ()
  else
    advance 1
    return .inl ()

/-- To the next backtick, or to the end, byte by byte. -/
def scanBacktick : P Unit := loop scanBacktickStep ()

def parseBacktickIdentifier : P String := do
  skipWhitespace
  if !(← looksAt '\x60') then fail "Expected backtick identifier"
  else
    advance 1
    let start ← position
    note (.quoted (← rest))
    scanBacktick
    if ← atEnd then fail "Unclosed backtick identifier"
    else
      let ident ← textSince start
      advance 1
      return String.ofList ident

def parseColumnIdentifier : P String := do
  skipWhitespace
  if ← looksAt '\x60' then parseBacktickIdentifier
  else
    match ← peekWord with
    | none => fail "Expected column identifier"
    | some col =>
      advance (wordLen col)
      return col

/-- The text between a quote and the next one like it, where the cursor is at the first. -/
def parseQuoted (unterminated : String) : P String := do
  match ← rest with
  | [] => fail unterminated
  | quote :: text =>
    if quote ∈ text then
      let s := text.takeWhile (· != quote)
      advance (quote.utf8Size + byteLen s + quote.utf8Size)
      return String.ofList s
    else fail unterminated

end

end Rekuiper.Parser
