import Rekuiper.Lib.Maps
import Rekuiper.Parser.Columns

/-!
# `CREATE STREAM` and `CREATE TABLE`

The two statements differ in their keyword and in the word for it in the errors.
-/

namespace Rekuiper.Parser

open Lib Scan

structure StreamColumn where
  name : String
  dataType : String
  defaultValue : Option String
  deriving DecidableEq, Repr

structure CreateStmt where
  name : String
  fields : List StreamColumn
  options : HashMap String String

abbrev CreateStreamStmt := CreateStmt

abbrev CreateTableStmt := CreateStmt

-- ---- Columns

def columnName (part : List Char) : P (List Char × List Char) :=
  match part with
  | quote :: text =>
    if quote == '"' || quote == '\x60' || quote == '\'' then
      if quote ∈ text then
        let name := text.takeWhile (· != quote)
        return (name, trimChars (text.drop (name.length + 1)))
      else
        let shown := String.ofList part
        fail s!"Unclosed quote in column definition: {shown}"
    else
      let name := part.takeWhile (!isWhitespace ·)
      return (name, trimChars (part.drop name.length))
  | [] => return ([], [])

def stripSuffix (suffix : String) (s : List Char) : Option (List Char) :=
  if suffix.toList.isSuffixOf s then some (s.take (s.length - suffix.length)) else none

def stripNull (rawType : List Char) : List Char :=
  match (stripSuffix "not null" rawType).or (stripSuffix "NOT NULL" rawType) with
  | some stripped => trimChars stripped
  | none =>
    match (stripSuffix "null" rawType).or (stripSuffix "NULL" rawType) with
    | some stripped => trimChars stripped
    | none => rawType

def columnType (rawType : List Char) : String :=
  let rawType := stripNull (trimChars rawType)
  if rawType.isEmpty then "string"
  else toAsciiLowercase (trimAny ['"', '\'', '\x60', ',', ';'] (String.ofList rawType))

/-- `trim_end_matches` -/
def trimEndAny (cs : List Char) (s : List Char) : List Char :=
  (s.reverse.dropWhile cs.contains).reverse

def columnDefault (s : List Char) : String :=
  String.ofList (trimChars (trimEndAny [';', ','] (trimChars s)))

def parseColumn (part : List Char) : P (Option StreamColumn) := do
  if part.isEmpty then return none
  else
    let (name, remainder) ← columnName part
    if name.isEmpty then return none
    else
      note (.columnType remainder)
      match splitAtDefault remainder with
      | none => throw .panic
      | some (rawType, default) =>
        let name := String.ofList name
        let dataType := columnType rawType
        if isValidStreamType dataType.toList then
          return some { name, dataType, defaultValue := default.map columnDefault }
        else fail s!"Unsupported or invalid data type '{dataType}' for column '{name}'"

def parseColumns : List (List Char) → P (List StreamColumn)
  | [] => return []
  | part :: parts => do
    let field ← parseColumn (trimChars part)
    let fields ← parseColumns parts
    return field.toList ++ fields

/-- Parse an optional `(name TYPE, ...)` column list, returning no columns when the next token is not
`(`. -/
def parseColumnDefs : P (List StreamColumn) := do
  if ← looksAt '(' then
    match textInParens 0 none (← rest) with
    | none => fail "Unclosed parenthesis"
    | some text =>
      advance (byteLen text + 1)
      parseColumns (splitTopLevelCommas (text.drop 1))
  else return []

-- ---- Options

def stripQuotes (v : List Char) : List Char :=
  match v.head?, v.getLast? with
  | some '\'', some '\'' | some '"', some '"' => if 2 ≤ v.length then (v.drop 1).dropLast else v
  | _, _ => v

section
variable [Unicode]

def optionKey (k : List Char) : String :=
  Unicode.toUppercase (trimAny ['"', '\'', '\x60'] (String.ofList (trimChars k)))

def insertOption (options : HashMap String String) (part : List Char) : HashMap String String :=
  let part := trimChars part
  if '=' ∈ part then
    let k := part.takeWhile (· != '=')
    let v := trimChars (part.drop (k.length + 1))
    options.insert (optionKey k) (String.ofList (stripQuotes v))
  else options

/-- Parse `WITH (k = v, ...)` options with quote-aware delimiter scanning. -/
def parseWithOptions : P (HashMap String String) := do
  if ← matchKeyword "WITH" then
    skipWhitespace
    if ← looksAt '(' then
      advance 1
      match textInParens 1 none (← rest) with
      | none => fail "Unclosed WITH parenthesis"
      | some text =>
        advance (byteLen text + 1)
        return (splitCommas false 0 none [] text).foldl insertOption ∅
    else return ∅
  else return ∅

-- ---- Statements

/-- The token that an error shows: a word, with `quotes` also a word behind a quote, or a
character. -/
def foundToken (quotes : Bool) : P String := do
  match ← peekWord with
  | some w => return w
  | none =>
    match (← rest).dropWhile isWhitespace with
    | [] => return ""
    | c :: text =>
      if quotes && (c == '"' || c == '\'') then return String.ofList (text.takeWhile isWordChar)
      else return String.ofList [c]

/-- The columns of a statement: none where the name is followed by `WITH`, the end or a semicolon. -/
def parseSchema (noun : String) : P (List StreamColumn) := do
  skipWhitespace
  if ← looksAt '(' then parseColumnDefs
  else if ← peekWordIs "WITH" then return []
  else if ← atEnd then return []
  else if ← looksAt ';' then return []
  else
    let tok ← foundToken true
    fail s!"found \"{tok}\", expected lparen after {noun} name."

def parseSemicolon : P Unit := do
  skipWhitespace
  if ← looksAt ';' then
    advance 1
    skipWhitespace

def parseEnd (noun : String) : P Unit := do
  parseSemicolon
  if !(← atEnd) then
    let tok ← foundToken false
    fail s!"found \"{tok}\", expected semicolon or EOF after {noun} options."

def parseCreate (kw noun : String) : P CreateStmt := do
  expectKeyword "CREATE"
  expectKeyword kw
  skipWhitespace
  match ← peekWord with
  | none => fail s!"Expected {noun} name"
  | some name =>
    consumeWord name
    let fields ← parseSchema noun
    let options ← parseWithOptions
    parseEnd noun
    return { name, fields, options }

def parseCreateStream : P CreateStreamStmt := parseCreate "STREAM" "stream"

def parseCreateTable : P CreateTableStmt := parseCreate "TABLE" "table"

end

end Rekuiper.Parser
