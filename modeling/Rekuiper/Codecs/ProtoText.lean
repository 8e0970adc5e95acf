import Rekuiper.Codecs.Protobuf
import Rekuiper.Lib.Scanner
import Rekuiper.Lib.Text

/-!
# Parsing `.proto` files

`parse_proto` takes the comments out of a text and reads its messages with a cursor. The body of a
message is read by another cursor over the text between its braces. Statements are skipped byte by
byte; an error about a field shows the first bytes of the text that is left.
-/

namespace Rekuiper.Codecs

open Lib Scan

/-- What the standard library knows of characters, and the `Debug` text of a string. -/
class ProtoChars where
  /-- `char::is_alphabetic` -/
  isAlphabetic : Char → Bool
  /-- `char::is_alphanumeric` -/
  isAlphanumeric : Char → Bool
  /-- `{:?}` -/
  debug : String → String

-- ---- Comments

inductive Commenting
  | code
  | string
  | escaped
  | line
  | block (prevStar : Bool)

/-- The loop of `strip_proto_comments` -/
def stripFrom : Commenting → List Char → List Char
  | .code, '/' :: '/' :: text => stripFrom .line text
  | .code, '/' :: '*' :: text => stripFrom (.block false) text
  | .code, c :: text => c :: stripFrom (if c = '"' then .string else .code) text
  | .string, c :: text =>
    c :: stripFrom (if c = '\\' then .escaped else if c = '"' then .code else .string) text
  | .escaped, c :: text => c :: stripFrom .string text
  | .line, c :: text => if c = '\n' then '\n' :: stripFrom .code text else stripFrom .line text
  | .block prevStar, c :: text =>
    if prevStar && c == '/' then ' ' :: stripFrom .code text else stripFrom (.block (c == '*')) text
  | .block _, [] => [' ']
  | _, [] => []

def stripProtoComments (text : List Char) : List Char := stripFrom .code text

-- ---- The cursor

/-- A step of a cursor; it notes the texts whose first bytes an error shows. -/
abbrev Proto (α : Type) := Scan (List Char) α

section Cursor

variable [ProtoChars]

def skipWsStep (_ : Unit) : Proto (Unit ⊕ Unit) := do
  match ← rest with
  | c :: _ =>
    if isWhitespace c then
      advance c.utf8Size
      return .inl ()
    else return .inr ()
  | [] => return .inr ()

def skipWs : Proto Unit := loop skipWsStep ()

/-- `at_end` -/
def endReached : Proto Bool := do
  skipWs
  atEnd

def isIdentPart (c : Char) : Bool := ProtoChars.isAlphanumeric c || c == '_' || c == '.'

def leadingIdent : List Char → List Char
  | [] => []
  | c :: text =>
    if ProtoChars.isAlphabetic c || c == '_' then c :: text.takeWhile isIdentPart else []

def consumeIdent : Proto (Option String) := do
  skipWs
  let text ← rest
  let stop := byteLen (leadingIdent text)
  if stop = 0 then return none
  else
    let ident ← upTo text stop
    advance stop
    return some (String.ofList ident)

def protoExpectChar (expected : Char) : Proto Bool := do
  skipWs
  if (← rest).head? == some expected then
    advance expected.utf8Size
    return true
  else return false

/-- Whether a scan is in a string, or behind a backslash in one. -/
inductive Quoting
  | code
  | string
  | escaped

/-- The bytes in front of the brace that closes the block. -/
def blockEnd : Nat → Quoting → List Char → Option Nat
  | _, _, [] => none
  | depth, .escaped, c :: text => (blockEnd depth .string text).map (c.utf8Size + ·)
  | depth, .string, c :: text =>
    let quoting := if c = '\\' then .escaped else if c = '"' then .code else .string
    (blockEnd depth quoting text).map (c.utf8Size + ·)
  | depth, .code, c :: text =>
    if c = '}' then
      if depth = 1 then some 0 else (blockEnd (depth - 1) .code text).map (c.utf8Size + ·)
    else
      let depth := if c = '{' then depth + 1 else depth
      (blockEnd depth (if c = '"' then .string else .code) text).map (c.utf8Size + ·)

def consumeBlock : Proto (Option (List Char)) := do
  if !(← protoExpectChar '{') then return none
  else
    let text ← rest
    match blockEnd 1 .code text with
    | none => return none
    | some i =>
      let inner ← upTo text i
      advance (i + 1)
      return some inner

inductive StatementEnd
  | semicolon (pos : Nat)
  | block (pos : Nat)
  | missing

/-- The loop of `skip_statement` over the bytes from a position on. -/
def statementEnd : Quoting → Nat → List UInt8 → StatementEnd
  | _, _, [] => .missing
  | .escaped, pos, _ :: bytes => statementEnd .string (pos + 1) bytes
  | .string, pos, b :: bytes =>
    statementEnd (if b = 92 then .escaped else if b = 34 then .code else .string) (pos + 1) bytes
  | .code, pos, b :: bytes =>
    if b = 34 then statementEnd .string (pos + 1) bytes
    else if b = 59 then .semicolon pos
    else if b = 123 then .block pos
    else statementEnd .code (pos + 1) bytes

def skipStatement : Proto Unit := do
  skipWs
  let s ← get
  match statementEnd .code s.pos ((s.input.flatMap String.utf8EncodeChar).drop s.pos) with
  | .semicolon pos => seek (pos + 1)
  | .block pos =>
    -- a second cursor over the same text
    seek pos
    if (← consumeBlock).isNone then seek (byteLen s.input)
  | .missing => seek (byteLen s.input)

/-- `ok_or_else` -/
def orFail {α : Type} (value : Option α) (message : String) : Proto α :=
  match value with
  | some a => pure a
  | none => fail message

-- ---- Messages

def insertMessage (name : String) (msg : ProtoMessage) (messages : List (String × ProtoMessage)) :
    List (String × ProtoMessage) :=
  (name, msg) :: messages.filter fun entry => entry.1 != name

/-- `trim_start_matches('.').rsplit('.').next()` -/
def lastSegment (typeName : String) : String :=
  String.ofList (((typeName.toList.dropWhile (· == '.')).reverse.takeWhile (· != '.')).reverse)

/-- The error where no field begins: it shows the first bytes of what is left. -/
def failFieldDeclaration (name : String) : Proto String := do
  let text ← rest
  note text
  let shown ← upTo text (min (byteLen text) 20)
  let got := ProtoChars.debug (String.ofList shown)
  fail s!"Expected field declaration in message {name}, got {got}"

def parseFieldNumber (name fieldName : String) : Proto UInt32 := do
  if !(← protoExpectChar '=') then fail s!"Expected '=' after field {fieldName} in message {name}"
  else
    skipWs
    let text ← rest
    let numEnd := byteLen (text.takeWhile Char.isDigit)
    if numEnd = 0 then fail s!"Expected field number for {fieldName} in message {name}"
    else
      let digits ← upTo text numEnd
      let number ← orFail ((parseDigits digits).filter (· < 2 ^ 32))
        s!"Bad field number for {fieldName} in message {name}"
      advance numEnd
      skipStatement
      return .ofNat number

/-- The first word of a field -/
def fieldStart (name : String) (ident : Option String) : Proto String :=
  match ident with
  | some first => pure first
  | none => failFieldDeclaration name

/-- The type of a field: its first word, or the one behind a label -/
def fieldType (name first : String) : Proto String := do
  if first == "repeated" || first == "optional" || first == "required" then
    orFail (← consumeIdent) s!"Expected field type in message {name}"
  else return first

/-- `[label] type name = number [options];`, or a statement that is skipped. -/
def parseField (name : String) (msg : ProtoMessage) : Proto ProtoMessage := do
  let first ← fieldStart name (← consumeIdent)
  let typeName ← fieldType name first
  if typeName == "option" || typeName == "reserved" || typeName == "extensions" ||
      typeName == "extend" then
    skipStatement
    return msg
  else
    let fieldName ← orFail (← consumeIdent) s!"Expected field name in message {name}"
    let number ← parseFieldNumber name fieldName
    let field : ProtoField := ⟨fieldName, lastSegment typeName, number, first == "repeated"⟩
    return { msg with fields := msg.fields ++ [field] }

/-- `self.rest().trim_start().starts_with(keyword)` -/
def looksAtKeyword (keyword : String) : Proto Bool :=
  return keyword.toList.isPrefixOf ((← rest).dropWhile isWhitespace)

/-- A definition that is skipped: `enum` or `oneof`. -/
def skipDefinition : Proto Unit := do
  let _ ← consumeIdent
  let _ ← consumeIdent
  if (← consumeBlock).isNone then skipStatement

def parseMessage (body : String → Proto ProtoMessage) (missing : String) (unclosed : String → String) :
    Proto (String × ProtoMessage) := do
  let name ← orFail (← consumeIdent) missing
  let inner ← orFail (← consumeBlock) (unclosed name)
  let parsed ← within inner (body name)
  return (name, parsed)

/-- A pass of the loop of `parse_message_body`, with the parser for the nested bodies -/
def bodyStep (nested : String → Proto ProtoMessage) (name : String) (msg : ProtoMessage) :
    Proto (ProtoMessage ⊕ ProtoMessage) := do
  if ← endReached then return .inr msg
  else if ← looksAtKeyword "message " then
    let _ ← consumeIdent
    let parsed ← parseMessage nested s!"Expected nested message name in {name}"
      fun nestedName => s!"Unclosed nested message {nestedName}"
    return .inl { msg with nested := insertMessage parsed.1 parsed.2 msg.nested }
  else if ← looksAtKeyword "enum " then
    skipDefinition
    return .inl msg
  else if ← looksAtKeyword "oneof " then
    skipDefinition
    return .inl msg
  else return .inl (← parseField name msg)

def parseMessageBody : Nat → String → Proto ProtoMessage
  | 0, _ => throw .unfinished
  | depth + 1, name => loop (bodyStep (parseMessageBody depth) name) ⟨[], []⟩

/-- A pass of the loop of `parse_proto` -/
def protoStep (depth : Nat) (messages : List (String × ProtoMessage)) :
    Proto (List (String × ProtoMessage) ⊕ List (String × ProtoMessage)) := do
  if ← endReached then return .inr messages
  else
    match ← consumeIdent with
    | some "message" =>
      let parsed ← parseMessage (parseMessageBody depth) "Expected message name"
        fun name => s!"Unclosed message {name}"
      return .inl (insertMessage parsed.1 parsed.2 messages)
    | some _ =>
      skipStatement
      return .inl messages
    | none => return .inr messages

/-- The run of `parse_proto` over a text. A body has fewer bytes than the text around it, so its
bytes bound the depth. -/
def parseProto (text : List Char) :
    Except Stop (List (String × ProtoMessage)) × Scanner (List Char) :=
  let cleaned := stripProtoComments text
  Scan.go (loop (protoStep (byteLen cleaned)) []) (Scanner.new cleaned)

end Cursor

end Rekuiper.Codecs
