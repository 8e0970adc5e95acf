import Mathlib.Data.List.Sort
import Mathlib.Data.String.Basic
import Rekuiper.Codecs.Protobuf
import Rekuiper.Lib.Cells
import Rekuiper.Lib.Decimal
import Rekuiper.Lib.Text

/-!
# Delimited files

The file sink writes a record as a line of cells around a delimiter, and quotes a cell that
holds the delimiter, a quote or a line break. The file source trims a line, splits it at the
delimiter and reads the pieces by position.
-/

namespace Rekuiper.Connectors

open Lib

variable {F : Type}

/-- The texts of values that `serde_json` writes and reads. -/
structure JsonTexts (F : Type) where
  toText : Value F → String
  fromText : String → Option (Value F)

-- ---- The sink

def metaKey : String := "__meta__"

def writtenKeys (data : List (String × Value F)) : List String :=
  ((data.map Prod.fst).filter fun k => k != metaKey && !startsWith k "__").insertionSort (· ≤ ·)

def joinWith (delim : String) (pieces : List String) : String :=
  String.ofList (delim.toList.intercalate (pieces.map String.toList))

/-- A cell in quotes, its own quotes doubled. -/
def quoted (s : String) : String :=
  String.ofList ('"' :: s.toList.flatMap (fun c => if c = '"' then ['"', '"'] else [c]) ++ ['"'])

def csvEscape (s delim : String) : String :=
  if decide (delim.toList <:+: s.toList) || s.toList.any (fun c => c = '"' || c = '\n' || c = '\r') then
    quoted s
  else s

def csvField [Float64 F] (json : JsonTexts F) (value : Option (Value F)) (delim : String) : String :=
  match value with
  | none | some .null => ""
  | some (.string s) => csvEscape s delim
  | some (.number n) => n.render
  | some (.bool b) => toString b
  | some other => json.toText other

def csvRow [Float64 F] (json : JsonTexts F) (keys : List String) (data : List (String × Value F))
    (delim : String) : String :=
  joinWith delim (keys.map fun k => csvField json (field k data) delim)

structure FileSink where
  hasHeader : Bool
  delimiter : Option String

def FileSink.delimiterStr (sink : FileSink) : String :=
  match sink.delimiter with
  | some d => if d ≠ "" then d else ","
  | none => ","

def FileSink.sendDelimited [Float64 F] (json : JsonTexts F) (sink : FileSink) (lines : List String)
    (data : List (String × Value F)) : List String :=
  let keys := writtenKeys data
  let header := if sink.hasHeader && lines.isEmpty then [joinWith sink.delimiterStr keys] else []
  lines ++ header ++ [csvRow json keys data sink.delimiterStr]

-- ---- The source

def parseI64 (s : String) : Option Int :=
  (parseInt s).filter fun n => minI64 ≤ n && n ≤ maxI64

structure FileSourceConfig where
  format : String
  hasHeader : Bool
  delimiter : Option Char

variable [Float64 F] [Codecs.FloatBits F]

def parseDelimitedToken (s : String) : Value F :=
  match parseI64 s with
  | some i => .number (.int i)
  | none => ((Codecs.FloatBits.parseF64 s).bind Codecs.finiteNumber).getD (.string s)

def parseDelimitedLine (line : String) (delimiter : Char) (headers : List String) :
    List (String × Value F) :=
  headers.zipIdx.foldl
    (fun map (header, i) =>
      setField header (parseDelimitedToken (trim ((splitText delimiter line).getD i ""))) map)
    []

/-- The headers that are known afterwards, and the records of a line, unless it is a header. -/
def decodeLine (json : JsonTexts F) (config : FileSourceConfig) (headers : Option (List String))
    (delimiter : Char) (line : String) :
    Option (List String) × Option (List (List (String × Value F))) :=
  if eqIgnoreAsciiCase config.format "delimited" || eqIgnoreAsciiCase config.format "csv" then
    match headers with
    | none =>
      if config.hasHeader then
        (some ((splitText delimiter line).map fun h => trimMatches '"' (trim h)), none)
      else (none, some [])
    | some headers => (some headers, some [parseDelimitedLine line delimiter headers])
  else
    match json.fromText line with
    | some (.object map) => (headers, some [map])
    | some (.array items) =>
      (headers, some (items.filterMap fun
        | .object map => some map
        | _ => none))
    | _ => (headers, some [])

def readLine (json : JsonTexts F) (config : FileSourceConfig)
    (state : Option (List String) × List (List (String × Value F))) (line : String) :
    Option (List String) × List (List (String × Value F)) :=
  if trim line = "" then state
  else
    let (headers, records) :=
      decodeLine json config state.1 (config.delimiter.getD ',') (trim line)
    (headers, state.2 ++ records.getD [])

def readLines (json : JsonTexts F) (config : FileSourceConfig) (lines : List String) :
    List (List (String × Value F)) :=
  (lines.foldl (readLine json config) (none, [])).2

end Rekuiper.Connectors
