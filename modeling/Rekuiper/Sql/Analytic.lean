import Rekuiper.Sql.Aggregate
import Rekuiper.Sql.Operators

/-!
# Analytic functions

`acc_*`, `lag`, `had_changed`, `changed_col` and the sequence functions. Each keeps what it
has to remember in entries of the rule's state, under keys made of the function's name, the text of
the call and the partition. Most of them use one entry: `Update` says what they give and
store for what the entry holds.

`to_ekuiper_string_qualified`, which names expressions in error messages, names the calls in the keys
with no stream, as `to_ekuiper_string`.
-/

namespace Rekuiper.Sql

open Lib

variable {F : Type}

-- ---- Texts of expressions

section
variable [Float64 F]

/-- The text of a literal. `jsonText` is `to_string`. -/
def literalText (jsonText : Value F → String) : Value F → String
  | .string s => s
  | .number n => n.render
  | .bool b => toString b
  | .null => "nil"
  | v => jsonText v

mutual
def toEkuiperStringQualified (jsonText : Value F → String) (stream : String) : Expr F → String
  | .wildcard => "*"
  | .wildcardModified except replace =>
    let kept := ", ".intercalate except
    let replaced := ", ".intercalate (replaceTexts jsonText stream replace)
    "*" ++ (if except.isEmpty then "" else s!" EXCEPT ({kept})") ++
      (if replace.isEmpty then "" else s!" REPLACE ({replaced})")
  | .identifier name =>
    if stream ≠ "" ∧ '.' ∉ name.toList then s!"{stream}.{name}" else name
  | .literal value => literalText jsonText value
  | .binaryOp left op right =>
    let l := toEkuiperStringQualified jsonText stream left
    let token := opToken op
    let r := toEkuiperStringQualified jsonText stream right
    s!"binaryExpr:\x7b {l} {token} {r} \x7d"
  | .unaryOp op expr =>
    let token := match op with
      | .not => "NOT"
      | .neg => "-"
    let e := toEkuiperStringQualified jsonText stream expr
    s!"unaryExpr:\x7b {token} {e} \x7d"
  | .fieldAccess parent field =>
    let p := toEkuiperStringQualified jsonText "" parent
    s!"{p}.{field}"
  | .index base index =>
    let b := toEkuiperStringQualified jsonText stream base
    let i := toEkuiperStringQualified jsonText stream index
    s!"binaryExpr:\x7b {b}[{i}] \x7d"
  | .slice base lo hi =>
    let b := toEkuiperStringQualified jsonText stream base
    let l := optText jsonText stream lo
    let h := optText jsonText stream hi
    s!"{b}[{l}:{h}]"
  | .call name args =>
    let texts := ", ".intercalate (argTexts jsonText stream args)
    s!"Call:\x7b name:{name}, args:[{texts}] \x7d"
  | .between expr low high negated =>
    let e := toEkuiperStringQualified jsonText stream expr
    let word := if negated then "NOT BETWEEN" else "BETWEEN"
    let l := toEkuiperStringQualified jsonText stream low
    let h := toEkuiperStringQualified jsonText stream high
    s!"{e} {word} {l} AND {h}"
  | .inList expr list negated =>
    let e := toEkuiperStringQualified jsonText stream expr
    let word := if negated then "NOT IN" else "IN"
    let items := ", ".intercalate (argTexts jsonText stream list)
    s!"{e} {word} ({items})"
  | .isNull expr negated =>
    let e := toEkuiperStringQualified jsonText stream expr
    let words := if negated then "IS NOT NULL" else "IS NULL"
    s!"{e} {words}"
  | .over call _ _ => toEkuiperStringQualified jsonText stream call
  | .case _ _ _ => "caseExpr"
def argTexts (jsonText : Value F → String) (stream : String) : List (Expr F) → List String
  | [] => []
  | e :: es => toEkuiperStringQualified jsonText stream e :: argTexts jsonText stream es
def optText (jsonText : Value F → String) (stream : String) : Option (Expr F) → String
  | none => ""
  | some e => toEkuiperStringQualified jsonText stream e
def replaceTexts (jsonText : Value F → String) (stream : String) :
    List (Expr F × String) → List String
  | [] => []
  | (e, name) :: rest =>
    let text := toEkuiperStringQualified jsonText stream e
    s!"{text} AS {name}" :: replaceTexts jsonText stream rest
end

end

-- ---- Entries of the state

def maxStateKeys : Nat := 10000

def maxAccItems : Nat := 10000

def maxCepPartitions : Nat := 10000

/-- The keys of a map in the order in which it lists them, which is not specified. -/
abbrev KeyOrder (F : Type) := HashMap String (Value F) → List String

/-- Inserts an entry; a new one takes the place of the first that may be evicted when the
map holds `most` entries. -/
def insertEvicting (keyOrder : KeyOrder F) (most : Nat) (evictable : String → Bool)
    (m : HashMap String (Value F)) (key : String) (value : Value F) : HashMap String (Value F) :=
  if key ∉ m ∧ most ≤ m.entries.length then
    match (keyOrder m).find? evictable with
    | some evicted => (m.erase evicted).insert key value
    | none => m.insert key value
  else m.insert key value

def insertBounded (keyOrder : KeyOrder F) :=
  insertEvicting keyOrder maxStateKeys fun k => !startsWith k "__" && !startsWith k "$$"

def insertCep (keyOrder : KeyOrder F) :=
  insertEvicting keyOrder maxCepPartitions fun k => startsWith k "cep:"

abbrev Update (F : Type) := Option (Value F) → Value F × Option (Value F)

def updateEntry
    (insert : HashMap String (Value F) → String → Value F → HashMap String (Value F))
    (key : String) (f : Update F) : StateM (HashMap String (Value F)) (Value F) := fun m =>
  match f (m.lookup key) with
  | (result, none) => (result, m)
  | (result, some value) => (result, insert m key value)

section
variable [Float64 F]

-- ---- Accumulators

/-- `eval_arith` of an addition -/
def addValues (left right : Value F) : Value F :=
  match left.asI64, right.asI64 with
  | some l, some r => ((checkedAdd l r).map ofI64).getD .null
  | _, _ =>
    match left.asF64, right.asF64 with
    | some l, some r => ofFloat (Float64.add l r)
    | _, _ => .null

def toStringAlways (env : Env F) : Value F → String
  | .null => ""
  | .string s => s
  | .number n => n.render
  | .bool b => toString b
  | v => env.jsonText v

/-- The items of a list that is full without its first. -/
def pushItem {α : Type} (items : List α) (item : α) : List α :=
  (if maxAccItems ≤ items.length then items.drop 1 else items) ++ [item]

/-- The entries that `acc_map_agg` has stored. -/
def mapEntries (stored : Option (Value F)) : List (String × Value F) :=
  ((stored.bind Value.asArray).getD []).filterMap fun item =>
    match item.get "key", item.get "value" with
    | some (.string key), some value => some (key, value)
    | _, _ => none

def accMapAgg (env : Env F) : List (Value F) → Update F
  | [k, value], stored =>
    let key := toStringAlways env k
    let entries := mapEntries stored
    let entries :=
      match entries.findIdx? fun entry => entry.1 == key with
      | some i => entries.set i (key, value)
      | none => pushItem entries (key, value)
    let out := Value.array (entries.map fun (k, v) => .object [("key", .string k), ("value", v)])
    (out, some out)
  | _, _ => (.null, none)

/-- `acc_max` and `acc_min`: a value replaces the one that it compares so to. -/
def accExtreme (wanted : Ordering) : List (Value F) → Update F
  | [value], stored =>
    if value.isNull then (stored.getD .null, none)
    else
      match stored with
      | some current =>
        if compareValues value current = some wanted then (value, some value) else (current, none)
      | none => (value, some value)
  | _, _ => (.null, none)

/-- The comparison and the value that `acc_max_by` and `acc_min_by` have stored. -/
def storedBy (stored : Option (Value F)) : Option (Value F × Value F) :=
  stored.bind fun v =>
    match v.get "compare", v.get "value" with
    | some compare, some value => some (compare, value)
    | _, _ => none

def accExtremeBy (wanted : Ordering) : List (Value F) → Update F
  | [value, compare], stored =>
    let current := storedBy stored
    let kept := ((current.map Prod.snd).getD .null, none)
    if value.isNull || compare.isNull then kept
    else
      let wins : Bool := match current with
        | none => true
        | some (best, _) =>
          match compareValues compare best with
          | some order => order == .eq || order == wanted
          | none => false
      if wins then (value, some (.object [("compare", compare), ("value", value)])) else kept
  | _, _ => (.null, none)

def accCount : List (Value F) → Update F
  | [value], stored =>
    if value.isNull then (stored.getD (ofI64 0), none)
    else
      let next := ofI64 (saturate ((stored.bind Value.asI64).getD 0 + 1))
      (next, some next)
  | _, _ => (.null, none)

def accSum : List (Value F) → Update F
  | [value], stored =>
    if !value.isNumber then (stored.getD .null, none)
    else
      let next := match stored with
        | some current => addValues current value
        | none => value
      (next, some next)
  | _, _ => (.null, none)

def average (sum : Option F) (count : Option Int) : Value F :=
  match sum, count with
  | some s, some c => if 0 < c then ofFloat (Float64.div s (Float64.ofInt c)) else .null
  | _, _ => .null

def accAvgCurrent (stored : Option (Value F)) : Value F :=
  average ((stored.bind fun v => v.get "sum").bind Value.asF64)
    ((stored.bind fun v => v.get "count").bind Value.asI64)

def accAvg : List (Value F) → Update F
  | [value], stored =>
    if !value.isNumber then (accAvgCurrent stored, none)
    else
      let sum := addValues ((stored.bind fun v => v.get "sum").getD (ofI64 0)) value
      let count := saturate (((stored.bind fun v => v.get "count").bind Value.asI64).getD 0 + 1)
      (average sum.asF64 (some count), some (.object [("count", ofI64 count), ("sum", sum)]))
  | _, _ => (.null, none)

/-- `acc_collect`, and `acc_distinct_collect` with `distinct`. -/
def accCollect (distinct : Bool) : List (Value F) → Update F
  | [], _ => (.null, none)
  | value :: _, stored =>
    let items := (stored.bind Value.asArray).getD []
    if value.isNull || (distinct && items.any fun existing => valuesEqual existing value) then
      (.array items, none)
    else
      let items := pushItem items value
      (.array items, some (.array items))

def accCurrent (lowered : String) (stored : Option (Value F)) : Value F :=
  if lowered = "acc_count" then stored.getD (ofI64 0)
  else if lowered = "acc_avg" then accAvgCurrent stored
  else stored.getD .null

def accUpdate (env : Env F) (lowered : String) (args : List (Value F)) : Update F :=
  match lowered with
  | "acc_map_agg" => accMapAgg env args
  | "acc_max" => accExtreme .gt args
  | "acc_max_by" => accExtremeBy .gt args
  | "acc_min" => accExtreme .lt args
  | "acc_min_by" => accExtremeBy .lt args
  | "acc_count" => accCount args
  | "acc_sum" => accSum args
  | "acc_avg" => accAvg args
  | "acc_collect" => accCollect false args
  | "acc_distinct_collect" | "distinct_acc" => accCollect true args
  | _ => fun _ => (.null, none)

def evalAccCall (env : Env F) (lowered : String) (args : List (Value F)) (skipUpdate : Bool) :
    Update F := fun stored =>
  if skipUpdate then (accCurrent lowered stored, none) else accUpdate env lowered args stored

-- ---- `lag`

/-- `to_i64_arg` -/
def toI64Arg (env : Env F) : Value F → Option Int
  | .number (.int n) => if n ≤ maxI64 then some n else none
  | .number (.float f) => if Float64.isFinite f then some (Float64.toInt f) else none
  | .string s =>
    let t := trim s
    (parseI64 t).or
      ((env.parseF64 t).bind fun f =>
        if Float64.isFinite f then some (Float64.toInt f) else none)
  | .bool b => some (if b then 1 else 0)
  | _ => none

def maxLagItems : Nat := 10000

def evalLag (env : Env F) (args : List (Value F)) (skipUpdate : Bool) : Update F := fun stored =>
  match args with
  | [] => (.null, none)
  | value :: _ =>
    if 4 < args.length then (.null, none)
    else
      let offset := (args[1]?.bind (toI64Arg env)).getD 1
      if offset ≤ 0 then (value, none)
      else
        let maxKeep := min offset.toNat maxLagItems
        let default := args[2]?.getD .null
        let ignoreNull := (args[3]?.bind Value.asBool).getD false
        let history := (stored.bind Value.asArray).getD []
        let out :=
          if maxKeep ≤ history.length then history.getD (history.length - maxKeep) .null else default
        if skipUpdate || (ignoreNull && value.isNull) then (out, none)
        else
          let kept := history.drop (history.length + 1 - maxKeep)
          (out, some (.array (kept ++ [value])))

-- ---- `had_changed` and `changed_col`

def changedArgs (args : List (Value F)) : List (Value F) :=
  match args with
  | .bool _ :: col :: cols => col :: cols
  | _ => args

def updateChanged (current : Value F) : Update F := fun previous =>
  if current.isNull || previous.any fun p => valuesEqual p current then (.null, none)
  else (current, some current)

def changedValues (keyOrder : KeyOrder F) (lowered callId partitionKey : String) :
    List (Value F × Nat) → StateM (HashMap String (Value F)) (List (Value F))
  | [] => pure []
  | (current, idx) :: rest => do
    let value ← updateEntry (insertBounded keyOrder)
      s!"{lowered}:{callId}:{idx}:{partitionKey}" (updateChanged current)
    let values ← changedValues keyOrder lowered callId partitionKey rest
    return if value.isNull then values else value :: values

def evalChanged (keyOrder : KeyOrder F) (lowered : String) (args : List (Value F))
    (callId partitionKey : String) : StateM (HashMap String (Value F)) (Value F) :=
  if args.isEmpty then pure .null
  else do
    let changed ← changedValues keyOrder lowered callId partitionKey (changedArgs args).zipIdx
    return if lowered = "had_changed" then .bool !changed.isEmpty else changed.headD .null

-- ---- `sequence_match` and `sequence_count`

/-- The stage that a sequence is at, when it began, and how many are complete. -/
structure CepState where
  stage : Nat
  start : Int
  completed : Int

def CepState.load (eventTs : Int) (stored : Option (Value F)) : CepState :=
  match stored with
  | some (.array [stage, start, completed]) =>
    ⟨(stage.asU64.getD 0).toNat, start.asI64.getD eventTs, completed.asI64.getD 0⟩
  | _ => ⟨0, eventTs, 0⟩

def CepState.store (s : CepState) : Value F :=
  .array [ofI64 s.stage, ofI64 s.start, ofI64 s.completed]

def CepState.expire (s : CepState) (maxSpanMs eventTs : Int) : CepState :=
  if 0 < s.stage ∧ 0 < maxSpanMs ∧ maxSpanMs < saturate (eventTs - s.start) then
    { s with stage := 0 }
  else s

def CepState.advance (s : CepState) (steps : List Bool) (eventTs : Int) : CepState :=
  if s.stage = 0 then
    if steps.getD 0 false then { s with stage := 1, start := eventTs } else s
  else if s.stage < steps.length then
    if steps.getD s.stage false then { s with stage := s.stage + 1 }
    else if steps.getD 0 false then { s with stage := 1, start := eventTs }
    else s
  else s

def CepState.finish (s : CepState) (numSteps : Nat) : Bool × CepState :=
  if numSteps ≤ s.stage then (true, { s with stage := 0, completed := saturate (s.completed + 1) })
  else (false, s)

def evalSequenceCep (env : Env F) (lowered : String) (args : List (Value F)) (eventTs : Int)
    (skipUpdate : Bool) : Update F := fun stored =>
  let isCount := lowered == "sequence_count"
  if args.length < 3 then (if isCount then ofI64 0 else .bool false, none)
  else
    let maxSpanMs := (args[0]?.bind (toI64Arg env)).getD 0
    let steps := (args.drop 1).map fun v => v.asBool.getD false
    let s := CepState.load eventTs stored
    if skipUpdate then (if isCount then ofI64 s.completed else .bool false, none)
    else
      let (matchedNow, s) := ((s.expire maxSpanMs eventTs).advance steps eventTs).finish steps.length
      (if isCount then ofI64 s.completed else .bool matchedNow, some s.store)

-- ---- All of them

def evalAnalytic (env : Env F) (keyOrder : KeyOrder F) (call : AnalyticCall F) :
    StateM (HashMap String (Value F)) (Value F) :=
  let { name, args, callId, partitionKey, skipUpdate, eventTime } := call
  if isAccCall name then
    updateEntry (insertBounded keyOrder) s!"{name}:{callId}:{partitionKey}"
      (evalAccCall env name args skipUpdate)
  else if name = "lag" then
    updateEntry (insertBounded keyOrder) s!"lag:{callId}:{partitionKey}"
      (evalLag env args skipUpdate)
  else if name = "had_changed" ∨ name = "changed_col" then
    evalChanged keyOrder name args callId partitionKey
  else
    updateEntry (insertCep keyOrder) s!"cep:{name}:{callId}:{partitionKey}"
      (evalSequenceCep env name args (eventTime.getD 0) skipUpdate)

/-- The evaluator with its own analytic functions, and the texts of expressions by which it
names their state. -/
def Env.analytics (env : Env F) (keyOrder : KeyOrder F) : Env F :=
  { env with
    toEkuiperString := toEkuiperStringQualified env.jsonText ""
    analytic := evalAnalytic env keyOrder }

end

end Rekuiper.Sql
