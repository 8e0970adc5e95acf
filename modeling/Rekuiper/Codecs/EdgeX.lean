import Rekuiper.Codecs.RoundTrip
import Rekuiper.Connectors.DelimitedRoundTrip
import Rekuiper.Lib.StableSort

/-!
# The EdgeX codec

An EdgeX event has a reading for every field of a record: its text and the name of its type.
The decoder tries the named type, and then all types that are not text, whatever the name is.
So a text comes back unless it looks like a number or a boolean, and an integer unless it is
greater than any `i64`.
-/

namespace Rekuiper.Codecs

open Lib
open Connectors (JsonTexts metaKey parseI64)

variable {F : Type}

-- ---- Events

structure EdgeXReading (F : Type) where
  id : String
  deviceName : String
  resourceName : String
  profileName : String
  valueType : String
  value : Option (Value F)
  binaryValue : Option String
  origin : Int64

structure EdgeXEvent (F : Type) where
  apiVersion : String
  id : String
  deviceName : String
  profileName : String
  sourceName : String
  origin : Int64
  readings : List (EdgeXReading F)
  tags : HashMap String (Value F)

/-- The JSON of a reading, with its keys in order. -/
def EdgeXReading.toValue (r : EdgeXReading F) : Value F :=
  .object [("binaryValue", (r.binaryValue.map .string).getD .null),
    ("deviceName", .string r.deviceName), ("id", .string r.id),
    ("origin", .number (.int r.origin.toInt)), ("profileName", .string r.profileName),
    ("resourceName", .string r.resourceName), ("value", r.value.getD .null),
    ("valueType", .string r.valueType)]

def EdgeXEvent.toValue (e : EdgeXEvent F) : Value F :=
  .object [("apiVersion", .string e.apiVersion), ("deviceName", .string e.deviceName),
    ("id", .string e.id), ("origin", .number (.int e.origin.toInt)),
    ("profileName", .string e.profileName),
    ("readings", .array (e.readings.map EdgeXReading.toValue)),
    ("sourceName", .string e.sourceName), ("tags", .ofMap e.tags)]

/-- The members of a derived structure: by their names in an object, by their places in an
array, in which all up to the last one without a default have to stand. -/
def members (names : List String) (required : Nat) : Value F → Option (String → Option (Value F))
  | .object fields => some fun name => field name fields
  | .array items =>
    if required ≤ items.length ∧ items.length ≤ names.length then
      some fun name => items[names.idxOf name]?
    else none
  | _ => none

def stringOrDefault : Option (Value F) → Option String
  | none => some ""
  | some (.string s) => some s
  | some _ => none

def i64OrDefault : Option (Value F) → Option Int64
  | none => some 0
  | some (.number (.int n)) => if n ≤ maxI64 then some (.ofInt n) else none
  | some _ => none

def optionalString : Option (Value F) → Option (Option String)
  | none | some .null => some none
  | some (.string s) => some (some s)
  | some _ => none

def optionalValue : Option (Value F) → Option (Value F)
  | none | some .null => none
  | some v => some v

def EdgeXReading.fromValue (v : Value F) : Option (EdgeXReading F) := do
  let get ← members ["id", "deviceName", "resourceName", "profileName", "valueType", "value",
    "binaryValue", "origin"] 6 v
  let id ← stringOrDefault (get "id")
  let deviceName ← stringOrDefault (get "deviceName")
  let resourceName ← stringOrDefault (get "resourceName")
  let profileName ← stringOrDefault (get "profileName")
  let valueType ← stringOrDefault (get "valueType")
  let binaryValue ← optionalString (get "binaryValue")
  let origin ← i64OrDefault (get "origin")
  let value := optionalValue (get "value")
  some { id, deviceName, resourceName, profileName, valueType, value, binaryValue, origin }

def readingsOrDefault : Option (Value F) → Option (List (EdgeXReading F))
  | none => some []
  | some (.array items) => items.mapM EdgeXReading.fromValue
  | some _ => none

def mapOrDefault : Option (Value F) → Option (HashMap String (Value F))
  | none => some ∅
  | some (.object fields) => some (fields.foldl (fun map (k, v) => map.insert k v) ∅)
  | some _ => none

def EdgeXEvent.fromValue (v : Value F) : Option (EdgeXEvent F) := do
  let get ← members ["apiVersion", "id", "deviceName", "profileName", "sourceName", "origin",
    "readings", "tags"] 0 v
  let apiVersion ← stringOrDefault (get "apiVersion")
  let id ← stringOrDefault (get "id")
  let deviceName ← stringOrDefault (get "deviceName")
  let profileName ← stringOrDefault (get "profileName")
  let sourceName ← stringOrDefault (get "sourceName")
  let origin ← i64OrDefault (get "origin")
  let readings ← readingsOrDefault (get "readings")
  let tags ← mapOrDefault (get "tags")
  some { apiVersion, id, deviceName, profileName, sourceName, origin, readings, tags }

-- ---- Values

def parseBool (s : String) : Option Bool :=
  if s = "true" then some true else if s = "false" then some false else none

section

variable [Float64 F] [FloatBits F]

def parseInteger (s : String) : Option (Value F) := (parseI64 s).map fun i => .number (.int i)

def parseFloat (s : String) : Option (Value F) := (FloatBits.parseF64 s).bind finiteNumber

def parseBoolean (s : String) : Option (Value F) := (parseBool s).map .bool

def parseTagged (s valueType : String) : Option (Value F) :=
  let vt := toAsciiLowercase valueType
  if startsWith vt "int" || startsWith vt "uint" then parseInteger s
  else if startsWith vt "float" || vt == "double" then parseFloat s
  else if vt == "bool" || vt == "boolean" then parseBoolean s
  else none

def parseUntagged (s : String) : Option (Value F) :=
  (parseInteger s).or ((parseFloat s).or (parseBoolean s))

def parseEdgexValue (val : Option (Value F)) (binary : Option String) (valueType : String) :
    Value F :=
  match binary with
  | some b => .string b
  | none =>
    match val with
    | none => .null
    | some (.string s) =>
      ((parseTagged (trim s) valueType).or (parseUntagged (trim s))).getD (.string s)
    | some v => v

def edgexValueToStringAndType : Value F → String × String
  | .number (.int n) => ("Int64", toString n)
  | .number (.float f) => ("Float64", Float64.render f)
  | .bool b => ("Bool", toString b)
  | .string s => ("String", s)
  | other => ("String", other.toJson)

-- ---- The codec

/-- What the clock and the random generator give to an event. -/
structure EdgeXStamp where
  nowNanos : Int64
  eventId : String
  readingId : String → String

omit [Float64 F] [FloatBits F] in
def setText (key text : String) (fields : List (String × Value F)) : List (String × Value F) :=
  if text = "" then fields else setField key (.string text) fields

omit [Float64 F] [FloatBits F] in
def setOrigin (origin : Int64) (fields : List (String × Value F)) : List (String × Value F) :=
  if origin = 0 then fields else setField "origin" (.number (.int origin.toInt)) fields

def EdgeXEvent.metaMap (e : EdgeXEvent F) (correlationId : String) : List (String × Value F) :=
  let names := setText "sourceName" e.sourceName (setText "profileName" e.profileName
    (setText "deviceName" e.deviceName []))
  let stamped := setText "correlationid" correlationId (setOrigin e.origin (setText "id" e.id names))
  if e.tags.entries.isEmpty then stamped else setField "tags" (.ofMap e.tags) stamped

def EdgeXReading.metaMap (r : EdgeXReading F) : List (String × Value F) :=
  setOrigin r.origin (setText "valueType" r.valueType (setText "profileName" r.profileName
    (setText "deviceName" r.deviceName (setText "id" r.id []))))

def addReading (s : Row F × List (String × Value F)) (r : EdgeXReading F) :
    Row F × List (String × Value F) :=
  if r.resourceName = "" then s
  else (s.1.insert r.resourceName (parseEdgexValue r.value r.binaryValue r.valueType),
    setField r.resourceName (.object r.metaMap) s.2)

def eventValue (json : JsonTexts F) (root : Value F) : Value F :=
  match root.get "payload" with
  | some (.string s) => (json.fromText s).getD (.string s)
  | some p => p
  | none => (root.get "event").getD root

def edgexCorrelationId (root : Value F) : String :=
  (((root.get "correlationId").or (root.get "correlationid")).bind Value.asStr).getD ""

def edgexDecode (json : JsonTexts F) (payload : String) (extra : Option (Value F)) :
    Option (List (Row F)) := do
  let root ← json.fromText payload
  let event ← EdgeXEvent.fromValue (eventValue json root)
  let (rowData, metaMap) :=
    event.readings.foldl addReading (∅, event.metaMap (edgexCorrelationId root))
  let metaMap := match extra with
    | some (.object ext) => ext.foldl (fun map (k, v) => setField k v map) metaMap
    | _ => metaMap
  if rowData.entries.isEmpty then some []
  else some [rowData.insert metaKey (.object metaMap)]

def edgexReading (stamp : EdgeXStamp) (deviceName profileName : String)
    (entry : String × Value F) : EdgeXReading F where
  id := stamp.readingId entry.1
  deviceName := deviceName
  resourceName := entry.1
  profileName := profileName
  valueType := (edgexValueToStringAndType entry.2).1
  value := some (.string (edgexValueToStringAndType entry.2).2)
  binaryValue := none
  origin := stamp.nowNanos

/-- The event of a record: a reading for each field that is not internal, by name. -/
def edgexEvent (stamp : EdgeXStamp) (recordData : Row F)
    (deviceName profileName sourceName : String) : EdgeXEvent F :=
  let entries := recordData.entries.map fun entry => (entry.1, entry.2)
  let written := entries.filter fun entry => !(entry.1 == metaKey || startsWith entry.1 "_")
  { apiVersion := "v3"
    id := stamp.eventId
    deviceName := deviceName
    profileName := profileName
    sourceName := sourceName
    origin := stamp.nowNanos
    readings := sortByKey (·.resourceName)
      (written.map (edgexReading stamp deviceName profileName))
    tags := ∅ }

def edgexEncode (json : JsonTexts F) (stamp : EdgeXStamp) (recordData : Row F)
    (deviceName profileName sourceName : String) : String :=
  json.toText (edgexEvent stamp recordData deviceName profileName sourceName).toValue

end

-- ---- Reading an event back

theorem i64OrDefault_toInt (n : Int64) :
    i64OrDefault (some (.number (.int n.toInt)) : Option (Value F)) = some n := by
  have hle : n.toInt ≤ maxI64 := Int64.toInt_le n
  rw [i64OrDefault, if_pos hle, Int64.ofInt_toInt]

theorem EdgeXReading.fromValue_toValue {r : EdgeXReading F} {s : String}
    (hvalue : r.value = some (.string s)) : fromValue r.toValue = some r := by
  obtain ⟨id, deviceName, resourceName, profileName, valueType, value, binaryValue, origin⟩ := r
  cases hvalue
  have hbinary : optionalString (some ((binaryValue.map Value.string).getD .null) :
      Option (Value F)) = some binaryValue := by
    cases binaryValue <;> rfl
  simp [fromValue, toValue, members, field, stringOrDefault, optionalValue, hbinary,
    i64OrDefault_toInt]

theorem readings_read_back {readings : List (EdgeXReading F)}
    (hvalues : ∀ r ∈ readings, ∃ s, r.value = some (.string s)) :
    (readings.map EdgeXReading.toValue).mapM EdgeXReading.fromValue = some readings := by
  induction readings with
  | nil => rfl
  | cons r readings ih =>
    obtain ⟨⟨s, hs⟩, hvalues⟩ := List.forall_mem_cons.mp hvalues
    rw [List.map_cons, List.mapM_cons, EdgeXReading.fromValue_toValue hs, ih hvalues]
    rfl

theorem EdgeXEvent.fromValue_toValue {e : EdgeXEvent F} (htags : e.tags = ∅)
    (hvalues : ∀ r ∈ e.readings, ∃ s, r.value = some (.string s)) :
    fromValue e.toValue = some e := by
  obtain ⟨apiVersion, id, deviceName, profileName, sourceName, origin, readings, tags⟩ := e
  obtain rfl : tags = ∅ := htags
  have hreadings : (readings.map EdgeXReading.toValue).mapM EdgeXReading.fromValue =
      some readings := readings_read_back hvalues
  have hnone : Value.ofMap (∅ : HashMap String (Value F)) = .object [] := rfl
  simp [fromValue, toValue, members, field, stringOrDefault, i64OrDefault_toInt,
    readingsOrDefault, hreadings, hnone, mapOrDefault]

section

variable [Float64 F] [FloatBits F]

-- ---- Reading a value back

def sentBack (v : Value F) : Value F :=
  parseEdgexValue (some (.string (edgexValueToStringAndType v).2)) none
    (edgexValueToStringAndType v).1

def UntypedText (F : Type) [Float64 F] [FloatBits F] (s : String) : Prop :=
  parseI64 (trim s) = none ∧ (FloatBits.parseF64 (trim s) : Option F).bind finiteNumber = none ∧
    parseBool (trim s) = none

/-- A value that comes back as it is. -/
def Faithful : Value F → Prop
  | .string s => UntypedText F s
  | .number (.int n) => n ≤ maxI64
  | _ => True

theorem parseUntagged_none_iff {s : String} :
    (parseUntagged s : Option (Value F)) = none ↔ parseI64 s = none ∧
      (FloatBits.parseF64 s : Option F).bind finiteNumber = none ∧ parseBool s = none := by
  simp [parseUntagged, parseInteger, parseFloat, parseBoolean]

theorem parseUntagged_ne_string {s t : String} :
    (parseUntagged s : Option (Value F)) ≠ some (.string t) := by
  intro h
  rcases Option.or_eq_some_iff.mp h with h | ⟨-, h⟩
  · obtain ⟨n, -, h⟩ := Option.map_eq_some_iff.mp h
    cases h
  rcases Option.or_eq_some_iff.mp h with h | ⟨-, h⟩
  · obtain ⟨f, -, h⟩ := Option.bind_eq_some_iff.mp h
    unfold finiteNumber at h
    split at h <;> cases h
  · obtain ⟨b, -, h⟩ := Option.map_eq_some_iff.mp h
    cases h

theorem sentBack_string_iff {s : String} :
    (sentBack (.string s) : Value F) = .string s ↔ UntypedText F s := by
  have htag : (parseTagged (trim s) "String" : Option (Value F)) = none := rfl
  have hsent : (sentBack (.string s) : Value F) =
      (parseUntagged (trim s)).getD (.string s) := by
    simp only [sentBack, parseEdgexValue, edgexValueToStringAndType, htag, Option.none_or]
  rw [hsent, UntypedText, ← parseUntagged_none_iff]
  cases hparse : (parseUntagged (trim s) : Option (Value F)) with
  | none => exact iff_of_true rfl rfl
  | some v =>
    refine iff_of_false (fun h => ?_) (fun h => nomatch h)
    exact parseUntagged_ne_string (hparse.trans (congrArg some h))

theorem sentBack_bool (b : Bool) : (sentBack (.bool b) : Value F) = .bool b := by
  have htag : ∀ s, (parseTagged s "Bool" : Option (Value F)) = parseBoolean s := fun s => rfl
  have htrim : trim (toString b) = toString b := by cases b <;> rfl
  have hparse : parseBool (toString b) = some b := by cases b <;> rfl
  simp [sentBack, parseEdgexValue, edgexValueToStringAndType, htag, htrim, parseBoolean, hparse]

omit [Float64 F] [FloatBits F] in
theorem trim_toString (n : Int) : trim (toString n) = toString n := by
  have hstrip : strip isWhitespace (toString n).toList = (toString n).toList :=
    strip_eq_self
      (fun _ hc => Connectors.not_whitespace_of_toString (List.mem_of_mem_head? hc))
      (fun _ hc => Connectors.not_whitespace_of_toString (List.mem_of_mem_getLast? hc))
  rw [Connectors.trim_eq, hstrip, String.ofList_toList]

theorem sentBack_int_iff {n : Int} (hlow : minI64 ≤ n) :
    (sentBack (.number (.int n)) : Value F) = .number (.int n) ↔ n ≤ maxI64 := by
  have htag : ∀ s, (parseTagged s "Int64" : Option (Value F)) = parseInteger s := fun s => rfl
  have hsent : (sentBack (.number (.int n)) : Value F) = ((parseInteger (toString n)).or
      (parseUntagged (toString n))).getD (.string (toString n)) := by
    simp only [sentBack, parseEdgexValue, edgexValueToStringAndType, htag, trim_toString]
  have hparse : parseI64 (toString n) = if n ≤ maxI64 then some n else none := by
    rw [parseI64, parseInt_toString]
    by_cases hhigh : n ≤ maxI64
    · simp [hlow, hhigh]
    · simp [hlow, hhigh, Int.not_le.mp hhigh]
  by_cases hhigh : n ≤ maxI64
  · rw [if_pos hhigh] at hparse
    refine iff_of_true ?_ hhigh
    rw [hsent, parseInteger, hparse]
    rfl
  · rw [if_neg hhigh] at hparse
    refine iff_of_false (fun h => ?_) hhigh
    rw [hsent, parseInteger, hparse, Option.map_none, Option.none_or, parseUntagged, parseInteger,
      hparse, Option.map_none, Option.none_or] at h
    -- what is left of the number is a float, or a text
    cases hfloat : (parseFloat (toString n) : Option (Value F)) with
    | some v =>
      rw [hfloat] at h
      obtain ⟨f, -, hv⟩ := Option.bind_eq_some_iff.mp hfloat
      unfold finiteNumber at hv
      split at hv
      · cases hv
        cases h
      · cases hv
    | none =>
      rw [hfloat, Option.none_or, parseBoolean] at h
      cases hbool : parseBool (toString n) with
      | some b =>
        rw [hbool] at h
        cases h
      | none =>
        rw [hbool] at h
        cases h

-- ---- Reading a record back

theorem lookup_foldl_of_notMem {readings : List (EdgeXReading F)} {k : String}
    (hnot : k ∉ readings.map (·.resourceName)) (s : Row F × List (String × Value F)) :
    (readings.foldl addReading s).1.lookup k = s.1.lookup k := by
  induction readings generalizing s with
  | nil => rfl
  | cons r readings ih =>
    rw [List.map_cons, List.mem_cons, not_or] at hnot
    rw [List.foldl_cons, ih hnot.2, addReading]
    split
    · rfl
    · exact AList.lookup_insert_ne hnot.1

theorem lookup_foldl_addReading {readings : List (EdgeXReading F)}
    (hnodup : (readings.map (·.resourceName)).Nodup) {r : EdgeXReading F} (hr : r ∈ readings)
    (hname : r.resourceName ≠ "") (s : Row F × List (String × Value F)) :
    (readings.foldl addReading s).1.lookup r.resourceName =
      some (parseEdgexValue r.value r.binaryValue r.valueType) := by
  induction readings generalizing s with
  | nil => cases hr
  | cons first readings ih =>
    rw [List.map_cons, List.nodup_cons] at hnodup
    rw [List.foldl_cons]
    rcases List.mem_cons.mp hr with rfl | hr
    · rw [lookup_foldl_of_notMem hnodup.1, addReading, if_neg hname]
      exact AList.lookup_insert _
    · exact ih hnodup.2 hr _

/-- Keys of readings: they are not empty and do not begin with an underscore. -/
def ReadingKeys (recordData : Row F) : Prop :=
  ∀ k ∈ recordData, k ≠ "" ∧ startsWith k "_" = false

/-- Texts, booleans and integers of 64 bits. -/
def Typed (v : Value F) : Prop :=
  (∃ s, v = .string s) ∨ (∃ b, v = .bool b) ∨ ∃ n, v = .number (.int n) ∧ minI64 ≤ n ∧ n < 2 ^ 64

/-- One record comes back, with the same data apart from its metadata. -/
def ReadsBack (json : JsonTexts F) (stamp : EdgeXStamp) (recordData : Row F)
    (deviceName profileName sourceName : String) (extra : Option (Value F)) : Prop :=
  ∃ row, edgexDecode json (edgexEncode json stamp recordData deviceName profileName sourceName)
    extra = some [row] ∧ ∀ k ≠ metaKey, row.lookup k = recordData.lookup k

omit [FloatBits F] in
theorem mem_readings_iff {stamp : EdgeXStamp} {recordData : Row F}
    {deviceName profileName sourceName : String} (hkeys : ReadingKeys recordData)
    {r : EdgeXReading F} :
    r ∈ (edgexEvent stamp recordData deviceName profileName sourceName).readings ↔
      ∃ k v, recordData.lookup k = some v ∧ r = edgexReading stamp deviceName profileName (k, v) := by
  rw [edgexEvent, mem_sortByKey, List.mem_map]
  constructor
  · rintro ⟨⟨k, v⟩, hmem, rfl⟩
    obtain ⟨⟨k', v'⟩, hentry, heq⟩ := List.mem_map.mp (List.mem_filter.mp hmem).1
    cases heq
    exact ⟨k', v', AList.mem_lookup_iff.mpr hentry, rfl⟩
  · rintro ⟨k, v, hlookup, rfl⟩
    have hentry := AList.mem_lookup_iff.mp hlookup
    obtain ⟨-, hplain⟩ := hkeys k (AList.lookup_isSome.mp (by rw [hlookup]; rfl))
    have hmeta : k ≠ metaKey := by
      rintro rfl
      cases hplain
    refine ⟨(k, v), List.mem_filter.mpr ⟨List.mem_map.mpr ⟨⟨k, v⟩, hentry, rfl⟩, ?_⟩, rfl⟩
    simp [hplain, hmeta]

omit [FloatBits F] in
theorem nodup_readings (stamp : EdgeXStamp) (recordData : Row F)
    (deviceName profileName sourceName : String) :
    ((edgexEvent stamp recordData deviceName profileName sourceName).readings.map
      (·.resourceName)).Nodup := by
  rw [edgexEvent, ((sortByKey_perm _).map _).nodup_iff, List.map_map]
  have hnames : ((fun r : EdgeXReading F => r.resourceName) ∘
      edgexReading stamp deviceName profileName) = Prod.fst := rfl
  rw [hnames]
  refine (List.filter_sublist.map Prod.fst).nodup ?_
  rw [List.map_map]
  exact AList.keys_nodup recordData

theorem edgexDecode_encode {json : JsonTexts F} {stamp : EdgeXStamp} {recordData : Row F}
    {deviceName profileName sourceName : String}
    (hjson : json.fromText (edgexEncode json stamp recordData deviceName profileName sourceName) =
      some (edgexEvent stamp recordData deviceName profileName sourceName).toValue)
    (hne : recordData.entries ≠ []) (hkeys : ReadingKeys recordData) (extra : Option (Value F)) :
    ∃ row, edgexDecode json (edgexEncode json stamp recordData deviceName profileName sourceName)
      extra = some [row] ∧
        ∀ k ≠ metaKey, row.lookup k = (recordData.lookup k).map sentBack := by
  have hvalues : ∀ r ∈ (edgexEvent stamp recordData deviceName profileName sourceName).readings,
      ∃ s, r.value = some (.string s) := by
    intro r hr
    obtain ⟨k, v, -, rfl⟩ := (mem_readings_iff hkeys).mp hr
    exact ⟨_, rfl⟩
  have hread := EdgeXEvent.fromValue_toValue rfl hvalues
  have hself : eventValue json
      (edgexEvent stamp recordData deviceName profileName sourceName).toValue =
        (edgexEvent stamp recordData deviceName profileName sourceName).toValue := rfl
  have hnodup := nodup_readings stamp recordData deviceName profileName sourceName
  unfold edgexDecode
  rw [hjson, Option.bind_eq_bind, Option.bind_some, hself, hread, Option.bind_eq_bind,
    Option.bind_some]
  generalize (edgexEvent stamp recordData deviceName profileName sourceName).metaMap
    (edgexCorrelationId
      (edgexEvent stamp recordData deviceName profileName sourceName).toValue) = metaMap
  have hlookup : ∀ k, ((edgexEvent stamp recordData deviceName profileName
      sourceName).readings.foldl addReading (∅, metaMap)).1.lookup k =
        (recordData.lookup k).map sentBack := by
    intro k
    cases hk : recordData.lookup k with
    | some v =>
      have hname := (hkeys k (AList.lookup_isSome.mp (by rw [hk]; rfl))).1
      exact lookup_foldl_addReading hnodup ((mem_readings_iff hkeys).mpr ⟨k, v, hk, rfl⟩) hname _
    | none =>
      refine (lookup_foldl_of_notMem (fun hmem => ?_) _).trans (AList.lookup_empty k)
      obtain ⟨r, hr, rfl⟩ := List.mem_map.mp hmem
      obtain ⟨k, v, hlookup, rfl⟩ := (mem_readings_iff hkeys).mp hr
      rw [show (edgexReading stamp deviceName profileName (k, v)).resourceName = k from rfl,
        hlookup] at hk
      cases hk
  generalize (edgexEvent stamp recordData deviceName profileName sourceName).readings.foldl
    addReading (∅, metaMap) = s at hlookup
  obtain ⟨rowData, metaMap'⟩ := s
  dsimp only at hlookup ⊢
  rw [if_neg]
  · refine ⟨_, rfl, fun k hk => ?_⟩
    rw [AList.lookup_insert_ne hk, hlookup]
  · obtain ⟨⟨k, v⟩, rest, hentries⟩ := List.exists_cons_of_ne_nil hne
    have hk : recordData.lookup k = some v :=
      AList.mem_lookup_iff.mpr (hentries ▸ List.mem_cons_self)
    have hrow := hlookup k
    rw [hk, Option.map_some] at hrow
    intro hempty
    have hmem := AList.mem_lookup_iff.mp hrow
    rw [List.isEmpty_iff.mp hempty] at hmem
    cases hmem

theorem sentBack_iff {v : Value F} (h : Typed v) : sentBack v = v ↔ Faithful v := by
  rcases h with ⟨s, rfl⟩ | ⟨b, rfl⟩ | ⟨n, rfl, hlow, -⟩
  · exact sentBack_string_iff
  · exact iff_of_true (sentBack_bool b) trivial
  · exact sentBack_int_iff hlow

/-- A record of texts, booleans and integers comes back exactly when no text looks like
another type and no integer is greater than an `i64`. -/
theorem edgex_reads_back_iff {json : JsonTexts F} {stamp : EdgeXStamp} {recordData : Row F}
    {deviceName profileName sourceName : String}
    (hjson : json.fromText (edgexEncode json stamp recordData deviceName profileName sourceName) =
      some (edgexEvent stamp recordData deviceName profileName sourceName).toValue)
    (hne : recordData.entries ≠ []) (hkeys : ReadingKeys recordData)
    (hvalues : ∀ k v, recordData.lookup k = some v → Typed v) (extra : Option (Value F)) :
    ReadsBack json stamp recordData deviceName profileName sourceName extra ↔
      ∀ k v, recordData.lookup k = some v → Faithful v := by
  obtain ⟨row, hdecode, hrow⟩ := edgexDecode_encode hjson hne hkeys extra
  have hplain : ∀ k v, recordData.lookup k = some v → k ≠ metaKey := by
    rintro k v hk rfl
    have := (hkeys metaKey (AList.lookup_isSome.mp (by rw [hk]; rfl))).2
    cases this
  constructor
  · rintro ⟨row', hdecode', hrow'⟩ k v hk
    rw [hdecode] at hdecode'
    cases hdecode'
    have heq := hrow' k (hplain k v hk)
    rw [hrow k (hplain k v hk), hk] at heq
    exact (sentBack_iff (hvalues k v hk)).mp (Option.some.inj heq)
  · intro hfaithful
    refine ⟨row, hdecode, fun k hk => ?_⟩
    rw [hrow k hk]
    cases hlookup : recordData.lookup k with
    | none => rfl
    | some v =>
      exact congrArg some ((sentBack_iff (hvalues k v hlookup)).mpr (hfaithful k v hlookup))

end

def stillStamp : EdgeXStamp where
  nowNanos := 1700000000
  eventId := "evt-123"
  readingId name := "r-" ++ name

def eventTexts (recordData : Row ℚ) : JsonTexts ℚ where
  toText := Value.toJson
  fromText text :=
    let event := (edgexEvent stillStamp recordData "kuiper" "kuiperProfile" "rule1").toValue
    if text = event.toJson then some event else none

theorem eventTexts_read (recordData : Row ℚ) :
    (eventTexts recordData).fromText (edgexEncode (eventTexts recordData) stillStamp recordData
      "kuiper" "kuiperProfile" "rule1") =
        some (edgexEvent stillStamp recordData "kuiper" "kuiperProfile" "rule1").toValue := by
  dsimp only [eventTexts, edgexEncode]
  rw [if_pos rfl]

def alertRecord : Row ℚ :=
  AList.insert "Alert" (.string "CRITICAL")
    (AList.insert "Count" (.number (.int (-3))) (AList.insert "Active" (.bool true) ∅))

def codeRecord : Row ℚ := AList.insert "Code" (.string "42") ∅

theorem lookup_single {key k : String} {value v : Value ℚ}
    (h : (AList.insert key value (∅ : Row ℚ)).lookup k = some v) : k = key ∧ v = value := by
  by_cases hk : k = key
  · subst hk
    rw [AList.lookup_insert] at h
    exact ⟨rfl, (Option.some.inj h).symm⟩
  · rw [AList.lookup_insert_ne hk] at h
    cases h

theorem lookup_alert {k : String} {v : Value ℚ} (h : alertRecord.lookup k = some v) :
    k = "Alert" ∧ v = .string "CRITICAL" ∨ k = "Count" ∧ v = .number (.int (-3)) ∨
      k = "Active" ∧ v = .bool true := by
  have hmem : (⟨k, v⟩ : Sigma fun _ : String => Value ℚ) ∈ alertRecord.entries :=
    AList.mem_lookup_iff.mp h
  simpa [alertRecord, AList.entries_insert_of_notMem] using hmem

theorem alert_reads_back :
    ReadsBack (eventTexts alertRecord) stillStamp alertRecord "kuiper" "kuiperProfile" "rule1"
      none := by
  refine (edgex_reads_back_iff (eventTexts_read alertRecord) (by simp [alertRecord]) ?_ ?_
    none).mpr ?_
  · intro k hk
    obtain ⟨v, hv⟩ := Option.isSome_iff_exists.mp (AList.lookup_isSome.mpr hk)
    rcases lookup_alert hv with ⟨rfl, -⟩ | ⟨rfl, -⟩ | ⟨rfl, -⟩ <;> decide
  · intro k v hv
    rcases lookup_alert hv with ⟨-, rfl⟩ | ⟨-, rfl⟩ | ⟨-, rfl⟩
    · exact .inl ⟨_, rfl⟩
    · exact .inr (.inr ⟨_, rfl, by decide⟩)
    · exact .inr (.inl ⟨_, rfl⟩)
  · intro k v hv
    rcases lookup_alert hv with ⟨-, rfl⟩ | ⟨-, rfl⟩ | ⟨-, rfl⟩
    · exact ⟨by decide, rfl, by decide⟩
    · change (-3 : Int) ≤ maxI64
      decide
    · trivial

/-- A text of digits comes back as a number. -/
theorem digits_become_number :
    (eventTexts codeRecord).fromText (edgexEncode (eventTexts codeRecord) stillStamp codeRecord
      "kuiper" "kuiperProfile" "rule1") =
        some (edgexEvent stillStamp codeRecord "kuiper" "kuiperProfile" "rule1").toValue ∧
    ¬ ReadsBack (eventTexts codeRecord) stillStamp codeRecord "kuiper" "kuiperProfile" "rule1"
      none := by
  refine ⟨eventTexts_read codeRecord, ?_⟩
  have hkeys : ReadingKeys codeRecord := by
    intro k hk
    obtain ⟨v, hv⟩ := Option.isSome_iff_exists.mp (AList.lookup_isSome.mpr hk)
    obtain ⟨rfl, -⟩ := lookup_single hv
    decide
  obtain ⟨row, hdecode, hrow⟩ :=
    edgexDecode_encode (eventTexts_read codeRecord) (by simp [codeRecord]) hkeys none
  rintro ⟨row', hdecode', hrow'⟩
  rw [hdecode] at hdecode'
  cases hdecode'
  have hcode : codeRecord.lookup "Code" = some (.string "42") := AList.lookup_insert _
  have heq := hrow' "Code" (by decide)
  rw [hrow "Code" (by decide), hcode] at heq
  have huntyped := sentBack_string_iff.mp (Option.some.inj heq)
  have hnumber : parseI64 (trim "42") ≠ none := by decide
  exact hnumber huntyped.1

end Rekuiper.Codecs
