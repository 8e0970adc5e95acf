import Rekuiper.Codecs.RoundTrip
import Rekuiper.Connectors.Coalescing

/-!
# Polling registers

One poll of a Modbus source: a request for every range, the reply unpacked into words, and
the words of each register decoded into a record. A reply may announce as many bytes as it
likes, and they are checked against its own length only. A register for which there are no
words is left out of the record, and bits for which there is no byte are zeros.
-/

namespace Rekuiper.Connectors

open Lib
open Codecs (FloatBits)

variable {F : Type}

-- ---- Replies

/-- A request for a range and the PDU that came back, or why none came. -/
structure Exchange (F : Type) where
  range : CoalescedRange F
  reply : Except String (List UInt8)

def hexByte (b : UInt8) : String := String.ofList [hexDigit (b.toNat / 16), hexDigit (b.toNat % 16)]

def exceptionName (exc : UInt8) : String :=
  match exc.toNat with
  | 1 => " (Illegal Function)"
  | 2 => " (Illegal Data Address)"
  | 3 => " (Illegal Data Value)"
  | 4 => " (Slave Device Failure)"
  | 5 => " (Acknowledge)"
  | 6 => " (Slave Device Busy)"
  | _ => ""

/-- The bit of a byte, as a word. -/
def bitWord (b : UInt8) (bitPos : Nat) : UInt16 := ((b >>> .ofNat bitPos) &&& 1).toUInt16

/-- Big-endian words; an odd byte at the end is dropped. -/
def beWords : List UInt8 → List UInt16
  | hi :: lo :: rest => wordOf hi lo :: beWords rest
  | _ => []

/-- The words of a reply: as many bits as were asked for, or as many registers as announced. -/
def unpackWords (range : CoalescedRange F) (byteCount : Nat) (dataBytes : List UInt8) :
    List UInt16 :=
  if range.function.isBitAccess then
    (List.range range.quantity).map fun bitIdx =>
      ((dataBytes[bitIdx / 8]?).map (bitWord · (bitIdx % 8))).getD 0
  else beWords (dataBytes.take byteCount)

def readRange (range : CoalescedRange F) (reply : Except String (List UInt8)) :
    Except String (List UInt16) := do
  let responsePdu ← reply
  match responsePdu with
  | [] => .error "Empty Modbus response PDU"
  | respFc :: rest =>
    if respFc &&& 0x80 ≠ 0 then
      let exc := rest.head?.getD 0
      .error ("Modbus exception 0x" ++ hexByte exc ++ exceptionName exc ++ " for function " ++
        toString range.function.code ++ " (unit " ++ toString range.unitId.toNat ++ ", address " ++
        toString range.startAddress ++ ")")
    else if respFc.toNat ≠ range.function.code then
      .error ("Modbus function code mismatch: expected " ++ toString range.function.code ++
        ", got " ++ toString respFc.toNat)
    else
      match rest with
      | [] => .error "Truncated Modbus response: missing byte count"
      | byteCount :: dataBytes =>
        if dataBytes.length < byteCount.toNat then
          .error ("Truncated Modbus data: expected " ++ toString byteCount.toNat ++
            " bytes, got " ++ toString dataBytes.length)
        else .ok (unpackWords range byteCount.toNat dataBytes)

def registerWords (range : CoalescedRange F) (words : List UInt16) (reg : PreparedRegister F) :
    Option (List UInt16) :=
  let offset := reg.wireAddress - range.startAddress
  if offset + reg.wordCount ≤ words.length then some ((words.drop offset).take reg.wordCount)
  else none

-- ---- The poll

structure PollState (F : Type) where
  recordMap : Row F
  decodeErrors : List String
  rawBytesRead : List UInt8

def PollState.initial : PollState F where
  recordMap := ∅
  decodeErrors := []
  rawBytesRead := []

namespace PollState

def note (s : PollState F) (name : String) : Except String (Value F) → PollState F
  | .ok val => { s with recordMap := s.recordMap.insert name val }
  | .error errMsg => { s with decodeErrors := s.decodeErrors ++ [errMsg] }

variable [Float64 F] [FloatBits F]

def register (range : CoalescedRange F) (words : List UInt16) (s : PollState F)
    (reg : PreparedRegister F) : PollState F :=
  match registerWords range words reg with
  | some slice => s.note reg.name (decodeRegisterValue reg slice)
  | none => s

def exchange (s : PollState F) (e : Exchange F) : PollState F :=
  match readRange e.range e.reply with
  | .ok words =>
    let read := words.flatMap fun w => [hiByte w, loByte w]
    e.range.registers.foldl (register e.range words)
      { s with rawBytesRead := s.rawBytesRead ++ read }
  | .error err =>
    let text := "Modbus poll failure at address " ++ toString e.range.startAddress ++ ": " ++ err
    { s with decodeErrors := s.decodeErrors ++ [text] }

end PollState

inductive Poll (F : Type)
  | nothing
  | errors (combinedErr rawPayload : String)
  | record (row : Row F)

section

variable [Float64 F] [FloatBits F]

def poll (exchanges : List (Exchange F)) : Poll F :=
  let s := exchanges.foldl PollState.exchange .initial
  if s.decodeErrors ≠ [] then
    let rawHex := " ".intercalate (s.rawBytesRead.map fun b => toAsciiUppercase (hexByte b))
    .errors ("; ".intercalate s.decodeErrors) ("raw Modbus bytes: [" ++ rawHex ++ "]")
  else if s.recordMap.entries.isEmpty then .nothing
  else .record s.recordMap

-- ---- Complete records

/-- The word that the device sent for an address: one that was asked for, from the bytes
that the reply announces. -/
def Exchange.sentWord (e : Exchange F) (address : Nat) : Option UInt16 :=
  match e.reply with
  | .ok (_ :: byteCount :: dataBytes) =>
    let sent := dataBytes.take byteCount.toNat
    let i := address - e.range.startAddress
    if e.range.startAddress ≤ address ∧ address < e.range.stop then
      if e.range.function.isBitAccess then (sent[i / 8]?).map (bitWord · (i % 8))
      else do
        let hi ← sent[2 * i]?
        let lo ← sent[2 * i + 1]?
        some (wordOf hi lo)
    else none
  | _ => none

def Exchange.sentWords (e : Exchange F) (reg : PreparedRegister F) : Option (List UInt16) :=
  (List.range reg.wordCount).mapM fun i => e.sentWord (reg.wireAddress + i)

structure Complete (registers : List (PreparedRegister F)) (exchanges : List (Exchange F))
    (row : Row F) : Prop where
  once : (exchanges.flatMap (·.range.registers)).Perm registers
  value : ∀ e ∈ exchanges, ∀ reg ∈ e.range.registers, ∃ words val, e.sentWords reg = some words ∧
    decodeRegisterValue reg words = .ok val ∧ row.lookup reg.name = some val

def Poll.Settled (registers : List (PreparedRegister F)) (exchanges : List (Exchange F)) :
    Poll F → Prop
  | .nothing => False
  | .errors _ _ => True
  | .record row => Complete registers exchanges row

/-- A reply to the request with as many bytes as it announces. -/
def Exchange.Accepted (e : Exchange F) : Prop :=
  match e.reply with
  | .ok (respFc :: byteCount :: dataBytes) =>
    respFc.toNat = e.range.function.code ∧ byteCount.toNat ≤ dataBytes.length
  | _ => False

def Exchange.Garbles (e : Exchange F) (reg : PreparedRegister F) : Prop :=
  match e.reply with
  | .ok (_ :: byteCount :: dataBytes) =>
    ∃ words err, registerWords e.range (unpackWords e.range byteCount.toNat dataBytes) reg =
      some words ∧ decodeRegisterValue reg words = .error err
  | _ => False

/-- The reply is refused, or does not decode. -/
def Exchange.Fails (e : Exchange F) : Prop :=
  ¬ e.Accepted ∨ ∃ reg ∈ e.range.registers, e.Garbles reg

/-- Words were sent for all registers. -/
def AllSent (exchanges : List (Exchange F)) : Prop :=
  ∀ e ∈ exchanges, ∀ reg ∈ e.range.registers, (e.sentWords reg).isSome

/-- Registers with one name have one value. -/
def NamesAgree (exchanges : List (Exchange F)) : Prop :=
  ∀ e ∈ exchanges, ∀ reg ∈ e.range.registers, ∀ e' ∈ exchanges, ∀ reg' ∈ e'.range.registers,
    reg.name = reg'.name →
      (e.sentWords reg).map (decodeRegisterValue reg) =
        (e'.sentWords reg').map (decodeRegisterValue reg')

theorem namesAgree_of_nodup {exchanges : List (Exchange F)}
    (h : ((exchanges.flatMap (·.range.registers)).map (·.name)).Nodup) : NamesAgree exchanges := by
  intro e he reg hreg e' he' reg' hreg' hname
  let placed := exchanges.flatMap fun e => e.range.registers.map fun reg => (e, reg)
  have hplaced : ∀ {e reg}, e ∈ exchanges → reg ∈ e.range.registers → (e, reg) ∈ placed :=
    fun he hreg => List.mem_flatMap.mpr ⟨_, he, List.mem_map_of_mem hreg⟩
  have hnames : placed.map (·.2.name) = (exchanges.flatMap (·.range.registers)).map (·.name) := by
    simp only [placed, List.map_flatMap, List.map_map]
    rfl
  rw [← hnames] at h
  cases List.inj_on_of_nodup_map h (hplaced he hreg) (hplaced he' hreg') hname
  rfl

-- ---- What a poll keeps

/-- What becomes of the registers of an exchange: names with decoded values or errors. -/
def Exchange.results (e : Exchange F) : List (String × Except String (Value F)) :=
  match readRange e.range e.reply with
  | .ok words => e.range.registers.filterMap fun reg =>
    (registerWords e.range words reg).map fun slice => (reg.name, decodeRegisterValue reg slice)
  | .error err =>
    [("", .error ("Modbus poll failure at address " ++ toString e.range.startAddress ++ ": " ++
      err))]

structure PollState.Keeps (s : PollState F) (results : List (String × Except String (Value F))) :
    Prop where
  errors_nil : s.decodeErrors = [] ↔ ∀ r ∈ results, ∃ val, r.2 = .ok val
  stored : ∀ name val, s.recordMap.lookup name = some val → (name, .ok val) ∈ results
  kept : ∀ name val, (name, .ok val) ∈ results → (s.recordMap.lookup name).isSome

omit [Float64 F] [FloatBits F] in
theorem PollState.initial_keeps : (initial : PollState F).Keeps [] where
  errors_nil := iff_of_true rfl (by simp)
  stored name val h := by simp [initial] at h
  kept name val h := nomatch h

omit [Float64 F] [FloatBits F] in
theorem PollState.Keeps.note {s : PollState F} {results : List (String × Except String (Value F))}
    (h : s.Keeps results) (name : String) (result : Except String (Value F)) :
    (s.note name result).Keeps (results ++ [(name, result)]) := by
  cases result with
  | error errMsg =>
    refine ⟨iff_of_false (by simp [PollState.note]) fun hall => ?_, fun n v hn => ?_,
      fun n v hn => ?_⟩
    · obtain ⟨val, hval⟩ := hall (name, .error errMsg) (by simp)
      cases hval
    · exact List.mem_append_left _ (h.stored n v hn)
    · rcases List.mem_append.mp hn with hn | hn
      · exact h.kept n v hn
      · cases List.mem_singleton.mp hn
  | ok val =>
    refine ⟨?_, fun n v hn => ?_, fun n v hn => ?_⟩
    · rw [List.forall_mem_append]
      refine h.errors_nil.trans ⟨fun hall => ⟨hall, ?_⟩, fun hall => hall.1⟩
      exact List.forall_mem_singleton.mpr ⟨val, rfl⟩
    · by_cases hname : n = name
      · subst hname
        change AList.lookup n (AList.insert n val s.recordMap) = some v at hn
        rw [AList.lookup_insert] at hn
        cases hn
        exact List.mem_append_right _ (List.mem_singleton_self _)
      · change AList.lookup n (AList.insert name val s.recordMap) = some v at hn
        rw [AList.lookup_insert_ne hname] at hn
        exact List.mem_append_left _ (h.stored n v hn)
    · change (AList.lookup n (AList.insert name val s.recordMap)).isSome
      by_cases hname : n = name
      · subst hname
        rw [AList.lookup_insert]
        rfl
      · rw [AList.lookup_insert_ne hname]
        rcases List.mem_append.mp hn with hn | hn
        · exact h.kept n v hn
        · cases List.mem_singleton.mp hn
          exact absurd rfl hname

theorem PollState.Keeps.registers {range : CoalescedRange F} {words : List UInt16}
    (registers : List (PreparedRegister F)) {s : PollState F}
    {results : List (String × Except String (Value F))} (h : s.Keeps results) :
    (registers.foldl (PollState.register range words) s).Keeps
      (results ++ registers.filterMap fun reg => (registerWords range words reg).map fun slice =>
        (reg.name, decodeRegisterValue reg slice)) := by
  induction registers generalizing s results with
  | nil => simpa using h
  | cons reg registers ih =>
    rw [List.foldl_cons, List.filterMap_cons, PollState.register]
    cases registerWords range words reg with
    | none => exact ih h
    | some slice => simpa using ih (h.note reg.name (decodeRegisterValue reg slice))

theorem PollState.Keeps.exchange {s : PollState F}
    {results : List (String × Except String (Value F))} (h : s.Keeps results) (e : Exchange F) :
    (s.exchange e).Keeps (results ++ e.results) := by
  unfold PollState.exchange Exchange.results
  cases readRange e.range e.reply with
  | ok words => exact PollState.Keeps.registers _ ⟨h.errors_nil, h.stored, h.kept⟩
  | error err => exact h.note "" (.error _)

theorem PollState.Keeps.exchanges (exchanges : List (Exchange F)) {s : PollState F}
    {results : List (String × Except String (Value F))} (h : s.Keeps results) :
    (exchanges.foldl PollState.exchange s).Keeps (results ++ exchanges.flatMap (·.results)) := by
  induction exchanges generalizing s results with
  | nil => simpa using h
  | cons e exchanges ih => simpa using ih (h.exchange e)

-- ---- What was sent is what is taken

omit [Float64 F] [FloatBits F] in
theorem readRange_ok_iff {range : CoalescedRange F} {reply : Except String (List UInt8)}
    {words : List UInt16} :
    readRange range reply = .ok words ↔ ∃ respFc byteCount dataBytes,
      reply = .ok (respFc :: byteCount :: dataBytes) ∧ respFc.toNat = range.function.code ∧
        byteCount.toNat ≤ dataBytes.length ∧
          words = unpackWords range byteCount.toNat dataBytes := by
  constructor
  · intro hread
    obtain ⟨pdu, rfl, h⟩ := bind_eq_ok hread
    clear hread
    match pdu with
    | [] => cases h
    | respFc :: rest =>
      dsimp only at h
      split at h
      · cases h
      split at h
      · cases h
      rename_i hcode
      match rest with
      | [] => cases h
      | byteCount :: dataBytes =>
        dsimp only at h
        split at h
        · cases h
        rename_i hlength
        cases h
        exact ⟨respFc, byteCount, dataBytes, rfl, not_not.mp hcode, Nat.le_of_not_lt hlength, rfl⟩
  · rintro ⟨respFc, byteCount, dataBytes, rfl, hcode, hlength, rfl⟩
    have hplain : respFc &&& 0x80 = 0 := by
      have heq : respFc = UInt8.ofNat range.function.code := by
        rw [← hcode, UInt8.ofNat_toNat]
      rw [heq]
      cases range.function <;> rfl
    change (if respFc &&& 0x80 ≠ 0 then _ else _) = _
    rw [if_neg (not_not.mpr hplain), if_neg (not_not.mpr hcode)]
    exact if_neg (Nat.not_lt.mpr hlength)

omit [Float64 F] [FloatBits F] in
theorem accepted_iff {e : Exchange F} :
    e.Accepted ↔ ∃ words, readRange e.range e.reply = .ok words := by
  simp only [readRange_ok_iff]
  unfold Exchange.Accepted
  constructor
  · intro h
    split at h
    · rename_i respFc byteCount dataBytes heq
      exact ⟨_, respFc, byteCount, dataBytes, heq, h.1, h.2, rfl⟩
    · exact h.elim
  · rintro ⟨words, respFc, byteCount, dataBytes, heq, hcode, hlength, -⟩
    rw [heq]
    exact ⟨hcode, hlength⟩

theorem garbles_iff {e : Exchange F} {words : List UInt16}
    (hread : readRange e.range e.reply = .ok words) (reg : PreparedRegister F) :
    e.Garbles reg ↔ ∃ slice err, registerWords e.range words reg = some slice ∧
      decodeRegisterValue reg slice = .error err := by
  obtain ⟨respFc, byteCount, dataBytes, hreply, -, -, rfl⟩ := readRange_ok_iff.mp hread
  unfold Exchange.Garbles
  rw [hreply]

theorem beWords_getElem? {bytes : List UInt8} {i : Nat} {hi lo : UInt8}
    (hhi : bytes[2 * i]? = some hi) (hlo : bytes[2 * i + 1]? = some lo) :
    (beWords bytes)[i]? = some (wordOf hi lo) := by
  fun_induction beWords bytes generalizing i with
  | case1 a b rest ih =>
    cases i with
    | zero =>
      cases hhi
      cases hlo
      rfl
    | succ i => exact ih hhi hlo
  | case2 bytes hshort =>
    have hlen := (List.getElem?_eq_some_iff.mp hlo).1
    match bytes with
    | [] => simp at hlen
    | [_] =>
      rw [List.length_singleton] at hlen
      omega
    | a :: b :: rest => exact absurd rfl (hshort a b rest)

omit [Float64 F] [FloatBits F] in
theorem getElem?_of_sentWord {e : Exchange F} {words : List UInt16} {address : Nat} {w : UInt16}
    (hread : readRange e.range e.reply = .ok words) (h : e.sentWord address = some w) :
    words[address - e.range.startAddress]? = some w := by
  obtain ⟨respFc, byteCount, dataBytes, hreply, -, -, rfl⟩ := readRange_ok_iff.mp hread
  unfold Exchange.sentWord at h
  rw [hreply] at h
  dsimp only at h
  split at h
  · rename_i hin
    unfold unpackWords
    split at h
    · rename_i hbits
      obtain ⟨b, hb, rfl⟩ := Option.map_eq_some_iff.mp h
      have hdata : dataBytes[(address - e.range.startAddress) / 8]? = some b := by
        rw [List.getElem?_take] at hb
        exact (Option.ite_none_right_eq_some.mp hb).2
      have hlt : address - e.range.startAddress < e.range.quantity := by
        have := hin.2
        unfold CoalescedRange.stop at this
        omega
      rw [if_pos hbits, List.getElem?_map, List.getElem?_range hlt, Option.map_some, hdata]
      rfl
    · rename_i hbits
      obtain ⟨hi, hhi, h⟩ := Option.bind_eq_some_iff.mp h
      obtain ⟨lo, hlo, h⟩ := Option.bind_eq_some_iff.mp h
      cases h
      rw [if_neg hbits]
      exact beWords_getElem? hhi hlo
  · cases h

theorem take_of_mapM_range {α : Type} {l ws : List α} {start n : Nat} {f : Nat → Option α}
    (hf : ∀ i w, f i = some w → l[start + i]? = some w) (h : (List.range n).mapM f = some ws) :
    (l.drop start).take n = ws ∧ (0 < n → start + n ≤ l.length) := by
  induction n generalizing ws with
  | zero =>
    cases h
    exact ⟨rfl, fun h => absurd h (lt_irrefl 0)⟩
  | succ n ih =>
    rw [List.range_succ, List.mapM_append] at h
    obtain ⟨ws, hws, h⟩ := Option.bind_eq_some_iff.mp h
    obtain ⟨last, hlast, h⟩ := Option.bind_eq_some_iff.mp h
    cases h
    rw [List.mapM_cons] at hlast
    obtain ⟨w, hw, hlast⟩ := Option.bind_eq_some_iff.mp hlast
    cases hlast
    have hget := hf n w hw
    refine ⟨?_, fun _ => (List.getElem?_eq_some_iff.mp hget).1⟩
    rw [List.take_add_one, (ih hws).1, List.getElem?_drop, hget]
    rfl

omit [Float64 F] [FloatBits F] in
theorem registerWords_of_sent {e : Exchange F} {words ws : List UInt16} {reg : PreparedRegister F}
    (hread : readRange e.range e.reply = .ok words)
    (hstart : e.range.startAddress ≤ reg.wireAddress) (hsome : 1 ≤ reg.wordCount)
    (h : e.sentWords reg = some ws) : registerWords e.range words reg = some ws := by
  have hf : ∀ i w, e.sentWord (reg.wireAddress + i) = some w →
      words[reg.wireAddress - e.range.startAddress + i]? = some w := by
    intro i w hw
    rw [← Nat.sub_add_comm hstart]
    exact getElem?_of_sentWord hread hw
  obtain ⟨htake, hle⟩ := take_of_mapM_range hf h
  rw [registerWords, if_pos (hle hsome), htake]

-- ---- Settled polls

theorem results_ok_iff {e : Exchange F} :
    (∀ r ∈ e.results, ∃ val, r.2 = .ok val) ↔ ¬ e.Fails := by
  unfold Exchange.results Exchange.Fails
  rw [accepted_iff]
  cases hread : readRange e.range e.reply with
  | error err =>
    refine iff_of_false (fun h => ?_) (fun h => h (.inl fun ⟨words, hwords⟩ => nomatch hwords))
    obtain ⟨val, hval⟩ := h _ (List.mem_singleton_self _)
    cases hval
  | ok words =>
    constructor
    · rintro h (hrefused | ⟨reg, hreg, hgarbles⟩)
      · exact hrefused ⟨words, rfl⟩
      · obtain ⟨slice, err, hslice, herr⟩ := (garbles_iff hread reg).mp hgarbles
        obtain ⟨val, hval⟩ := h (reg.name, decodeRegisterValue reg slice)
          (List.mem_filterMap.mpr ⟨reg, hreg, by rw [hslice]; rfl⟩)
        rw [herr] at hval
        cases hval
    · intro h r hr
      obtain ⟨reg, hreg, hmap⟩ := List.mem_filterMap.mp hr
      obtain ⟨slice, hslice, rfl⟩ := Option.map_eq_some_iff.mp hmap
      cases hdecode : decodeRegisterValue reg slice with
      | ok val => exact ⟨val, rfl⟩
      | error err =>
        exact absurd (.inr ⟨reg, hreg, (garbles_iff hread reg).mpr ⟨slice, err, hslice, hdecode⟩⟩) h

theorem mem_results_ok {e : Exchange F} {name : String} {val : Value F}
    (h : (name, .ok val) ∈ e.results) : ∃ words, readRange e.range e.reply = .ok words ∧
      ∃ reg ∈ e.range.registers, ∃ slice, registerWords e.range words reg = some slice ∧
        reg.name = name ∧ decodeRegisterValue reg slice = .ok val := by
  unfold Exchange.results at h
  cases hread : readRange e.range e.reply with
  | error err =>
    rw [hread] at h
    cases List.mem_singleton.mp h
  | ok words =>
    rw [hread] at h
    obtain ⟨reg, hreg, hmap⟩ := List.mem_filterMap.mp h
    obtain ⟨slice, hslice, heq⟩ := Option.map_eq_some_iff.mp hmap
    obtain ⟨hname, hval⟩ := Prod.mk.inj heq
    exact ⟨words, rfl, reg, hreg, slice, hslice, hname, hval⟩

theorem sent_mem_results {e : Exchange F} {reg : PreparedRegister F} {ws : List UInt16}
    (hok : ¬ e.Fails) (hreg : reg ∈ e.range.registers)
    (hstart : e.range.startAddress ≤ reg.wireAddress) (hsome : 1 ≤ reg.wordCount)
    (h : e.sentWords reg = some ws) :
    ∃ val, decodeRegisterValue reg ws = .ok val ∧ (reg.name, .ok val) ∈ e.results := by
  obtain ⟨words, hread⟩ := accepted_iff.mp (not_not.mp (not_or.mp hok).1)
  have hslice := registerWords_of_sent hread hstart hsome h
  have hmem : (reg.name, decodeRegisterValue reg ws) ∈ e.results := by
    unfold Exchange.results
    rw [hread]
    exact List.mem_filterMap.mpr ⟨reg, hreg, by rw [hslice]; rfl⟩
  obtain ⟨val, hval⟩ := results_ok_iff.mpr hok _ hmem
  have hval : decodeRegisterValue reg ws = .ok val := hval
  exact ⟨val, hval, hval ▸ hmem⟩

theorem Exchange.sentWords_map {e : Exchange F} {reg : PreparedRegister F} {ws : List UInt16}
    {val : Value F} (hsent : e.sentWords reg = some ws)
    (hval : decodeRegisterValue reg ws = .ok val) :
    (e.sentWords reg).map (decodeRegisterValue reg) = some (.ok val) := by
  rw [hsent, Option.map_some, hval]

theorem poll_settled_of_ok {registers : List (PreparedRegister F)} {exchanges : List (Exchange F)}
    (honce : (exchanges.flatMap (·.range.registers)).Perm registers)
    (hstart : ∀ e ∈ exchanges, ∀ reg ∈ e.range.registers, e.range.startAddress ≤ reg.wireAddress)
    (hsome : ∀ reg ∈ registers, 1 ≤ reg.wordCount) (hok : ∀ e ∈ exchanges, ¬ e.Fails) :
    (poll exchanges).Settled registers exchanges ↔
      registers ≠ [] ∧ AllSent exchanges ∧ NamesAgree exchanges := by
  have hkeeps := PollState.Keeps.exchanges exchanges (PollState.initial_keeps (F := F))
  rw [List.nil_append] at hkeeps
  have hnone : (exchanges.foldl PollState.exchange PollState.initial).decodeErrors = [] := by
    refine hkeeps.errors_nil.mpr fun r hr => ?_
    obtain ⟨e, he, hr⟩ := List.mem_flatMap.mp hr
    exact results_ok_iff.mpr (hok e he) r hr
  have hcount : ∀ e ∈ exchanges, ∀ reg ∈ e.range.registers, 1 ≤ reg.wordCount := by
    intro e he reg hreg
    exact hsome reg (honce.mem_iff.mp (List.mem_flatMap.mpr ⟨e, he, hreg⟩))
  unfold poll
  dsimp only
  rw [if_neg (not_not.mpr hnone)]
  generalize exchanges.foldl PollState.exchange PollState.initial = s at hkeeps
  -- what was sent for a register is in the record, under its name
  have hin : ∀ e ∈ exchanges, ∀ reg ∈ e.range.registers, ∀ ws, e.sentWords reg = some ws →
      ∃ val, decodeRegisterValue reg ws = .ok val ∧ (s.recordMap.lookup reg.name).isSome := by
    intro e he reg hreg ws hws
    obtain ⟨val, hval, hmem⟩ :=
      sent_mem_results (hok e he) hreg (hstart e he reg hreg) (hcount e he reg hreg) hws
    exact ⟨val, hval, hkeeps.kept _ val (List.mem_flatMap.mpr ⟨e, he, hmem⟩)⟩
  constructor
  · intro h
    split at h
    · exact h.elim
    rename_i hrow
    have hcomplete : Complete registers exchanges s.recordMap := h
    refine ⟨?_, fun e he reg hreg => ?_, fun e he reg hreg e' he' reg' hreg' hname => ?_⟩
    · rintro rfl
      refine hrow (List.isEmpty_iff.mpr (List.eq_nil_iff_forall_not_mem.mpr ?_))
      rintro ⟨name, val⟩ hentry
      obtain ⟨e, he, hr⟩ :=
        List.mem_flatMap.mp (hkeeps.stored name val (AList.mem_lookup_iff.mpr hentry))
      obtain ⟨words, -, reg, hreg, -⟩ := mem_results_ok hr
      exact nomatch honce.mem_iff.mp (List.mem_flatMap.mpr ⟨e, he, hreg⟩)
    · obtain ⟨words, -, hwords, -⟩ := hcomplete.value e he reg hreg
      rw [hwords]
      rfl
    · obtain ⟨words, val, hsent, hval, hlookup⟩ := hcomplete.value e he reg hreg
      obtain ⟨words', val', hsent', hval', hlookup'⟩ := hcomplete.value e' he' reg' hreg'
      have heq : val = val' := by
        rw [hname, hlookup'] at hlookup
        exact (Option.some.inj hlookup).symm
      rw [Exchange.sentWords_map hsent hval, Exchange.sentWords_map hsent' hval', heq]
  · rintro ⟨hne, hsent, hagree⟩
    rw [if_neg]
    · refine ⟨honce, fun e he reg hreg => ?_⟩
      obtain ⟨ws, hws⟩ := Option.isSome_iff_exists.mp (hsent e he reg hreg)
      obtain ⟨val, hval, hlookup⟩ := hin e he reg hreg ws hws
      obtain ⟨val', hval'⟩ := Option.isSome_iff_exists.mp hlookup
      refine ⟨ws, val, hws, hval, ?_⟩
      -- the value that stands there is that of a register with the same name
      obtain ⟨e', he', hr⟩ := List.mem_flatMap.mp (hkeeps.stored _ _ hval')
      obtain ⟨words', hread', reg', hreg', slice', hslice', hname, hdecode'⟩ := mem_results_ok hr
      obtain ⟨ws', hws'⟩ := Option.isSome_iff_exists.mp (hsent e' he' reg' hreg')
      have hslice := registerWords_of_sent hread' (hstart e' he' reg' hreg')
        (hcount e' he' reg' hreg') hws'
      rw [hslice] at hslice'
      cases hslice'
      have heq := hagree e he reg hreg e' he' reg' hreg' hname.symm
      rw [Exchange.sentWords_map hws hval, Exchange.sentWords_map hws' hdecode'] at heq
      cases heq
      exact hval'
    · intro hempty
      obtain ⟨reg, hreg⟩ := List.exists_mem_of_ne_nil registers hne
      obtain ⟨e, he, hreg⟩ := List.mem_flatMap.mp (honce.mem_iff.mpr hreg)
      obtain ⟨ws, hws⟩ := Option.isSome_iff_exists.mp (hsent e he reg hreg)
      obtain ⟨val, -, hlookup⟩ := hin e he reg hreg ws hws
      obtain ⟨val', hval'⟩ := Option.isSome_iff_exists.mp hlookup
      have hmem := AList.mem_lookup_iff.mp hval'
      rw [List.isEmpty_iff.mp hempty] at hmem
      cases hmem

theorem poll_settled_of_fails (registers : List (PreparedRegister F))
    {exchanges : List (Exchange F)} (h : ∃ e ∈ exchanges, e.Fails) :
    (poll exchanges).Settled registers exchanges := by
  have hkeeps := PollState.Keeps.exchanges exchanges (PollState.initial_keeps (F := F))
  rw [List.nil_append] at hkeeps
  have hsome : (exchanges.foldl PollState.exchange PollState.initial).decodeErrors ≠ [] := by
    intro hnone
    obtain ⟨e, he, hfails⟩ := h
    refine results_ok_iff.mp (fun r hr => ?_) hfails
    exact hkeeps.errors_nil.mp hnone r (List.mem_flatMap.mpr ⟨e, he, hr⟩)
  unfold poll
  dsimp only
  rw [if_pos hsome]
  trivial

omit [FloatBits F] [Float64 F] in
theorem one_le_wordCount {configured : List (ModbusRegister F)} {defaultOrder : ModbusByteOrder}
    {addressBase : Option UInt16} {plcAddressing : Bool} {registers : List (PreparedRegister F)}
    (hconfig : configured.mapM
      (PreparedRegister.fromConfig · defaultOrder addressBase plcAddressing) = .ok registers) :
    ∀ reg ∈ registers, 1 ≤ reg.wordCount := by
  intro reg hreg
  obtain ⟨config, -, hfrom⟩ := exists_of_mapM hconfig reg hreg
  unfold PreparedRegister.fromConfig at hfrom
  obtain ⟨function, -, hfrom⟩ := bind_eq_ok hfrom
  obtain ⟨dataType, -, hfrom⟩ := bind_eq_ok hfrom
  cases hfrom
  dsimp only
  split
  · exact le_refl 1
  · unfold ModbusDataType.wordCount
    cases dataType <;> simp

/-- A poll is complete or reported exactly when a reply is refused or does not decode, or
else there is a register, all registers lie within the announced bytes of the replies, and
registers of one name have one value. -/
theorem poll_settled_iff {configured : List (ModbusRegister F)} {defaultOrder : ModbusByteOrder}
    {addressBase : Option UInt16} {plcAddressing : Bool} {registers : List (PreparedRegister F)}
    (hconfig : configured.mapM
      (PreparedRegister.fromConfig · defaultOrder addressBase plcAddressing) = .ok registers)
    {byFunc : List (Nat × List (PreparedRegister F))} (hmap : ByFunction registers byFunc)
    {unitId : UInt8} {maxGap : Nat} {exchanges : List (Exchange F)}
    (hranges : exchanges.map (·.range) = coalesceRegisters byFunc unitId maxGap) :
    (poll exchanges).Settled registers exchanges ↔
      (∃ e ∈ exchanges, e.Fails) ∨
        registers ≠ [] ∧ AllSent exchanges ∧ NamesAgree exchanges := by
  by_cases hfails : ∃ e ∈ exchanges, e.Fails
  · exact iff_of_true (poll_settled_of_fails registers hfails) (.inl hfails)
  · have honce : (exchanges.flatMap (·.range.registers)).Perm registers := by
      have h := coalesced_once hmap unitId maxGap
      rwa [← hranges, List.flatMap_map] at h
    have hstart : ∀ e ∈ exchanges, ∀ reg ∈ e.range.registers,
        e.range.startAddress ≤ reg.wireAddress := by
      intro e he
      exact coalesced_start_le byFunc unitId maxGap e.range (hranges ▸ List.mem_map_of_mem he)
    rw [or_iff_right hfails]
    refine poll_settled_of_ok honce hstart (one_le_wordCount hconfig) fun e he h => ?_
    exact hfails ⟨e, he, h⟩

end

def plainRegister (name function : String) (address : UInt16) (dataType : String) :
    ModbusRegister ℚ where
  name := name
  function := function
  address := address
  dataType := dataType
  byteOrder := none
  scale := none
  offset := none
  length := none

def tankExchange : Exchange ℚ where
  range :=
    { function := .holding
      unitId := 1
      startAddress := 0
      quantity := 2
      registers := [holdingRegister "level" 0 .uint16, holdingRegister "flow" 1 .int16] }
  reply := .ok [0x03, 0x04, 0x00, 0x2A, 0xFF, 0xFE]

theorem tank_settled :
    (poll [tankExchange]).Settled
      [holdingRegister "level" 0 .uint16, holdingRegister "flow" 1 .int16] [tankExchange] := by
  refine (@poll_settled_iff ℚ _ _ [plainRegister "level" "holding" 0 "uint16",
    plainRegister "flow" "holding" 1 "int16"] .abcd none false _ rfl _ (List.Perm.refl _) 1 10 _
    rfl).mpr ?_
  have hsent : ∀ reg ∈ tankExchange.range.registers, (tankExchange.sentWords reg).isSome := by
    decide
  exact .inr ⟨by simp, List.forall_mem_singleton.mpr hsent, namesAgree_of_nodup (by decide)⟩

def coilExchange : Exchange ℚ where
  range :=
    { function := .coil
      unitId := 1
      startAddress := 0
      quantity := 10
      registers := [{ holdingRegister "pump" 0 .bool with function := .coil },
        { holdingRegister "alarm" 9 .bool with function := .coil }] }
  reply := .ok [0x01, 0x01, 0xFF]

/-- The alarm is published as off, though nothing was received for it. -/
theorem made_up_bit :
    [coilExchange.range] =
      coalesceRegisters (groupOn (·.function.code) coilExchange.range.registers) 1 10 ∧
    ¬ (poll [coilExchange]).Settled coilExchange.range.registers [coilExchange] := by
  refine ⟨rfl, fun h => ?_⟩
  have hcomplete : ∃ row, Complete coilExchange.range.registers [coilExchange] row := ⟨_, h⟩
  obtain ⟨row, hcomplete⟩ := hcomplete
  obtain ⟨words, val, hsent, -⟩ := hcomplete.value coilExchange (by simp)
    { holdingRegister "alarm" 9 .bool with function := .coil } (by simp [coilExchange])
  have hnone : coilExchange.sentWords
      { holdingRegister "alarm" 9 .bool with function := .coil } = none := by decide
  rw [hnone] at hsent
  cases hsent

end Rekuiper.Connectors
