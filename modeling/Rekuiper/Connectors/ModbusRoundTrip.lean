import Rekuiper.Codecs.RoundTrip
import Rekuiper.Connectors.Modbus

/-!
# What the Modbus sink writes and the source reads

A register bank takes the sink's request, and the source reads its words back.
The words a source decodes are known by the integer they give, so a value comes
back from every bank only if the sink wrote each of them: the type has one word,
and the two sides name the same register.
-/

namespace Rekuiper.Connectors

open Lib
open Codecs (FloatBits)

variable {F : Type}

-- ---- The device

abbrev RegisterBank := Nat → UInt16

/-- Registers from an address on, two bytes each. -/
def writeWords (bank : RegisterBank) (address : Nat) : List UInt8 → RegisterBank
  | hi :: lo :: rest => writeWords (Function.update bank address (wordOf hi lo)) (address + 1) rest
  | _ => bank

/-- What a device does to its registers on FC06 and FC16. -/
def applyPdu (bank : RegisterBank) : List UInt8 → RegisterBank
  | code :: hi :: lo :: rest =>
    if code = 0x06 then writeWords bank (wordOf hi lo).toNat (rest.take 2)
    else if code = 0x10 then writeWords bank (wordOf hi lo).toNat (rest.drop 3)
    else bank
  | _ => bank

def readHolding (bank : RegisterBank) (address count : Nat) : Option (List UInt16) :=
  if address + count ≤ 2 ^ 16 then some ((List.range count).map fun i => bank (address + i))
  else none

-- ---- Words are known by their integer

theorem orderBytes16_inj {order : ModbusByteOrder} {v w : UInt16}
    (h : orderBytes16 order v = orderBytes16 order w) : v = w := by
  cases order <;> simp only [orderBytes16, List.cons.injEq, and_true] at h
  · exact word_ext h.1 h.2
  · exact word_ext h.1 h.2
  · exact word_ext h.2 h.1
  · exact word_ext h.2 h.1

theorem orderBytes32_inj {order : ModbusByteOrder} {v₀ v₁ w₀ w₁ : UInt16}
    (h : orderBytes32 order v₀ v₁ = orderBytes32 order w₀ w₁) : v₀ = w₀ ∧ v₁ = w₁ := by
  cases order <;> simp only [orderBytes32, List.cons.injEq, and_true] at h
  · exact ⟨word_ext h.1 h.2.1, word_ext h.2.2.1 h.2.2.2⟩
  · exact ⟨word_ext h.2.2.1 h.2.2.2, word_ext h.1 h.2.1⟩
  · exact ⟨word_ext h.2.1 h.1, word_ext h.2.2.2 h.2.2.1⟩
  · exact ⟨word_ext h.2.2.2 h.2.2.1, word_ext h.2.1 h.1⟩

theorem orderBytes64_inj {order : ModbusByteOrder} {v₀ v₁ v₂ v₃ w₀ w₁ w₂ w₃ : UInt16}
    (h : orderBytes64 order v₀ v₁ v₂ v₃ = orderBytes64 order w₀ w₁ w₂ w₃) :
    v₀ = w₀ ∧ v₁ = w₁ ∧ v₂ = w₂ ∧ v₃ = w₃ := by
  cases order <;> simp only [orderBytes64, List.cons.injEq, and_true] at h <;>
    obtain ⟨h₀, h₁, h₂, h₃, h₄, h₅, h₆, h₇⟩ := h
  · exact ⟨word_ext h₀ h₁, word_ext h₂ h₃, word_ext h₄ h₅, word_ext h₆ h₇⟩
  · exact ⟨word_ext h₂ h₃, word_ext h₀ h₁, word_ext h₆ h₇, word_ext h₄ h₅⟩
  · exact ⟨word_ext h₁ h₀, word_ext h₃ h₂, word_ext h₅ h₄, word_ext h₇ h₆⟩
  · exact ⟨word_ext h₇ h₆, word_ext h₅ h₄, word_ext h₃ h₂, word_ext h₁ h₀⟩

theorem length_orderBytes16 (order : ModbusByteOrder) (w : UInt16) :
    (orderBytes16 order w).length = 2 := by
  cases order <;> rfl

theorem length_orderBytes32 (order : ModbusByteOrder) (w₀ w₁ : UInt16) :
    (orderBytes32 order w₀ w₁).length = 4 := by
  cases order <;> rfl

theorem length_orderBytes64 (order : ModbusByteOrder) (w₀ w₁ w₂ w₃ : UInt16) :
    (orderBytes64 order w₀ w₁ w₂ w₃).length = 8 := by
  cases order <;> rfl

theorem signed_bytes_inj {bits : Nat} {xs ys : List UInt8} (hlen : xs.length = ys.length)
    (hbits : 256 ^ xs.length = 2 ^ bits)
    (h : asSigned bits (fromBeBytes xs) = asSigned bits (fromBeBytes ys)) : xs = ys := by
  refine fromBeBytes_inj hlen (asSigned_inj ?_ ?_ h)
  · exact hbits ▸ fromBeBytes_lt xs
  · exact hbits ▸ hlen ▸ fromBeBytes_lt ys

theorem unsigned_bytes_inj {xs ys : List UInt8} (hlen : xs.length = ys.length)
    (h : (fromBeBytes xs : Int) = fromBeBytes ys) : xs = ys :=
  fromBeBytes_inj hlen (Int.ofNat.inj h)

variable [Float64 F]

theorem decodeInteger_eq {reg : PreparedRegister F} {words : List UInt16} {n v : Int}
    (h : decodeInteger reg words n = .ok (.number (.int v))) : n = v := by
  obtain ⟨val, -, h⟩ := bind_eq_ok h
  split at h
  · cases h
    rfl
  · cases h

variable [FloatBits F]

theorem decodeRegisterValue_inj {reg : PreparedRegister F} {vs ws : List UInt16} {v : Int}
    {bounds : Int × Int} (hrange : reg.dataType.range = some bounds)
    (hvs : vs.length = reg.dataType.wordCount none) (hws : ws.length = reg.dataType.wordCount none)
    (hv : decodeRegisterValue reg vs = .ok (.number (.int v)))
    (hw : decodeRegisterValue reg ws = .ok (.number (.int v))) : vs = ws := by
  unfold decodeRegisterValue at hv hw
  cases htype : reg.dataType <;> rw [htype] at hrange hvs hws hv hw <;>
    simp only [ModbusDataType.range, reduceCtorEq] at hrange <;>
    simp only [ModbusDataType.wordCount] at hvs hws
  case int16 =>
    obtain ⟨v₀, rfl⟩ := List.length_eq_one_iff.mp hvs
    obtain ⟨w₀, rfl⟩ := List.length_eq_one_iff.mp hws
    have h := (decodeInteger_eq hv).trans (decodeInteger_eq hw).symm
    have hbytes := signed_bytes_inj (by simp [length_orderBytes16])
      (by rw [length_orderBytes16]; rfl) h
    exact congrArg (fun w => [w]) (orderBytes16_inj hbytes)
  case uint16 =>
    obtain ⟨v₀, rfl⟩ := List.length_eq_one_iff.mp hvs
    obtain ⟨w₀, rfl⟩ := List.length_eq_one_iff.mp hws
    have h := (decodeInteger_eq hv).trans (decodeInteger_eq hw).symm
    have hbytes := unsigned_bytes_inj (by simp [length_orderBytes16]) h
    exact congrArg (fun w => [w]) (orderBytes16_inj hbytes)
  case int32 =>
    obtain ⟨v₀, v₁, rfl⟩ := List.length_eq_two.mp hvs
    obtain ⟨w₀, w₁, rfl⟩ := List.length_eq_two.mp hws
    have h := (decodeInteger_eq hv).trans (decodeInteger_eq hw).symm
    have hbytes := signed_bytes_inj (by simp [length_orderBytes32])
      (by rw [length_orderBytes32]; rfl) h
    obtain ⟨rfl, rfl⟩ := orderBytes32_inj hbytes
    rfl
  case uint32 =>
    obtain ⟨v₀, v₁, rfl⟩ := List.length_eq_two.mp hvs
    obtain ⟨w₀, w₁, rfl⟩ := List.length_eq_two.mp hws
    have h := (decodeInteger_eq hv).trans (decodeInteger_eq hw).symm
    have hbytes := unsigned_bytes_inj (by simp [length_orderBytes32]) h
    obtain ⟨rfl, rfl⟩ := orderBytes32_inj hbytes
    rfl
  case int64 =>
    obtain ⟨v₀, v₁, v₂, v₃, rfl⟩ := List.length_eq_four.mp hvs
    obtain ⟨w₀, w₁, w₂, w₃, rfl⟩ := List.length_eq_four.mp hws
    have h := (decodeInteger_eq hv).trans (decodeInteger_eq hw).symm
    have hbytes := signed_bytes_inj (by simp [length_orderBytes64])
      (by rw [length_orderBytes64]; rfl) h
    obtain ⟨rfl, rfl, rfl, rfl⟩ := orderBytes64_inj hbytes
    rfl
  case uint64 =>
    obtain ⟨v₀, v₁, v₂, v₃, rfl⟩ := List.length_eq_four.mp hvs
    obtain ⟨w₀, w₁, w₂, w₃, rfl⟩ := List.length_eq_four.mp hws
    have h := (decodeInteger_eq hv).trans (decodeInteger_eq hw).symm
    have hbytes := unsigned_bytes_inj (by simp [length_orderBytes64]) h
    obtain ⟨rfl, rfl, rfl, rfl⟩ := orderBytes64_inj hbytes
    rfl

-- ---- The two sides

/-- What a sink and a source are configured with when they share a register. -/
structure SharedSettings where
  function : String
  address : UInt16
  dataType : String
  byteOrder : String
  addressBase : Option UInt16
  plcAddressing : Bool

namespace SharedSettings

def sink (s : SharedSettings) (field : Option String) : ModbusSinkConfig where
  byteOrder := s.byteOrder
  addressBase := s.addressBase
  plcAddressing := s.plcAddressing
  function := s.function
  registerAddress := s.address
  dataType := s.dataType
  field := field

def source (F : Type) (s : SharedSettings) (name : String) :
    Except String (PreparedRegister F) :=
  PreparedRegister.fromConfig
    ⟨name, s.function, s.address, s.dataType, none, none, none, none⟩
    (ModbusByteOrder.parse s.byteOrder) s.addressBase s.plcAddressing

/-- The sink writes the record to the bank, the source reads `v` from its register, and every
other register is as before. -/
def ReadsBack (s : SharedSettings) (field : Option String) (name : String) (record : Row F)
    (v : Int) (bank : RegisterBank) : Prop :=
  ∃ val pdu reg words, recordValue (s.sink field) record = some val ∧
    writePdu (s.sink field) val = .ok pdu ∧ s.source F name = .ok reg ∧
    readHolding (applyPdu bank pdu) reg.wireAddress reg.wordCount = some words ∧
    decodeRegisterValue reg words = .ok (.number (.int v)) ∧
    ∀ address, (address < reg.wireAddress ∨ reg.wireAddress + reg.wordCount ≤ address) →
      applyPdu bank pdu address = bank address

/-- Where both sides translate the address alike. -/
def SameAddress (s : SharedSettings) : Prop :=
  s.plcAddressing = true → s.address.toNat = 0 ∨ 40001 ≤ s.address.toNat

omit [Float64 F] [FloatBits F] in
theorem wireAddress_sink (s : SharedSettings) (field : Option String) :
    (s.sink field).wireAddress =
      if s.plcAddressing then
        if 40001 ≤ s.address.toNat then s.address.toNat - 40001
        else if 1 ≤ s.address.toNat then s.address.toNat - 1
        else s.address.toNat
      else if s.addressBase = some 1 then s.address.toNat - 1
      else s.address.toNat := rfl

def sourceAddress (s : SharedSettings) : Nat :=
  sourceWireAddress .holding s.address.toNat s.addressBase s.plcAddressing

theorem sourceAddress_eq_iff (s : SharedSettings) (field : Option String) :
    s.sourceAddress = (s.sink field).wireAddress ↔ s.SameAddress := by
  rw [wireAddress_sink, sourceAddress, sourceWireAddress, SameAddress]
  split
  · rename_i hplc
    rw [forall_prop_of_true hplc]
    split
    · omega
    · split <;> split <;> omega
  · rename_i hplc
    exact iff_of_true rfl fun h => absurd h hplc

theorem wireAddress_lt (s : SharedSettings) (field : Option String) :
    (s.sink field).wireAddress < 2 ^ 16 := by
  have hlt := s.address.toNat_lt
  rw [wireAddress_sink]
  split
  · split
    · omega
    · split <;> omega
  · split <;> omega

def prepared (F : Type) (s : SharedSettings) (name : String) (t : ModbusDataType) :
    PreparedRegister F where
  name := name
  function := .holding
  wireAddress := s.sourceAddress
  dataType := t
  wordCount := t.wordCount none
  byteOrder := ModbusByteOrder.parse s.byteOrder
  scale := none
  offset := none
  length := none

omit [Float64 F] [FloatBits F] in
theorem source_eq {s : SharedSettings} {t : ModbusDataType}
    (hfunction : ModbusFunction.parse s.function = .ok .holding)
    (htype : ModbusDataType.parse s.dataType = .ok t) (name : String) :
    s.source F name = .ok (s.prepared F name t) := by
  simp only [source, PreparedRegister.fromConfig, hfunction, htype]
  rfl

end SharedSettings

omit [Float64 F] [FloatBits F] in
theorem not_coil {function : String} (h : ModbusFunction.parse function = .ok .holding) :
    eqIgnoreAsciiCase function "coil" = false := by
  rw [Bool.eq_false_iff]
  intro hcoil
  have hlower : toAsciiLowercase function = "coil" := by
    have hsame : toAsciiLowercase "coil" = "coil" := by decide
    rw [← hsame]
    exact eq_of_beq hcoil
  rw [ModbusFunction.parse, hlower] at h
  cases h

theorem applyPdu_single (bank : RegisterBank) {address : Nat} (h : address < 2 ^ 16)
    (b₀ b₁ : UInt8) :
    applyPdu bank ([0x06] ++ wireBytes address ++ [b₀, b₁]) =
      Function.update bank address (wordOf b₀ b₁) := by
  have haddress : (UInt16.ofNat address).toNat = address := UInt16.toNat_ofNat_of_lt h
  simp [applyPdu, wireBytes, writeWords, wordOf_bytes, haddress]

theorem writePdu_integer (config : ModbusSinkConfig) {t : ModbusDataType} {bounds : Int × Int}
    (hfunction : ModbusFunction.parse config.function = .ok .holding)
    (htype : ModbusDataType.parse config.dataType = .ok t) (hrange : t.range = some bounds)
    (val : Value F) :
    ∃ b₀ b₁, writePdu config val = .ok ([0x06] ++ wireBytes config.wireAddress ++ [b₀, b₁]) ∧
      (t = .int16 ∨ t = .uint16 →
        orderBytes16 (ModbusByteOrder.parse config.byteOrder) (lowWord val) = [b₀, b₁]) := by
  obtain ⟨b₀, b₁, hbytes⟩ := List.length_eq_two.mp
    (length_orderBytes16 (ModbusByteOrder.parse config.byteOrder) (lowWord val))
  unfold writePdu
  rw [not_coil hfunction]
  simp only [Bool.false_eq_true, if_false, htype]
  cases t <;> simp only [ModbusDataType.range, reduceCtorEq] at hrange
  case int16 => exact ⟨b₀, b₁, by rw [hbytes], fun _ => hbytes⟩
  case uint16 => exact ⟨b₀, b₁, by rw [hbytes], fun _ => hbytes⟩
  all_goals exact ⟨_, _, rfl, by simp⟩

omit [Float64 F] [FloatBits F] in
theorem length_readHolding {bank : RegisterBank} {address count : Nat} {words : List UInt16}
    (h : readHolding bank address count = some words) :
    words = (List.range count).map fun i => bank (address + i) := by
  unfold readHolding at h
  split at h
  · exact (Option.some.inj h).symm
  · cases h

theorem orderBytes16_wordOf {order : ModbusByteOrder} {w : UInt16} {b₀ b₁ : UInt8}
    (h : orderBytes16 order w = [b₀, b₁]) :
    orderBytes16 order (wordOf b₀ b₁) = [hiByte w, loByte w] := by
  cases order <;> simp only [orderBytes16, List.cons.injEq, and_true] at h ⊢ <;>
    obtain ⟨rfl, rfl⟩ := h
  · exact ⟨hiByte_wordOf .., loByte_wordOf ..⟩
  · exact ⟨hiByte_wordOf .., loByte_wordOf ..⟩
  · exact ⟨loByte_wordOf .., hiByte_wordOf ..⟩
  · exact ⟨loByte_wordOf .., hiByte_wordOf ..⟩

section

variable {s : SharedSettings} {t : ModbusDataType} {v low high : Int} {field : Option String}
  {name : String} {record : Row F}

/-- The sink writes one register. A value that comes back from every bank is read from that
register alone: words from anywhere else are whatever the bank holds. -/
theorem reads_written (hfunction : ModbusFunction.parse s.function = .ok .holding)
    (htype : ModbusDataType.parse s.dataType = .ok t) (hrange : t.range = some (low, high))
    (h : ∀ bank, s.ReadsBack field name record v bank) {i : Nat} (hi : i < t.wordCount none) :
    s.sourceAddress + i = (s.sink field).wireAddress := by
  have hread : ∀ bank : RegisterBank, ∃ word, decodeRegisterValue (s.prepared F name t)
      ((List.range (t.wordCount none)).map fun k =>
        (Function.update bank (s.sink field).wireAddress word : RegisterBank) (s.sourceAddress + k)) =
      .ok (.number (.int v)) := by
    intro bank
    obtain ⟨val, pdu, reg, words, -, hpdu, hreg, hwords, hdecode, -⟩ := h bank
    obtain ⟨b₀, b₁, hsingle, -⟩ := writePdu_integer (s.sink field) hfunction htype hrange val
    rw [hsingle] at hpdu
    cases hpdu
    rw [SharedSettings.source_eq hfunction htype] at hreg
    cases hreg
    rw [length_readHolding hwords, applyPdu_single bank (s.wireAddress_lt field)] at hdecode
    exact ⟨wordOf b₀ b₁, hdecode⟩
  by_contra hne
  obtain ⟨w₀, h₀⟩ := hread fun _ => 0
  obtain ⟨w₁, h₁⟩ := hread fun _ => 1
  have hwords := decodeRegisterValue_inj hrange (by simp [SharedSettings.prepared])
    (by simp [SharedSettings.prepared]) h₀ h₁
  have hword := List.map_inj_left.mp hwords i (List.mem_range.mpr hi)
  rw [Function.update_of_ne hne, Function.update_of_ne hne] at hword
  exact absurd hword (by decide)

theorem readsBack_16 (hfinite : Float64.isFinite (Float64.ofInt v : F) = true)
    (hfunction : ModbusFunction.parse s.function = .ok .holding)
    (htype : ModbusDataType.parse s.dataType = .ok t) (hrange : t.range = some (low, high))
    (hlow : low ≤ v) (hhigh : v ≤ high)
    (hrecord : recordValue (s.sink field) record = some (.number (.int v)))
    (h16 : t = .int16 ∨ t = .uint16) (hsame : s.SameAddress) (bank : RegisterBank) :
    s.ReadsBack field name record v bank := by
  obtain ⟨b₀, b₁, hpdu, hbytes⟩ := writePdu_integer (s.sink field) hfunction htype hrange
    (.number (.int v) : Value F)
  have haddress : s.sourceAddress = (s.sink field).wireAddress :=
    (s.sourceAddress_eq_iff field).mpr hsame
  have hlt := s.wireAddress_lt field
  have hcount : t.wordCount none = 1 := by rcases h16 with rfl | rfl <;> rfl
  refine ⟨_, _, _, [wordOf b₀ b₁], hrecord, hpdu, SharedSettings.source_eq hfunction htype name,
    ?_, ?_, ?_⟩
  · rw [applyPdu_single bank hlt]
    simp only [SharedSettings.prepared, readHolding, hcount, haddress]
    rw [if_pos (by omega)]
    simp
  · have hint : lowWord (.number (.int v) : Value F) = UInt16.ofInt v := by
      have hmax : v ≤ maxI64 := by
        rcases h16 with rfl | rfl <;> cases hrange <;> rw [maxI64] <;> omega
      simp [lowWord, Value.asI64, Number.asI64, hmax]
    have hword := orderBytes16_wordOf (hbytes h16)
    rw [hint] at hword
    have hdecode : ∀ n : Int, n = v → decodeInteger (s.prepared F name t) [wordOf b₀ b₁] n =
        .ok (.number (.int v)) := by
      rintro n rfl
      simp [decodeInteger, applyMath, SharedSettings.prepared, hfinite, bind, Except.bind]
    rcases h16 with rfl | rfl <;> cases hrange
    · refine hdecode _ ?_
      simp only [SharedSettings.prepared, SharedSettings.sink] at hword ⊢
      rw [List.head?_cons, Option.getD_some, hword, fromBeBytes_word]
      exact asSigned_ofInt hlow (by omega)
    · refine hdecode _ ?_
      simp only [SharedSettings.prepared, SharedSettings.sink] at hword ⊢
      rw [List.head?_cons, Option.getD_some, hword, fromBeBytes_word]
      exact toNat_ofInt_word hlow (by omega)
  · intro address hother
    rw [applyPdu_single bank hlt]
    refine Function.update_of_ne ?_ _ _
    simp only [SharedSettings.prepared, hcount, haddress] at hother
    omega

end

/-- A value the sink writes comes back whatever the bank held before, and no other register
changes, if and only if the type has 16 bits and both sides translate the address alike. -/
theorem reads_back_iff (hfinite : ∀ n : Int, minI64 ≤ n → n < 2 ^ 64 →
      Float64.isFinite (Float64.ofInt n : F) = true)
    (s : SharedSettings) (field : Option String) (name : String) (record : Row F)
    (t : ModbusDataType) (low high v : Int)
    (hfunction : ModbusFunction.parse s.function = .ok .holding)
    (htype : ModbusDataType.parse s.dataType = .ok t) (hrange : t.range = some (low, high))
    (hlow : low ≤ v) (hhigh : v ≤ high)
    (hrecord : recordValue (s.sink field) record = some (.number (.int v))) :
    (∀ bank, s.ReadsBack field name record v bank) ↔
      (t = .int16 ∨ t = .uint16) ∧ s.SameAddress := by
  constructor
  · intro h
    have hread := fun i => reads_written (i := i) hfunction htype hrange h
    have hone : t.wordCount none = 1 := by
      by_contra hcount
      have htwo : 1 < t.wordCount none := by
        cases t <;> simp_all [ModbusDataType.wordCount]
      have h₀ := hread 0 (by omega)
      have h₁ := hread 1 htwo
      omega
    refine ⟨?_, (s.sourceAddress_eq_iff field).mp (hread 0 (by omega))⟩
    cases t <;> simp_all [ModbusDataType.wordCount, ModbusDataType.range]
  · rintro ⟨h16, hsame⟩ bank
    refine readsBack_16 (hfinite v ?_ ?_) hfunction htype hrange hlow hhigh hrecord h16 hsame bank
    · rcases h16 with rfl | rfl <;> cases hrange <;> rw [minI64] <;> omega
    · rcases h16 with rfl | rfl <;> cases hrange <;> omega

def plcSettings : SharedSettings where
  function := "holding"
  address := 40005
  dataType := "int16"
  byteOrder := "DCBA"
  addressBase := none
  plcAddressing := true

def wideSettings : SharedSettings where
  function := "holding"
  address := 0
  dataType := "int32"
  byteOrder := "ABCD"
  addressBase := none
  plcAddressing := false

def valueRecord (v : Int) : Row ℚ := ⟨[⟨"value", .number (.int v)⟩], by simp⟩

theorem reads_back_iff_plc :
    (∀ n : Int, minI64 ≤ n → n < 2 ^ 64 → Float64.isFinite (Float64.ofInt n : ℚ) = true) ∧
      ((∀ bank, plcSettings.ReadsBack none "r" (valueRecord (-2)) (-2) bank) ↔
        (ModbusDataType.int16 = .int16 ∨ ModbusDataType.int16 = .uint16) ∧
          plcSettings.SameAddress) :=
  have hfinite : ∀ n : Int, minI64 ≤ n → n < 2 ^ 64 →
      Float64.isFinite (Float64.ofInt n : ℚ) = true := fun _ _ _ => rfl
  ⟨hfinite, reads_back_iff hfinite plcSettings none "r" (valueRecord (-2)) .int16 (-2 ^ 15)
    (2 ^ 15 - 1) (-2) rfl rfl rfl (by decide) (by decide) rfl⟩

/-- The sink writes 5 as one word, and the source reads it as the upper half. -/
theorem wide_integer_not_read_back :
    ModbusFunction.parse wideSettings.function = .ok .holding ∧
      ModbusDataType.parse wideSettings.dataType = .ok .int32 ∧
      ¬ wideSettings.ReadsBack none "r" (valueRecord 5) 5 fun _ => 0 := by
  refine ⟨rfl, rfl, ?_⟩
  rintro ⟨val, pdu, reg, words, hval, hpdu, hreg, hwords, hdecode, -⟩
  cases hval
  cases hpdu
  cases hreg
  cases hwords
  cases hdecode

end Rekuiper.Connectors
