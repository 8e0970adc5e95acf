import Mathlib.Data.Prod.Lex
import Rekuiper.Connectors.Modbus
import Rekuiper.Lib.Groups
import Rekuiper.Lib.StableSort

/-!
# Coalescing registers

`coalesce_registers` merges the registers of one function, in the order of their addresses,
into ranges that are polled with one request each. Ends of ranges are `u16` and saturate,
so a range that ends after the last address looks one register shorter than it is. A range
with one such register in it is right; one that is merged with another loses the last
register.
-/

namespace Rekuiper.Connectors

open Lib

variable {F : Type}

def ModbusFunction.code : ModbusFunction → Nat
  | .coil => 1
  | .discreteInput => 2
  | .holding => 3
  | .input => 4

theorem ModbusFunction.code_inj {f g : ModbusFunction} (h : f.code = g.code) : f = g := by
  cases f <;> cases g <;> first | rfl | cases h

/-- The most that one request may read: `MAX_MODBUS_COIL_SPAN` or `MAX_MODBUS_REGISTER_SPAN`. -/
def ModbusFunction.maxSpan (f : ModbusFunction) : Nat :=
  if f.isBitAccess then 2000 else 125

def addressEnd : Nat := 65536

/-- `u16::saturating_add` -/
def saturatingAdd (a b : Nat) : Nat := min (a + b) 65535

def PreparedRegister.stop (reg : PreparedRegister F) : Nat := reg.wireAddress + reg.wordCount

structure CoalescedRange (F : Type) where
  function : ModbusFunction
  unitId : UInt8
  startAddress : Nat
  quantity : Nat
  registers : List (PreparedRegister F)

namespace CoalescedRange

def stop (range : CoalescedRange F) : Nat := range.startAddress + range.quantity

def alone (unitId : UInt8) (reg : PreparedRegister F) : CoalescedRange F where
  function := reg.function
  unitId := unitId
  startAddress := reg.wireAddress
  quantity := reg.wordCount
  registers := [reg]

def proposedSpan (curr : CoalescedRange F) (reg : PreparedRegister F) : Nat :=
  max (saturatingAdd curr.startAddress curr.quantity)
    (saturatingAdd reg.wireAddress reg.wordCount) - curr.startAddress

/-- The register is near enough and the range would not get too long. -/
def Takes (maxGap : Nat) (curr : CoalescedRange F) (reg : PreparedRegister F) : Prop :=
  reg.wireAddress ≤ saturatingAdd (saturatingAdd curr.startAddress curr.quantity) maxGap ∧
    curr.proposedSpan reg ≤ reg.function.maxSpan

instance (maxGap : Nat) (curr : CoalescedRange F) (reg : PreparedRegister F) :
    Decidable (curr.Takes maxGap reg) :=
  inferInstanceAs (Decidable (_ ∧ _))

def merge (curr : CoalescedRange F) (reg : PreparedRegister F) : CoalescedRange F :=
  { curr with quantity := curr.proposedSpan reg, registers := curr.registers ++ [reg] }

end CoalescedRange

def coalesceList (unitId : UInt8) (maxGap : Nat) :
    Option (CoalescedRange F) → List (PreparedRegister F) → List (CoalescedRange F)
  | none, [] => []
  | some curr, [] => [curr]
  | none, reg :: list => coalesceList unitId maxGap (some (.alone unitId reg)) list
  | some curr, reg :: list =>
    if curr.Takes maxGap reg then coalesceList unitId maxGap (some (curr.merge reg)) list
    else curr :: coalesceList unitId maxGap (some (.alone unitId reg)) list

/-- The ranges of the registers, which stand under their function codes in a hash map that
is gone through in the order of `byFunc`. -/
def coalesceRegisters (byFunc : List (Nat × List (PreparedRegister F))) (unitId : UInt8)
    (maxGap : Nat) : List (CoalescedRange F) :=
  sortByKey (fun range => toLex (range.function.code, range.startAddress))
    (byFunc.flatMap fun g => coalesceList unitId maxGap none (sortByKey (·.wireAddress) g.2))

/-- The hash map of the registers by their functions, in whatever order. -/
def ByFunction (registers : List (PreparedRegister F))
    (byFunc : List (Nat × List (PreparedRegister F))) : Prop :=
  byFunc.Perm (groupOn (·.function.code) registers)

-- ---- Covers

def PreparedRegister.Readable (reg : PreparedRegister F) : Prop :=
  1 ≤ reg.wordCount ∧ reg.wordCount ≤ reg.function.maxSpan ∧ reg.stop ≤ addressEnd

instance (reg : PreparedRegister F) : Decidable reg.Readable :=
  inferInstanceAs (Decidable (_ ∧ _ ∧ _))

structure CoalescedRange.Reads (range : CoalescedRange F) : Prop where
  covers : ∀ reg ∈ range.registers, reg.function = range.function ∧
    range.startAddress ≤ reg.wireAddress ∧ reg.stop ≤ range.stop
  some_quantity : 1 ≤ range.quantity
  quantity_le : range.quantity ≤ range.function.maxSpan
  stop_le : range.stop ≤ addressEnd

structure Cover (registers : List (PreparedRegister F)) (ranges : List (CoalescedRange F)) :
    Prop where
  once : (ranges.flatMap (·.registers)).Perm registers
  reads : ∀ range ∈ ranges, range.Reads

theorem CoalescedRange.alone_reads {reg : PreparedRegister F} (h : reg.Readable) (unitId : UInt8) :
    (alone unitId reg).Reads where
  covers := by
    intro r hr
    cases List.mem_singleton.mp hr
    exact ⟨rfl, le_refl _, le_refl _⟩
  some_quantity := h.1
  quantity_le := h.2.1
  stop_le := h.2.2

theorem flatMap_coalesceList (unitId : UInt8) (maxGap : Nat) (curr : Option (CoalescedRange F))
    (list : List (PreparedRegister F)) :
    (coalesceList unitId maxGap curr list).flatMap (·.registers) =
      (curr.map (·.registers)).getD [] ++ list := by
  fun_induction coalesceList unitId maxGap curr list with
  | case1 => rfl
  | case2 curr => simp
  | case3 reg list ih => exact ih
  | case4 curr reg list htakes ih =>
    rw [ih]
    simp [CoalescedRange.merge]
  | case5 curr reg list htakes ih =>
    rw [List.flatMap_cons, ih]
    rfl

theorem coalesceList_start_le (unitId : UInt8) (maxGap : Nat) (curr : Option (CoalescedRange F))
    (list : List (PreparedRegister F))
    (hsorted : list.Pairwise fun a b => a.wireAddress ≤ b.wireAddress)
    (hcurr : ∀ range ∈ curr, ∀ reg ∈ range.registers ++ list,
      range.startAddress ≤ reg.wireAddress) :
    ∀ range ∈ coalesceList unitId maxGap curr list, ∀ reg ∈ range.registers,
      range.startAddress ≤ reg.wireAddress := by
  have halone : ∀ reg : PreparedRegister F, ∀ list, (reg :: list).Pairwise
      (fun a b => a.wireAddress ≤ b.wireAddress) →
      ∀ range ∈ some (CoalescedRange.alone unitId reg), ∀ r ∈ range.registers ++ list,
        range.startAddress ≤ r.wireAddress := by
    intro reg list hsorted range hrange r hr
    cases hrange
    rcases List.mem_cons.mp hr with rfl | hr
    · exact le_refl _
    · exact (List.pairwise_cons.mp hsorted).1 r hr
  fun_induction coalesceList unitId maxGap curr list with
  | case1 => simp
  | case2 curr =>
    intro range hrange reg hreg
    cases List.mem_singleton.mp hrange
    exact hcurr curr rfl reg (List.mem_append_left _ hreg)
  | case3 reg list ih => exact ih (List.pairwise_cons.mp hsorted).2 (halone reg list hsorted)
  | case4 curr reg list htakes ih =>
    refine ih (List.pairwise_cons.mp hsorted).2 fun range hrange r hr => ?_
    cases hrange
    exact hcurr curr rfl r (by simpa [CoalescedRange.merge] using hr)
  | case5 curr reg list htakes ih =>
    refine List.forall_mem_cons.mpr ⟨fun r hr => ?_, ?_⟩
    · exact hcurr curr rfl r (List.mem_append_left _ hr)
    · exact ih (List.pairwise_cons.mp hsorted).2 (halone reg list hsorted)

-- ---- Runs

/-- A run of addresses, from its first to after its last. -/
abbrev Run := Nat × Nat

def PreparedRegister.run (reg : PreparedRegister F) : Run := (reg.wireAddress, reg.stop)

def Continues (maxGap : Nat) (run : Run) (reg : PreparedRegister F) : Prop :=
  reg.wireAddress ≤ run.2 + maxGap ∧ max run.2 reg.stop - run.1 ≤ reg.function.maxSpan

instance (maxGap : Nat) (run : Run) (reg : PreparedRegister F) :
    Decidable (Continues maxGap run reg) :=
  inferInstanceAs (Decidable (_ ∧ _))

def nextRun (maxGap : Nat) (run : Run) (reg : PreparedRegister F) : Run :=
  if Continues maxGap run reg then (run.1, max run.2 reg.stop) else reg.run

/-- The run in which the last of the registers stands, when they are gathered in order. -/
def lastRun (maxGap : Nat) : List (PreparedRegister F) → Option Run
  | [] => none
  | reg :: list => some (list.foldl (nextRun maxGap) reg.run)

/-- A register at the end of the address space that is near enough to a run to be merged
with it. The span is taken without the last address. -/
def Joins (maxGap : Nat) (run : Run) (reg : PreparedRegister F) : Prop :=
  reg.wireAddress ≤ run.2 + maxGap ∧ addressEnd - 1 - run.1 ≤ reg.function.maxSpan

/-- A register at the end of the address space is the last one and joins no run. -/
def EndApart (maxGap : Nat) (list : List (PreparedRegister F)) : Prop :=
  ∀ before reg after, list = before ++ reg :: after → reg.stop = addressEnd →
    after = [] ∧ ∀ run ∈ lastRun maxGap before, ¬ Joins maxGap run reg

def EndApartFrom (maxGap : Nat) (run : Run) (list : List (PreparedRegister F)) : Prop :=
  (run.2 = addressEnd → list = []) ∧
    ∀ before reg after, list = before ++ reg :: after → reg.stop = addressEnd →
      after = [] ∧ ¬ Joins maxGap (before.foldl (nextRun maxGap) run) reg

theorem endApart_cons {maxGap : Nat} {reg : PreparedRegister F} {list : List (PreparedRegister F)} :
    EndApart maxGap (reg :: list) ↔ EndApartFrom maxGap reg.run list := by
  constructor
  · intro h
    refine ⟨fun hend => (h [] reg list rfl hend).1, fun before r after heq hend => ?_⟩
    obtain ⟨hafter, hjoins⟩ := h (reg :: before) r after (congrArg _ heq) hend
    exact ⟨hafter, hjoins _ rfl⟩
  · rintro ⟨hrun, h⟩ before r after heq hend
    cases before with
    | nil =>
      obtain ⟨rfl, rfl⟩ := List.cons.inj heq
      exact ⟨hrun hend, fun run hnone => nomatch hnone⟩
    | cons b before =>
      obtain ⟨rfl, rfl⟩ := List.cons.inj heq
      obtain ⟨hafter, hjoins⟩ := h before r after rfl hend
      exact ⟨hafter, fun run hsome => by cases hsome; exact hjoins⟩

theorem Continues.joins {maxGap : Nat} {run : Run} {reg : PreparedRegister F}
    (h : Continues maxGap run reg) (hend : reg.stop = addressEnd) : Joins maxGap run reg := by
  refine ⟨h.1, ?_⟩
  have := h.2
  omega

theorem endApartFrom_cons {maxGap : Nat} {run : Run} {reg : PreparedRegister F}
    {list : List (PreparedRegister F)} :
    EndApartFrom maxGap run (reg :: list) ↔
      run.2 ≠ addressEnd ∧ (reg.stop = addressEnd → ¬ Joins maxGap run reg) ∧
        EndApartFrom maxGap (nextRun maxGap run reg) list := by
  constructor
  · rintro ⟨hrun, h⟩
    have hne : run.2 ≠ addressEnd := fun hend => nomatch hrun hend
    refine ⟨hne, fun hend => (h [] reg list rfl hend).2, fun hend => ?_, ?_⟩
    · have hreg : reg.stop = addressEnd := by
        unfold nextRun at hend
        split at hend
        · change max run.2 reg.stop = addressEnd at hend
          omega
        · exact hend
      exact (h [] reg list rfl hreg).1
    · intro before r after heq hend
      exact h (reg :: before) r after (congrArg _ heq) hend
  · rintro ⟨hne, hreg, hrest, h⟩
    refine ⟨fun hend => absurd hend hne, fun before r after heq hend => ?_⟩
    cases before with
    | nil =>
      obtain ⟨rfl, rfl⟩ := List.cons.inj heq
      have hjoins := hreg hend
      have hcont : ¬ Continues maxGap run reg := fun hc => hjoins (hc.joins hend)
      refine ⟨hrest ?_, hjoins⟩
      rw [nextRun, if_neg hcont]
      exact hend
    | cons b before =>
      obtain ⟨rfl, rfl⟩ := List.cons.inj heq
      exact h before r after rfl hend

-- ---- The loop

def CoalescedRange.run (curr : CoalescedRange F) : Run := (curr.startAddress, curr.stop)

/-- What the loop keeps of the range it is at: it reads its registers, and one of them ends
where it ends. -/
structure CoalescedRange.Tight (curr : CoalescedRange F) : Prop extends curr.Reads where
  attained : ∃ reg ∈ curr.registers, reg.stop = curr.stop

theorem CoalescedRange.alone_tight {reg : PreparedRegister F} (h : reg.Readable) (unitId : UInt8) :
    (alone unitId reg).Tight :=
  { alone_reads h unitId with attained := ⟨reg, List.mem_singleton_self reg, rfl⟩ }

theorem CoalescedRange.takes_iff {maxGap : Nat} {curr : CoalescedRange F}
    {reg : PreparedRegister F} (hcurr : curr.stop < addressEnd) (hreg : reg.stop < addressEnd) :
    curr.Takes maxGap reg ↔ Continues maxGap curr.run reg := by
  unfold Takes Continues proposedSpan saturatingAdd run
  unfold stop PreparedRegister.stop addressEnd at *
  omega

theorem CoalescedRange.takes_end_iff {maxGap : Nat} {curr : CoalescedRange F}
    {reg : PreparedRegister F} (hcurr : curr.stop < addressEnd) (hreg : reg.stop = addressEnd)
    (hsome : 1 ≤ reg.wordCount) : curr.Takes maxGap reg ↔ Joins maxGap curr.run reg := by
  unfold Takes Joins proposedSpan saturatingAdd run
  unfold stop PreparedRegister.stop addressEnd at *
  omega

theorem CoalescedRange.takes_of_end {maxGap : Nat} {curr : CoalescedRange F}
    {reg : PreparedRegister F} (hreads : curr.Reads) (hcurr : curr.stop = addressEnd)
    (hreg : reg.Readable) (hfun : reg.function = curr.function) : curr.Takes maxGap reg := by
  have hquantity := hreads.quantity_le
  obtain ⟨hone, -, hstop⟩ := hreg
  unfold Takes proposedSpan saturatingAdd
  rw [hfun]
  unfold stop addressEnd at hcurr
  unfold PreparedRegister.stop addressEnd at hstop
  omega

theorem CoalescedRange.merge_tight {maxGap : Nat} {curr : CoalescedRange F}
    {reg : PreparedRegister F} (h : curr.Tight) (hreg : reg.Readable)
    (hfun : reg.function = curr.function) (hafter : curr.startAddress ≤ reg.wireAddress)
    (htakes : curr.Takes maxGap reg) (hcurr : curr.stop < addressEnd)
    (hstop : reg.stop < addressEnd) :
    (curr.merge reg).Tight ∧ (curr.merge reg).stop = max curr.stop reg.stop := by
  have hmerged : (curr.merge reg).stop = max curr.stop reg.stop := by
    have hone := hreg.1
    unfold stop merge proposedSpan saturatingAdd
    unfold stop PreparedRegister.stop addressEnd at *
    dsimp only
    omega
  refine ⟨⟨⟨fun r hr => ?_, ?_, ?_, ?_⟩, ?_⟩, hmerged⟩
  · rw [hmerged]
    rcases List.mem_append.mp hr with hr | hr
    · obtain ⟨hf, hlo, hhi⟩ := h.covers r hr
      exact ⟨hf, hlo, le_max_of_le_left hhi⟩
    · cases List.mem_singleton.mp hr
      exact ⟨hfun, hafter, le_max_right _ _⟩
  · have hsome := h.some_quantity
    have : (curr.merge reg).startAddress = curr.startAddress := rfl
    unfold stop at hmerged
    omega
  · exact hfun ▸ htakes.2
  · rw [hmerged]
    omega
  · rw [hmerged]
    rcases le_total curr.stop reg.stop with hle | hle
    · exact ⟨reg, by simp [merge], (max_eq_right hle).symm⟩
    · obtain ⟨r, hr, heq⟩ := h.attained
      exact ⟨r, List.mem_append_left _ hr, by rw [heq, max_eq_left hle]⟩

/-- A range that ends before the last address and has the register there. -/
def CoalescedRange.Short (curr : CoalescedRange F) : Prop :=
  curr.stop < addressEnd ∧ ∃ reg ∈ curr.registers, reg.stop = addressEnd

theorem CoalescedRange.Short.not_reads {curr : CoalescedRange F} (h : curr.Short) :
    ¬ curr.Reads := by
  intro hreads
  obtain ⟨hlt, reg, hreg, hend⟩ := h
  have := (hreads.covers reg hreg).2.2
  omega

theorem CoalescedRange.merge_short {curr : CoalescedRange F} {reg : PreparedRegister F}
    (hstart : curr.startAddress < addressEnd)
    (h : reg.stop = addressEnd ∨ ∃ r ∈ curr.registers, r.stop = addressEnd) :
    (curr.merge reg).Short := by
  constructor
  · unfold stop merge proposedSpan saturatingAdd addressEnd at *
    dsimp only
    omega
  · rcases h with h | ⟨r, hr, h⟩
    · exact ⟨reg, by simp [merge], h⟩
    · exact ⟨r, List.mem_append_left _ hr, h⟩

theorem short_lost (unitId : UInt8) (maxGap : Nat) {curr : CoalescedRange F}
    (list : List (PreparedRegister F)) (h : curr.Short) :
    ¬ ∀ range ∈ coalesceList unitId maxGap (some curr) list, range.Reads := by
  induction list generalizing curr with
  | nil => exact fun hall => h.not_reads (hall curr (List.mem_singleton_self curr))
  | cons reg list ih =>
    rw [coalesceList]
    split
    · refine ih (CoalescedRange.merge_short ?_ (.inr h.2))
      exact Nat.lt_of_le_of_lt (Nat.le_add_right _ _) h.1
    · exact fun hall => h.not_reads (hall curr List.mem_cons_self)

structure Ascending (function : ModbusFunction) (list : List (PreparedRegister F)) : Prop where
  readable : ∀ reg ∈ list, reg.Readable
  function_eq : ∀ reg ∈ list, reg.function = function
  sorted : list.Pairwise fun a b => a.wireAddress ≤ b.wireAddress

theorem Ascending.tail {function : ModbusFunction} {reg : PreparedRegister F}
    {list : List (PreparedRegister F)} (h : Ascending function (reg :: list)) :
    Ascending function list where
  readable r hr := h.readable r (List.mem_cons_of_mem _ hr)
  function_eq r hr := h.function_eq r (List.mem_cons_of_mem _ hr)
  sorted := (List.pairwise_cons.mp h.sorted).2

theorem coalesceList_reads_iff (unitId : UInt8) (maxGap : Nat) {curr : CoalescedRange F}
    {list : List (PreparedRegister F)} (hcurr : curr.Tight) (hlist : Ascending curr.function list)
    (hafter : ∀ reg ∈ list, curr.startAddress ≤ reg.wireAddress) :
    (∀ range ∈ coalesceList unitId maxGap (some curr) list, range.Reads) ↔
      EndApartFrom maxGap curr.run list := by
  induction list generalizing curr with
  | nil =>
    refine ⟨fun _ => ⟨fun _ => rfl, fun before reg after heq => ?_⟩, fun _ range hrange => ?_⟩
    · simp at heq
    · cases List.mem_singleton.mp hrange
      exact hcurr.toReads
  | cons reg list ih =>
    have hreg := hlist.readable reg List.mem_cons_self
    have hfun := hlist.function_eq reg List.mem_cons_self
    have hbelow : curr.stop ≤ addressEnd := hcurr.stop_le
    have hstart : curr.startAddress < addressEnd := by
      have := hcurr.some_quantity
      unfold CoalescedRange.stop at hbelow
      omega
    rw [endApartFrom_cons, coalesceList]
    split
    · rename_i htakes
      by_cases hend : curr.stop = addressEnd
      · refine iff_of_false (short_lost unitId maxGap list ?_) (fun h => h.1 hend)
        obtain ⟨r, hr, heq⟩ := hcurr.attained
        exact CoalescedRange.merge_short hstart (.inr ⟨r, hr, heq.trans hend⟩)
      have hlt : curr.stop < addressEnd := Nat.lt_of_le_of_ne hbelow hend
      by_cases hregEnd : reg.stop = addressEnd
      · refine iff_of_false (short_lost unitId maxGap list ?_) (fun h => h.2.1 hregEnd ?_)
        · exact CoalescedRange.merge_short hstart (.inl hregEnd)
        · exact (CoalescedRange.takes_end_iff hlt hregEnd hreg.1).mp htakes
      have hregLt : reg.stop < addressEnd := Nat.lt_of_le_of_ne hreg.2.2 hregEnd
      obtain ⟨htight, hstop⟩ := CoalescedRange.merge_tight hcurr hreg hfun
        (hafter reg List.mem_cons_self) htakes hlt hregLt
      rw [ih htight hlist.tail fun r hr => hafter r (List.mem_cons_of_mem _ hr)]
      have hrun : (curr.merge reg).run = nextRun maxGap curr.run reg := by
        rw [nextRun, if_pos ((CoalescedRange.takes_iff hlt hregLt).mp htakes)]
        exact Prod.ext rfl hstop
      rw [hrun]
      exact ⟨fun h => ⟨hend, fun h' => absurd h' hregEnd, h⟩, fun h => h.2.2⟩
    · rename_i htakes
      have hend : curr.stop ≠ addressEnd := fun hend =>
        htakes (CoalescedRange.takes_of_end hcurr.toReads hend hreg hfun)
      have hlt : curr.stop < addressEnd := Nat.lt_of_le_of_ne hbelow hend
      have hjoins : reg.stop = addressEnd → ¬ Joins maxGap curr.run reg := fun hregEnd h =>
        htakes ((CoalescedRange.takes_end_iff hlt hregEnd hreg.1).mpr h)
      have hrun : nextRun maxGap curr.run reg = (CoalescedRange.alone unitId reg).run := by
        rw [nextRun, if_neg]
        · rfl
        · intro hcont
          by_cases hregEnd : reg.stop = addressEnd
          · exact hjoins hregEnd (hcont.joins hregEnd)
          · have hregLt : reg.stop < addressEnd := Nat.lt_of_le_of_ne hreg.2.2 hregEnd
            exact htakes ((CoalescedRange.takes_iff hlt hregLt).mpr hcont)
      have hrest : Ascending (CoalescedRange.alone unitId reg).function list :=
        { hlist.tail with function_eq := fun r hr => (hlist.tail.function_eq r hr).trans hfun.symm }
      rw [List.forall_mem_cons, hrun, ih (CoalescedRange.alone_tight hreg unitId) hrest
        (List.pairwise_cons.mp hlist.sorted).1]
      exact ⟨fun h => ⟨hend, hjoins, h.2⟩, fun h => ⟨hcurr.toReads, h.2.2⟩⟩

theorem coalesceList_none_iff (unitId : UInt8) (maxGap : Nat) {function : ModbusFunction}
    {list : List (PreparedRegister F)} (hlist : Ascending function list) :
    (∀ range ∈ coalesceList unitId maxGap none list, range.Reads) ↔ EndApart maxGap list := by
  cases list with
  | nil =>
    refine iff_of_true (fun range h => nomatch h) fun before reg after heq => ?_
    simp at heq
  | cons reg list =>
    have hfun := hlist.function_eq reg List.mem_cons_self
    have hrest : Ascending (CoalescedRange.alone unitId reg).function list :=
      { hlist.tail with function_eq := fun r hr => (hlist.tail.function_eq r hr).trans hfun.symm }
    rw [coalesceList, endApart_cons]
    exact coalesceList_reads_iff unitId maxGap
      (CoalescedRange.alone_tight (hlist.readable reg List.mem_cons_self) unitId) hrest
      (List.pairwise_cons.mp hlist.sorted).1

-- ---- All functions

/-- The registers of a function, as its loop goes through them. -/
def ofFunction (registers : List (PreparedRegister F)) (function : ModbusFunction) :
    List (PreparedRegister F) :=
  sortByKey (·.wireAddress) (registers.filter (·.function = function))

theorem ofFunction_ascending {registers : List (PreparedRegister F)}
    (h : ∀ reg ∈ registers, reg.Readable) (function : ModbusFunction) :
    Ascending function (ofFunction registers function) where
  readable reg hreg := h reg (List.mem_filter.mp (mem_sortByKey.mp hreg)).1
  function_eq _ hreg := of_decide_eq_true (List.mem_filter.mp (mem_sortByKey.mp hreg)).2
  sorted := sortByKey_sorted _

theorem group_of_function {registers g : List (PreparedRegister F)} {code : Nat}
    (h : (code, g) ∈ groupOn (·.function.code) registers) :
    ∃ function : ModbusFunction, sortByKey (·.wireAddress) g = ofFunction registers function := by
  obtain ⟨hne, hmem⟩ := mem_groupOn h
  obtain ⟨reg, hreg⟩ := List.exists_mem_of_ne_nil g hne
  refine ⟨reg.function, ?_⟩
  rw [ofFunction, group_eq_filter h, ← (hmem reg hreg).2]
  congr 1
  refine List.filter_congr fun r _ => decide_eq_decide.mpr ?_
  exact ⟨ModbusFunction.code_inj, congrArg _⟩

theorem coalesced_once {registers : List (PreparedRegister F)}
    {byFunc : List (Nat × List (PreparedRegister F))} (hmap : ByFunction registers byFunc)
    (unitId : UInt8) (maxGap : Nat) :
    ((coalesceRegisters byFunc unitId maxGap).flatMap (·.registers)).Perm registers := by
  refine ((sortByKey_perm _).flatMap_right _).trans ?_
  rw [List.flatMap_assoc]
  have hgroups : (byFunc.flatMap fun g => (coalesceList unitId maxGap none
      (sortByKey (·.wireAddress) g.2)).flatMap (·.registers)).Perm (byFunc.flatMap Prod.snd) := by
    refine List.Perm.flatMap_left _ fun g _ => ?_
    rw [flatMap_coalesceList]
    exact sortByKey_perm g.2
  refine hgroups.trans ((hmap.flatMap_right _).trans ?_)
  exact flatten_groupOn_perm _ registers

theorem coalesced_start_le (byFunc : List (Nat × List (PreparedRegister F))) (unitId : UInt8)
    (maxGap : Nat) : ∀ range ∈ coalesceRegisters byFunc unitId maxGap, ∀ reg ∈ range.registers,
      range.startAddress ≤ reg.wireAddress := by
  intro range hrange
  obtain ⟨g, -, hin⟩ := List.mem_flatMap.mp (mem_sortByKey.mp hrange)
  exact coalesceList_start_le unitId maxGap none _ (sortByKey_sorted _) (by simp) range hin

/-- Coalescing is a cover exactly when no register at the end of the address space would be
merged with another. -/
theorem coalesced_cover_iff {registers : List (PreparedRegister F)}
    {byFunc : List (Nat × List (PreparedRegister F))} (hmap : ByFunction registers byFunc)
    (hreadable : ∀ reg ∈ registers, reg.Readable) (unitId : UInt8) (maxGap : Nat) :
    Cover registers (coalesceRegisters byFunc unitId maxGap) ↔
      ∀ function, EndApart maxGap (ofFunction registers function) := by
  have hreads : (∀ range ∈ coalesceRegisters byFunc unitId maxGap, range.Reads) ↔
      ∀ function, EndApart maxGap (ofFunction registers function) := by
    constructor
    · intro h function
      refine (coalesceList_none_iff unitId maxGap (ofFunction_ascending hreadable function)).mp ?_
      intro range hrange
      cases hlist : ofFunction registers function with
      | nil => simp [hlist, coalesceList] at hrange
      | cons reg list =>
        have hmem : reg ∈ ofFunction registers function := hlist ▸ List.mem_cons_self
        have hreg := List.mem_filter.mp (mem_sortByKey.mp hmem)
        obtain ⟨g, hg, hin⟩ := exists_group (·.function.code) hreg.1
        obtain ⟨f, hf⟩ := group_of_function hg
        have hff : f = function := by
          have hr : reg ∈ ofFunction registers f := hf ▸ mem_sortByKey.mpr hin
          exact ((ofFunction_ascending hreadable f).function_eq reg hr).symm.trans
            (of_decide_eq_true hreg.2)
        refine h range (mem_sortByKey.mpr (List.mem_flatMap.mpr ⟨_, hmap.mem_iff.mpr hg, ?_⟩))
        rw [hf, hff]
        exact hrange
    · intro h _ hrange
      obtain ⟨g, hg, hin⟩ := List.mem_flatMap.mp (mem_sortByKey.mp hrange)
      obtain ⟨f, hf⟩ := group_of_function (hmap.mem_iff.mp hg)
      rw [hf] at hin
      exact (coalesceList_none_iff unitId maxGap (ofFunction_ascending hreadable f)).mpr (h f)
        _ hin
  exact ⟨fun h => hreads.mp h.reads, fun h => ⟨coalesced_once hmap unitId maxGap, hreads.mpr h⟩⟩

def holdingRegister (name : String) (wireAddress : Nat) (dataType : ModbusDataType) :
    PreparedRegister ℚ where
  name := name
  function := .holding
  wireAddress := wireAddress
  dataType := dataType
  wordCount := dataType.wordCount none
  byteOrder := .abcd
  scale := none
  offset := none
  length := none

def plantRegisters : List (PreparedRegister ℚ) :=
  [holdingRegister "temp" 0 .float32, holdingRegister "pressure" 5 .float32,
    holdingRegister "remote_reg" 50 .int16]

theorem plant_covered :
    Cover plantRegisters
      (coalesceRegisters (groupOn (·.function.code) plantRegisters) 1 10) := by
  refine (coalesced_cover_iff (List.Perm.refl _) (by decide) 1 10).mpr fun function => ?_
  intro before reg after heq hend
  have hmem : reg ∈ ofFunction plantRegisters function := by simp [heq]
  have hreg : reg ∈ plantRegisters := (List.mem_filter.mp (mem_sortByKey.mp hmem)).1
  have hbelow : ∀ r ∈ plantRegisters, r.stop ≠ addressEnd := by decide
  exact absurd hend (hbelow reg hreg)

/-- The last two registers of the address space: one request is made for both, and it reads
one. -/
theorem last_register_unread :
    ¬ Cover [holdingRegister "a" 65534 .uint16, holdingRegister "b" 65535 .uint16]
      (coalesceRegisters (groupOn (·.function.code)
        [holdingRegister "a" 65534 .uint16, holdingRegister "b" 65535 .uint16]) 1 10) := by
  intro h
  have hrange := h.reads
    { function := .holding
      unitId := 1
      startAddress := 65534
      quantity := 1
      registers := [holdingRegister "a" 65534 .uint16, holdingRegister "b" 65535 .uint16] }
    (List.mem_cons_self)
  have := (hrange.covers (holdingRegister "b" 65535 .uint16) (by simp)).2.2
  revert this
  decide

end Rekuiper.Connectors
