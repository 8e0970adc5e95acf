import Rekuiper.Sql.Confinement

/-!
# Independence of analytic calls

Expressions whose state keys differ do not notice each other in a run, and neither do the rows of
different partitions of one call. The keys are made of texts that leave out parts of the
expressions, so different expressions can have the same.
-/

namespace Rekuiper.Sql

open Lib

variable {F : Type} [Float64 F]

-- ---- Runs of expressions

/-- The evaluator at a time, with its own analytic functions. -/
def Env.at (env : Env F) (keyOrder : KeyOrder F) (now : Int) : Env F :=
  Env.analytics { env with now := now } keyOrder

def evalAt (env : Env F) (keyOrder : KeyOrder F) (e : Expr F) (record : Int × Row F) :
    Eval F (Value F) := evalExpr (env.at keyOrder record.1) record.2 e

def runFootprint (env : Env F) (keyOrder : KeyOrder F) (records : List (Int × Row F))
    (e : Expr F) : Footprint String where
  reads := { key | ∃ record ∈ records,
    key ∈ (footprint (env.at keyOrder record.1) record.2 e).reads }
  writes := { key | ∃ record ∈ records,
    key ∈ (footprint (env.at keyOrder record.1) record.2 e).writes }
  reads_writes := fun _ ⟨record, hrecord, hkey⟩ =>
    ⟨record, hrecord, Footprint.reads_writes _ hkey⟩

theorem footprint_within (env : Env F) (keyOrder : KeyOrder F) {records : List (Int × Row F)}
    (e : Expr F) {record : Int × Row F} (h : record ∈ records) :
    (footprint (env.at keyOrder record.1) record.2 e).Within
      (runFootprint env keyOrder records e) :=
  ⟨fun _ hkey => ⟨record, h, hkey⟩, fun _ hkey => ⟨record, h, hkey⟩⟩

theorem evalAt_confined {U : KeySpace} {rowValues : HashMap String (Value F)} (env : Env F)
    (keyOrder : KeyOrder F) {records : List (Int × Row F)} (e : Expr F)
    (hU : ∀ key ∈ (runFootprint env keyOrder records e).writes, key ∈ U.keys)
    {record : Int × Row F} (h : record ∈ records) :
    Confined look (Settled U rowValues) (runFootprint env keyOrder records e)
      (evalAt env keyOrder e record) := by
  have hwithin := footprint_within env keyOrder e h
  exact (evalExpr_confined { env with now := record.1 } keyOrder record.2 (stateCalls e)
    (fun key hkey => hU key (hwithin.2 hkey)) e fun _ hcall => hcall).mono hwithin

-- ---- Partitions

theorem split_unique {c : Char} {a a' b b' : List Char} (ha : c ∉ a) (ha' : c ∉ a')
    (h : a ++ c :: b = a' ++ c :: b') : a = a' ∧ b = b' := by
  induction a generalizing a' with
  | nil =>
    cases a' with
    | nil => exact ⟨rfl, (List.cons.inj h).2⟩
    | cons x a' => exact absurd ((List.cons.inj h).1 ▸ List.mem_cons_self) ha'
  | cons x a ih =>
    cases a' with
    | nil => exact absurd ((List.cons.inj h).1 ▸ List.mem_cons_self) ha
    | cons x' a' =>
      obtain ⟨hx, hrest⟩ := List.cons.inj h
      obtain ⟨rfl, rfl⟩ := ih (fun hc => ha (List.mem_cons_of_mem _ hc))
        (fun hc => ha' (List.mem_cons_of_mem _ hc)) hrest
      exact ⟨congrArg (· :: a) hx, rfl⟩

theorem split_unique_string {a a' b b' : String} (ha : ':' ∉ a.toList) (ha' : ':' ∉ a'.toList)
    (h : a ++ (":" ++ b) = a' ++ (":" ++ b')) : a = a' ∧ b = b' := by
  have hlist := congrArg String.toList h
  simp only [String.toList_append] at hlist
  obtain ⟨h₁, h₂⟩ := split_unique ha ha' hlist
  exact ⟨String.toList_inj.mp h₁, String.toList_inj.mp h₂⟩

omit [Float64 F] in
theorem colon_notMem_toString (n : Nat) : ':' ∉ (toString n).toList := by
  intro h
  have hdigit := Nat.isDigit_of_mem_toDigits (b := 10) (n := n) (by decide) (by decide) (by simpa using h)
  revert hdigit
  decide

def keyTag : Value F → String
  | .null => "null"
  | .bool _ => "bool"
  | .number _ => "num"
  | .string _ => "str"
  | .array _ | .object _ => "json"

def keyText (env : Env F) : Value F → String
  | .null => ""
  | .bool b => toString b
  | .number n => n.render
  | .string s => s
  | v => env.jsonText v

theorem valueToKey_eq (env : Env F) (v : Value F) :
    valueToKey env v = keyTag v ++ (":" ++ keyText env v) := by
  cases v <;> rfl

omit [Float64 F] in
theorem colon_notMem_keyTag (v : Value F) : ':' ∉ (keyTag v).toList := by
  cases v <;> simp only [keyTag] <;> decide

theorem valueToKey_inj {env : Env F} (hnumber : ∀ n : Number F, env.jsonText (.number n) = n.render)
    {v w : Value F} (htexts : env.jsonText v = env.jsonText w → v = w)
    (h : valueToKey env v = valueToKey env w) : v = w := by
  rw [valueToKey_eq, valueToKey_eq] at h
  obtain ⟨htag, htext⟩ :=
    split_unique_string (colon_notMem_keyTag v) (colon_notMem_keyTag w) h
  cases v <;> cases w <;> simp only [keyTag, keyText] at htag htext <;>
    first
    | exact absurd htag (by decide)
    | rfl
    | exact htexts htext
    | exact congrArg Value.string htext
    | exact htexts (by rw [hnumber, hnumber]; exact htext)
    | skip
  rename_i a b
  cases a <;> cases b <;> first | rfl | exact absurd htext (by decide)

omit [Float64 F] in
theorem callKeys_disjoint {env : Env F} {name : String} {args : List (Expr F)}
    (hname : isAnalyticExpr (.call name args) = true) {p q key : String} (hpq : p ≠ q)
    (hp : key ∈ callKeys env name args p) : key ∉ callKeys env name args q := by
  intro hq
  have hsingle : ∀ lead : String, key ∈ [lead ++ p] → key ∉ [lead ++ q] := by
    intro lead h h'
    rw [List.mem_singleton] at h h'
    exact hpq ((String.append_right_inj lead).mp (h.symm.trans h'))
  unfold isAnalyticExpr at hname
  unfold callKeys at hp hq
  generalize toAsciiLowercase name = lowered at *
  simp only at hp hq
  split at hp
  · next h =>
    rw [if_pos h] at hq
    exact hsingle _ hp hq
  next hacc =>
  rw [if_neg hacc] at hq
  split at hp
  · next h =>
    rw [if_pos h] at hq
    exact hsingle _ hp hq
  next hlag =>
  rw [if_neg hlag] at hq
  split at hp
  · next h =>
    rw [if_pos h] at hq
    obtain ⟨i, -, rfl⟩ := List.mem_map.mp hp
    obtain ⟨j, -, hij⟩ := List.mem_map.mp hq
    simp only [String.append_assoc, String.append_right_inj] at hij
    exact hpq (split_unique_string (colon_notMem_toString j) (colon_notMem_toString i) hij).2.symm
  next hchanged =>
  rw [if_neg hchanged] at hq
  split at hp
  · next h =>
    rw [if_pos h] at hq
    exact hsingle _ hp hq
  next hsequence =>
  rw [if_neg hsequence] at hq
  split at hp
  · next h =>
    obtain ⟨rfl, -⟩ := h
    exact absurd hname (by decide)
  next hcols =>
  rw [if_neg hcols] at hq
  split at hp
  · next h =>
    rw [if_pos h] at hq
    exact hsingle _ hp hq
  next hrow =>
  rw [if_neg hrow] at hq
  split at hp
  · next h =>
    rw [if_pos h] at hq
    exact hsingle _ hp hq
  next hcount =>
  rw [if_neg hcount] at hq
  split at hp
  · next h =>
    rw [if_pos h] at hq
    exact hsingle _ hp hq
  · exact absurd hp List.not_mem_nil

-- ---- Runs of one call

/-- What an `OVER` gives its call on a row: the values of the arguments, the value of `PARTITION
BY`, and whether `WHEN` fails. -/
structure CallInput (args : List (Expr F)) where
  now : Int
  row : Row F
  values : List (Value F)
  length_eq : values.length = args.length
  partition : Value F
  skipUpdate : Bool

/-- A call on what its `OVER` gives it. -/
def callOn (env : Env F) (keyOrder : KeyOrder F) (name : String) (args : List (Expr F))
    (input : CallInput args) : Eval F (Value F) :=
  evalStatefulCall (env.at keyOrder input.now) input.row name args (pure input.values)
    (evalFirst (env.at keyOrder input.now) input.row args)
    (some (valueToKey env input.partition)) input.skipUpdate

def partitionFootprint (env : Env F) (keyOrder : KeyOrder F) (name : String)
    (args : List (Expr F)) (partition : Value F) : Footprint String :=
  .touching { key | key ∈ callKeys (env.at keyOrder 0) name args (valueToKey env partition) }

omit [Float64 F] in
theorem ruleKeys_eq_nil {name : String} {args : List (Expr F)}
    (hname : isAnalyticExpr (.call name args) = true) : ruleKeys name = [] := by
  unfold isAnalyticExpr at hname
  unfold ruleKeys
  generalize toAsciiLowercase name = lowered at *
  simp only at hname ⊢
  rw [if_neg, if_neg]
  · rintro rfl
    exact absurd hname (by decide)
  · rintro rfl
    exact absurd hname (by decide)

theorem callOn_confined {U : KeySpace} {rowValues : HashMap String (Value F)} {env : Env F}
    {keyOrder : KeyOrder F} {name : String} {args : List (Expr F)}
    (hname : isAnalyticExpr (.call name args) = true) (input : CallInput args)
    (hU : ∀ key ∈ callKeys (env.at keyOrder 0) name args (valueToKey env input.partition),
      key ∈ U.keys) :
    Confined look (Settled U rowValues)
      (partitionFootprint env keyOrder name args input.partition)
      (callOn env keyOrder name args input) := by
  have hnone : ∀ key, key ∉ ruleKeys name := by simp [ruleKeys_eq_nil hname]
  refine evalStatefulCall_inherits confined_inherited (fun _ => Confined.const _) ?_
    (fun key hkey => entryHas_confined hkey (hU key hkey)) (fun h => absurd h (hnone _))
    fun h => absurd h (hnone _)
  intro s vs hvs
  cases hvs
  exact input.length_eq

theorem partitionFootprint_separate {env : Env F}
    (hnumber : ∀ n : Number F, env.jsonText (.number n) = n.render) {keyOrder : KeyOrder F}
    {name : String} {args : List (Expr F)} (hname : isAnalyticExpr (.call name args) = true)
    {v w : Value F} (htexts : env.jsonText v = env.jsonText w → v = w) (hvw : v ≠ w) :
    (partitionFootprint env keyOrder name args v).Separate
      (partitionFootprint env keyOrder name args w) := by
  have hkeys : valueToKey env v ≠ valueToKey env w :=
    fun h => hvw (valueToKey_inj hnumber htexts h)
  exact ⟨Set.disjoint_left.mpr fun _ => callKeys_disjoint hname hkeys,
    Set.disjoint_left.mpr fun _ => callKeys_disjoint hname hkeys.symm⟩

-- ---- Independence

open Classical in
/-- Two expressions that share no state key in a run give the same values together as each
alone, and the rows of one partition of a call give the values that they give without the rows of
the others, while the rule's state has room for all keys. -/
theorem calls_evolve_independently (env : Env F) (keyOrder : KeyOrder F) (e₁ e₂ : Expr F)
    (records : List (Int × Row F)) (name : String) (args : List (Expr F))
    (hname : isAnalyticExpr (.call name args) = true) (inputs : List (CallInput args))
    (v : Value F) (s : RuleState F) (U : KeySpace)
    (hseparate : (runFootprint env keyOrder records e₁).Separate
      (runFootprint env keyOrder records e₂))
    (hnumber : ∀ n : Number F, env.jsonText (.number n) = n.render)
    (htexts : ∀ input ∈ inputs, env.jsonText v = env.jsonText input.partition →
      v = input.partition)
    (hstate : ∀ key ∈ s.state, key ∈ U.keys)
    (hkeys₁ : ∀ key ∈ (runFootprint env keyOrder records e₁).writes, key ∈ U.keys)
    (hkeys₂ : ∀ key ∈ (runFootprint env keyOrder records e₂).writes, key ∈ U.keys)
    (hinputs : ∀ input ∈ inputs,
      ∀ key ∈ callKeys (env.at keyOrder 0) name args (valueToKey env input.partition),
        key ∈ U.keys) :
    results (both (evalAt env keyOrder e₁) (evalAt env keyOrder e₂)) records s =
        (results (evalAt env keyOrder e₁) records s).zip
          (results (evalAt env keyOrder e₂) records s) ∧
      ((inputs.zip (results (callOn env keyOrder name args) inputs s)).filter
          fun entry => entry.1.partition = v) =
        (inputs.filter fun input => input.partition = v).zip
          (results (callOn env keyOrder name args)
            (inputs.filter fun input => input.partition = v) s) := by
  have hs : Settled U s.rowValues s := ⟨rfl, hstate⟩
  constructor
  · exact results_both hseparate (fun _ hrecord => evalAt_confined env keyOrder e₁ hkeys₁ hrecord)
      (fun _ hrecord => evalAt_confined env keyOrder e₂ hkeys₂ hrecord) hs hs hs
      (Agree.refl _ _ _) (Agree.refl _ _ _)
  · refine results_filter (φ := partitionFootprint env keyOrder name args v)
      (fun input : CallInput args => decide (input.partition = v)) (fun input hinput hv => ?_)
      (fun input hinput hv => ?_) hs hs (Agree.refl look _ _)
    · obtain rfl := of_decide_eq_true hv
      exact callOn_confined hname input (hinputs input hinput)
    · have hne : input.partition ≠ v := of_decide_eq_false hv
      have hconfined : Confined look (Settled U s.rowValues)
          (partitionFootprint env keyOrder name args input.partition)
          (callOn env keyOrder name args input) := callOn_confined hname input (hinputs input hinput)
      have hapart : (partitionFootprint env keyOrder name args v).Separate
          (partitionFootprint env keyOrder name args input.partition) :=
        partitionFootprint_separate hnumber hname (htexts input hinput) hne.symm
      exact ⟨hconfined.keeps, fun _ hs => hconfined.unseen hapart.symm hs⟩

def numbersEnv : Env ℚ where
  now := 0
  toEkuiperString _ := ""
  debugText _ := ""
  jsonText
    | .number n => n.render
    | _ => ""
  parseJson _ := none
  parseF64 _ := none
  parseRfc3339 _ := none
  parseNaiveDateTime _ _ := none
  parseNaiveDate _ _ := none
  likeMatch _ _ := false
  evalCall _ _ := .ok .null
  aggregate _ _ _ _ := .ok .null
  analytic _ := pure .null

/-- `acc_count(a) OVER (WHEN a > limit)` -/
def countAbove (limit : Int) : Expr ℚ :=
  .over (.call "acc_count" [.identifier "a"]) none
    (some (.binaryOp (.identifier "a") .gt (.literal (ofI64 limit))))

/-- A record whose `a` is 2. -/
def twoRecord : Int × Row ℚ := (0, AList.insert "a" (ofI64 2) ∅)

/-- A call on the column `a`, outside any `OVER`. -/
def plainCall (name : String) : Expr ℚ := .call name [.identifier "a"]

theorem mem_plainCall_writes {name key : String} {records : List (Int × Row ℚ)}
    (h : key ∈ (runFootprint numbersEnv AList.keys records (plainCall name)).writes) :
    key ∈ callKeys (numbersEnv.at AList.keys 0) name [.identifier "a"] "" := by
  obtain ⟨record, -, call, hcall, hkey⟩ := h
  obtain rfl : call = plainCall name := by
    simpa [plainCall, stateCalls, argStateCalls] using hcall
  exact hkey

theorem mem_plainCall_reads {name key : String} {records : List (Int × Row ℚ)}
    (h : key ∈ (runFootprint numbersEnv AList.keys records (plainCall name)).reads) :
    key ∈ callKeys (numbersEnv.at AList.keys 0) name [.identifier "a"] "" ++ ruleKeys name := by
  obtain ⟨record, -, call, hcall, hkey⟩ := h
  obtain rfl : call = plainCall name := by
    simpa [plainCall, stateCalls, argStateCalls] using hcall
  exact List.mem_append.mpr hkey

def twoInput (partition : Int) : CallInput (F := ℚ) [.identifier "a"] where
  now := 0
  row := twoRecord.2
  values := [ofI64 2]
  length_eq := rfl
  partition := ofI64 partition
  skipUpdate := false

def twoKeys : KeySpace where
  keys := ["", "num:1", "num:2"].flatMap fun partitionKey =>
    ["acc_count", "acc_sum"].flatMap fun name =>
      callKeys (numbersEnv.at AList.keys 0) name [.identifier "a"] partitionKey
  fits := by decide

theorem calls_evolve_independently_small :
    results (both (evalAt numbersEnv AList.keys (plainCall "acc_count"))
        (evalAt numbersEnv AList.keys (plainCall "acc_sum"))) [twoRecord, twoRecord] RuleState.new =
      (results (evalAt numbersEnv AList.keys (plainCall "acc_count")) [twoRecord, twoRecord]
          RuleState.new).zip
        (results (evalAt numbersEnv AList.keys (plainCall "acc_sum")) [twoRecord, twoRecord]
          RuleState.new) := by
  refine (calls_evolve_independently numbersEnv AList.keys (plainCall "acc_count")
    (plainCall "acc_sum") [twoRecord, twoRecord] "acc_count" [.identifier "a"] (by decide)
    [twoInput 1, twoInput 2] (ofI64 1) RuleState.new twoKeys
    ⟨Set.disjoint_left.mpr fun key h h' => ?_, Set.disjoint_left.mpr fun key h h' => ?_⟩
    (fun _ => rfl) ?_ (fun key h => absurd h (AList.notMem_empty key)) (fun key h => ?_)
    (fun key h => ?_) (by decide)).1
  · exact absurd (mem_plainCall_reads h')
      ((by decide : ∀ key ∈ callKeys (numbersEnv.at AList.keys 0) "acc_count" [.identifier "a"] "",
        key ∉ callKeys (numbersEnv.at AList.keys 0) "acc_sum" [.identifier "a"] "" ++
          ruleKeys "acc_sum") key (mem_plainCall_writes h))
  · exact absurd (mem_plainCall_reads h')
      ((by decide : ∀ key ∈ callKeys (numbersEnv.at AList.keys 0) "acc_sum" [.identifier "a"] "",
        key ∉ callKeys (numbersEnv.at AList.keys 0) "acc_count" [.identifier "a"] "" ++
          ruleKeys "acc_count") key (mem_plainCall_writes h))
  · rw [List.forall_mem_cons, List.forall_mem_singleton]
    exact ⟨fun _ => rfl, fun h => absurd h (by decide)⟩
  · exact (by decide : ∀ key ∈ callKeys (numbersEnv.at AList.keys 0) "acc_count" [.identifier "a"] "",
      key ∈ twoKeys.keys) key (mem_plainCall_writes h)
  · exact (by decide : ∀ key ∈ callKeys (numbersEnv.at AList.keys 0) "acc_sum" [.identifier "a"] "",
      key ∈ twoKeys.keys) key (mem_plainCall_writes h)

theorem conditions_share_state :
    countAbove 1 ≠ countAbove 2 ∧
      results (both (evalAt numbersEnv AList.keys (countAbove 1))
          (evalAt numbersEnv AList.keys (countAbove 2))) [twoRecord] RuleState.new ≠
        (results (evalAt numbersEnv AList.keys (countAbove 1)) [twoRecord] RuleState.new).zip
          (results (evalAt numbersEnv AList.keys (countAbove 2)) [twoRecord] RuleState.new) := by
  refine ⟨by simp [countAbove, ofI64], fun h => ?_⟩
  have hcounts := congrArg (List.map fun entry => (entry.2.toOption.bind Value.asI64)) h
  revert hcounts
  decide

end Rekuiper.Sql
