import Rekuiper.Sql.Sites

/-!
# How calls write the rule's state

Each stateful call reads and writes entries under its own keys alone, and by one kind of insertion:
the bounded one, that of the sequence functions, or the plain one of a hash map. A property of
evaluations that goes through sequences and that these steps have is one of the whole call. So an
invariant of the state that the insertions of an expression's call sites keep is kept by the
evaluation of the expression.
-/

namespace Rekuiper.Sql

open Lib

variable {F : Type} {α β : Type}

abbrev Insertion (F : Type) :=
  HashMap String (Value F) → String → Value F → HashMap String (Value F)

def look (s : RuleState F) (key : String) : Option (Value F) := s.state.lookup key

-- ---- One entry

/-- Reads the entry under a key and inserts what it is to become. -/
def onEntry (insert : Insertion F) (key : String)
    (f : Option (Value F) → α × Option (Value F)) : Eval F α := fun s =>
  match f (look s key) with
  | (result, none) => (.ok result, s)
  | (result, some value) => (.ok result, { s with state := insert s.state key value })

theorem go_onEntry_bind (insert : Insertion F) (key : String)
    (f : Option (Value F) → α × Option (Value F)) (g : α → Eval F β) (s : RuleState F) :
    (onEntry insert key f >>= g).go s =
      match f (look s key) with
      | (result, none) => (g result).go s
      | (result, some value) => (g result).go { s with state := insert s.state key value } := by
  rw [go_bind]
  unfold Eval.go onEntry
  rcases f (look s key) with ⟨result, _ | value⟩ <;> rfl

def onState (x : StateM (HashMap String (Value F)) α) : Eval F α := fun s =>
  let (result, state) := x s.state
  (.ok result, { s with state := state })

theorem onState_bind (x : StateM (HashMap String (Value F)) α)
    (f : α → StateM (HashMap String (Value F)) β) :
    onState (x >>= f) = onState x >>= fun a => onState (f a) := rfl

theorem onState_updateEntry (insert : Insertion F) (key : String) (f : Update F) :
    onState (updateEntry insert key f) = onEntry insert key f := by
  funext s
  unfold onState updateEntry onEntry look
  rcases f (s.state.lookup key) with ⟨result, _ | value⟩ <;> rfl

theorem callRowNumber_eq (key : String) (skipUpdate : Bool) :
    (callRowNumber key skipUpdate : Eval F (Value F)) =
      onEntry (fun m key value => m.insert key value) key fun stored =>
        let current := (stored.bind Value.asI64).getD 0
        if skipUpdate then (ofI64 current, none)
        else (ofI64 (saturate (current + 1)), some (ofI64 (saturate (current + 1)))) := by
  cases skipUpdate <;> rfl

theorem callLastHit_eq (key : String) (next : Int → Int) :
    (callLastHit key next : Eval F (Value F)) =
      onEntry (fun m key value => m.insert key value) key fun stored =>
        let current := (stored.bind Value.asI64).getD 0
        (ofI64 current, some (ofI64 (next current))) := rfl

/-- A property of evaluations that all steps on one entry have. -/
def EntryHas (P : ∀ {α : Type}, Eval F α → Prop) (insert : Insertion F) (key : String) : Prop :=
  ∀ (α : Type) (f : Option (Value F) → α × Option (Value F)), P (onEntry insert key f)

-- ---- The insertion of a call

variable {keyOrder : KeyOrder F}

def siteInsert (keyOrder : KeyOrder F) (lowered : String) : Insertion F :=
  if lowered = "sequence_match" ∨ lowered = "sequence_count" then insertCep keyOrder
  else if lowered = "row_number" ∨ lowered = "changed_cols" ∨ lowered = "last_hit_count" ∨
      lowered = "last_hit_time" then fun m key value => m.insert key value
  else insertBounded keyOrder

theorem siteInsert_cases (keyOrder : KeyOrder F) (lowered : String) :
    siteInsert keyOrder lowered = (fun m key value => m.insert key value) ∨
      ∃ evictable, siteInsert keyOrder lowered = insertEvicting keyOrder maxStateKeys evictable := by
  unfold siteInsert
  split
  · exact .inr ⟨_, rfl⟩
  split
  · exact .inl rfl
  · exact .inr ⟨_, rfl⟩

theorem siteInsert_acc {lowered : String} (h : isAccCall lowered = true) :
    siteInsert keyOrder lowered = insertBounded keyOrder := by
  unfold isAccCall at h
  simp only [List.contains_iff_mem, List.mem_cons, List.not_mem_nil, or_false] at h
  rcases h with rfl | rfl | rfl | rfl | rfl | rfl | rfl | rfl | rfl | rfl | rfl <;>
    exact (if_neg (by decide)).trans (if_neg (by decide))

theorem siteInsert_changed {lowered : String}
    (h : lowered = "had_changed" ∨ lowered = "changed_col") :
    siteInsert keyOrder lowered = insertBounded keyOrder := by
  rcases h with rfl | rfl <;> exact (if_neg (by decide)).trans (if_neg (by decide))

theorem siteInsert_plain {lowered : String}
    (h : lowered = "row_number" ∨ lowered = "changed_cols" ∨ lowered = "last_hit_count" ∨
      lowered = "last_hit_time") :
    siteInsert keyOrder lowered = fun m key value => m.insert key value := by
  rcases h with rfl | rfl | rfl | rfl <;> exact (if_neg (by decide)).trans (if_pos (by decide))

-- ---- Calls

section
variable [Float64 F] {P : ∀ {α : Type}, Eval F α → Prop}

theorem callAnalytic_eq (env : Env F) (keyOrder : KeyOrder F) (call : AnalyticCall F) :
    callAnalytic (env.analytics keyOrder) call = onState (evalAnalytic env keyOrder call) := rfl

omit [Float64 F] in
theorem changedArgs_length (args : List (Value F)) : (changedArgs args).length ≤ args.length := by
  unfold changedArgs
  split
  · exact Nat.le_succ _
  · exact le_refl _

theorem changedCols_cons (callId partitionKey lead : String) (ignoreNull : Bool) (idx : Nat)
    (arg : Expr F) (args : List (Expr F)) (value : Value F) (values : List (Value F))
    (result : List (String × Value F)) :
    changedCols callId partitionKey lead ignoreNull idx (arg :: args) (value :: values) result =
      if ignoreNull && value.isNull then
        changedCols callId partitionKey lead ignoreNull (idx + 1) args values result
      else (do
        let col := columnName arg idx
        let changed ← onEntry (fun m key value => m.insert key value)
          s!"changed_cols:{callId}:{col}:{partitionKey}" fun previous =>
            if hasChanged previous value then (true, some value) else (false, none)
        changedCols callId partitionKey lead ignoreNull (idx + 1) args values
          (if changed then setField (lead ++ col) value result else result)) := by
  rw [changedCols]
  split
  · rfl
  · refine funext fun s => ?_
    let col := columnName arg idx
    change (if hasChanged (look s s!"changed_cols:{callId}:{col}:{partitionKey}") value = true
      then _ else _ : Eval F (List (String × Value F))) s = _
    refine Eq.trans ?_ (go_onEntry_bind _ _ _ _ s).symm
    split <;> rfl

/-- The key of a column of `changed_cols`, which is the argument at `idx` behind the first two. -/
def columnKey (callId partitionKey : String) (entry : Expr F × Nat) : String :=
  let col := columnName entry.1 entry.2
  s!"changed_cols:{callId}:{col}:{partitionKey}"

omit [Float64 F] in
theorem ne_of_evalContextCall {env : Env F} {lowered : String} {args : List (Expr F)}
    {first : Except Failure (Value F)} {row : Row F}
    (h : evalContextCall env lowered args first row = none) :
    lowered ≠ "meta" ∧ lowered ≠ "mqtt" ∧ lowered ≠ "event_time" ∧ lowered ≠ "window_start" ∧
      lowered ≠ "window_end" := by
  unfold evalContextCall at h
  split at h
  · cases h
  split at h
  · cases h
  split at h
  · cases h
  split at h
  · cases h
  split at h
  · cases h
  · exact ⟨‹_›, ‹_›, ‹_›, ‹_›, ‹_›⟩

theorem argsEvaluated_analytic {lowered : String}
    (h : isAccCall lowered = true ∨ lowered = "lag" ∨ lowered = "had_changed" ∨
      lowered = "changed_col") : argsEvaluated lowered = true := by
  rcases h with h | rfl | rfl | rfl
  · unfold isAccCall at h
    simp only [List.contains_iff_mem, List.mem_cons, List.not_mem_nil, or_false] at h
    rcases h with rfl | rfl | rfl | rfl | rfl | rfl | rfl | rfl | rfl | rfl | rfl <;> decide
  all_goals decide

omit [Float64 F] in
theorem argsEvaluated_other {env : Env F} {lowered : String} {args : List (Expr F)}
    {first : Except Failure (Value F)} {row : Row F}
    (hcontext : evalContextCall env lowered args first row = none)
    (haggregate : ¬["count", "sum", "avg", "min", "max"].contains lowered = true)
    (hrow : lowered ≠ "row_number") (hcount : lowered ≠ "last_hit_count")
    (htime : lowered ≠ "last_hit_time") (hid : lowered ≠ "rule_id")
    (hstart : lowered ≠ "rule_start") : argsEvaluated lowered = true := by
  have hnames := ne_of_evalContextCall hcontext
  simp only [List.contains_eq_mem, decide_eq_true_eq, List.mem_cons, List.not_mem_nil,
    or_false, not_or] at haggregate
  simp [argsEvaluated, hrow, hcount, htime, hid, hstart, hnames, haggregate]

theorem changedValues_inherits (hP : Inherited P) {lowered callId partitionKey : String}
    {cols : List (Value F × Nat)}
    (hentry : ∀ col ∈ cols,
      EntryHas P (insertBounded keyOrder) s!"{lowered}:{callId}:{col.2}:{partitionKey}") :
    P (onState (changedValues keyOrder lowered callId partitionKey cols)) := by
  induction cols with
  | nil => exact hP.lift (.ok [])
  | cons col cols ih =>
    rw [List.forall_mem_cons] at hentry
    unfold changedValues
    rw [onState_bind, onState_updateEntry]
    refine hP.bind (hentry.1 _ _) fun value _ _ => ?_
    rw [onState_bind]
    exact hP.bind (ih hentry.2) fun _ _ _ => hP.lift (.ok _)

theorem changedCols_inherits (hP : Inherited P) {callId partitionKey : String} (lead : String)
    (ignoreNull : Bool) (idx : Nat) (args : List (Expr F)) (values : List (Value F))
    (result : List (String × Value F))
    (hentry : ∀ entry ∈ args.zipIdx idx, EntryHas P (fun m key value => m.insert key value)
      (columnKey callId partitionKey entry)) :
    P (changedCols callId partitionKey lead ignoreNull idx args values result) := by
  induction args generalizing idx values result with
  | nil =>
    rw [changedCols]
    · exact hP.lift (.ok _)
    · simp
  | cons arg args ih =>
    rw [List.zipIdx_cons, List.forall_mem_cons] at hentry
    cases values with
    | nil =>
      rw [changedCols]
      · exact hP.lift (.ok _)
      · simp
    | cons value values =>
      rw [changedCols_cons]
      split
      · exact ih _ _ _ hentry.2
      · exact hP.bind (hentry.1 _ _) fun _ _ _ => ih _ _ _ hentry.2

theorem evalAnalytic_inherits (hP : Inherited P) {env : Env F}
    {name callId partitionKey : String} {args : List (Value F)} {skipUpdate : Bool}
    {eventTime : Option Int}
    (hacc : isAccCall name = true →
      EntryHas P (insertBounded keyOrder) s!"{name}:{callId}:{partitionKey}")
    (hlag : name = "lag" → EntryHas P (insertBounded keyOrder) s!"lag:{callId}:{partitionKey}")
    (hchanged : name = "had_changed" ∨ name = "changed_col" → ∀ idx < args.length,
      EntryHas P (insertBounded keyOrder) s!"{name}:{callId}:{idx}:{partitionKey}")
    (hcep : ¬(name = "had_changed" ∨ name = "changed_col") → name ≠ "lag" → ¬isAccCall name = true →
      EntryHas P (insertCep keyOrder) s!"cep:{name}:{callId}:{partitionKey}") :
    P (callAnalytic (env.analytics keyOrder)
      ⟨name, args, callId, partitionKey, skipUpdate, eventTime⟩) := by
  rw [callAnalytic_eq]
  unfold evalAnalytic
  simp only
  split
  · next h =>
    rw [onState_updateEntry]
    exact hacc h _ _
  next hnotAcc =>
  split
  · next h =>
    rw [onState_updateEntry]
    exact hlag h _ _
  next hnotLag =>
  split
  · next h =>
    unfold evalChanged
    split
    · exact hP.lift (.ok _)
    · rw [onState_bind]
      refine hP.bind (changedValues_inherits hP fun col hcol => hchanged h col.2 ?_) fun _ _ _ =>
        hP.lift (.ok _)
      obtain ⟨-, hidx, -⟩ := List.mem_zipIdx hcol
      have hle := changedArgs_length args
      omega
  · next h =>
    rw [onState_updateEntry]
    exact hcep h hnotLag hnotAcc _ _

theorem evalStatefulCall_inherits (hP : Inherited P) {env : Env F} {row : Row F} {name : String}
    {args : List (Expr F)} {values : Eval F (List (Value F))}
    (hvalues : argsEvaluated (toAsciiLowercase name) = true → P values)
    (hlength : ∀ s vs, (values.go s).1 = .ok vs → vs.length = args.length)
    {first : Except Failure (Value F)} {partitionKey : Option String} {skipUpdate : Bool}
    (hentry : ∀ key ∈ callKeys (env.analytics keyOrder) name args (partitionKey.getD ""),
      EntryHas P (siteInsert keyOrder (toAsciiLowercase name)) key)
    (hid : "__rule_id__" ∈ ruleKeys name → P (callRuleId row))
    (hstart : "__rule_start__" ∈ ruleKeys name → P (callRuleStart (env.analytics keyOrder) row)) :
    P (evalStatefulCall (env.analytics keyOrder) row name args values first partitionKey
      skipUpdate) := by
  unfold evalStatefulCall
  unfold callKeys at hentry
  unfold ruleKeys at hid hstart
  generalize toAsciiLowercase name = lowered at *
  simp only at hentry hid hstart ⊢
  split
  · next h =>
    refine hP.bind (hvalues (argsEvaluated_analytic h)) fun vs s hvs =>
      evalAnalytic_inherits hP ?_ ?_ ?_ ?_
    · intro hacc
      rw [if_pos hacc, siteInsert_acc hacc, List.forall_mem_singleton] at hentry
      exact hentry
    · rintro rfl
      exact hentry _ (List.mem_singleton_self _)
    · intro hname idx hidx
      have hacc : isAccCall lowered = false := by
        rcases hname with rfl | rfl <;> decide
      have hlag : lowered ≠ "lag" := by
        rcases hname with rfl | rfl <;> decide
      rw [if_neg (Bool.eq_false_iff.mp hacc), if_neg hlag, if_pos hname, siteInsert_changed hname]
        at hentry
      exact hentry _ (List.mem_map.mpr ⟨idx, List.mem_range.mpr (hlength s vs hvs ▸ hidx), rfl⟩)
    · intro hcol hlag hacc
      exact absurd h (by simp [hacc, hlag, hcol])
  next hfirst =>
  simp only [not_or] at hfirst
  obtain ⟨hacc, hlag, hhad, hcol⟩ := hfirst
  simp only [hacc, hlag, hhad, hcol, or_self, if_false, Bool.false_eq_true] at hentry
  split
  · next h =>
    have hargs : argsEvaluated lowered = true := by
      rcases h with rfl | rfl <;> decide
    have hcep : siteInsert keyOrder lowered = insertCep keyOrder := if_pos h
    rw [if_pos h, hcep, List.forall_mem_singleton] at hentry
    refine hP.bind (hvalues hargs) fun vs _ _ => evalAnalytic_inherits hP ?_ ?_ ?_ ?_
    · exact fun h => absurd h hacc
    · exact fun h => absurd h hlag
    · exact fun h => absurd h (by simp [hhad, hcol])
    · exact fun _ _ _ => hentry
  next hsequence =>
  rw [if_neg hsequence] at hentry
  split
  · next h =>
    rw [if_pos h, siteInsert_plain (by simp [h.1])] at hentry
    have hargs : argsEvaluated lowered = true := by
      rw [h.1]
      decide
    refine hP.bind (hvalues hargs) fun vs _ _ => hP.bind
      (changedCols_inherits hP _ _ _ _ _ _ fun entry hmem => ?_) fun _ _ _ => hP.lift (.ok _)
    exact hentry _ (List.mem_map.mpr ⟨entry, hmem, rfl⟩)
  next hcols =>
  rw [if_neg hcols] at hentry
  split
  · next h =>
    split
    · next hempty =>
      rw [if_pos ⟨h, hempty⟩, siteInsert_plain (.inl h), List.forall_mem_singleton] at hentry
      rw [callRowNumber_eq]
      exact hentry _ _
    · exact hP.lift (.ok _)
  next hrow =>
  rw [if_neg fun h => hrow h.1] at hentry
  split
  · next h =>
    rw [if_pos h, siteInsert_plain (by simp [h]), List.forall_mem_singleton] at hentry
    rw [callLastHit_eq]
    exact hentry _ _
  next hcount =>
  rw [if_neg hcount] at hentry
  split
  · next h =>
    rw [if_pos h, siteInsert_plain (by simp [h]), List.forall_mem_singleton] at hentry
    rw [callLastHit_eq]
    exact hentry _ _
  next htime =>
  split
  · next h => exact hid (by simp [h])
  next hnotId =>
  split
  · next h => exact hstart (by simp [h])
  next hnotStart =>
  cases hcontext : evalContextCall (env.analytics keyOrder) lowered args first row with
  | some result => exact hP.lift result
  | none =>
    simp only
    split
    · exact hP.lift _
    · next haggregate =>
      exact hP.bind (hvalues (argsEvaluated_other hcontext haggregate hrow hcount htime hnotId
        hnotStart)) fun _ _ _ => hP.lift _

theorem evalArgs_length {env : Env F} {row : Row F} {args : List (Expr F)} {s : RuleState F}
    {values : List (Value F)} (h : (evalArgs env row args s).1 = .ok values) :
    values.length = args.length := by
  induction args generalizing s values with
  | nil =>
    unfold evalArgs at h
    cases h
    rfl
  | cons e es ih =>
    unfold evalArgs at h
    change ((evalExpr env row e >>= _).go s).1 = _ at h
    rw [go_bind] at h
    generalize (evalExpr env row e).go s = result at h
    rcases result with ⟨_ | v, s₁⟩
    · cases h
    simp only [go_bind] at h
    rcases hes : (evalArgs env row es).go s₁ with ⟨_ | vs, s₂⟩
    · rw [hes] at h
      cases h
    · rw [hes] at h
      cases h
      exact congrArg Nat.succ (ih (congrArg Prod.fst hes))

def siteName : Expr F → String
  | .call name _ | .over (.call name _) _ _ => toAsciiLowercase name
  | _ => ""

theorem siteHas_inherits (hP : Inherited P) {env : Env F} {row : Row F} {call : Expr F}
    (hentry : ∀ key ∈ siteKeys (env.analytics keyOrder) row call,
      EntryHas P (siteInsert keyOrder (siteName call)) key)
    (hid : "__rule_id__" ∈ siteRuleKeys call → P (callRuleId row))
    (hstart : "__rule_start__" ∈ siteRuleKeys call →
      P (callRuleStart (env.analytics keyOrder) row)) :
    SiteHas P (env.analytics keyOrder) row call := by
  cases call with
  | call name args =>
    intro hvalues
    exact evalStatefulCall_inherits hP hvalues (fun s vs hvs => evalArgs_length hvs) hentry hid
      hstart
  | «over» call partitionBy condition =>
    cases call with
    | call name args =>
      intro partitionKey hpartition skipUpdate hvalues
      exact evalStatefulCall_inherits hP hvalues (fun s vs hvs => evalArgs_length hvs)
        (fun key hkey => hentry key ⟨partitionKey, hpartition, hkey⟩) hid hstart
    | _ => trivial
  | _ => trivial

end

-- ---- Invariants of the state

def Preserves (Inv : HashMap String (Value F) → Prop) {α : Type} (x : Eval F α) : Prop :=
  ∀ s, Inv s.state → Inv (x.go s).2.state

section
variable {Inv : HashMap String (Value F) → Prop}

theorem Keeps.preserves {x : Eval F α} (h : Keeps x) : Preserves Inv x := fun s hs => by
  rw [h s]
  exact hs

theorem Preserves.pure (a : α) : Preserves Inv (Pure.pure a : Eval F α) := fun _ hs => hs

theorem Preserves.bind_of {x : Eval F α} {f : α → Eval F β} (hx : Preserves Inv x)
    (hf : ∀ a s, (x.go s).1 = .ok a → Preserves Inv (f a)) : Preserves Inv (x >>= f) := by
  intro s hs
  rw [go_bind]
  have hmid := hx s hs
  rcases hresult : x.go s with ⟨_ | a, s₁⟩
  · rwa [hresult] at hmid
  · rw [hresult] at hmid
    exact hf a s (congrArg Prod.fst hresult) s₁ hmid

theorem Preserves.bind {x : Eval F α} {f : α → Eval F β} (hx : Preserves Inv x)
    (hf : ∀ a, Preserves Inv (f a)) : Preserves Inv (x >>= f) :=
  hx.bind_of fun a _ _ => hf a

theorem Preserves.get_bind {f : RuleState F → Eval F β}
    (hf : ∀ s, Inv s.state → Inv ((f s).go s).2.state) :
    Preserves Inv ((get : Eval F (RuleState F)) >>= f) := hf

theorem preserves_inherited : Inherited (Preserves Inv) where
  lift r := (Keeps.lift r).preserves
  bind := Preserves.bind_of
  cached env e x hx := by
    refine Preserves.get_bind fun s hs => ?_
    split
    · split
      · exact hs
      · exact hx s hs
    · exact hx s hs

theorem entryHas_preserves {insert : Insertion F} {key : String}
    (hinsert : ∀ m value, Inv m → Inv (insert m key value)) :
    EntryHas (Preserves Inv) insert key := by
  intro α f s hs
  unfold Eval.go onEntry
  split
  · exact hs
  · exact hinsert _ _ hs

end

end Rekuiper.Sql
