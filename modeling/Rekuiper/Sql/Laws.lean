import Rekuiper.Sql.Eval

/-!
# What an evaluation reads and writes

An expression that calls no stateful function leaves the rule's state as it was, and
two rows that agree on the keys an expression looks up give it the same value.
-/

namespace Rekuiper.Sql

open Lib

variable {F α β : Type}

-- ---- Running an evaluation

theorem go_bind (x : Eval F α) (f : α → Eval F β) (s : RuleState F) :
    (x >>= f).go s =
      match x.go s with
      | (.ok a, s') => (f a).go s'
      | (.error e, s') => (.error e, s') := by
  unfold Eval.go
  change (match x s with | (r, s') => ExceptT.bindCont f r s') = _
  obtain ⟨r, s'⟩ := x s
  cases r <;> rfl

theorem go_liftExcept (r : Except Failure α) (s : RuleState F) :
    (liftExcept r : Eval F α).go s = (r, s) := by
  cases r <;> rfl

-- ---- Relations that evaluation carries along

/-- A relation between evaluations that is kept by their composition and gives them the
same result. -/
structure Compatible (R : ∀ {α : Type}, Eval F α → Eval F α → Prop) : Prop where
  lift : ∀ {α : Type} (r : Except Failure α), R (liftExcept r) (liftExcept r)
  get : R (get : Eval F (RuleState F)) get
  bind : ∀ {α β : Type} {x y : Eval F α} {f g : α → Eval F β}, R x y → (∀ a, R (f a) (g a)) →
    R (x >>= f) (y >>= g)
  result : ∀ {α : Type} {x y : Eval F α}, R x y → ∀ s, (x.go s).1 = (y.go s).1

theorem Compatible.pure {R : ∀ {α : Type}, Eval F α → Eval F α → Prop} (hR : Compatible R) (a : α) :
    R (Pure.pure a : Eval F α) (Pure.pure a) :=
  hR.lift (.ok a)

theorem Compatible.cached {R : ∀ {α : Type}, Eval F α → Eval F α → Prop} (hR : Compatible R)
    {env : Env F} {e : Expr F} {x y : Eval F (Value F)} (h : R x y) :
    R (cached env e x) (cached env e y) := by
  refine hR.bind hR.get fun s => ?_
  split
  · split
    · exact hR.pure _
    · exact h
  · exact h

section
variable [Float64 F] {R : ∀ {α : Type}, Eval F α → Eval F α → Prop}

def RelatedAt (R : ∀ {α : Type}, Eval F α → Eval F α → Prop) (env : Env F) (row row' : Row F) :
    Expr F → Prop
  | .identifier name => column row name = column row' name
  | .fieldAccess (.identifier parent) leaf =>
    fieldAccess row (.identifier parent) (column row parent) leaf =
      fieldAccess row' (.identifier parent) (column row' parent) leaf
  | .call name args =>
    ∀ {values values' : Eval F (List (Value F))} (partitionKey : Option String)
      (skipUpdate : Bool), R values values' →
      R (evalStatefulCall env row name args values (evalFirst env row args) partitionKey skipUpdate)
        (evalStatefulCall env row' name args values' (evalFirst env row args) partitionKey
          skipUpdate)
  | _ => True

mutual
theorem evalExpr_related (hR : Compatible R) (env : Env F) (row row' : Row F) (e : Expr F)
    (h : ∀ sub ∈ subexprs e, RelatedAt R env row row' sub) :
    R (evalExpr env row e) (evalExpr env row' e) := by
  cases e with
  | wildcard | wildcardModified | literal =>
    unfold evalExpr
    exact hR.pure _
  | identifier name =>
    simp only [subexprs, List.forall_mem_cons] at h
    unfold evalExpr
    rw [show column row name = column row' name from h.1]
    exact hR.pure _
  | fieldAccess parent leaf =>
    simp only [subexprs, List.forall_mem_cons] at h
    cases parent with
    | identifier parent =>
      have hvalue : fieldAccess row (.identifier parent) (column row parent) leaf =
          fieldAccess row' (.identifier parent) (column row' parent) leaf := h.1
      simp only [evalExpr, pure_bind, hvalue]
      exact hR.pure _
    | _ =>
      unfold evalExpr
      exact hR.bind (evalExpr_related hR env row row' _ h.2) fun _ => hR.pure _
  | index base index =>
    simp only [subexprs, List.forall_mem_cons, List.forall_mem_append] at h
    unfold evalExpr
    exact hR.bind (evalExpr_related hR env row row' base h.2.1) fun _ =>
      hR.bind (evalExpr_related hR env row row' index h.2.2) fun _ => hR.pure _
  | slice base lo hi =>
    simp only [subexprs, List.forall_mem_cons, List.forall_mem_append] at h
    unfold evalExpr
    exact hR.bind (evalExpr_related hR env row row' base h.2.1.1) fun _ =>
      hR.bind (evalOpt_related hR env row row' lo h.2.1.2) fun _ =>
        hR.bind (evalOpt_related hR env row row' hi h.2.2) fun _ => hR.pure _
  | binaryOp left op right =>
    simp only [subexprs, List.forall_mem_cons, List.forall_mem_append] at h
    unfold evalExpr
    exact hR.bind (evalExpr_related hR env row row' left h.2.1) fun _ =>
      hR.bind (evalExpr_related hR env row row' right h.2.2) fun _ => hR.lift _
  | unaryOp op expr =>
    simp only [subexprs, List.forall_mem_cons] at h
    unfold evalExpr
    exact hR.bind (evalExpr_related hR env row row' expr h.2) fun _ => hR.pure _
  | between expr low high negated =>
    simp only [subexprs, List.forall_mem_cons, List.forall_mem_append] at h
    unfold evalExpr
    exact hR.bind (evalExpr_related hR env row row' expr h.2.1.1) fun _ =>
      hR.bind (evalExpr_related hR env row row' low h.2.1.2) fun _ =>
        hR.bind (evalExpr_related hR env row row' high h.2.2) fun _ => hR.lift _
  | inList expr list negated =>
    simp only [subexprs, List.forall_mem_cons, List.forall_mem_append] at h
    unfold evalExpr
    exact hR.bind (evalExpr_related hR env row row' expr h.2.1) fun value =>
      hR.bind (evalInList_related hR env row row' value list h.2.2) fun _ => hR.pure _
  | isNull expr negated =>
    simp only [subexprs, List.forall_mem_cons] at h
    unfold evalExpr
    exact hR.bind (evalExpr_related hR env row row' expr h.2) fun _ => hR.pure _
  | call name args =>
    simp only [subexprs, List.forall_mem_cons] at h
    unfold evalExpr
    rw [← evalFirst_related hR env row row' args h.2]
    exact hR.cached (h.1 _ _ (evalArgs_related hR env row row' args h.2))
  | «over» call partitionBy condition =>
    simp only [subexprs, List.forall_mem_cons, List.forall_mem_append] at h
    obtain ⟨-, ⟨hcall, hpartition⟩, hcondition⟩ := h
    have hp := evalOpt_related hR env row row' partitionBy hpartition
    have hc := evalOpt_related hR env row row' condition hcondition
    cases call with
    | call name args =>
      simp only [subexprs, List.forall_mem_cons] at hcall
      unfold evalExpr
      rw [← evalFirst_related hR env row row' args hcall.2]
      exact hR.cached (hR.bind hp fun _ => hR.bind hc fun _ =>
        hcall.1 _ _ (evalArgs_related hR env row row' args hcall.2))
    | _ =>
      unfold evalExpr
      exact hR.cached (hR.bind hp fun _ => hR.bind hc fun _ =>
        evalExpr_related hR env row row' _ hcall)
  | case operand whenClauses elseClause =>
    simp only [subexprs, List.forall_mem_cons, List.forall_mem_append] at h
    unfold evalExpr
    refine hR.bind (evalOpt_related hR env row row' operand h.2.1.1) fun value =>
      hR.bind (evalWhens_related hR env row row' value whenClauses h.2.1.2) fun result => ?_
    cases result with
    | some v => exact hR.pure v
    | none =>
      exact hR.bind (evalOpt_related hR env row row' elseClause h.2.2) fun _ => hR.pure _
theorem evalArgs_related (hR : Compatible R) (env : Env F) (row row' : Row F)
    (args : List (Expr F)) (h : ∀ sub ∈ argSubexprs args, RelatedAt R env row row' sub) :
    R (evalArgs env row args) (evalArgs env row' args) := by
  cases args with
  | nil =>
    unfold evalArgs
    exact hR.pure _
  | cons e es =>
    simp only [argSubexprs, List.forall_mem_append] at h
    unfold evalArgs
    exact hR.bind (evalExpr_related hR env row row' e h.1) fun _ =>
      hR.bind (evalArgs_related hR env row row' es h.2) fun _ => hR.pure _
theorem evalFirst_related (hR : Compatible R) (env : Env F) (row row' : Row F)
    (args : List (Expr F)) (h : ∀ sub ∈ argSubexprs args, RelatedAt R env row row' sub) :
    evalFirst env row args = evalFirst env row' args := by
  cases args with
  | nil =>
    unfold evalFirst
    rfl
  | cons e es =>
    simp only [argSubexprs, List.forall_mem_append] at h
    unfold evalFirst
    rw [hR.result (evalExpr_related hR env row row' e h.1)]
theorem evalOpt_related (hR : Compatible R) (env : Env F) (row row' : Row F)
    (e : Option (Expr F)) (h : ∀ sub ∈ optSubexprs e, RelatedAt R env row row' sub) :
    R (evalOpt env row e) (evalOpt env row' e) := by
  cases e with
  | none =>
    unfold evalOpt
    exact hR.pure _
  | some e =>
    simp only [optSubexprs] at h
    unfold evalOpt
    exact hR.bind (evalExpr_related hR env row row' e h) fun _ => hR.pure _
theorem evalInList_related (hR : Compatible R) (env : Env F) (row row' : Row F) (value : Value F)
    (list : List (Expr F)) (h : ∀ sub ∈ argSubexprs list, RelatedAt R env row row' sub) :
    R (evalInList env row value list) (evalInList env row' value list) := by
  cases list with
  | nil =>
    unfold evalInList
    exact hR.pure _
  | cons e es =>
    simp only [argSubexprs, List.forall_mem_append] at h
    unfold evalInList
    refine hR.bind (evalExpr_related hR env row row' e h.1) fun v => ?_
    split
    · exact hR.pure _
    · exact evalInList_related hR env row row' value es h.2
theorem evalWhens_related (hR : Compatible R) (env : Env F) (row row' : Row F)
    (operand : Option (Value F)) (clauses : List (Expr F × Expr F))
    (h : ∀ sub ∈ whenSubexprs clauses, RelatedAt R env row row' sub) :
    R (evalWhens env row operand clauses) (evalWhens env row' operand clauses) := by
  match clauses with
  | [] =>
    unfold evalWhens
    exact hR.pure _
  | (c, e) :: rest =>
    simp only [whenSubexprs, List.forall_mem_append] at h
    unfold evalWhens
    refine hR.bind (evalExpr_related hR env row row' c h.1.1) fun v => ?_
    split
    · exact hR.bind (evalExpr_related hR env row row' e h.1.2) fun _ => hR.pure _
    · exact evalWhens_related hR env row row' operand rest h.2
end

end

-- ---- Evaluations that keep the state

/-- The evaluation leaves the state as it was. -/
def Keeps (x : Eval F α) : Prop := ∀ s, (x.go s).2 = s

namespace Keeps

theorem lift (r : Except Failure α) : Keeps (liftExcept r : Eval F α) := fun s => by
  rw [go_liftExcept]

theorem bind {x : Eval F α} {f : α → Eval F β} (hx : Keeps x) (hf : ∀ a, Keeps (f a)) :
    Keeps (x >>= f) := by
  intro s
  rw [go_bind]
  have hs := hx s
  generalize x.go s = result at hs ⊢
  obtain ⟨r, s'⟩ := result
  cases r with
  | ok a => exact (hf a s').trans hs
  | error e => exact hs

theorem get : Keeps (MonadState.get : Eval F (RuleState F)) := fun _ => rfl

theorem compatible : Compatible fun {α : Type} (x y : Eval F α) => x = y ∧ Keeps x where
  lift r := ⟨rfl, lift r⟩
  get := ⟨rfl, get⟩
  bind := by
    rintro α β x y f g ⟨rfl, hx⟩ hf
    obtain rfl : f = g := funext fun a => (hf a).1
    exact ⟨rfl, hx.bind fun a => (hf a).2⟩
  result := by
    rintro α x y ⟨rfl, -⟩ s
    rfl

end Keeps

def isStatefulCall : Expr F → Bool
  | .call name args => isAnalyticExpr (.call name args) || toAsciiLowercase name == "changed_cols"
  | _ => false

theorem callRuleId_keeps (row : Row F) : Keeps (callRuleId row) := by
  refine Keeps.get.bind fun s => ?_
  split <;> exact Keeps.lift (.ok _)

theorem callRuleStart_keeps (env : Env F) (row : Row F) : Keeps (callRuleStart env row) := by
  refine Keeps.get.bind fun s => ?_
  split <;> exact Keeps.lift (.ok _)

section
variable [Float64 F]

theorem evalStatefulCall_keeps {env : Env F} {row : Row F} {name : String}
    {args : List (Expr F)} {values : Eval F (List (Value F))}
    (hname : isStatefulCall (.call name args) = false) (hvalues : Keeps values)
    (first : Except Failure (Value F)) (partitionKey : Option String) (skipUpdate : Bool) :
    Keeps (evalStatefulCall env row name args values first partitionKey skipUpdate) := by
  simp only [isStatefulCall, isAnalyticExpr, Bool.or_eq_false_iff, List.contains_eq_mem,
    decide_eq_false_iff_not, List.mem_cons, not_or, beq_eq_false_iff_ne] at hname
  obtain ⟨⟨hacc, hlag, hhad, hcol, hrow, hcount, htime, hmatch, hseq, -⟩, hcols⟩ := hname
  unfold evalStatefulCall
  simp only [hacc, hlag, hhad, hcol, hrow, hcount, htime, hmatch, hseq, hcols, Bool.false_eq_true,
    or_self, false_and, if_false]
  split
  · exact callRuleId_keeps row
  split
  · exact callRuleStart_keeps env row
  split
  · exact Keeps.lift _
  · split
    · exact Keeps.lift _
    · exact Keeps.bind hvalues fun _ => Keeps.lift _

theorem evalExpr_keeps (env : Env F) (row : Row F) (e : Expr F)
    (h : ∀ sub ∈ subexprs e, isStatefulCall sub = false) : Keeps (evalExpr env row e) := by
  refine (evalExpr_related Keeps.compatible env row row e fun sub hsub => ?_).2
  cases sub with
  | call name args =>
    rintro values values' key skip ⟨rfl, hvalues⟩
    exact ⟨rfl, evalStatefulCall_keeps (h _ hsub) hvalues _ key skip⟩
  | fieldAccess parent leaf => cases parent <;> trivial
  | _ => trivial

theorem evalBoolStateful_keeps (env : Env F) (row : Row F) (e : Expr F)
    (h : ∀ sub ∈ subexprs e, isStatefulCall sub = false) :
    Keeps (evalBoolStateful env row e) := by
  unfold evalBoolStateful
  split
  · exact Keeps.lift _
  · exact evalExpr_keeps env row e h

end

-- ---- Keys an evaluation looks up

def eventTimeKeys : List String := ["timestamp", "event_time", "__timestamp__"]

def columnReads (name key : String) : Bool :=
  key == name || (name == "window_start" || name == "window_end") && key == s!"__{name}__"

def metaArgReads (args : List (Expr F)) (key : String) : Bool :=
  match args with
  | [] | .wildcard :: _ => false
  | .identifier name :: _ => key == name
  | .literal (.string name) :: _ => key == name
  | _ => true

def callReads (name : String) (args : List (Expr F)) (key : String) : Bool :=
  let lowered := toAsciiLowercase name
  if ["sequence_match", "sequence_count", "last_hit_time", "event_time"].contains lowered then
    eventTimeKeys.contains key
  else if lowered = "rule_id" then key == "__rule_id__"
  else if lowered = "rule_start" then key == "__rule_start__"
  else if lowered = "meta" then ["__meta__", "meta"].contains key || metaArgReads args key
  else if lowered = "mqtt" then
    ["__mqtt__", "mqtt", "__meta__"].contains key || metaArgReads args key
  else if lowered = "window_start" then ["window_start", "__window_start__"].contains key
  else if lowered = "window_end" then ["window_end", "__window_end__"].contains key
  else false

def readsAt (key : String) : Expr F → Bool
  | .identifier name => columnReads name key
  | .fieldAccess (.identifier parent) leaf =>
    columnReads parent key || key == s!"{parent}.{leaf}" || key == leaf
  | .call name args => callReads name args key
  | _ => false

def reads (e : Expr F) (key : String) : Bool := (subexprs e).any (readsAt key)

def isUnqualified (row : Row F) (parent leaf : String) : Bool :=
  ((column row parent).get leaf).isNone && (row.lookup s!"{parent}.{leaf}").isNone &&
    (row.lookup leaf).isSome

/-- Two rows have the same values under the keys that an expression looks up, and its
qualified columns have other owners in both or in neither. -/
structure AgreeOn (e : Expr F) (row row' : Row F) : Prop where
  lookup : ∀ key, reads e key = true → row.lookup key = row'.lookup key
  owner : ∀ parent leaf, .fieldAccess (.identifier parent) leaf ∈ subexprs e →
    isUnqualified row parent leaf = true →
    ownedByOther row parent leaf = ownedByOther row' parent leaf

theorem AgreeOn.at {e sub : Expr F} {row row' : Row F} (h : AgreeOn e row row')
    (hsub : sub ∈ subexprs e) {key : String} (hkey : readsAt key sub = true) :
    row.lookup key = row'.lookup key :=
  h.lookup key (List.any_eq_true.mpr ⟨sub, hsub, hkey⟩)

theorem findSome_congr {f g : α → Option β} {xs : List α} (h : ∀ x ∈ xs, f x = g x) :
    xs.findSome? f = xs.findSome? g := by
  induction xs with
  | nil => rfl
  | cons x xs ih =>
    simp only [List.findSome?_cons, h x List.mem_cons_self,
      ih fun y hy => h y (List.mem_cons_of_mem _ hy)]

section
variable {row row' : Row F}

theorem column_congr {name : String}
    (h : ∀ key, columnReads name key = true → row.lookup key = row'.lookup key) :
    column row name = column row' name := by
  unfold column
  rw [h name (by simp [columnReads])]
  split
  · rfl
  · split
    · rw [h _ (by simp_all [columnReads])]
    · rfl

theorem fieldAccess_congr {parent leaf : String} (hparent : column row parent = column row' parent)
    (hflat : row.lookup s!"{parent}.{leaf}" = row'.lookup s!"{parent}.{leaf}")
    (hleaf : row.lookup leaf = row'.lookup leaf)
    (howner : isUnqualified row parent leaf = true →
      ownedByOther row parent leaf = ownedByOther row' parent leaf) :
    fieldAccess row (.identifier parent) (column row parent) leaf =
      fieldAccess row' (.identifier parent) (column row' parent) leaf := by
  simp only [isUnqualified, Bool.and_eq_true, Option.isNone_iff_eq_none] at howner
  rw [hparent, hflat, hleaf] at howner
  simp only [fieldAccess, hparent, hflat, hleaf]
  cases hobject : (column row' parent).get leaf with
  | some v => rfl
  | none =>
    cases hkey : row'.lookup s!"{parent}.{leaf}" with
    | some v => rfl
    | none =>
      cases hvalue : row'.lookup leaf with
      | none => simp only [Option.getD_none, ite_self]
      | some v =>
        have hsame := howner ⟨⟨hobject, hkey⟩, by rw [hvalue]; rfl⟩
        simp only [hsame]

theorem firstPresent_congr {keys : List String}
    (h : ∀ key ∈ keys, row.lookup key = row'.lookup key) :
    firstPresent row keys = firstPresent row' keys :=
  findSome_congr h

theorem resolveMetaKey_congr {object : Option (List (String × Value F))} {key : String}
    (h : row.lookup key = row'.lookup key) :
    resolveMetaKey row object key = resolveMetaKey row' object key := by
  simp only [resolveMetaKey, h]

theorem resolveEventTime_congr (env : Env F)
    (h : ∀ key ∈ eventTimeKeys, row.lookup key = row'.lookup key) :
    resolveEventTime env row = resolveEventTime env row' := by
  refine congrArg (Option.getD · (ofI64 env.now)) (findSome_congr fun key hkey => ?_)
  rw [h key hkey]

theorem resolveMeta_congr {args : List (Expr F)} {first : Except Failure (Value F)}
    {keys : List String} (hkeys : ∀ key ∈ keys, row.lookup key = row'.lookup key)
    (hargs : ∀ key, metaArgReads args key = true → row.lookup key = row'.lookup key)
    (hfirst : ∀ name rest, args = .literal (.string name) :: rest → first = .ok (.string name)) :
    resolveMeta args first row keys = resolveMeta args first row' keys := by
  simp only [resolveMeta, firstPresent_congr hkeys]
  split
  · rfl
  · rfl
  · rw [resolveMetaKey_congr (hargs _ (beq_self_eq_true _))]
  · next args hnil hwild hid =>
    cases first with
    | error e => rfl
    | ok value =>
      simp only [Except.map]
      cases value with
      | string key =>
        refine congrArg _ (resolveMetaKey_congr (hargs key ?_))
        unfold metaArgReads
        split <;> simp_all
      | _ => rfl

variable [Float64 F]

theorem evalFirst_literal (env : Env F) (row : Row F) (name : String) (rest : List (Expr F)) :
    evalFirst env row (.literal (.string name) :: rest) = .ok (.string name) := by
  unfold evalFirst evalExpr
  rfl

omit [Float64 F] in
theorem resolveEventTime_call {env : Env F} {name : String} {args : List (Expr F)}
    (h : ∀ key, callReads name args key = true → row.lookup key = row'.lookup key)
    (hname : toAsciiLowercase name ∈
      ["sequence_match", "sequence_count", "last_hit_time", "event_time"]) :
    resolveEventTime env row = resolveEventTime env row' := by
  refine resolveEventTime_congr env fun key hkey => h key ?_
  have hcontains := List.contains_iff_mem.mpr hname
  simp only [callReads, hcontains, if_true]
  exact List.contains_iff_mem.mpr hkey

theorem evalContextCall_congr {env : Env F} {name : String} {args : List (Expr F)}
    (h : ∀ key, callReads name args key = true → row.lookup key = row'.lookup key) :
    evalContextCall env (toAsciiLowercase name) args (evalFirst env row args) row =
      evalContextCall env (toAsciiLowercase name) args (evalFirst env row args) row' := by
  have hfirst : ∀ key rest, args = .literal (.string key) :: rest →
      evalFirst env row args = .ok (.string key) := by
    rintro key rest rfl
    exact evalFirst_literal env row key rest
  unfold evalContextCall
  split
  · next hmeta =>
    simp only [callReads, hmeta] at h
    rw [resolveMeta_congr (fun key hkey => h key (by simp_all)) (fun key hkey => h key (by simp_all))
      hfirst]
  split
  · next hmqtt =>
    simp only [callReads, hmqtt] at h
    rw [resolveMeta_congr (fun key hkey => h key (by simp_all)) (fun key hkey => h key (by simp_all))
      hfirst]
  split
  · next hevent =>
    rw [resolveEventTime_call h (by simp [hevent])]
  split
  · next hstart =>
    simp only [callReads, hstart] at h
    rw [firstPresent_congr fun key hkey => h key (by simp_all)]
  split
  · next hend =>
    simp only [callReads, hend] at h
    rw [firstPresent_congr fun key hkey => h key (by simp_all)]
  · rfl

theorem evalStatefulCall_congr {env : Env F} {name : String} {args : List (Expr F)}
    (h : ∀ key, callReads name args key = true → row.lookup key = row'.lookup key)
    (values : Eval F (List (Value F))) (partitionKey : Option String) (skipUpdate : Bool) :
    evalStatefulCall env row name args values (evalFirst env row args) partitionKey skipUpdate =
      evalStatefulCall env row' name args values (evalFirst env row args) partitionKey
        skipUpdate := by
  unfold evalStatefulCall
  refine ite_congr rfl (fun _ => rfl) fun _ => ?_
  refine ite_congr rfl (fun hseq => ?_) fun _ => ?_
  · rw [resolveEventTime_call h (by rcases hseq with hseq | hseq <;> simp [hseq])]
  refine ite_congr rfl (fun _ => rfl) fun _ => ?_
  refine ite_congr rfl (fun _ => rfl) fun _ => ?_
  refine ite_congr rfl (fun _ => rfl) fun _ => ?_
  refine ite_congr rfl (fun htime => ?_) fun _ => ?_
  · rw [resolveEventTime_call h (by simp [htime])]
  refine ite_congr rfl (fun hid => ?_) fun _ => ?_
  · simp only [callReads, hid] at h
    simp only [callRuleId, h "__rule_id__" (by simp)]
  refine ite_congr rfl (fun hstart => ?_) fun _ => ?_
  · simp only [callReads, hstart] at h
    simp only [callRuleStart, h "__rule_start__" (by simp)]
  rw [evalContextCall_congr h]

theorem evalExpr_congr (env : Env F) {e : Expr F} (h : AgreeOn e row row') :
    evalExpr env row e = evalExpr env row' e := by
  have hEq : Compatible fun {α : Type} (x y : Eval F α) => x = y :=
    { lift := fun _ => rfl
      get := rfl
      bind := by
        rintro α β x y f g rfl hf
        exact congrArg (x >>= ·) (funext hf)
      result := by
        rintro α x y rfl s
        rfl }
  refine evalExpr_related hEq env row row' e fun sub hsub => ?_
  cases sub with
  | identifier name => exact column_congr fun key hkey => h.at hsub hkey
  | fieldAccess parent leaf =>
    cases parent with
    | identifier parent =>
      exact fieldAccess_congr (column_congr fun key hkey => h.at hsub (by simp [readsAt, hkey]))
        (h.at hsub (by simp [readsAt])) (h.at hsub (by simp [readsAt])) (h.owner parent leaf hsub)
    | _ => trivial
  | call name args =>
    rintro values values' key skip rfl
    exact evalStatefulCall_congr (fun key hkey => h.at hsub hkey) values key skip
  | _ => trivial

theorem evalBoolStateful_congr (env : Env F) {e : Expr F} (h : AgreeOn e row row') :
    evalBoolStateful env row e = evalBoolStateful env row' e := by
  have hcondition : evalCondition env row e = evalCondition env row' e := by
    unfold evalCondition
    rw [evalExpr_congr env h]
  have hfast : fastPath env row e = fastPath env row' e := by
    unfold fastPath
    split
    · next name op lit =>
      have hsub : .identifier name ∈ subexprs (.binaryOp (.identifier name) op (.literal lit)) := by
        simp [subexprs]
      rw [h.at hsub (by simp [readsAt, columnReads])]
    · next lit op name =>
      have hsub : .identifier name ∈ subexprs (.binaryOp (.literal lit) op (.identifier name)) := by
        simp [subexprs]
      rw [h.at hsub (by simp [readsAt, columnReads])]
    · rfl
  unfold evalBoolStateful
  rw [hfast, hcondition]

theorem evalF64_congr (e : Expr F)
    (h : ∀ key, reads e key = true → row.lookup key = row'.lookup key) :
    evalF64 row e = evalF64 row' e := by
  cases e with
  | identifier name =>
    unfold evalF64
    rw [h name (by simp [reads, subexprs, readsAt, columnReads])]
  | binaryOp left op right =>
    unfold evalF64
    rw [evalF64_congr left fun key hkey => h key (by simp_all [reads, subexprs]),
      evalF64_congr right fun key hkey => h key (by simp_all [reads, subexprs])]
  | _ => rfl

theorem tryEvalNumericFast_congr {e : Expr F} (h : AgreeOn e row row') :
    tryEvalNumericFast row e = tryEvalNumericFast row' e := by
  unfold tryEvalNumericFast
  rw [evalF64_congr e h.lookup]

end

end Rekuiper.Sql
