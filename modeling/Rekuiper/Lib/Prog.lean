import Mathlib.Logic.Function.Basic

/-!
# Programs of atomic operations, and their interleaving

A `Prog` performs atomic operations and goes on with their answers. A `Machine`
says what an operation does to a shared state and when it has to wait; `run`
interleaves any number of programs and the environment's own actions under an
arbitrary schedule.

What a program does is stated with a `Protocol`: the phases it goes through, the
operations each phase allows, and the answers it may rely on. `Follows` is the
weakest precondition of a program for a protocol, so that loops and calls are
proved once each and composed by `Follows.bind`; `run_invariant` carries the result
to every schedule. What a call that has ended did is a `Trace` of its program.
-/

namespace Rekuiper.Lib

/-- A program over operations `Op`: it has ended, or it performs one operation
and goes on with the answer. -/
inductive Prog (Op : Type) (Answer : Op → Type) (α : Type) : Type
  | pure (result : α)
  | step (op : Op) (next : Answer op → Prog Op Answer α)

namespace Prog

variable {Op : Type} {Answer : Op → Type} {α β Phase : Type}

def ended : Prog Op Answer α → Bool
  | .pure _ => true
  | .step .. => false

theorem ended_iff {p : Prog Op Answer α} : p.ended = true ↔ ∃ result, p = .pure result := by
  cases p <;> simp [ended]

protected def bind : Prog Op Answer α → (α → Prog Op Answer β) → Prog Op Answer β
  | .pure result, f => f result
  | .step op next, f => .step op fun answer => (next answer).bind f

instance : Monad (Prog Op Answer) where
  pure := .pure
  bind := Prog.bind

def perform (op : Op) : Prog Op Answer (Answer op) := .step op .pure

end Prog

variable {Op : Type} {Answer : Op → Type} {α β State Env Phase : Type}

-- ---- Protocols

/-- The phases of a program: which operations a phase allows, which answers can
come, and where they lead. -/
structure Protocol (Op : Type) (Answer : Op → Type) (Phase : Type) where
  allows : Phase → Op → Prop
  answers : (op : Op) → Answer op → Prop
  next : Phase → (op : Op) → Answer op → Phase

/-- From `phase` on the program keeps to the protocol, and ends only in a phase
and with a result that satisfy `post`. -/
def Prog.Follows (P : Protocol Op Answer Phase) (post : Phase → α → Prop) :
    Phase → Prog Op Answer α → Prop
  | phase, .pure result => post phase result
  | phase, .step op next =>
    P.allows phase op ∧
      ∀ answer, P.answers op answer → (next answer).Follows P post (P.next phase op answer)

namespace Prog

variable {P : Protocol Op Answer Phase} {phase : Phase}

theorem Follows.mono {post post' : Phase → α → Prop} {p : Prog Op Answer α}
    (h : p.Follows P post phase) (hpost : ∀ phase result, post phase result → post' phase result) :
    p.Follows P post' phase := by
  induction p generalizing phase with
  | pure result => exact hpost _ _ h
  | step op next ih => exact ⟨h.1, fun answer ha => ih answer (h.2 answer ha)⟩

theorem Follows.bind {Q : Phase → α → Prop} {post : Phase → β → Prop}
    {p : Prog Op Answer α} {f : α → Prog Op Answer β} (h : p.Follows P Q phase)
    (hf : ∀ phase result, Q phase result → (f result).Follows P post phase) :
    (p >>= f).Follows P post phase := by
  induction p generalizing phase with
  | pure result => exact hf _ _ h
  | step op next ih => exact ⟨h.1, fun answer ha => ih answer (h.2 answer ha)⟩

theorem Follows.ite {condition : Prop} [Decidable condition] {post : Phase → α → Prop}
    {p q : Prog Op Answer α} (hp : condition → p.Follows P post phase)
    (hq : ¬condition → q.Follows P post phase) :
    (if condition then p else q).Follows P post phase := by
  split
  · exact hp ‹_›
  · exact hq ‹_›

theorem follows_pure {post : Phase → α → Prop} {result : α} (h : post phase result) :
    (Pure.pure result : Prog Op Answer α).Follows P post phase := h

theorem follows_perform {post : Phase → β → Prop} {op : Op} {f : Answer op → Prog Op Answer β}
    (hallow : P.allows phase op)
    (hf : ∀ answer, P.answers op answer → (f answer).Follows P post (P.next phase op answer)) :
    (perform op >>= f).Follows P post phase :=
  ⟨hallow, hf⟩

def expand {Call : Type} {Reply : Call → Type}
    (impl : (call : Call) → Prog Op Answer (Reply call)) :
    Prog Call Reply α → Prog Op Answer α
  | .pure result => .pure result
  | .step call next => impl call >>= fun reply => (next reply).expand impl

theorem follows_expand {Call : Type} {Reply : Call → Type}
    {impl : (call : Call) → Prog Op Answer (Reply call)}
    (h : ∀ call, (impl call).Follows P (fun phase' _ => phase' = phase) phase)
    (p : Prog Call Reply α) :
    (p.expand impl).Follows P (fun phase' _ => phase' = phase) phase := by
  induction p with
  | pure result => exact rfl
  | step call next ih =>
    refine (h call).bind fun phase' reply hphase => ?_
    subst hphase
    exact ih reply

end Prog

-- ---- Programs that keep to a kind of operation

/-- Whatever the answers, the program performs only operations in `S` and ends
with a result in `R`. -/
def Prog.Uses (S : Op → Prop) (R : α → Prop) : Prog Op Answer α → Prop
  | .pure result => R result
  | .step op next => S op ∧ ∀ answer, (next answer).Uses S R

namespace Prog

variable {P : Protocol Op Answer Phase} {phase : Phase} {S S' : Op → Prop} {R R' : α → Prop}

theorem Uses.mono {p : Prog Op Answer α} (h : p.Uses S R) (hS : ∀ op, S op → S' op)
    (hR : ∀ result, R result → R' result) : p.Uses S' R' := by
  induction p with
  | pure result => exact hR _ h
  | step op next ih => exact ⟨hS op h.1, fun answer => ih answer (h.2 answer)⟩

theorem Uses.bind {T : β → Prop} {p : Prog Op Answer α} {f : α → Prog Op Answer β}
    (h : p.Uses S R) (hf : ∀ result, R result → (f result).Uses S T) : (p >>= f).Uses S T := by
  induction p with
  | pure result => exact hf _ h
  | step op next ih => exact ⟨h.1, fun answer => ih answer (h.2 answer)⟩

theorem uses_pure {result : α} (h : R result) : (Pure.pure result : Prog Op Answer α).Uses S R := h

theorem uses_perform {T : β → Prop} {op : Op} {f : Answer op → Prog Op Answer β} (hop : S op)
    (hf : ∀ answer, (f answer).Uses S T) : (perform op >>= f).Uses S T :=
  ⟨hop, hf⟩

theorem uses_op {op : Op} (hop : S op) :
    (perform op : Prog Op Answer (Answer op)).Uses S fun _ => True :=
  ⟨hop, fun _ => trivial⟩

theorem Uses.ite {condition : Prop} [Decidable condition] {p q : Prog Op Answer α}
    (hp : condition → p.Uses S R) (hq : ¬condition → q.Uses S R) :
    (if condition then p else q).Uses S R := by
  split
  · exact hp ‹_›
  · exact hq ‹_›

theorem Uses.follows {p : Prog Op Answer α} (h : p.Uses S R)
    (hS : ∀ op, S op → P.allows phase op ∧ ∀ answer, P.next phase op answer = phase) :
    p.Follows P (fun phase' result => phase' = phase ∧ R result) phase := by
  induction p with
  | pure result => exact ⟨rfl, h⟩
  | step op next ih =>
    obtain ⟨hallow, hnext⟩ := hS op h.1
    refine ⟨hallow, fun answer _ => ?_⟩
    rw [hnext answer]
    exact ih answer (h.2 answer)

end Prog

-- ---- Complete traces

abbrev Done (Op : Type) (Answer : Op → Type) := (op : Op) × Answer op

/-- Performing exactly the operations `trace`, with the answers there, the
program ends with `result`. -/
def Prog.Trace : Prog Op Answer α → List (Done Op Answer) → α → Prop
  | .pure result, trace, result' => trace = [] ∧ result' = result
  | .step op next, trace, result =>
    ∃ answer rest, trace = ⟨op, answer⟩ :: rest ∧ (next answer).Trace rest result

namespace Prog

variable {trace : List (Done Op Answer)}

@[simp]
theorem trace_pure {a result : α} :
    (Pure.pure a : Prog Op Answer α).Trace trace result ↔ trace = [] ∧ result = a := Iff.rfl

@[simp]
theorem trace_perform {op : Op} {result : Answer op} :
    (perform op : Prog Op Answer (Answer op)).Trace trace result ↔ trace = [⟨op, result⟩] := by
  constructor
  · rintro ⟨answer, rest, rfl, rfl, rfl⟩
    rfl
  · rintro rfl
    exact ⟨result, [], rfl, rfl, rfl⟩

@[simp]
theorem trace_bind {p : Prog Op Answer α} {f : α → Prog Op Answer β} {result : β} :
    (p >>= f).Trace trace result ↔
      ∃ first a second, trace = first ++ second ∧ p.Trace first a ∧ (f a).Trace second result := by
  induction p generalizing trace with
  | pure a =>
    constructor
    · exact fun h => ⟨[], a, trace, rfl, ⟨rfl, rfl⟩, h⟩
    · rintro ⟨_, _, second, rfl, ⟨rfl, rfl⟩, h⟩
      exact h
  | step op next ih =>
    constructor
    · rintro ⟨answer, rest, rfl, h⟩
      obtain ⟨first, a, second, rfl, hp, hf⟩ := (ih answer).mp h
      exact ⟨⟨op, answer⟩ :: first, a, second, rfl, ⟨answer, first, rfl, hp⟩, hf⟩
    · rintro ⟨_, a, second, rfl, ⟨answer, first, rfl, hp⟩, hf⟩
      exact ⟨answer, first ++ second, rfl, (ih answer).mpr ⟨first, a, second, rfl, hp, hf⟩⟩

theorem Uses.of_trace {p : Prog Op Answer α} {result : α} (h : p.Uses S R)
    (ht : p.Trace trace result) : (∀ x ∈ trace, S x.1) ∧ R result := by
  induction p generalizing trace with
  | pure a =>
    obtain ⟨rfl, rfl⟩ := ht
    exact ⟨by simp, h⟩
  | step op next ih =>
    obtain ⟨answer, rest, rfl, ht⟩ := ht
    obtain ⟨hrest, hR⟩ := ih answer (h.2 answer) ht
    exact ⟨List.forall_mem_cons.mpr ⟨h.1, hrest⟩, hR⟩

end Prog

-- ---- Interleaving

/-- What operations do to a shared state. An operation that answers nothing has
to wait. The environment acts on the state by itself. -/
structure Machine (Op : Type) (Answer : Op → Type) (State Env : Type) where
  exec : Nat → State → (op : Op) → Option (Answer op × State)
  react : Env → State → State

/-- A shared state and the rest of every thread's program. -/
structure Config (Op : Type) (Answer : Op → Type) (State α : Type) where
  state : State
  threads : Nat → Prog Op Answer α

/-- Who moves next. -/
inductive Choice (Env : Type)
  | thread (t : Nat)
  | env (e : Env)

/-- An operation that was performed, with the state it was performed in. -/
structure Event (Op : Type) (Answer : Op → Type) (State : Type) where
  thread : Nat
  before : State
  op : Op
  answer : Answer op

namespace Config

variable (M : Machine Op Answer State Env)

def next (c : Config Op Answer State α) :
    Choice Env → Config Op Answer State α × Option (Event Op Answer State)
  | .thread t =>
    match c.threads t with
    | .pure _ => (c, none)
    | .step op next =>
      match M.exec t c.state op with
      | none => (c, none)
      | some (answer, state) =>
        ({ state := state, threads := Function.update c.threads t (next answer) },
          some { thread := t, before := c.state, op := op, answer := answer })
  | .env e => ({ c with state := M.react e c.state }, none)

/-- The configuration after a schedule, and the events along it. -/
def run (c : Config Op Answer State α) :
    List (Choice Env) → Config Op Answer State α × List (Event Op Answer State)
  | [] => (c, [])
  | choice :: rest =>
    ((c.next M choice).1.run rest |>.1,
      (c.next M choice).2.toList ++ ((c.next M choice).1.run rest).2)

end Config

variable {M : Machine Op Answer State Env}

theorem Config.next_thread (c : Config Op Answer State α) (t : Nat) :
    (∃ op next answer state, c.threads t = .step op next ∧
        M.exec t c.state op = some (answer, state) ∧
        c.next M (.thread t) =
          ({ state := state, threads := Function.update c.threads t (next answer) },
            some { thread := t, before := c.state, op := op, answer := answer })) ∨
      c.next M (.thread t) = (c, none) := by
  simp only [Config.next]
  cases hp : c.threads t with
  | pure result => exact .inr rfl
  | step op next =>
    dsimp only
    cases he : M.exec t c.state op with
    | none => exact .inr rfl
    | some outcome =>
      obtain ⟨answer, state⟩ := outcome
      exact .inl ⟨op, next, answer, state, rfl, he, rfl⟩

theorem Config.next_cases (c : Config Op Answer State α) (choice : Choice Env) :
    (∃ t op next answer state, c.threads t = .step op next ∧
        M.exec t c.state op = some (answer, state) ∧
        c.next M choice =
          ({ state := state, threads := Function.update c.threads t (next answer) },
            some { thread := t, before := c.state, op := op, answer := answer })) ∨
      (∃ e, c.next M choice = ({ c with state := M.react e c.state }, none)) ∨
      c.next M choice = (c, none) := by
  cases choice with
  | env e => exact .inr (.inl ⟨e, rfl⟩)
  | thread t =>
    rcases c.next_thread (M := M) t with hmove | hnext
    · exact .inl ⟨t, hmove⟩
    · exact .inr (.inr hnext)

/-- Every event is as `Good` asks of it after the events before it. -/
def Along (Good : List (Event Op Answer State) → Event Op Answer State → Prop) :
    List (Event Op Answer State) → List (Event Op Answer State) → Prop
  | _, [] => True
  | past, e :: rest => Good past e ∧ Along Good (past ++ [e]) rest

instance decidableAlong {Good : List (Event Op Answer State) → Event Op Answer State → Prop}
    [∀ past e, Decidable (Good past e)] :
    (past events : List (Event Op Answer State)) → Decidable (Along Good past events)
  | _, [] => .isTrue trivial
  | past, e :: rest =>
    have : Decidable (Along Good (past ++ [e]) rest) := decidableAlong (past ++ [e]) rest
    inferInstanceAs (Decidable (Good past e ∧ _))

theorem Along.of_forall {Good : Event Op Answer State → Prop}
    {past events : List (Event Op Answer State)} (h : ∀ e ∈ events, Good e) :
    Along (fun _ e => Good e) past events := by
  induction events generalizing past with
  | nil => trivial
  | cons e rest ih =>
    obtain ⟨he, hrest⟩ := List.forall_mem_cons.mp h
    exact ⟨he, ih hrest⟩

/-- The invariant rule. `Inv` relates the threads' phases to the events so far and the
shared state, and `Good` is what is assumed of an event after the events so far. If
every operation that a thread's phase allows keeps `Inv`, and so does the environment,
then `Inv` holds wherever a schedule of good events leads. -/
theorem run_invariant_along (P : Nat → Protocol Op Answer Phase) (post : Nat → Phase → α → Prop)
    (Inv : (Nat → Phase) → List (Event Op Answer State) → State → Prop)
    (Good : List (Event Op Answer State) → Event Op Answer State → Prop)
    (hop : ∀ phase past state t op answer state', Inv phase past state →
      (P t).allows (phase t) op → M.exec t state op = some (answer, state') →
      Good past ⟨t, state, op, answer⟩ →
      (P t).answers op answer ∧
        Inv (Function.update phase t ((P t).next (phase t) op answer))
          (past ++ [⟨t, state, op, answer⟩]) state')
    (henv : ∀ phase past state e, Inv phase past state → Inv phase past (M.react e state))
    (c : Config Op Answer State α) (schedule : List (Choice Env)) (phase : Nat → Phase)
    (past : List (Event Op Answer State)) (hinv : Inv phase past c.state)
    (hf : ∀ t, (c.threads t).Follows (P t) (post t) (phase t))
    (hgood : Along Good past (c.run M schedule).2) :
    ∃ phase' past', Inv phase' past' (c.run M schedule).1.state ∧
      ∀ t, ((c.run M schedule).1.threads t).Follows (P t) (post t) (phase' t) := by
  induction schedule generalizing c phase past with
  | nil => exact ⟨phase, past, hinv, hf⟩
  | cons choice rest ih =>
    simp only [Config.run] at hgood ⊢
    rcases c.next_cases (M := M) choice with
      ⟨u, op, next, answer, state, hp, hexec, hnext⟩ | ⟨e, hnext⟩ | hnext
    · rw [hnext] at hgood ⊢
      obtain ⟨hfirst, hrest⟩ := hgood
      have hu := hf u
      rw [hp] at hu
      obtain ⟨hanswer, hinv'⟩ := hop phase past c.state u op answer state hinv hu.1 hexec hfirst
      refine ih _ _ _ hinv' (fun t => ?_) hrest
      by_cases hut : t = u
      · subst hut
        simpa using hu.2 answer hanswer
      · simpa [Function.update_of_ne hut] using hf t
    · rw [hnext] at hgood ⊢
      exact ih _ phase past (henv phase past c.state e hinv) hf hgood
    · rw [hnext] at hgood ⊢
      exact ih _ phase past hinv hf hgood

theorem run_invariant (P : Nat → Protocol Op Answer Phase) (post : Nat → Phase → α → Prop)
    (Inv : (Nat → Phase) → State → Prop) (Good : Event Op Answer State → Prop)
    (hop : ∀ phase state t op answer state', Inv phase state → (P t).allows (phase t) op →
      M.exec t state op = some (answer, state') → Good ⟨t, state, op, answer⟩ →
      (P t).answers op answer ∧
        Inv (Function.update phase t ((P t).next (phase t) op answer)) state')
    (henv : ∀ phase state e, Inv phase state → Inv phase (M.react e state))
    (c : Config Op Answer State α) (schedule : List (Choice Env)) (phase : Nat → Phase)
    (hinv : Inv phase c.state) (hf : ∀ t, (c.threads t).Follows (P t) (post t) (phase t))
    (hgood : ∀ e ∈ (c.run M schedule).2, Good e) :
    ∃ phase', Inv phase' (c.run M schedule).1.state ∧
      ∀ t, ((c.run M schedule).1.threads t).Follows (P t) (post t) (phase' t) := by
  obtain ⟨phase', -, h⟩ := run_invariant_along P post (fun phase _ => Inv phase)
    (fun _ => Good) (fun phase _ => hop phase) (fun phase _ => henv phase) c schedule phase []
    hinv hf (.of_forall hgood)
  exact ⟨phase', h⟩

/-- The operations and the actions of the environment along a schedule, each with the state
before it. -/
def Config.moves (M : Machine Op Answer State Env) (c : Config Op Answer State α) :
    List (Choice Env) → List (State × (Op ⊕ Env))
  | [] => []
  | choice :: rest =>
    (match choice with
      | .env e => [(c.state, .inr e)]
      | .thread _ => (c.next M choice).2.toList.map fun e => (e.before, .inl e.op)) ++
      (c.next M choice).1.moves M rest

theorem run_keeps {Inv : State → Prop} {Good : State → Op ⊕ Env → Prop}
    (hop : ∀ t state op answer state', Inv state → Good state (.inl op) →
      M.exec t state op = some (answer, state') → Inv state')
    (henv : ∀ state e, Inv state → Good state (.inr e) → Inv (M.react e state))
    (c : Config Op Answer State α) (schedule : List (Choice Env)) (hinv : Inv c.state)
    (hgood : ∀ move ∈ c.moves M schedule, Good move.1 move.2) :
    Inv (c.run M schedule).1.state := by
  induction schedule generalizing c with
  | nil => exact hinv
  | cons choice rest ih =>
    simp only [Config.run]
    simp only [Config.moves, List.mem_append, or_imp, forall_and] at hgood
    obtain ⟨hfirst, hrest⟩ := hgood
    refine ih _ ?_ hrest
    cases choice with
    | env e => exact henv c.state e hinv (hfirst _ List.mem_cons_self)
    | thread t =>
      rcases c.next_thread (M := M) t with ⟨op, next, answer, state, -, hexec, hnext⟩ | hnext
      · rw [hnext] at hfirst ⊢
        exact hop t c.state op answer state hinv (hfirst _ List.mem_cons_self) hexec
      · rw [hnext]
        exact hinv

theorem run_unscheduled {c : Config Op Answer State α} {schedule : List (Choice Env)} {t : Nat}
    (h : Choice.thread t ∉ schedule) : (c.run M schedule).1.threads t = c.threads t := by
  induction schedule generalizing c with
  | nil => rfl
  | cons choice rest ih =>
    rw [List.mem_cons, not_or] at h
    simp only [Config.run]
    rw [ih h.2]
    cases choice with
    | env e => rfl
    | thread u =>
      have hne : t ≠ u := fun heq => h.1 (congrArg Choice.thread heq)
      simp only [Config.next]
      split
      · rfl
      · split
        · rfl
        · exact Function.update_of_ne hne _ _

theorem run_exec (c : Config Op Answer State α) (schedule : List (Choice Env)) :
    ∀ e ∈ (c.run M schedule).2, ∃ state, M.exec e.thread e.before e.op = some (e.answer, state) := by
  induction schedule generalizing c with
  | nil => exact nofun
  | cons choice rest ih =>
    simp only [Config.run]
    rcases c.next_cases (M := M) choice with
      ⟨u, op, next, answer, state, -, hexec, hnext⟩ | ⟨e, hnext⟩ | hnext
    · rw [hnext]
      exact List.forall_mem_cons.mpr ⟨⟨state, hexec⟩, ih _⟩
    · rw [hnext]
      exact ih _
    · rw [hnext]
      exact ih _

/-- What no operation and no action of the environment undoes still holds at the
end, if it held at the start or in front of an event. -/
theorem run_stable {Q : State → Prop}
    (hop : ∀ t state op answer state', M.exec t state op = some (answer, state') →
      Q state → Q state')
    (henv : ∀ e state, Q state → Q (M.react e state))
    (c : Config Op Answer State α) (schedule : List (Choice Env)) :
    (Q c.state → Q (c.run M schedule).1.state) ∧
      ∀ e ∈ (c.run M schedule).2, Q e.before → Q (c.run M schedule).1.state := by
  induction schedule generalizing c with
  | nil => exact ⟨id, nofun⟩
  | cons choice rest ih =>
    simp only [Config.run]
    rcases c.next_cases (M := M) choice with
      ⟨u, op, next, answer, state, -, hexec, hnext⟩ | ⟨e, hnext⟩ | hnext
    · rw [hnext]
      obtain ⟨hstate, hevents⟩ :=
        ih { state := state, threads := Function.update c.threads u (next answer) }
      have hfirst : Q c.state → Q state := hop u c.state op answer state hexec
      exact ⟨fun h => hstate (hfirst h),
        List.forall_mem_cons.mpr ⟨fun h => hstate (hfirst h), hevents⟩⟩
    · rw [hnext]
      obtain ⟨hstate, hevents⟩ := ih { c with state := M.react e c.state }
      exact ⟨fun h => hstate (henv e c.state h), hevents⟩
    · rw [hnext]
      exact ih c

theorem run_foldl {f : State → β} {apply : β → Event Op Answer State → β}
    (hop : ∀ t state op answer state', M.exec t state op = some (answer, state') →
      f state' = apply (f state) ⟨t, state, op, answer⟩)
    (henv : ∀ e state, f (M.react e state) = f state)
    (c : Config Op Answer State α) (schedule : List (Choice Env)) :
    f (c.run M schedule).1.state = (c.run M schedule).2.foldl apply (f c.state) := by
  induction schedule generalizing c with
  | nil => rfl
  | cons choice rest ih =>
    simp only [Config.run]
    rcases c.next_cases (M := M) choice with
      ⟨u, op, next, answer, state, -, hexec, hnext⟩ | ⟨e, hnext⟩ | hnext
    · rw [hnext, ih, hop u c.state op answer state hexec]
      rfl
    · rw [hnext, ih, henv]
      rfl
    · rw [hnext, ih]
      rfl

def ownTrace (t : Nat) (events : List (Event Op Answer State)) : List (Done Op Answer) :=
  (events.filter (·.thread = t)).map fun e => ⟨e.op, e.answer⟩

theorem run_trace {result : α} (c : Config Op Answer State α) (schedule : List (Choice Env))
    (t : Nat) (hend : (c.run M schedule).1.threads t = .pure result) :
    (c.threads t).Trace (ownTrace t (c.run M schedule).2) result := by
  induction schedule generalizing c with
  | nil =>
    simp only [Config.run] at hend
    rw [hend]
    exact ⟨rfl, rfl⟩
  | cons choice rest ih =>
    simp only [Config.run] at hend ⊢
    rcases c.next_cases (M := M) choice with
      ⟨u, op, next, answer, state, hp, -, hnext⟩ | ⟨e, hnext⟩ | hnext
    · rw [hnext] at hend ⊢
      have hrest := ih _ hend
      by_cases hut : u = t
      · subst hut
        rw [hp]
        refine ⟨answer, _, ?_, by simpa using hrest⟩
        simp [ownTrace]
      · simpa [ownTrace, hut, Function.update_of_ne (Ne.symm hut)] using hrest
    · rw [hnext] at hend ⊢
      exact ih _ hend
    · rw [hnext] at hend ⊢
      exact ih _ hend

end Rekuiper.Lib
