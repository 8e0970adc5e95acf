import Mathlib.Data.List.DropRight
import Rekuiper.Pipeline.Prefilter

/-!
# Dead letters

The errors of a rule go to a buffer of the rule manager, which an update of the rule keeps. The
router that writes to it has the capacity of the options it was built from, and makes room for one
error only. So the buffer holds the latest errors, as many as the capacity allows, exactly as long
as it is not above a capacity that was lowered, has not dropped what a raised one would hold, and
the capacity is not zero.
-/

namespace Rekuiper.Server

open Lib
open Pipeline (OnErrorPolicy)

variable {F : Type}

inductive DlqStage
  | codecDecode | schemaValidation | sqlEval | dataTemplate | sinkDelivery
  deriving DecidableEq, Repr

structure DlqEnvelope (F : Type) where
  ruleId : String
  timestamp : Int
  stage : DlqStage
  error : String
  rawPayload : Option String
  tuple : Option (Value F)
  sinkType : Option String

/-- The longest front of a text within so many bytes. -/
def takeBytes (maxBytes : Nat) : List Char → List Char
  | [] => []
  | c :: cs => if c.utf8Size ≤ maxBytes then c :: takeBytes (maxBytes - c.utf8Size) cs else []

def maxDlqRawPayloadBytes : Nat := 4096

def truncateRawPayload (payload : String) (maxBytes : Nat) : String :=
  if payload.utf8ByteSize ≤ maxBytes then payload
  else
    let suffix := "…[truncated]"
    String.ofList (takeBytes (maxBytes - suffix.utf8ByteSize) payload.toList) ++ suffix

/-- `OnErrorPolicy::from_options` -/
def onErrorFromOptions (options : Option (HashMap String (Value F))) : OnErrorPolicy :=
  match options with
  | none => .drop
  | some opts =>
    match ((opts.lookup "onError").bind Value.asStr).map toAsciiLowercase with
    | some "dlq" => .dlq
    | some "halt" => .halt
    | some "drop" => .drop
    | _ => if (opts.lookup "dlq").isSome then .dlq else .drop

structure DlqRouter where
  ruleId : String
  onError : OnErrorPolicy
  includeRawPayload : Bool
  capacity : Nat
  /-- There is an external sink for dead letters. -/
  externalSink : Bool

/-- `DlqRouter::build`. `prepares` tells whether `prepare_actions` makes a sink of an action. -/
def DlqRouter.build (ruleId : String) (options : Option (HashMap String (Value F)))
    (prepares : Value F → Bool) : DlqRouter :=
  let dlq := (options.bind (·.lookup "dlq")).filter fun v => v.asObject.isSome
  let option (name other : String) := dlq.bind fun v => v.get name <|> v.get other
  { ruleId
    onError := onErrorFromOptions options
    includeRawPayload :=
      ((option "includeRawPayload" "include_raw_payload").bind Value.asBool).getD true
    capacity := ((option "bufferCapacity" "buffer_capacity").bind Value.asU64).elim 100 Int.toNat
    externalSink := (dlq.bind (·.get "action")).any prepares }

structure DeadLetters (F : Type) where
  exceptions : Nat
  lastException : String
  dlqRecords : Nat
  dlqStages : DlqStage → Nat
  buffer : List (DlqEnvelope F)

structure RoutedError (F : Type) where
  now : Int
  stage : DlqStage
  errorMsg : String
  rawPayload : Option String
  tuple : Option (Value F)
  sinkType : Option String

/-- What the router starts besides: a dispatch to the external sink, and a halt of the rule. -/
structure Started (F : Type) where
  dispatched : Option (DlqEnvelope F)
  halted : Bool

def DlqRouter.envelope (router : DlqRouter) (e : RoutedError F) : DlqEnvelope F where
  ruleId := router.ruleId
  timestamp := e.now
  stage := e.stage
  error := e.errorMsg
  rawPayload :=
    if router.includeRawPayload then
      e.rawPayload.map fun raw => truncateRawPayload raw maxDlqRawPayloadBytes
    else none
  tuple := e.tuple
  sinkType := e.sinkType

def pushBounded {α : Type} (capacity : Nat) (buffer : List α) (x : α) : List α :=
  (if capacity ≤ buffer.length then buffer.tail else buffer) ++ [x]

def DlqRouter.routeError (router : DlqRouter) (e : RoutedError F) (letters : DeadLetters F) :
    DeadLetters F × Started F :=
  let letters :=
    { letters with exceptions := letters.exceptions + 1, lastException := e.errorMsg }
  if router.onError = .drop then (letters, ⟨none, false⟩)
  else
    let envelope := router.envelope e
    ({ letters with
        dlqRecords := letters.dlqRecords + 1
        dlqStages := fun stage =>
          if stage = e.stage then letters.dlqStages stage + 1 else letters.dlqStages stage
        buffer := pushBounded router.capacity letters.buffer envelope },
      ⟨if router.externalSink then some envelope else none, router.onError = .halt⟩)

def clearRuleDlq (letters : DeadLetters F) : DeadLetters F × Nat :=
  ({ letters with buffer := [] }, letters.buffer.length)

-- ---- Runs

inductive DlqEvent (F : Type)
  | routeError (e : RoutedError F)
  | clear
  | update (options : Option (HashMap String (Value F)))

/-- A rule's router and dead letters. `errors` are all envelopes since the last clear, which the
program does not keep. -/
structure DlqState (F : Type) where
  router : DlqRouter
  letters : DeadLetters F
  errors : List (DlqEnvelope F)

namespace DlqState

/-- An update of the rule starts it with another router over the same buffer. -/
def step (prepares : Value F → Bool) (s : DlqState F) : DlqEvent F → DlqState F
  | .routeError e =>
    { s with
      letters := (s.router.routeError e s.letters).1
      errors := if s.router.onError = .drop then s.errors else s.errors ++ [s.router.envelope e] }
  | .clear => { s with letters := (clearRuleDlq s.letters).1, errors := [] }
  | .update options => { s with router := .build s.router.ruleId options prepares }

def start (ruleId : String) (options : Option (HashMap String (Value F)))
    (prepares : Value F → Bool) : DlqState F :=
  ⟨.build ruleId options prepares, ⟨0, "", 0, fun _ => 0, []⟩, []⟩

def run (prepares : Value F → Bool) (s : DlqState F) (events : List (DlqEvent F)) : DlqState F :=
  events.foldl (step prepares) s

/-- The buffer is the latest errors, as many as the capacity allows. -/
def Latest (s : DlqState F) : Prop :=
  s.letters.buffer = s.errors.rtake (min s.router.capacity s.errors.length)

/-- The capacity is not zero, the buffer is not above it, and one below it has either dropped
nothing or will be full with the next error. -/
def Intact (s : DlqState F) : Prop :=
  0 < s.router.capacity ∧ s.letters.buffer.length ≤ s.router.capacity ∧
    (s.router.capacity ≤ s.letters.buffer.length + 1 ∨
      s.letters.buffer.length = s.errors.length)

end DlqState

-- ---- The buffer

section
variable {α : Type}

theorem pushBounded_suffix {buffer errors : List α} (h : buffer <:+ errors) (capacity : Nat)
    (x : α) : pushBounded capacity buffer x <:+ errors ++ [x] := by
  unfold pushBounded
  rw [List.suffix_append_self_iff]
  split
  · exact (List.tail_suffix buffer).trans h
  · exact h

theorem length_pushBounded (capacity : Nat) (buffer : List α) (x : α) :
    (pushBounded capacity buffer x).length =
      if capacity ≤ buffer.length then max buffer.length 1 else buffer.length + 1 := by
  unfold pushBounded
  split
  · rw [List.length_append, List.length_tail, List.length_singleton]
    omega
  · rw [List.length_append, List.length_singleton]

theorem eq_rtake_iff {xs ys : List α} (h : xs <:+ ys) {n : Nat} (hn : n ≤ ys.length) :
    xs = ys.rtake n ↔ xs.length = n := by
  constructor
  · rintro rfl
    rw [List.rtake, List.length_drop]
    omega
  · rintro rfl
    exact List.suffix_iff_eq_drop.mp h

end

namespace DlqState

variable {prepares : Value F → Bool} {s : DlqState F}

theorem step_suffix (h : s.letters.buffer <:+ s.errors) (event : DlqEvent F) :
    (s.step prepares event).letters.buffer <:+ (s.step prepares event).errors := by
  cases event with
  | routeError e =>
    simp only [step, DlqRouter.routeError]
    by_cases hdrop : s.router.onError = .drop
    · simpa [hdrop] using h
    · simpa [hdrop] using pushBounded_suffix h s.router.capacity (s.router.envelope e)
  | clear => exact List.suffix_refl []
  | update options => exact h

theorem run_suffix (h : s.letters.buffer <:+ s.errors) (events : List (DlqEvent F)) :
    (s.run prepares events).letters.buffer <:+ (s.run prepares events).errors := by
  induction events generalizing s with
  | nil => exact h
  | cons event events ih => exact ih (step_suffix h event)

theorem step_latest_iff (h : s.letters.buffer <:+ s.errors) (e : RoutedError F)
    (hpolicy : s.router.onError ≠ .drop) :
    (s.step prepares (.routeError e)).Latest ↔ s.Intact := by
  have hsuffix : (s.step prepares (.routeError e)).letters.buffer <:+
      (s.step prepares (.routeError e)).errors := step_suffix h (.routeError e)
  have hlength := h.length_le
  rw [Latest, eq_rtake_iff hsuffix (min_le_right _ _)]
  simp only [step, DlqRouter.routeError, hpolicy, if_false, length_pushBounded, Intact,
    List.length_append, List.length_singleton]
  split <;> omega

end DlqState

/-- After any run, the buffer is the latest errors once another has been routed, as many of those
since the last clear as the capacity allows, exactly if it was intact before. -/
theorem dead_letters_iff (ruleId : String) (options : Option (HashMap String (Value F)))
    (prepares : Value F → Bool) (events : List (DlqEvent F)) (e : RoutedError F)
    (hpolicy : ((DlqState.start ruleId options prepares).run prepares events).router.onError ≠ .drop) :
    (((DlqState.start ruleId options prepares).run prepares events).step prepares
        (.routeError e)).Latest ↔
      ((DlqState.start ruleId options prepares).run prepares events).Intact := by
  exact DlqState.step_latest_iff (DlqState.run_suffix (List.suffix_refl []) events) e hpolicy

def ringOptions (capacity : Nat) : Option (HashMap String (Value ℚ)) :=
  some (AList.insert "dlq" (.object [("bufferCapacity", .number (.int capacity))]) ∅)

def sinkError : RoutedError ℚ := ⟨0, .sinkDelivery, "refused", none, none, none⟩

theorem dead_letters_two :
    (((DlqState.start "r" (ringOptions 2) fun _ => false).run (fun _ => false)
        [.routeError sinkError, .routeError sinkError]).step (fun _ => false)
          (.routeError sinkError)).Latest := by
  refine (dead_letters_iff "r" (ringOptions 2) (fun _ => false)
    [.routeError sinkError, .routeError sinkError] sinkError (by decide)).mpr ?_
  refine ⟨?_, ?_, .inl ?_⟩ <;> decide

/-- A buffer of no capacity keeps an error. -/
theorem dead_letters_zero :
    ¬((DlqState.start "r" (ringOptions 0) fun _ => false).step (fun _ => false)
      (.routeError sinkError)).Latest := by
  intro h
  have hlength := congrArg List.length h
  revert hlength
  decide

end Rekuiper.Server
