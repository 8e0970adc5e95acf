import Mathlib.Data.List.Basic

/-!
# Conservation in a first-in first-out stage

A stage holds a list, oldest first. Whatever leaves it, delivered or dropped,
leaves from the front, and whatever enters joins at the back. One equation says
all of it, `before ++ input = out ++ after`, and the equations of successive
steps compose. The order, the absence of duplicates and the accounting of a
whole run are read off the composed equation.
-/

namespace Rekuiper.Lib

/-- What became of an element that left a stage. -/
inductive Fate
  | delivered
  | dropped
  deriving DecidableEq, Repr

/-- The elements a stage handed on, in the order it handed them on. -/
def delivered (out : List (α × Fate)) : List α :=
  (out.filter (·.2 = .delivered)).map Prod.fst

/-- How many elements a stage discarded. -/
def lost (out : List (α × Fate)) : Nat :=
  out.countP (·.2 = .dropped)

/-- The elements of `items`, all discarded. -/
def discard (items : List α) : List (α × Fate) :=
  items.map fun a => (a, .dropped)

@[simp] theorem delivered_nil : delivered ([] : List (α × Fate)) = [] := rfl

@[simp] theorem lost_nil : lost ([] : List (α × Fate)) = 0 := rfl

@[simp] theorem delivered_append (out more : List (α × Fate)) :
    delivered (out ++ more) = delivered out ++ delivered more := by
  simp [delivered]

@[simp] theorem lost_append (out more : List (α × Fate)) :
    lost (out ++ more) = lost out + lost more := by
  simp [lost]

@[simp] theorem delivered_discard (items : List α) : delivered (discard items) = [] := by
  simp [delivered, discard]

@[simp] theorem lost_discard (items : List α) : lost (discard items) = items.length := by
  induction items with
  | nil => rfl
  | cons a rest ih =>
    simp only [discard, lost, List.map_cons] at ih ⊢
    simp [ih]

@[simp] theorem fst_discard (items : List α) : (discard items).map Prod.fst = items := by
  simp [discard, Function.comp_def]

@[simp] theorem delivered_single (a : α) : delivered [(a, .delivered)] = [a] := by
  simp [delivered]

@[simp] theorem lost_single (a : α) : lost [(a, .delivered)] = 0 := by
  simp [lost]

theorem length_delivered_add_lost (out : List (α × Fate)) :
    (delivered out).length + lost out = out.length := by
  induction out with
  | nil => rfl
  | cons entry rest ih =>
    obtain ⟨a, fate⟩ := entry
    simp only [delivered, lost, List.length_map] at ih ⊢
    cases fate <;> simp <;> omega

/-- `before` was inside, `input` came in, `out` left and `after` is inside. -/
structure Flow (before input : List α) (out : List (α × Fate)) (after : List α) : Prop where
  conserves : before ++ input = out.map Prod.fst ++ after

theorem Flow.idle (items : List α) : Flow items [] [] items := ⟨by simp⟩

theorem Flow.discard (n : Nat) (items : List α) :
    Flow items [] (discard (items.take n)) (items.drop n) :=
  ⟨by simp⟩

theorem Flow.trans (first : Flow before input out middle) (second : Flow middle input' out' after) :
    Flow before (input ++ input') (out ++ out') after := by
  constructor
  calc before ++ (input ++ input')
      = out.map Prod.fst ++ (middle ++ input') := by
        rw [← List.append_assoc, first.conserves, List.append_assoc]
    _ = (out ++ out').map Prod.fst ++ after := by
        rw [second.conserves, List.map_append, List.append_assoc]

theorem delivered_sublist_fst (out : List (α × Fate)) :
    List.Sublist (delivered out) (out.map Prod.fst) :=
  List.Sublist.map Prod.fst List.filter_sublist

theorem Flow.delivered_sublist (flow : Flow before input out after) :
    List.Sublist (delivered out) (before ++ input) := by
  rw [flow.conserves]
  exact (delivered_sublist_fst out).trans (List.sublist_append_left ..)

theorem Flow.suffix (flow : Flow before input out after) : after <:+ before ++ input :=
  ⟨out.map Prod.fst, flow.conserves.symm⟩

/-- As `Flow`, but with nothing said about the order. -/
structure Shuffle (before input : List α) (out : List (α × Fate)) (after : List α) : Prop where
  conserves : (before ++ input).Perm (out.map Prod.fst ++ after)

theorem Flow.shuffle (flow : Flow before input out after) : Shuffle before input out after :=
  ⟨.of_eq flow.conserves⟩

theorem Shuffle.trans (first : Shuffle before input out middle)
    (second : Shuffle middle input' out' after) :
    Shuffle before (input ++ input') (out ++ out') after := by
  constructor
  calc (before ++ (input ++ input')).Perm (out.map Prod.fst ++ (middle ++ input')) := by
        rw [← List.append_assoc, ← List.append_assoc]
        exact first.conserves.append_right input'
    _ |>.Perm ((out ++ out').map Prod.fst ++ after) := by
        rw [List.map_append, List.append_assoc]
        exact second.conserves.append_left _

theorem Shuffle.accounts (shuffle : Shuffle before input out after) :
    before.length + input.length = (delivered out).length + after.length + lost out := by
  have h := shuffle.conserves.length_eq
  have hout := length_delivered_add_lost out
  simp only [List.length_append, List.length_map] at h
  omega

end Rekuiper.Lib
