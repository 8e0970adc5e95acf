import Rekuiper.Sql.Analytic

/-!
# Runs of one call

A call that is made again and again, in one partition. Between its turns other calls may do what
they like with the rule's state, as long as the entry of this call is left as it is.
-/

namespace Rekuiper.Sql

open Lib

variable {F ι : Type} {keyOrder : KeyOrder F} {most : Nat} {evictable : String → Bool}
  {key : String}

theorem lookup_insertEvicting (m : HashMap String (Value F)) (key : String) (value : Value F) :
    (insertEvicting keyOrder most evictable m key value).lookup key = some value := by
  unfold insertEvicting
  split
  · split
    · exact AList.lookup_insert _
    · exact AList.lookup_insert _
  · exact AList.lookup_insert _

def Update.next (f : Update F) (stored : Option (Value F)) : Option (Value F) :=
  (f stored).2.or stored

theorem updateEntry_fst
    (insert : HashMap String (Value F) → String → Value F → HashMap String (Value F))
    (f : Update F) (m : HashMap String (Value F)) :
    (updateEntry insert key f m).1 = (f (m.lookup key)).1 := by
  unfold updateEntry
  split
  · next h => rw [h]
  · next h => rw [h]

theorem updateEntry_lookup (f : Update F) (m : HashMap String (Value F)) :
    (updateEntry (insertEvicting keyOrder most evictable) key f m).2.lookup key =
      f.next (m.lookup key) := by
  unfold updateEntry Update.next
  split
  · next h => simp [h]
  · next h => simp [h, lookup_insertEvicting]

/-- The calls made so far, with what they gave, and the map of the rule's state after them. The
entry is empty before the first, and nothing else writes or evicts it. -/
inductive CallRun (key : String) (call : ι → StateM (HashMap String (Value F)) (Value F)) :
    List ι → List (Value F) → HashMap String (Value F) → Prop
  | start {m : HashMap String (Value F)} : m.lookup key = none → CallRun key call [] [] m
  | call {inputs : List ι} {results : List (Value F)} {m m' : HashMap String (Value F)} {input : ι} :
    CallRun key call inputs results m → m'.lookup key = (call input m).2.lookup key →
      CallRun key call (inputs ++ [input]) (results ++ [(call input m).1]) m'

theorem CallRun.results_of {call : ι → StateM (HashMap String (Value F)) (Value F)}
    {f : ι → Update F}
    (hcall : ∀ input, call input = updateEntry (insertEvicting keyOrder most evictable) key (f input))
    (Good : List ι → Prop) (Inv : List ι → Option (Value F) → Prop) (out : List ι → List (Value F))
    (hgood : ∀ inputs input, Good (inputs ++ [input]) → Good inputs)
    (hstart : Inv [] none) (hnil : out [] = [])
    (hstep : ∀ inputs stored input, Good (inputs ++ [input]) → Inv inputs stored →
      Inv (inputs ++ [input]) ((f input).next stored) ∧
        out (inputs ++ [input]) = out inputs ++ [(f input stored).1])
    {inputs : List ι} {results : List (Value F)} {m : HashMap String (Value F)}
    (h : CallRun key call inputs results m) (hinputs : Good inputs) :
    Inv inputs (m.lookup key) ∧ results = out inputs := by
  induction h with
  | start hnone => exact ⟨hnone ▸ hstart, hnil.symm⟩
  | @call inputs results m m' input _ hlookup ih =>
    obtain ⟨hinv, hresults⟩ := ih (hgood inputs input hinputs)
    obtain ⟨hnext, hout⟩ := hstep inputs (m.lookup key) input hinputs hinv
    rw [hlookup, hcall, updateEntry_lookup, updateEntry_fst, hout, hresults]
    exact ⟨hnext, rfl⟩

theorem CallRun.results {call : ι → StateM (HashMap String (Value F)) (Value F)}
    {f : ι → Update F}
    (hcall : ∀ input, call input = updateEntry (insertEvicting keyOrder most evictable) key (f input))
    (Inv : List ι → Option (Value F) → Prop) (out : List ι → List (Value F))
    (hstart : Inv [] none) (hnil : out [] = [])
    (hstep : ∀ inputs stored input, Inv inputs stored →
      Inv (inputs ++ [input]) ((f input).next stored) ∧
        out (inputs ++ [input]) = out inputs ++ [(f input stored).1])
    {inputs : List ι} {results : List (Value F)} {m : HashMap String (Value F)}
    (h : CallRun key call inputs results m) :
    Inv inputs (m.lookup key) ∧ results = out inputs :=
  h.results_of hcall (fun _ => True) Inv out (fun _ _ _ => trivial) hstart hnil
    (fun inputs stored input _ => hstep inputs stored input) trivial

theorem CallRun.exists (key : String) (call : ι → StateM (HashMap String (Value F)) (Value F))
    (inputs : List ι) : ∃ results m, CallRun key call inputs results m := by
  induction inputs using List.reverseRecOn with
  | nil => exact ⟨[], ∅, .start rfl⟩
  | append_singleton inputs input ih =>
    obtain ⟨results, m, h⟩ := ih
    exact ⟨_, _, .call h rfl⟩

end Rekuiper.Sql
