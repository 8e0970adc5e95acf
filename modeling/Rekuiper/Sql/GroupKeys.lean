import Rekuiper.Lib.Decimal
import Rekuiper.Lib.Framing
import Rekuiper.Sql.Refinement

/-!
# Keys of groups

The values of the `GROUP BY` expressions of a row are read off its key: a string has its length
before it, and the text of any other value ends at the first separator. Rows are therefore grouped
by these values.
-/

namespace Rekuiper.Sql

open Lib

variable {F : Type}

structure Rendered (env : Env F) (valid : Value F → Prop) : Prop where
  inj : ∀ v w, valid v → valid w → v.asStr = none → w.asStr = none →
    env.jsonText v = env.jsonText w → v = w
  separator : ∀ v, valid v → v.asStr = none → '\x1f' ∉ (env.jsonText v).toList

-- ---- One value

theorem writeGroupKey_string (env : Env F) (s : String) :
    (writeGroupKey env (.string s)).toList =
      's' :: ((toString s.utf8ByteSize).toList ++ ':' :: (s.toList ++ ['\x1f'])) := by
  simp [writeGroupKey, toString]

theorem writeGroupKey_other (env : Env F) {v : Value F} (h : v.asStr = none) :
    (writeGroupKey env v).toList = 'v' :: ((env.jsonText v).toList ++ ['\x1f']) := by
  cases v <;> simp_all [writeGroupKey, Value.asStr, toString]

theorem append_string_inj {s t : String} {rest rest' : List Char}
    (hsize : s.utf8ByteSize = t.utf8ByteSize) (h : s.toList ++ rest = t.toList ++ rest') :
    s = t ∧ rest = rest' := by
  have hlonger : ∀ {s t : String} {more : List Char}, s.utf8ByteSize = t.utf8ByteSize →
      t.toList = s.toList ++ more → more = [] := by
    intro s t more hsize h
    have ht : t = s ++ String.ofList more := by
      rw [← String.toList_inj, String.toList_append, String.toList_ofList, h]
    rw [ht, String.utf8ByteSize_append] at hsize
    have hempty : (String.ofList more).utf8ByteSize = 0 := by omega
    rw [String.utf8ByteSize_eq_zero_iff] at hempty
    simpa using congrArg String.toList hempty
  rcases List.append_eq_append_iff.mp h with ⟨more, hst, hrest⟩ | ⟨more, hts, hrest⟩
  · obtain rfl := hlonger hsize hst
    exact ⟨String.toList_inj.mp (by simpa using hst.symm), by simpa using hrest⟩
  · obtain rfl := hlonger hsize.symm hts
    exact ⟨String.toList_inj.mp (by simpa using hts), by simpa using hrest.symm⟩

theorem writeGroupKey_inj {env : Env F} {valid : Value F → Prop} (h : Rendered env valid)
    {v w : Value F} {rest rest' : List Char} (hv : valid v) (hw : valid w)
    (heq : (writeGroupKey env v).toList ++ rest = (writeGroupKey env w).toList ++ rest') :
    v = w ∧ rest = rest' := by
  have hstring : ∀ u : Value F, u.asStr = none ∨ ∃ s, u = .string s := by
    intro u
    cases u <;> simp [Value.asStr]
  rcases hstring v with hvs | ⟨s, rfl⟩ <;> rcases hstring w with hws | ⟨t, rfl⟩
  · rw [writeGroupKey_other env hvs, writeGroupKey_other env hws] at heq
    simp only [List.cons_append, List.append_assoc, List.nil_append, List.cons.injEq,
      true_and] at heq
    obtain ⟨htext, hrest⟩ :=
      append_separator_inj (h.separator v hv hvs) (h.separator w hw hws) heq
    exact ⟨h.inj v w hv hw hvs hws (String.toList_inj.mp htext), hrest⟩
  · rw [writeGroupKey_other env hvs, writeGroupKey_string] at heq
    simp at heq
  · rw [writeGroupKey_other env hws, writeGroupKey_string] at heq
    simp at heq
  · rw [writeGroupKey_string, writeGroupKey_string] at heq
    simp only [List.cons_append, List.append_assoc, List.nil_append, List.cons.injEq,
      true_and] at heq
    have hcolon : ∀ n : Nat, ':' ∉ (toString n).toList := by
      intro n hmem
      exact absurd (isDigit_of_mem ((Nat.toList_repr (n := n)) ▸ hmem)) (by decide)
    obtain ⟨hlength, heq⟩ := append_separator_inj (hcolon _) (hcolon _) heq
    have hsize : s.utf8ByteSize = t.utf8ByteSize := by
      have hread : ∀ n : Nat, readDigits 0 (toString n).toList = n := fun n =>
        (congrArg (readDigits 0) (Nat.toList_repr (n := n))).trans (readDigits_toDigits n)
      rw [← hread s.utf8ByteSize, hlength, hread]
    obtain ⟨rfl, hrest⟩ := append_string_inj hsize heq
    exact ⟨rfl, (List.cons.inj hrest).2⟩

theorem writeGroupKey_selfDelimiting {env : Env F} {valid : Value F → Prop}
    (h : Rendered env valid) :
    SelfDelimiting (fun v => (writeGroupKey env v).toList) valid where
  ne_nil v _ := by cases v <;> simp [writeGroupKey, toString]
  inj _ _ _ _ hv hw heq := writeGroupKey_inj h hv hw heq

theorem join_writeGroupKey_inj {env : Env F} {valid : Value F → Prop} (h : Rendered env valid)
    {xs ys : List (Value F)} (hx : ∀ v ∈ xs, valid v) (hy : ∀ v ∈ ys, valid v) :
    String.join (xs.map (writeGroupKey env)) = String.join (ys.map (writeGroupKey env)) ↔
      xs = ys := by
  refine ⟨fun heq => ?_, fun heq => by rw [heq]⟩
  have hlist := congrArg String.toList heq
  rw [String.toList_join, String.toList_join, List.flatMap_map, List.flatMap_map] at hlist
  exact (writeGroupKey_selfDelimiting h).flatMap_inj hx hy hlist

-- ---- Groups

section
variable [Float64 F]

/-- The values of the `GROUP BY` expressions of a row. -/
def groupValues (env : Env F) (groupBy : List (Expr F)) (row : Row F) : List (Value F) :=
  groupBy.map fun e => valueAt env e row

theorem groupValue_panic {env : Env F} {row : Row F} {e : Expr F} {failure : Failure}
    (h : groupValue env row e = .error failure) : ∃ text, failure = .panic text := by
  have hval : ∀ e : Expr F, evalVal env row e = .error failure → ∃ text, failure = .panic text := by
    intro e he
    unfold evalVal at he
    generalize ((evalExpr env row e).go RuleState.new).1 = result at he
    rcases result with (text | text) | v
    · cases he
    · cases he
      exact ⟨text, rfl⟩
    · cases he
  cases e with
  | identifier name => cases h
  | _ => exact hval _ h

open scoped Classical in
/-- Keys tell all lists of values apart. So unless an expression panics on a row, the rows come out
in groups of those with the same values, each in the order of the rows, and the groups in the order
in which their values were first seen. -/
theorem group_keys (env : Env F) (valid : Value F → Prop) (h : Rendered env valid) :
    (∀ xs ys : List (Value F), (∀ v ∈ xs, valid v) → (∀ v ∈ ys, valid v) →
      (String.join (xs.map (writeGroupKey env)) = String.join (ys.map (writeGroupKey env)) ↔
        xs = ys)) ∧
      ∀ (groupBy : List (Expr F)) (rows : List (Row F)),
        (∀ row ∈ rows, ∀ e ∈ groupBy, ∀ v, groupValue env row e = .ok v → valid v) →
          (∃ row ∈ rows, ∃ e ∈ groupBy, ∃ text,
            groupValue env row e = .error (.panic text)) ∨
          ∃ groups, partitionKeyedGroups env groupBy rows = .ok groups ∧
            groups.map Prod.snd = firstSeen (groupValues env groupBy) rows ∧
            (groups.map Prod.snd).flatten.Perm rows ∧
            ∀ group ∈ groups, group.2 ≠ [] ∧ ∀ row ∈ group.2,
              group.2 = rows.filter fun other =>
                groupValues env groupBy other = groupValues env groupBy row := by
  refine ⟨fun xs ys hx hy => join_writeGroupKey_inj h hx hy, fun groupBy rows hvalid => ?_⟩
  by_cases hreturn : ∀ row ∈ rows, ∀ e ∈ groupBy, ∃ v, groupValue env row e = .ok v
  · have hgroups := partitionKeyedGroups_ok hreturn
    have hkeys : ∀ row ∈ rows, ∀ other ∈ rows, keyAt env groupBy row = keyAt env groupBy other ↔
        groupValues env groupBy row = groupValues env groupBy other := by
      have hall : ∀ row ∈ rows, ∀ v ∈ groupValues env groupBy row, valid v := by
        intro row hrow v hv
        obtain ⟨e, he, rfl⟩ := List.mem_map.mp hv
        exact hvalid row hrow e he _ (groupValue_ok (hreturn row hrow e he))
      intro row hrow other hother
      have := join_writeGroupKey_inj h (hall row hrow) (hall other hother)
      simpa only [keyAt, groupValues, List.map_map, Function.comp_def] using this
    refine .inr ⟨_, hgroups, ?_, flatten_groupOn_perm _ rows, fun group hgroup => ?_⟩
    · rw [groupOn_firstSeen, firstSeen_congr hkeys]
    · obtain ⟨hne, hmem⟩ := mem_groupOn hgroup
      refine ⟨hne, fun row hrow => ?_⟩
      obtain ⟨hrows, hkey⟩ := hmem row hrow
      rw [group_eq_filter hgroup]
      refine List.filter_congr fun other hother => decide_eq_decide.mpr ?_
      rw [← hkey, hkeys other hother row hrows]
  · obtain ⟨row, hrow, e, he, hnone⟩ : ∃ row ∈ rows, ∃ e ∈ groupBy,
        ∀ v, groupValue env row e ≠ .ok v := by simpa using hreturn
    refine .inl ⟨row, hrow, e, he, ?_⟩
    cases hvalue : groupValue env row e with
    | ok v => exact absurd hvalue (hnone v)
    | error failure =>
      obtain ⟨text, rfl⟩ := groupValue_panic hvalue
      exact ⟨text, rfl⟩

end

def scalarText : Value ℚ → String
  | .null => "null"
  | .bool b => toString b
  | .number n => n.render
  | _ => ""

def scalarEnv : Env ℚ := { Pipeline.bareEnv with jsonText := scalarText }

def Cell (v : Value ℚ) : Prop := v = .null ∨ v = .number (.int 1) ∨ ∃ s, v = .string s

theorem cell_rendered : Rendered scalarEnv Cell where
  inj v w hv hw hvs hws h := by
    rcases hv with rfl | rfl | ⟨s, rfl⟩ <;> rcases hw with rfl | rfl | ⟨t, rfl⟩
    · rfl
    · exact absurd h (by decide)
    · cases hws
    · exact absurd h (by decide)
    · rfl
    · cases hws
    all_goals cases hvs
  separator v hv hvs := by
    rcases hv with rfl | rfl | ⟨s, rfl⟩
    · decide
    · decide
    · cases hvs

/-- A row without a room, and one whose room is named `null`. -/
def roomRows : List (Row ℚ) := [∅, AList.insert "room" (.string "null") ∅]

open scoped Classical in
theorem group_keys_rooms :
    ∃ groups, partitionKeyedGroups scalarEnv [.identifier "room"] roomRows = .ok groups ∧
      groups.map Prod.snd = firstSeen (groupValues scalarEnv [.identifier "room"]) roomRows := by
  have hcell : ∀ row ∈ roomRows, ∀ e ∈ [Expr.identifier "room"], ∀ v,
      groupValue scalarEnv row e = .ok v → Cell v := by
    simp only [roomRows, List.forall_mem_cons, List.not_mem_nil, false_imp_iff, implies_true,
      and_true]
    exact ⟨fun v hv => .inl (Except.ok.inj hv).symm, fun v hv =>
      .inr (.inr ⟨"null", (Except.ok.inj hv).symm⟩)⟩
  rcases (group_keys scalarEnv Cell cell_rendered).2 [.identifier "room"] roomRows hcell with
    ⟨row, hrow, e, he, text, hpanic⟩ | ⟨groups, hgroups, hseen, -⟩
  · rw [List.mem_singleton.mp he] at hpanic
    cases hpanic
  · exact ⟨groups, hgroups, hseen⟩

end Rekuiper.Sql
