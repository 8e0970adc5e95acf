import Rekuiper.Lib.Latest
import Rekuiper.Pipeline.WindowJoins
import Rekuiper.Rules.Graph
import Rekuiper.Server.State

/-!
# Rows of lookup tables

`insert_table_row` keeps one row under each value of a table's key column, or the latest rows of a
table without one. Records are joined with the rows that are held, so with the last one that came
under its key.
-/

namespace Rekuiper.Server

open Lib Sql Pipeline

variable {F : Type}

abbrev TableRows (F : Type) := HashMap String (List (Row F))

def tableOption (definition : Option TableDefinition) (names : List String) : Option String :=
  definition.bind fun d =>
    (d.options.entries.find? fun entry => names.any (eqIgnoreAsciiCase entry.1)).map (·.2)

def keyColumn (definition : Option TableDefinition) : Option String :=
  tableOption definition ["KEY", "PRIMARY_KEY"]

/-- How many rows are held: `usize::MAX` of a table with keys, unless it has a bound. -/
def maxSize (definition : Option TableDefinition) : Nat :=
  (((tableOption definition ["RETAIN_SIZE"]).bind Rules.parseU64).map Int.toNat).getD
    (if (keyColumn definition).isSome then 2 ^ 64 - 1 else 100)

def rowKey (definition : Option TableDefinition) (row : Row F) : Option (Value F) :=
  (keyColumn definition).bind row.lookup

def getTableRows (rows : TableRows F) (table : String) : List (Row F) := (rows.lookup table).getD []

/-- Local tables have no `TYPE` of a connector. -/
def localTables (rows : TableRows F) : Tables F := fun join _ => .ok (getTableRows rows join.target)

variable [Float64 F]

def insertTableRow (tables : HashMap String TableDefinition) (rows : TableRows F) (table : String)
    (row : Row F) : TableRows F :=
  let definition := tables.lookup table
  rows.upsert table [] fun held =>
    upsertBy Value.same (rowKey definition) (maxSize definition) held row

def insertTableRows (tables : HashMap String TableDefinition) (inserts : List (String × Row F)) :
    TableRows F :=
  inserts.foldl (fun rows insert => insertTableRow tables rows insert.1 insert.2) ∅

def cameFor (table : String) (inserts : List (String × Row F)) : List (Row F) :=
  (inserts.filter fun insert => insert.1 = table).map Prod.snd

variable {tables : HashMap String TableDefinition} {inserts : List (String × Row F)} {env : Env F}
  {stmt : SelectStmt F} {join : JoinClause F} {rows : TableRows F} {record row out : Row F}

theorem getTableRows_insertTableRows (table : String) :
    getTableRows (insertTableRows tables inserts) table = (cameFor table inserts).foldl
      (upsertBy Value.same (rowKey (tables.lookup table)) (maxSize (tables.lookup table))) [] := by
  induction inserts using List.reverseRecOn with
  | nil => rfl
  | append_singleton inserts insert ih =>
    rw [getTableRows] at ih ⊢
    rw [insertTableRows, List.foldl_append, List.foldl_cons, List.foldl_nil, ← insertTableRows,
      insertTableRow, cameFor, List.filter_append, List.map_append, ← cameFor, List.foldl_append]
    by_cases htable : insert.1 = table
    · subst htable
      rw [HashMap.lookup_upsert, ih]
      simp
    · rw [HashMap.lookup_upsert_ne _ _ _ (Ne.symm htable), ih]
      simp [htable]

theorem insertTableRows_current [OrderedFloat64 F] (table : String) :
    Current Value.same (rowKey (tables.lookup table)) (maxSize (tables.lookup table))
      (cameFor table inserts) (getTableRows (insertTableRows tables inserts) table) := by
  rw [getTableRows_insertTableRows]
  exact current_foldl (fun a b h => (Value.same_comm b a).trans h) Value.same_trans _

/-- Under each key a table holds the last row that came, and it forgets none before it is full.
A table without a key column holds the last rows. -/
theorem table_rows_held [OrderedFloat64 F] (table : String) :
    Current Value.same (rowKey (tables.lookup table)) (maxSize (tables.lookup table))
      (cameFor table inserts) (getTableRows (insertTableRows tables inserts) table) ∧
    (keyColumn (tables.lookup table) = none → getTableRows (insertTableRows tables inserts) table =
      (cameFor table inserts).drop
        ((cameFor table inserts).length - maxSize (tables.lookup table))) := by
  refine ⟨insertTableRows_current table, fun hnone => ?_⟩
  rw [getTableRows_insertTableRows]
  exact foldl_upsertBy_unkeyed (fun row => by simp [rowKey, hnone]) _

-- ---- Joined rows

def joinNames (joins : List (JoinClause F)) : List String :=
  joins.flatMap fun join => join.target :: join.targetAlias.toList

omit [Float64 F] in
theorem lookup_insertNamespaced_ne {map : Row F} {column name : String} {nickname : Option String}
    (h : column ∉ name :: nickname.toList) :
    (insertNamespaced map name nickname row).lookup column = map.lookup column := by
  simp only [List.mem_cons, Option.mem_toList, not_or] at h
  rcases nickname with _ | other
  · exact AList.lookup_insert_ne h.1
  · have hother : column ≠ other := by simpa [eq_comm] using h.2
    simp only [insertNamespaced]
    split
    · rw [AList.lookup_insert_ne hother, AList.lookup_insert_ne h.1]
    · exact AList.lookup_insert_ne h.1

omit [Float64 F] in
theorem lookup_insertNamespaced {map : Row F} {name : String} {nickname : Option String} :
    (insertNamespaced map name nickname row).lookup name = some (rowObject row) := by
  rcases nickname with _ | other
  · exact AList.lookup_insert _
  · simp only [insertNamespaced]
    split
    next hne => rw [AList.lookup_insert_ne (Ne.symm hne), AList.lookup_insert]
    next => exact AList.lookup_insert _

omit [Float64 F] in
theorem lookup_fillMissing {combined : Row F} {column : String} {v : Value F}
    (h : combined.lookup column = some v) : (fillMissing combined row).lookup column = some v := by
  unfold fillMissing
  induction row.entries generalizing combined with
  | nil => exact h
  | cons entry entries ih =>
    refine ih ?_
    dsimp only
    split
    · exact h
    next hnone =>
      refine (AList.lookup_insert_ne ?_).trans h
      rintro rfl
      simp [h] at hnone

omit [Float64 F] in
theorem lookup_joinRow {combined : Row F} {column : String} {v : Value F}
    (h : combined.lookup column = some v) (hcolumn : column ∉ join.target :: join.targetAlias.toList) :
    (joinRow combined join row).lookup column = some v :=
  (lookup_insertNamespaced_ne hcolumn).trans (lookup_fillMissing h)

theorem firstMatch_cons {combined : Row F} {rows : List (Row F)} :
    firstMatch env combined join (row :: rows) = (onHolds env join combined row).bind fun holds =>
      if holds then .ok (some row) else firstMatch env combined join rows := by
  rw [firstMatch, onHolds]
  cases join.onCondition with
  | none => rfl
  | some condition =>
    dsimp only
    rcases evalBool env (joinRow combined join row) condition with _ | _ | _ <;> rfl

theorem firstMatch_some {combined : Row F} {candidates : List (Row F)}
    (h : firstMatch env combined join candidates = .ok (some row)) :
    row ∈ candidates ∧ onHolds env join combined row = .ok true := by
  induction candidates with
  | nil => cases h
  | cons candidate candidates ih =>
    rw [firstMatch_cons] at h
    rcases hholds : onHolds env join combined candidate with _ | _ | _ <;> rw [hholds] at h
    · cases h
    · exact ⟨List.mem_cons_of_mem _ (ih h).1, (ih h).2⟩
    · cases h
      exact ⟨List.mem_cons_self, hholds⟩

theorem firstMatch_none {combined : Row F} {candidates : List (Row F)}
    (h : firstMatch env combined join candidates = .ok none) :
    ∀ row ∈ candidates, onHolds env join combined row = .ok false := by
  induction candidates with
  | nil => simp
  | cons candidate candidates ih =>
    rw [firstMatch_cons] at h
    rcases hfails : onHolds env join combined candidate with _ | _ | _ <;> rw [hfails] at h
    · cases h
    · simpa [hfails] using ih h
    · cases h

/-- No held row satisfies the condition of a left join for the record joined so far. -/
def Unmatched (env : Env F) (rows : TableRows F) (join : JoinClause F) (before : Row F) : Prop :=
  join.joinType = .left ∧
    ∀ row ∈ getTableRows rows join.target, onHolds env join before row = .ok false

/-- A join has put a held row under its name that satisfies its condition for the record joined so
far. -/
def Joined (env : Env F) (rows : TableRows F) (join : JoinClause F) (before out : Row F) : Prop :=
  ∃ row ∈ getTableRows rows join.target, out.lookup join.target = some (rowObject row) ∧
    onHolds env join before row = .ok true

/-- What one join does to the row. -/
theorem lookupJoin_some {combined : Row F}
    (h : lookupJoin env (localTables rows) combined join = .ok (some out)) :
    (∀ column v, column ∉ join.target :: join.targetAlias.toList → combined.lookup column = some v →
      out.lookup column = some v) ∧
    (isAsof join = false → Unmatched env rows join combined ∨ Joined env rows join combined out) := by
  simp only [lookupJoin, localTables] at h
  split at h
  next hasof =>
    cases h
    exact ⟨fun _ _ _ hv => hv, fun hno => by simp [hno] at hasof⟩
  next =>
    split at h
    · cases h
    next row hmatch =>
      cases h
      obtain ⟨hmem, hholds⟩ := firstMatch_some hmatch
      exact ⟨fun _ _ hcolumn hv => lookup_joinRow hv hcolumn,
        fun _ => .inr ⟨row, hmem, lookup_insertNamespaced, hholds⟩⟩
    next hmatch =>
      split at h
      next hleft =>
        cases h
        exact ⟨fun _ _ _ hv => hv, fun _ => .inl ⟨hleft, firstMatch_none hmatch⟩⟩
      · cases h

/-- At each of the joins, the ones before it have led to a record that it has been made for. -/
theorem foldJoins_some {joins : List (JoinClause F)} {combined : Row F}
    (h : foldJoins (lookupJoin env (localTables rows)) joins combined = .ok (some out)) :
    (∀ column v, column ∉ joinNames joins → combined.lookup column = some v →
      out.lookup column = some v) ∧
    ((joinNames joins).Nodup → ∀ earlier join later, joins = earlier ++ join :: later →
      isAsof join = false → ∃ before,
        foldJoins (lookupJoin env (localTables rows)) earlier combined = .ok (some before) ∧
          (Unmatched env rows join before ∨ Joined env rows join before out)) := by
  induction joins generalizing combined with
  | nil =>
    cases h
    exact ⟨fun _ _ _ hv => hv, fun _ earlier _ _ hsplit => by simp at hsplit⟩
  | cons join joins ih =>
    simp only [foldJoins] at h
    split at h
    · cases h
    · cases h
    next next hjoin =>
      obtain ⟨hkeeps, hjoined⟩ := lookupJoin_some hjoin
      obtain ⟨hkept, hrest⟩ := ih h
      simp only [joinNames, List.flatMap_cons, List.mem_append, not_or, List.nodup_append] at *
      refine ⟨fun column v hcolumn hv => hkept column v hcolumn.2 (hkeeps column v hcolumn.1 hv), ?_⟩
      rintro ⟨-, hnodup, hapart⟩ earlier other later hsplit hasof
      rcases List.cons_eq_append_iff.mp hsplit with ⟨rfl, hhead⟩ | ⟨earlier, rfl, rfl⟩
      · cases hhead
        refine ⟨combined, rfl, (hjoined hasof).imp_right ?_⟩
        rintro ⟨row, hmem, hrow, hon⟩
        refine ⟨row, hmem, hkept _ _ (fun hname => ?_) hrow, hon⟩
        exact hapart _ List.mem_cons_self _ hname rfl
      · obtain ⟨before, hbefore, hmade⟩ := hrest hnodup earlier other later rfl hasof
        exact ⟨before, by rw [foldJoins, hjoin]; exact hbefore, hmade⟩

/-- Columns of the record are kept. At each join, the record joined so far satisfies the `ON`
condition with the row that is put under the table's name, the last one that came under its key. -/
theorem joined_rows_current [OrderedFloat64 F] (hnames : (joinNames stmt.joins).Nodup)
    (h : applyLookupJoins env (localTables (insertTableRows tables inserts)) stmt record =
      .ok (some out)) :
    (∀ column v, column ∉ stmt.source :: stmt.sourceAlias.toList → column ∉ joinNames stmt.joins →
      record.lookup column = some v → out.lookup column = some v) ∧
    ∀ earlier join later, stmt.joins = earlier ++ join :: later → isAsof join = false → ∃ before,
      foldJoins (lookupJoin env (localTables (insertTableRows tables inserts))) earlier
        (insertNamespaced record stmt.source stmt.sourceAlias record) = .ok (some before) ∧
      (Unmatched env (insertTableRows tables inserts) join before ∨ ∃ row,
        out.lookup join.target = some (rowObject row) ∧ onHolds env join before row = .ok true ∧
        ∀ k, isUnder Value.same (rowKey (tables.lookup join.target)) k row →
          ((cameFor join.target inserts).filter
            (isUnder Value.same (rowKey (tables.lookup join.target)) k)).getLast? = some row) := by
  simp only [applyLookupJoins] at h
  split at h
  next hnone =>
    cases h
    rw [List.isEmpty_iff] at hnone
    exact ⟨fun _ _ _ _ hv => hv, by simp [hnone]⟩
  next =>
    obtain ⟨hkept, hjoined⟩ := foldJoins_some h
    refine ⟨fun column v hsource hcolumn hv =>
      hkept column v hcolumn ((lookup_insertNamespaced_ne hsource).trans hv), ?_⟩
    rintro earlier join later hsplit hasof
    obtain ⟨before, hbefore, hmade⟩ := hjoined hnames earlier join later hsplit hasof
    refine ⟨before, hbefore, hmade.imp_right ?_⟩
    rintro ⟨row, hmem, hrow, hon⟩
    exact ⟨row, hrow, hon, fun k hk => (insertTableRows_current join.target).latest row hmem k hk⟩

def machines : HashMap String TableDefinition :=
  AList.insert "machines" ⟨"machines", "", [], AList.insert "KEY" "id" ∅⟩ ∅

def machine (id : Int) (name : String) : String × Row ℚ :=
  ("machines", (idRow "machines" id).data.insert "name" (.string name))

def machineRows : List (String × Row ℚ) := [machine 1 "saw", machine 2 "drill", machine 1 "mill"]

theorem table_rows_held_machines :
    Current Value.same (rowKey (machines.lookup "machines")) (maxSize (machines.lookup "machines"))
      (cameFor "machines" machineRows)
      (getTableRows (insertTableRows machines machineRows) "machines") ∧
    (keyColumn (machines.lookup "machines") = none →
      getTableRows (insertTableRows machines machineRows) "machines" =
        (cameFor "machines" machineRows).drop ((cameFor "machines" machineRows).length -
          maxSize (machines.lookup "machines"))) :=
  table_rows_held "machines"

def eventsOfMachines : SelectStmt ℚ :=
  { SelectStmt.plain [.wildcard] "events" none with
    joins := [⟨.inner, "machines", none, some (sameId "events" "machines")⟩] }

theorem joined_rows_current_machine : ∃ out, applyLookupJoins bareEnv
    (localTables (insertTableRows machines machineRows)) eventsOfMachines (idRow "events" 1).data =
      .ok (some out) ∧
    (∀ column v, column ∉ ["events"] → column ∉ joinNames eventsOfMachines.joins →
      (idRow "events" 1).data.lookup column = some v → out.lookup column = some v) ∧
    ∀ earlier join later, eventsOfMachines.joins = earlier ++ join :: later →
      isAsof join = false → ∃ before,
      foldJoins (lookupJoin bareEnv (localTables (insertTableRows machines machineRows))) earlier
        (insertNamespaced (idRow "events" 1).data "events" none (idRow "events" 1).data) =
          .ok (some before) ∧
      (Unmatched bareEnv (insertTableRows machines machineRows) join before ∨ ∃ row,
        out.lookup join.target = some (rowObject row) ∧ onHolds bareEnv join before row = .ok true ∧
        ∀ k, isUnder Value.same (rowKey (machines.lookup join.target)) k row →
          ((cameFor join.target machineRows).filter
            (isUnder Value.same (rowKey (machines.lookup join.target)) k)).getLast? = some row) := by
  obtain ⟨out, hout⟩ : ∃ out, applyLookupJoins bareEnv
      (localTables (insertTableRows machines machineRows)) eventsOfMachines
        (idRow "events" 1).data = out := ⟨_, rfl⟩
  have h : out.toOption.join.isSome = true := by
    rw [← hout]
    decide +kernel
  rcases out with _ | _ | out
  · cases h
  · cases h
  · exact ⟨out, hout, joined_rows_current (by decide) hout⟩

end Rekuiper.Server
