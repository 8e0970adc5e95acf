import Rekuiper.Pipeline.Prefilter
import Rekuiper.Sql.Incremental

/-!
# The rows of an open window

`WindowRows`: an open window in processing time holds its rows, or only accumulators if
the statement allows it. Which rows enter the window is decided separately for the two.
-/

namespace Rekuiper.Pipeline

open Lib Sql

variable {F S : Type}

structure TaggedRow (F : Type) where
  source : String
  data : Row F

inductive WindowRows (F S : Type)
  | incremental (w : IncrementalWindow F S)
  | buffered (rows : List (TaggedRow F))

section
variable [Float64 F]

namespace WindowRows

def new (stmt : SelectStmt F) : WindowRows F S :=
  match IncrementalWindow.tryNew stmt with
  | some w => .incremental w
  | none => .buffered []

def push (env : Env F) (num : Numerics F S) (stmt : SelectStmt F) (window : WindowRows F S)
    (tagged : TaggedRow F) : Except Failure (WindowRows F S × Bool) :=
  match window with
  | .incremental w => do
    let (w, accepted) ← w.push env num tagged.data
    return (.incremental w, accepted)
  | .buffered rows => do
    if ← windowIngestPasses env stmt tagged.data then return (.buffered (rows ++ [tagged]), true)
    else return (.buffered rows, false)

def pushAll (env : Env F) (num : Numerics F S) (stmt : SelectStmt F) :
    WindowRows F S → List (TaggedRow F) → Except Failure (WindowRows F S × List Bool)
  | window, [] => .ok (window, [])
  | window, tagged :: rows => do
    let (window, accepted) ← window.push env num stmt tagged
    let (window, flags) ← window.pushAll env num stmt rows
    return (window, accepted :: flags)

end WindowRows

def acceptedRows (rows : List (TaggedRow F)) (flags : List Bool) : List (TaggedRow F) :=
  ((rows.zip flags).filter Prod.snd).map Prod.fst

def MeetsFilter (env : Env F) (stmt : SelectStmt F) (row : Row F) : Prop :=
  ∀ condition, stmt.windowFilter = some condition → evalBool env row condition = .ok true

-- ---- One row

variable {env : Env F} {num : Numerics F S} {stmt : SelectStmt F}

theorem tryNew_clauses {w : IncrementalWindow F S} (h : IncrementalWindow.tryNew stmt = some w) :
    w.whereClause = stmt.whereClause ∧ stmt.joins = [] := by
  obtain ⟨plans, hplans, rfl⟩ := Option.map_eq_some_iff.mp h
  unfold incrementalPlans at hplans
  split at hplans
  · cases hplans
  · simp_all

theorem addRow_whereClause {w w' : IncrementalWindow F S} {row : Row F}
    (h : w.addRow env num row = .ok w') : w'.whereClause = w.whereClause := by
  obtain ⟨key, -, h⟩ := bind_eq_ok h
  obtain ⟨group, -, h⟩ := bind_eq_ok h
  obtain ⟨accs, -, h⟩ := bind_eq_ok h
  cases h
  rfl

theorem push_accepted {w w' : IncrementalWindow F S} {row : Row F} {accepted : Bool}
    (hwhere : w.whereClause = stmt.whereClause)
    (h : w.push env num row = .ok (w', accepted)) :
    passesWhere env stmt row = .ok accepted ∧ w'.whereClause = stmt.whereClause := by
  have hpasses : w.accepts env row = passesWhere env stmt row := by
    rw [IncrementalWindow.accepts, hwhere]
    rfl
  obtain ⟨passes, hrow, h⟩ := bind_eq_ok h
  rw [hpasses] at hrow
  cases passes with
  | false =>
    cases h
    exact ⟨hrow, hwhere⟩
  | true =>
    obtain ⟨next, hadd, h⟩ := bind_eq_ok h
    cases h
    exact ⟨hrow, (addRow_whereClause hadd).trans hwhere⟩

theorem windowIngestPasses_iff (hjoins : stmt.joins = []) {row : Row F} {accepted : Bool}
    (hwhere : passesWhere env stmt row = .ok accepted) :
    windowIngestPasses env stmt row = .ok accepted ↔
      (accepted = true → MeetsFilter env stmt row) := by
  unfold windowIngestPasses MeetsFilter
  cases accepted with
  | false => simp [hjoins, hwhere, bind, Except.bind, pure, Except.pure]
  | true =>
    cases hfilter : stmt.windowFilter <;>
      simp [hjoins, hwhere, bind, Except.bind, pure, Except.pure]

-- ---- Runs

theorem incremental_flags {w : IncrementalWindow F S} {window' : WindowRows F S}
    {rows : List (TaggedRow F)} {flags : List Bool} (hwhere : w.whereClause = stmt.whereClause)
    (h : (WindowRows.incremental w).pushAll env num stmt rows = .ok (window', flags)) :
    rows.mapM (fun tagged => passesWhere env stmt tagged.data) = .ok flags := by
  induction rows generalizing w window' flags with
  | nil =>
    cases h
    rfl
  | cons tagged rows ih =>
    obtain ⟨⟨window, accepted⟩, hpush, h⟩ := bind_eq_ok h
    obtain ⟨⟨w', accepted'⟩, hpush, hwindow⟩ := bind_eq_ok hpush
    cases hwindow
    obtain ⟨⟨last, rest⟩, hrest, h⟩ := bind_eq_ok h
    cases h
    obtain ⟨hrow, hwhere'⟩ := push_accepted hwhere hpush
    rw [List.mapM_cons, hrow, ih hwhere' hrest]
    rfl

omit [Float64 F] in
theorem acceptedRows_cons (tagged : TaggedRow F) (rows : List (TaggedRow F)) (flag : Bool)
    (flags : List Bool) :
    acceptedRows (tagged :: rows) (flag :: flags) =
      (if flag then [tagged] else []) ++ acceptedRows rows flags := by
  cases flag <;> simp [acceptedRows]

theorem buffered_run (held rows : List (TaggedRow F)) {flags : List Bool}
    (h : rows.mapM (fun tagged => windowIngestPasses env stmt tagged.data) = .ok flags) :
    (WindowRows.buffered held : WindowRows F S).pushAll env num stmt rows =
      .ok (.buffered (held ++ acceptedRows rows flags), flags) := by
  induction rows generalizing held flags with
  | nil =>
    cases h
    simp [WindowRows.pushAll, acceptedRows]
  | cons tagged rows ih =>
    rw [List.mapM_cons] at h
    obtain ⟨accepted, hrow, h⟩ := bind_eq_ok h
    obtain ⟨rest, hrest, h⟩ := bind_eq_ok h
    cases h
    cases accepted <;>
      simp [WindowRows.pushAll, WindowRows.push, hrow, ih _ hrest, acceptedRows_cons, bind,
        Except.bind, pure, Except.pure]

/-- The accumulators accept the rows that the buffered variant holds if and only if every row
that passes `WHERE` meets the `FILTER`. -/
theorem incremental_accepts_ingested {w : IncrementalWindow F S} {window' : WindowRows F S}
    {rows : List (TaggedRow F)} {flags : List Bool}
    (hnew : IncrementalWindow.tryNew stmt = some w)
    (hrun : (WindowRows.new stmt).pushAll env num stmt rows = .ok (window', flags)) :
    (rows.mapM (fun tagged => windowIngestPasses env stmt tagged.data) = .ok flags ∧
      (WindowRows.buffered [] : WindowRows F S).pushAll env num stmt rows =
        .ok (.buffered (acceptedRows rows flags), flags)) ↔
      ∀ tagged ∈ rows, passesWhere env stmt tagged.data = .ok true →
        MeetsFilter env stmt tagged.data := by
  obtain ⟨hwhere, hjoins⟩ := tryNew_clauses hnew
  rw [WindowRows.new, hnew] at hrun
  have hflags := incremental_flags hwhere hrun
  calc
    _ ↔ rows.mapM (fun tagged => windowIngestPasses env stmt tagged.data) = .ok flags :=
      and_iff_left_of_imp fun h => buffered_run [] rows h
    _ ↔ ∀ tagged ∈ rows, windowIngestPasses env stmt tagged.data =
          passesWhere env stmt tagged.data := mapM_agree hflags
    _ ↔ _ := by
      refine forall₂_congr fun tagged htagged => ?_
      obtain ⟨accepted, haccepted⟩ := ok_of_mapM hflags tagged htagged
      rw [haccepted, windowIngestPasses_iff hjoins haccepted]
      simp

end

/-- `SELECT count(*) FROM s GROUP BY TUMBLINGWINDOW(ss, 10) FILTER (WHERE temp > 5)` -/
def filteredCount : SelectStmt ℚ :=
  { SelectStmt.plain [.call "count" [.wildcard]] "s" none with
    window := some (.tumblingTime .ss 10)
    windowFilter := some (.binaryOp (.identifier "temp") .gt (.literal (.number (.int 5)))) }

def tempRow (temp : Int) : TaggedRow ℚ := ⟨"s", tempRecord (.int temp)⟩

/-- `WHERE temp > 4` before the same `FILTER` -/
def hotCount : SelectStmt ℚ :=
  { filteredCount with
    whereClause := some (.binaryOp (.identifier "temp") .gt (.literal (.number (.int 4)))) }

theorem incremental_accepts_hot_rows :
    [tempRow 7, tempRow 3, tempRow 9].mapM
      (fun tagged => windowIngestPasses bareEnv hotCount tagged.data) = .ok [true, false, true] := by
  have hrun : ∃ window', (WindowRows.new hotCount).pushAll bareEnv noNumerics hotCount
      [tempRow 7, tempRow 3, tempRow 9] = .ok (window', [true, false, true]) := ⟨_, rfl⟩
  obtain ⟨window', hrun⟩ := hrun
  refine ((incremental_accepts_ingested rfl hrun).mpr ?_).1
  intro tagged htagged hpasses
  simp only [List.mem_cons, List.not_mem_nil, or_false] at htagged
  rcases htagged with rfl | rfl | rfl
  · rintro condition ⟨⟩
    rfl
  · cases hpasses
  · rintro condition ⟨⟩
    rfl

/-- A row that the `FILTER` rejects enters the accumulators. -/
theorem incremental_ignores_filter :
    ((WindowRows.new filteredCount).pushAll bareEnv noNumerics filteredCount [tempRow 3]).map
        Prod.snd = .ok [true] ∧
      windowIngestPasses bareEnv filteredCount (tempRow 3).data = .ok false :=
  ⟨rfl, rfl⟩

end Rekuiper.Pipeline
