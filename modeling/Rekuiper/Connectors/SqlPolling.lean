import Rekuiper.Connectors.SqlSource

/-!
# What incremental polling returns

The conditions of a query are joined by `AND`, while the rows are ordered by the first
index column in which they differ. So a row that is behind the last one returned but not
behind it in every column is never selected. Where there is no such row, the source reads
the table as a pager does, and skips nothing.
-/

namespace Rekuiper.Connectors

open Lib

variable {F K : Type} [LinearOrder K]

theorem RowLess.trans : ∀ {as bs cs : List (Option K)},
    RowLess as bs → RowLess bs cs → RowLess as cs
  | some a :: as, some b :: bs, some c :: cs, hab, hbc => by
    rcases hab with hab | ⟨rfl, hab⟩ <;> rcases hbc with hbc | ⟨rfl, hbc⟩
    · exact .inl (hab.trans hbc)
    · exact .inl hab
    · exact .inl hbc
    · exact .inr ⟨rfl, hab.trans hbc⟩

theorem RowLess.irrefl : ∀ as : List (Option K), ¬ RowLess as as
  | [] | none :: _ => id
  | some a :: as => by
    rintro (h | ⟨-, h⟩)
    · exact lt_irrefl a h
    · exact RowLess.irrefl as h

instance : IsStrictOrder (List (Option K)) RowLess where
  irrefl := RowLess.irrefl
  trans _ _ _ := RowLess.trans

theorem rowLess_of_less {a b : Option K} {as bs : List (Option K)} (h : Less a b) :
    RowLess (a :: as) (b :: bs) := by
  cases a <;> cases b <;> simp_all [Less, RowLess]

-- ---- The index values advance to the last row

section Advance

omit [LinearOrder K]

def SqlIndex.names (index : SqlIndex F) : List String := index.map Prod.fst

theorem names_advanceIndex (index : SqlIndex F) (rows : List (List (String × Value F))) :
    (advanceIndex index rows).names = index.names := by
  induction rows generalizing index with
  | nil => rfl
  | cons row rows ih =>
    refine (ih _).trans ?_
    simp [SqlIndex.names, Function.comp_def]

def SqlRow.Legible [Float64 F] (db : Database K F) (url : String) (names : List String)
    (row : SqlRow K F) : Prop :=
  ∀ name ∈ names, ∃ value, field name (row.data url) = some value ∧
    db.literal value = row.column name

theorem key_advanceIndex [Float64 F] {db : Database K F} {url : String} {index : SqlIndex F}
    (front : List (SqlRow K F)) {last : SqlRow K F} (hlast : last.Legible db url index.names) :
    (advanceIndex index ((front ++ [last]).map (SqlRow.data url))).key db = last.key index.names := by
  have hadvance : advanceIndex index ((front ++ [last]).map (SqlRow.data url)) =
      (advanceIndex index (front.map (SqlRow.data url))).map fun e =>
        (e.1, (field e.1 (last.data url)).getD e.2) := by
    simp [advanceIndex]
  have hnames := names_advanceIndex index (front.map (SqlRow.data url))
  rw [hadvance, ← hnames, SqlIndex.names, SqlRow.key, SqlIndex.key, List.map_map, List.map_map]
  refine List.map_congr_left fun pair hpair => ?_
  obtain ⟨value, hvalue, hliteral⟩ := hlast pair.1 (hnames ▸ List.mem_map_of_mem hpair)
  simpa [hvalue] using hliteral

end Advance

-- ---- A poll is a page

variable [Float64 F] {db : Database K F} {config : SqlConnectorConfig F} {cfg : InternalSqlQueryCfg F}

def BehindEach (db : Database K F) (index : SqlIndex F) (row : SqlRow K F) : Prop :=
  ∀ pair ∈ index, Less (db.literal pair.2) (row.column pair.1)

/-- The poll passes the checks, and every row that is behind the index values is behind them in
every column and can be read. -/
structure PollsWhole (db : Database K F) (config : SqlConnectorConfig F) (s : Polling K F) :
    Prop where
  identifiers : validateSqlSourceIdentifiers config s.index = .ok ()
  scheme : startsWith config.url "sqlite" = true ∨ startsWith config.url "postgres" = true
  behind : ∀ row ∈ s.table, RowLess (s.index.key db) (row.key s.index.names) →
    BehindEach db s.index row ∧ row.Legible db config.url s.index.names

def Polling.pager (db : Database K F) (s : Polling K F) : Pager (SqlRow K F) (List (Option K)) :=
  ⟨s.table, s.index.key db, s.returned⟩

omit [Float64 F] in
theorem fetch_eq_page {s : Polling K F} (hcfg : config.internalSqlQueryCfg = some cfg)
    (hindex : s.index ≠ []) (hsorted : Ascending RowLess (SqlRow.key s.index.names) s.table)
    (hbehind : ∀ row ∈ s.table, RowLess (s.index.key db) (row.key s.index.names) →
      BehindEach db s.index row) :
    (sqlSourceQueryWith config s.index).fetch db s.table =
      page cfg.limit ((s.pager db).pending RowLess (SqlRow.key s.index.names)) := by
  have hselected : (s.table.filter fun row => s.index.all fun pair =>
      Less (db.literal pair.2) (row.column pair.1)) =
        (s.pager db).pending RowLess (SqlRow.key s.index.names) := by
    refine List.filter_congr fun row hrow => ?_
    have hiff : BehindEach db s.index row ↔ RowLess (s.index.key db) (row.key s.index.names) := by
      refine ⟨fun h => ?_, hbehind row hrow⟩
      obtain ⟨pair, rest, hpair⟩ := List.exists_cons_of_ne_nil hindex
      rw [hpair] at h ⊢
      exact rowLess_of_less (h pair List.mem_cons_self)
    refine Bool.eq_iff_iff.mpr (Iff.trans ?_ (hiff.trans (decide_eq_true_iff).symm))
    simp [BehindEach]
  have hascending : ((s.pager db).pending RowLess (SqlRow.key s.index.names)).insertionSort
      (fun a b => ¬ RowLess (b.key s.index.names) (a.key s.index.names)) =
        (s.pager db).pending RowLess (SqlRow.key s.index.names) := by
    refine List.Pairwise.insertionSort_eq (List.Pairwise.imp ?_ (hsorted.sublist List.filter_sublist))
    intro a b hab hba
    exact RowLess.irrefl _ (hab.trans hba)
  have hfetch : (sqlSourceQueryWith config s.index).fetch db s.table =
      page cfg.limit (((s.pager db).pending RowLess (SqlRow.key s.index.names)).insertionSort
        fun a b => ¬ RowLess (b.key s.index.names) (a.key s.index.names)) := by
    rw [← hselected]
    by_cases hlimit : cfg.limit = 0
    · simp only [sqlSourceQueryWith, hcfg, Query.fetch, page, hlimit, lt_irrefl, if_true, if_false]
      rfl
    · simp only [sqlSourceQueryWith, hcfg, Query.fetch, page, hlimit, Nat.pos_of_ne_zero hlimit,
        if_true, if_false]
      rfl
  rw [hfetch, hascending]

theorem Polling.step_poll {s : Polling K F} (hcfg : config.internalSqlQueryCfg = some cfg)
    (hindex : s.index ≠ []) (hsorted : Ascending RowLess (SqlRow.key s.index.names) s.table)
    (hpoll : PollsWhole db config s) :
    ((s.step db config .read).pager db =
      (s.pager db).step RowLess (SqlRow.key s.index.names) cfg.limit .read) ∧
      (s.step db config .read).index.names = s.index.names := by
  have hrows := fetch_eq_page hcfg hindex hsorted fun row hrow h => (hpoll.behind row hrow h).1
  have hok : pollOnce db config s.index s.table =
      .ok (page cfg.limit ((s.pager db).pending RowLess (SqlRow.key s.index.names)),
        advanceIndex s.index ((page cfg.limit ((s.pager db).pending RowLess
          (SqlRow.key s.index.names))).map (SqlRow.data config.url))) := by
    have hscheme := hpoll.scheme
    simp only [← Bool.or_eq_true] at hscheme
    simp only [pollOnce, hpoll.identifiers, hrows, hscheme, if_true]
    rfl
  have hstep : s.step db config .read =
      { s with
        index := advanceIndex s.index ((page cfg.limit ((s.pager db).pending RowLess
          (SqlRow.key s.index.names))).map (SqlRow.data config.url))
        returned := s.returned ++ page cfg.limit ((s.pager db).pending RowLess
          (SqlRow.key s.index.names)) } := by
    simp only [Polling.step, hok]
  refine ⟨?_, by rw [hstep]; exact names_advanceIndex _ _⟩
  have hcursor : (advanceIndex s.index ((page cfg.limit ((s.pager db).pending RowLess
      (SqlRow.key s.index.names))).map (SqlRow.data config.url))).key db =
        ((page cfg.limit ((s.pager db).pending RowLess (SqlRow.key s.index.names))).getLast?.map
          (SqlRow.key s.index.names)).getD (s.index.key db) := by
    cases hlast : (page cfg.limit ((s.pager db).pending RowLess (SqlRow.key s.index.names))).getLast? with
    | none =>
      rw [List.getLast?_eq_none_iff.mp hlast]
      rfl
    | some last =>
      obtain ⟨front, hfront⟩ := List.getLast?_eq_some_iff.mp hlast
      have hpage : last ∈ page cfg.limit ((s.pager db).pending RowLess (SqlRow.key s.index.names)) := by
        simp [hfront]
      have hmem := (page_isPrefixOf _ _).subset hpage
      obtain ⟨hrow, hafter⟩ := List.mem_filter.mp hmem
      rw [hfront]
      exact key_advanceIndex front (hpoll.behind last hrow (of_decide_eq_true hafter)).2
  rw [hstep]
  simp only [Polling.pager, Pager.step, Pager.mk.injEq, true_and, and_true]
  exact hcursor

-- ---- Runs

/-- The rows of a schedule are inserted in the order of the index columns. -/
def AppendOnly (config : SqlConnectorConfig F) (events : List (PagerEvent (SqlRow K F))) : Prop :=
  Appends RowLess (SqlRow.key (initialIndexPairs config).names) [] events

/-- No row is returned twice, and every row behind the initial index values is returned by the
time of as many polls after its insertion as there were rows. -/
def SkipsNoRow (db : Database K F) (config : SqlConnectorConfig F)
    (events : List (PagerEvent (SqlRow K F))) : Prop :=
  (Polling.run db config events).returned.Nodup ∧
    ∀ before after, events = before ++ after → ∀ row ∈ (Polling.run db config before).table,
      RowLess ((initialIndexPairs config).key db) (row.key (initialIndexPairs config).names) →
        (Polling.run db config before).table.length ≤ after.countP PagerEvent.isRead →
          row ∈ (Polling.run db config events).returned

/-- Every poll of a schedule from a state is one that skips nothing. -/
def AllPollsWhole (db : Database K F) (config : SqlConnectorConfig F) :
    Polling K F → List (PagerEvent (SqlRow K F)) → Prop
  | _, [] => True
  | s, .insert row :: events => AllPollsWhole db config (s.step db config (.insert row)) events
  | s, .read :: events =>
    PollsWhole db config s ∧ AllPollsWhole db config (s.step db config .read) events

theorem AllPollsWhole.before {s : Polling K F} {before after : List (PagerEvent (SqlRow K F))}
    (h : AllPollsWhole db config s (before ++ after)) : AllPollsWhole db config s before := by
  induction before generalizing s with
  | nil => trivial
  | cons event before ih =>
    cases event with
    | insert row => exact ih h
    | read => exact ⟨h.1, ih h.2⟩

theorem Polling.foldl_pager {start : List (Option K)} {names : List String}
    (hcfg : config.internalSqlQueryCfg = some cfg) (hne : names ≠ [])
    {events : List (PagerEvent (SqlRow K F))} {s : Polling K F} (hnames : s.index.names = names)
    (hinv : (s.pager db).Inv RowLess (SqlRow.key names) start)
    (happend : Appends RowLess (SqlRow.key names) s.table events)
    (hwhole : AllPollsWhole db config s events) :
    (events.foldl (Polling.step db config) s).pager db =
      events.foldl (Pager.step RowLess (SqlRow.key names) cfg.limit) (s.pager db) := by
  induction events generalizing s with
  | nil => rfl
  | cons event events ih =>
    cases event with
    | insert row => exact ih hnames (hinv.insert (n := cfg.limit) happend.1) happend.2 hwhole
    | read =>
      subst hnames
      have hindex : s.index ≠ [] := fun h => hne (by simp [h, SqlIndex.names])
      obtain ⟨hpager, hsame⟩ :=
        Polling.step_poll hcfg hindex hinv.ascending hwhole.1
      have htable : (s.step db config .read).table = s.table := congrArg Pager.items hpager
      rw [List.foldl_cons, List.foldl_cons, ← hpager]
      refine ih hsame ?_ ?_ hwhole.2
      · rw [hpager]
        exact hinv.read
      · rw [htable]
        exact happend

/-- In every run whose polls all find the rows behind the index values behind them in every
index column, and can read them, no row is skipped or returned twice. -/
theorem polling_skips_no_row (db : Database K F) (config : SqlConnectorConfig F)
    (cfg : InternalSqlQueryCfg F) (events : List (PagerEvent (SqlRow K F)))
    (hcfg : config.internalSqlQueryCfg = some cfg) (hindex : cfg.indexPairs ≠ [])
    (happend : AppendOnly config events)
    (hwhole : AllPollsWhole db config (Polling.start config) events) :
    SkipsNoRow db config events := by
  have hpairs : initialIndexPairs config = cfg.indexPairs := by
    simp [initialIndexPairs, hcfg, hindex]
  have hne : (initialIndexPairs config).names ≠ [] := by simp [hpairs, SqlIndex.names, hindex]
  have hstart : ((Polling.start config : Polling K F).pager db).Inv RowLess
      (SqlRow.key (initialIndexPairs config).names) ((initialIndexPairs config).key db) :=
    ⟨List.Pairwise.nil, .inl rfl, rfl⟩
  have hrun := Polling.foldl_pager hcfg hne rfl hstart happend hwhole
  constructor
  · have hnodup := (hstart.run (n := cfg.limit) happend).nodup
    rw [← hrun] at hnodup
    exact hnodup
  · rintro before after rfl row hrow hbehind hpolls
    obtain ⟨hbefore, hafter⟩ := Appends.split (n := cfg.limit)
      (p := (Polling.start config : Polling K F).pager db) happend
    have hprefix := Polling.foldl_pager hcfg hne rfl hstart hbefore hwhole.before
    have hinv := hstart.run (n := cfg.limit) hbefore
    rw [← hprefix] at hinv hafter
    have hdelivered : row ∈ (after.foldl (Pager.step RowLess
        (SqlRow.key (initialIndexPairs config).names) cfg.limit)
          ((Polling.run db config before).pager db)).delivered :=
      hinv.delivered_of_reads hafter hrow hbehind hpolls
    have hsplit : (Polling.run db config (before ++ after)).pager db =
        after.foldl (Pager.step RowLess (SqlRow.key (initialIndexPairs config).names) cfg.limit)
          ((Polling.run db config before).pager db) := by
      refine hrun.trans ?_
      rw [List.foldl_append, ← hprefix]
      rfl
    rw [← hsplit] at hdelivered
    exact hdelivered

-- ---- A table of integers

def integers : Database Int ℚ where
  literal
    | .number (.int n) => some n
    | _ => none

def integerCell (n : Int) : Cell Int ℚ :=
  { value := some n, typeName := "INTEGER", asString := none, asI32 := none, asI64 := some n
    asF32 := none, asF64 := none, asBool := none }

def point (a b : Int) : SqlRow Int ℚ where
  columns := [("a", integerCell a), ("b", integerCell b)]
  distinct := by
    change [toAsciiLowercase "a", toAsciiLowercase "b"].Nodup
    decide

theorem sqliteColumnValue_integerCell (n : Int) :
    sqliteColumnValue (integerCell n) = (.number (.int n) : Value ℚ) := by
  have hint : contains (toAsciiUppercase "INTEGER") "INT" = true := by decide
  simp [sqliteColumnValue, integerCell, hint]

theorem data_point (a b : Int) : (point a b).data "sqlite:points.db" =
    ([("a", .number (.int a)), ("b", .number (.int b))] : List (String × Value ℚ)) := by
  have hurl : startsWith "sqlite:points.db" "sqlite" = true := by decide
  simp [SqlRow.data, point, hurl, sqliteColumnValue_integerCell]

theorem column_point (a b : Int) :
    (point a b).column "a" = some a ∧ (point a b).column "b" = some b := by
  have ha : eqIgnoreAsciiCase "a" "a" = true := by decide
  have hab : eqIgnoreAsciiCase "a" "b" = false := by decide
  have hb : eqIgnoreAsciiCase "b" "b" = true := by decide
  simp [SqlRow.column, point, integerCell, List.find?, ha, hab, hb]

def pointsBy (columns : List String) (limit : Nat) : SqlConnectorConfig ℚ where
  url := "sqlite:points.db"
  table := "points"
  internalSqlQueryCfg := some
    { table := "", limit, indexField := "", indexValue := .null
      indexFields := columns.map fun name => ⟨name, .number (.int 0)⟩ }

/-- Two index columns that rise together, and pages of one row. -/
theorem polling_skips_no_row_points :
    SkipsNoRow integers (pointsBy ["a", "b"] 1)
      [.insert (point 1 10), .read, .insert (point 2 20), .insert (point 3 30), .read, .read] := by
  refine polling_skips_no_row integers (pointsBy ["a", "b"] 1) _ _ rfl (by decide) ?_ ?_
  · simp [AppendOnly, Appends]
    decide
  · have hwhole : ∀ (n : Int) (table returned : List (SqlRow Int ℚ)),
        (∀ row ∈ table, ∃ a, row = point a (10 * a)) →
          PollsWhole integers (pointsBy ["a", "b"] 1) ⟨table,
            [("a", .number (.int n)), ("b", .number (.int (10 * n)))], returned⟩ := by
      intro n table returned htable
      refine ⟨rfl, by decide, fun row hrow hbehind => ?_⟩
      obtain ⟨a, rfl⟩ := htable row hrow
      obtain ⟨ha, hb⟩ := column_point a (10 * a)
      refine ⟨?_, ?_⟩
      · simp [SqlIndex.key, SqlRow.key, SqlIndex.names, RowLess, integers, ha, hb] at hbehind
        simp [BehindEach, Less, integers, ha, hb]
        omega
      · rintro name hname
        simp only [SqlIndex.names, List.map_cons, List.map_nil, List.mem_cons, List.not_mem_nil,
          or_false] at hname
        rcases hname with rfl | rfl
        · refine ⟨.number (.int a), ?_, ha.symm⟩
          rw [pointsBy, data_point]
          rfl
        · refine ⟨.number (.int (10 * a)), ?_, hb.symm⟩
          rw [pointsBy, data_point]
          rfl
    have hthree : ∀ row ∈ [point 1 10, point 2 20, point 3 30], ∃ a, row = point a (10 * a) := by
      simp only [List.mem_cons, List.not_mem_nil, or_false]
      rintro row (rfl | rfl | rfl)
      · exact ⟨1, rfl⟩
      · exact ⟨2, rfl⟩
      · exact ⟨3, rfl⟩
    exact ⟨hwhole 0 _ _ (List.forall_mem_singleton.mpr ⟨1, rfl⟩), hwhole 1 _ _ hthree,
      hwhole 2 _ _ hthree, trivial⟩

/-- A poll comes between two points that tie in the first column. -/
def tied : List (PagerEvent (SqlRow Int ℚ)) := [.insert (point 1 1), .read, .insert (point 1 2)]

/-- The second point is behind the initial index values, and no number of polls returns it. -/
theorem tied_row_skipped :
    AppendOnly (pointsBy ["a", "b"] 0) (tied ++ [.read, .read]) ∧
      (∀ polls, point 1 2 ∉ (Polling.run integers (pointsBy ["a", "b"] 0)
        (tied ++ List.replicate polls .read)).returned) ∧
      ¬ SkipsNoRow integers (pointsBy ["a", "b"] 0) (tied ++ [.read, .read]) := by
  -- once the first row has been returned, a poll selects nothing
  have hstays : ∀ polls,
      Polling.run integers (pointsBy ["a", "b"] 0) (tied ++ List.replicate polls .read) =
        ⟨[point 1 1, point 1 2], [("a", .number (.int 1)), ("b", .number (.int 1))],
          [point 1 1]⟩ := by
    intro polls
    induction polls with
    | zero => rfl
    | succ polls ih =>
      rw [List.replicate_succ', ← List.append_assoc, Polling.run, List.foldl_append, ← Polling.run, ih]
      rfl
  have hpoint : point 1 2 ≠ point 1 1 := by
    intro h
    simpa [column_point] using congrArg (fun row => row.column "b") h
  have hskipped : ∀ polls, point 1 2 ∉ (Polling.run integers (pointsBy ["a", "b"] 0)
      (tied ++ List.replicate polls .read)).returned := by
    intro polls
    simpa [hstays polls] using hpoint
  refine ⟨?_, hskipped, ?_⟩
  · simp [tied, AppendOnly, Appends]
    decide
  · rintro ⟨-, hall⟩
    refine hskipped 2 (hall tied _ rfl (point 1 2) ?_ (by decide) (by decide))
    exact List.mem_append_right _ List.mem_cons_self

end Rekuiper.Connectors
