import Mathlib.Data.List.ReduceOption
import Rekuiper.Connectors.Tdengine
import Rekuiper.Lib.Decimal
import Rekuiper.Lib.Runs

/-!
# Reading TDengine statements

A reader of `INSERT` statements, and what it finds in the statement of a batch: one row for each
record that is a row, whatever the strings in it. In a quoted literal every quote and backslash is
written after a backslash, so that the literal ends where it was ended.
-/

namespace Rekuiper.Connectors.Tdengine

open Lib DataTemplate

-- ---- Tokens

inductive Literal
  | word (w : String)
  | quoted (s : String)
deriving DecidableEq

inductive Token
  | literal (l : Literal)
  | left
  | right
  | comma
deriving DecidableEq

/-- Where the lexer is: between tokens, in a word, in a quoted literal, or behind a backslash
in it. -/
inductive Mode
  | between
  | word (w : List Char)
  | quoted (s : List Char)
  | escaped (s : List Char)

def isSeparator (c : Char) : Bool := c == ' ' || c == '(' || c == ')' || c == ',' || c == '\''

def begins (c : Char) : List Token × Mode :=
  if c = ' ' then ([], .between)
  else if c = '(' then ([.left], .between)
  else if c = ')' then ([.right], .between)
  else if c = ',' then ([.comma], .between)
  else if c = '\'' then ([], .quoted [])
  else ([], .word [c])

def step : Mode → Char → List Token × Mode
  | .between, c => begins c
  | .word w, c =>
    if isSeparator c then (.literal (.word (String.ofList w)) :: (begins c).1, (begins c).2)
    else ([], .word (w ++ [c]))
  | .quoted s, c =>
    if c = '\'' then ([.literal (.quoted (String.ofList s))], .between)
    else if c = '\\' then ([], .escaped s)
    else ([], .quoted (s ++ [c]))
  | .escaped s, c => ([], .quoted (s ++ [c]))

/-- The tokens of a text, unless it ends in a quoted literal. -/
def lexFrom : Mode → List Char → Option (List Token)
  | .between, [] => some []
  | .word w, [] => some [.literal (.word (String.ofList w))]
  | .quoted _, [] | .escaped _, [] => none
  | mode, c :: text => (lexFrom (step mode c).2 text).map ((step mode c).1 ++ ·)

def lex (text : List Char) : Option (List Token) := lexFrom .between text

-- ---- Statements

def readItems : List Token → Option (List Literal × List Token)
  | .literal l :: .right :: rest => some ([l], rest)
  | .literal l :: .comma :: rest => (readItems rest).map fun r => (l :: r.1, r.2)
  | _ => none

def readTuple : List Token → Option (List Literal × List Token)
  | .left :: rest => readItems rest
  | _ => none

/-- Tuples after each other, at most `n` of them -/
def readTuples : Nat → List Token → Option (List (List Literal) × List Token)
  | 0, .left :: _ => none
  | n + 1, .left :: rest => do
    let first ← readItems rest
    let more ← readTuples n first.2
    return (first.1 :: more.1, more.2)
  | _, rest => some ([], rest)

def asIdentifier : Literal → Option String
  | .word w => if isValidSqlIdentifier w then some w else none
  | .quoted _ => none

def readColumns (tokens : List Token) : Option (List String × List Token) := do
  let items ← readTuple tokens
  let columns ← items.1.mapM asIdentifier
  return (columns, items.2)

structure Target where
  table : String
  superTable : Option String
  tags : List Literal
  columns : List String
deriving DecidableEq

structure Inserted where
  target : Target
  values : List Literal
deriving DecidableEq

def readTarget : List Token → Option (Target × List Token)
  | .literal table :: .literal (.word "USING") :: .literal st :: .literal (.word "TAGS") :: rest => do
    let tags ← readTuple rest
    let columns ← readColumns tags.2
    return (⟨← asIdentifier table, some (← asIdentifier st), tags.1, columns.1⟩, columns.2)
  | .literal table :: .literal (.word "USING") :: .literal st :: rest => do
    let columns ← readColumns rest
    return (⟨← asIdentifier table, some (← asIdentifier st), [], columns.1⟩, columns.2)
  | .literal table :: rest => do
    let columns ← readColumns rest
    return (⟨← asIdentifier table, none, [], columns.1⟩, columns.2)
  | _ => none

def readValues : List Token → Option (List (List Literal) × List Token)
  | .literal (.word "VALUES") :: rest => do
    let first ← readTuple rest
    let more ← readTuples first.2.length first.2
    return (first.1 :: more.1, more.2)
  | _ => none

def readClause (tokens : List Token) : Option (List Inserted × List Token) := do
  let target ← readTarget tokens
  let tuples ← readValues target.2
  return (tuples.1.map fun values => ⟨target.1, values⟩, tuples.2)

/-- Clauses after each other, at most `n` of them -/
def readClauses : Nat → List Token → Option (List Inserted)
  | _, [] => some []
  | 0, _ => none
  | n + 1, tokens => do
    let rows ← readClause tokens
    let more ← readClauses n rows.2
    return rows.1 ++ more

def readStatement : List Token → Option (List Inserted)
  | [] => some []
  | .literal (.word "INSERT") :: .literal (.word "INTO") :: rest => readClauses rest.length rest
  | _ => none

def readInsert (text : String) : Option (List Inserted) := (lex text.toList).bind readStatement

-- ---- Texts of literals

variable {rest : List Char}

def Boundary (rest : List Char) : Prop := ∀ c ∈ rest.head?, isSeparator c = true

def IsWord (w : String) : Prop := w.toList ≠ [] ∧ ∀ c ∈ w.toList, isSeparator c = false

def Literal.chars : Literal → List Char
  | .word w => w.toList
  | .quoted s => Tdengine.quoted s

def Literal.Valid : Literal → Prop
  | .word w => IsWord w
  | .quoted _ => True

theorem begins_other {c : Char} (h : isSeparator c = false) : begins c = ([], .word [c]) := by
  simp only [isSeparator, Bool.or_eq_false_iff, beq_eq_false_iff_ne] at h
  simp [begins, h]

theorem lexFrom_cons (mode : Mode) (c : Char) (text : List Char) :
    lexFrom mode (c :: text) = (lexFrom (step mode c).2 text).map ((step mode c).1 ++ ·) := by
  cases mode <;> rfl

theorem lexFrom_word_end {w : List Char} (h : Boundary rest) :
    lexFrom (.word w) rest = (lex rest).map (.literal (.word (String.ofList w)) :: ·) := by
  cases rest with
  | nil => rfl
  | cons c rest =>
    have hc : isSeparator c = true := h c rfl
    rw [lex, lexFrom_cons, lexFrom_cons]
    simp [step, hc, Function.comp_def]

theorem lexFrom_word {v w : List Char} (hw : ∀ c ∈ w, isSeparator c = false) (h : Boundary rest) :
    lexFrom (.word v) (w ++ rest) =
      (lex rest).map (.literal (.word (String.ofList (v ++ w))) :: ·) := by
  induction w generalizing v with
  | nil => rw [List.append_nil, List.nil_append, lexFrom_word_end h]
  | cons c w ih =>
    obtain ⟨hc, hw⟩ := List.forall_mem_cons.mp hw
    rw [List.cons_append, lexFrom_cons, List.append_cons]
    simp [step, hc, ih hw, Function.comp_def]

theorem lex_word {w : String} (hw : IsWord w) (h : Boundary rest) :
    lex (w.toList ++ rest) = (lex rest).map (.literal (.word w) :: ·) := by
  obtain ⟨hne, hw⟩ := hw
  obtain ⟨c, cs, hcs⟩ := List.exists_cons_of_ne_nil hne
  rw [hcs] at hw
  obtain ⟨hc, hw⟩ := List.forall_mem_cons.mp hw
  have hfirst : step .between c = ([], .word [c]) := begins_other hc
  rw [hcs, lex, List.cons_append, lexFrom_cons, hfirst]
  simp only [List.nil_append, Option.map_id']
  rw [lexFrom_word hw h, List.singleton_append, ← hcs, String.ofList_toList]

theorem quoted_body (s : List Char) :
    replaceChar '\'' ['\\', '\''] (replaceChar '\\' ['\\', '\\'] s) =
      s.flatMap fun c => if c = '\'' ∨ c = '\\' then ['\\', c] else [c] := by
  rw [replaceChar, replaceChar, List.flatMap_assoc]
  refine List.flatMap_congr fun c _ => ?_
  by_cases hback : c = '\\'
  · subst hback
    rfl
  · by_cases hquote : c = '\''
    · subst hquote
      rfl
    · simp [hback, hquote]

theorem lexFrom_quoted (v s : List Char) (rest : List Char) :
    lexFrom (.quoted v) ((s.flatMap fun c => if c = '\'' ∨ c = '\\' then ['\\', c] else [c]) ++
      '\'' :: rest) = (lex rest).map (.literal (.quoted (String.ofList (v ++ s))) :: ·) := by
  induction s generalizing v with
  | nil => simp [lexFrom_cons, step, lex]
  | cons c s ih =>
    rw [List.flatMap_cons, List.append_assoc, List.append_cons v c s, ← ih]
    by_cases hspecial : c = '\'' ∨ c = '\\'
    · simp [if_pos hspecial, lexFrom_cons, step]
    · obtain ⟨hquote, hback⟩ := not_or.mp hspecial
      simp [lexFrom_cons, step, hquote, hback]

theorem lex_quoted (s : String) (rest : List Char) :
    lex (quoted s ++ rest) = (lex rest).map (.literal (.quoted s) :: ·) := by
  have hbegin : step .between '\'' = ([], .quoted []) := rfl
  rw [quoted, quoted_body, lex, List.cons_append, lexFrom_cons, hbegin, List.append_assoc]
  simp only [List.nil_append, Option.map_id', List.singleton_append]
  rw [lexFrom_quoted, List.nil_append, String.ofList_toList]

theorem lex_literal {l : Literal} (hl : l.Valid) (h : Boundary rest) :
    lex (l.chars ++ rest) = (lex rest).map (.literal l :: ·) := by
  cases l with
  | word w => exact lex_word hl h
  | quoted s => exact lex_quoted s rest

-- ---- Tuples

@[simp] theorem lex_nil : lex [] = some [] := rfl

@[simp] theorem lex_blank (rest : List Char) : lex (' ' :: rest) = lex rest :=
  (lexFrom_cons .between ' ' rest).trans Option.map_id'

@[simp] theorem lex_left (rest : List Char) : lex ('(' :: rest) = (lex rest).map (.left :: ·) :=
  lexFrom_cons .between '(' rest

@[simp] theorem lex_right (rest : List Char) : lex (')' :: rest) = (lex rest).map (.right :: ·) :=
  lexFrom_cons .between ')' rest

@[simp] theorem lex_comma (rest : List Char) : lex (',' :: rest) = (lex rest).map (.comma :: ·) :=
  lexFrom_cons .between ',' rest

theorem boundary_cons {c : Char} (h : isSeparator c = true) (rest : List Char) :
    Boundary (c :: rest) := by
  rintro d hd
  exact Option.some.inj hd ▸ h

theorem lex_wordBlank {w : String} (hw : IsWord w) (rest : List Char) :
    lex (w.toList ++ ' ' :: rest) = (lex rest).map (.literal (.word w) :: ·) := by
  rw [lex_word hw (boundary_cons rfl rest), lex_blank]

theorem intercalate_cons {α : Type} (sep x : List α) (xs : List (List α)) :
    sep.intercalate (x :: xs) = x ++ xs.flatMap (sep ++ ·) := by
  induction xs generalizing x with
  | nil => simp
  | cons y xs ih =>
    rw [List.intercalate_cons_cons, ih, List.flatMap_cons]
    simp only [List.append_assoc]

def moreTokens (ls : List Literal) : List Token := ls.flatMap fun l => [.comma, .literal l]

def tupleTokens : List Literal → List Token
  | [] => [.left, .right]
  | l :: ls => .left :: .literal l :: (moreTokens ls ++ [.right])

theorem boundary_items (texts : List (List Char)) (rest : List Char) :
    Boundary (texts.flatMap (fun text => ',' :: ' ' :: text) ++ ')' :: rest) := by
  cases texts with
  | nil => exact boundary_cons rfl rest
  | cons text texts => exact boundary_cons rfl _

theorem lex_items {ls : List Literal} (hvalid : ∀ l ∈ ls, l.Valid) (rest : List Char) :
    lex ((ls.map Literal.chars).flatMap (fun text => ',' :: ' ' :: text) ++ ')' :: rest) =
      (lex rest).map ((moreTokens ls ++ [.right]) ++ ·) := by
  induction ls with
  | nil => exact lex_right rest
  | cons l ls ih =>
    obtain ⟨hl, hls⟩ := List.forall_mem_cons.mp hvalid
    simp only [List.map_cons, List.flatMap_cons, List.append_assoc, List.cons_append,
      List.nil_append, lex_comma, lex_blank]
    rw [lex_literal hl (boundary_items _ rest)]
    simp [ih hls, moreTokens, Function.comp_def]

theorem lex_tuple {ls : List Literal} (hvalid : ∀ l ∈ ls, l.Valid) (rest : List Char) :
    lex (tuple (ls.map Literal.chars) ++ rest) = (lex rest).map (tupleTokens ls ++ ·) := by
  cases ls with
  | nil => simp [tuple, tupleTokens, Function.comp_def]
  | cons l ls =>
    obtain ⟨hl, hls⟩ := List.forall_mem_cons.mp hvalid
    simp only [tuple, List.map_cons, intercalate_cons, List.append_assoc, List.cons_append,
      List.nil_append, lex_left]
    rw [lex_literal hl (boundary_items _ rest), lex_items hls]
    simp [tupleTokens, Function.comp_def]

theorem readItems_tokens (l : Literal) (ls : List Literal) (rest : List Token) :
    readItems (.literal l :: (moreTokens ls ++ .right :: rest)) = some (l :: ls, rest) := by
  induction ls generalizing l with
  | nil => rfl
  | cons x ls ih => exact congrArg (Option.map _) (ih x)

theorem readTuple_tokens {ls : List Literal} (hne : ls ≠ []) (rest : List Token) :
    readTuple (tupleTokens ls ++ rest) = some (ls, rest) := by
  cases ls with
  | nil => exact absurd rfl hne
  | cons l ls => simp [tupleTokens, readTuple, readItems_tokens]

def NoTuple (rest : List Token) : Prop := ∀ t ∈ rest.head?, t ≠ .left

theorem readTuples_tokens {tuples : List (List Literal)} (hne : ∀ ls ∈ tuples, ls ≠ [])
    {rest : List Token} (hrest : NoTuple rest) {n : Nat} (hn : tuples.length ≤ n) :
    readTuples n (tuples.flatMap tupleTokens ++ rest) = some (tuples, rest) := by
  induction tuples generalizing n with
  | nil =>
    cases rest with
    | nil => cases n <;> rfl
    | cons t rest =>
      have ht := hrest t rfl
      cases t with
      | left => exact absurd rfl ht
      | _ => cases n <;> rfl
  | cons ls tuples ih =>
    obtain ⟨hls, hmore⟩ := List.forall_mem_cons.mp hne
    cases n with
    | zero => cases hn
    | succ n =>
      have ih := ih hmore (Nat.le_of_succ_le_succ hn)
      cases ls with
      | nil => exact absurd rfl hls
      | cons l ls => simp [tupleTokens, readTuples, readItems_tokens, ih]

theorem length_tuples {tuples : List (List Literal)} (rest : List Token) :
    tuples.length ≤ (tuples.flatMap tupleTokens ++ rest).length := by
  induction tuples with
  | nil => exact Nat.zero_le _
  | cons ls tuples ih => cases ls <;> simp [tupleTokens] at ih ⊢ <;> omega

theorem readValues_tokens {first : List Literal} {more : List (List Literal)} (hfirst : first ≠ [])
    (hmore : ∀ ls ∈ more, ls ≠ []) {rest : List Token} (hrest : NoTuple rest) :
    readValues (.literal (.word "VALUES") :: ((first :: more).flatMap tupleTokens ++ rest)) =
      some (first :: more, rest) := by
  have hread := readTuples_tokens hmore hrest (length_tuples rest)
  simp only [readValues, List.flatMap_cons, List.append_assoc, readTuple_tokens hfirst,
    Option.bind_eq_bind, Option.bind_some, hread]
  rfl

-- ---- Rows

section

variable {F : Type} {calls : Calls F}

def literalOf (calls : Calls F) : Value F → Literal
  | .string s => .quoted s
  | .number n => .word (calls.toText (.number n))
  | .bool b => .word (if b then "true" else "false")
  | .null => .word "NULL"
  | other => .quoted (calls.toText other)

def SqlValue.literal (calls : Calls F) : SqlValue F → Literal
  | .now => .word "now"
  | .value v => literalOf calls v

/-- The row that is read. The tags are written with the super table only. -/
def InsertRow.inserted (row : InsertRow F) (calls : Calls F) : Inserted where
  target := {
    table := row.table
    superTable := row.sTable
    tags := if row.sTable.isSome then row.tagVals.map (literalOf calls) else []
    columns := row.keys }
  values := row.vals.map (SqlValue.literal calls)

/-- The texts of numbers have no separators. -/
def NumbersAreWords (calls : Calls F) : Prop := ∀ n, IsWord (calls.toText (.number n))

structure InsertRow.Valid (row : InsertRow F) : Prop where
  table : isValidSqlIdentifier row.table = true
  sTable : ∀ st ∈ row.sTable, isValidSqlIdentifier st = true
  keys : ∀ k ∈ row.keys, isValidSqlIdentifier k = true
  keys_ne_nil : row.keys ≠ []
  vals_ne_nil : row.vals ≠ []

theorem isWord_identifier {w : String} (h : isValidSqlIdentifier w = true) : IsWord w := by
  have hinside : ∀ c : Char, (c.isAlphanum || c == '_') = true → isSeparator c = false := by
    intro c hc
    by_contra hsep
    simp only [isSeparator, Bool.not_eq_false, Bool.or_eq_true, beq_iff_eq] at hsep
    rcases hsep with (((rfl | rfl) | rfl) | rfl) | rfl <;> cases hc
  unfold isValidSqlIdentifier at h
  split at h
  · cases h
  · next first more hw =>
    obtain ⟨hfirst, hmore⟩ := Bool.and_eq_true_iff.mp h
    refine ⟨by simp [hw], ?_⟩
    rw [hw]
    refine List.forall_mem_cons.mpr ⟨hinside first ?_, fun c hc => ?_⟩
    · rcases Bool.or_eq_true_iff.mp hfirst with halpha | hunder
      · simp [Char.isAlphanum, halpha]
      · simp [hunder]
    · exact hinside c (List.all_eq_true.mp hmore c hc)

theorem chars_literalOf (v : Value F) : (literalOf calls v).chars = formatSqlValue calls v := by
  cases v <;> rfl

theorem chars_literal (v : SqlValue F) : (v.literal calls).chars = v.chars calls := by
  cases v with
  | now => rfl
  | value v => exact chars_literalOf v

theorem literalOf_valid (h : NumbersAreWords calls) (v : Value F) : (literalOf calls v).Valid := by
  cases v with
  | null => exact isWord_identifier (by decide)
  | bool b => cases b <;> exact isWord_identifier (by decide)
  | number n => exact h n
  | string s => trivial
  | array items => trivial
  | object fields => trivial

theorem literal_valid (h : NumbersAreWords calls) (v : SqlValue F) : (v.literal calls).Valid := by
  cases v with
  | now => exact isWord_identifier (by decide)
  | value v => exact literalOf_valid h v

-- ---- Targets

def InsertRow.targetTokens (row : InsertRow F) (calls : Calls F) : List Token :=
  .literal (.word row.table) :: ((match row.sTable with
    | none => []
    | some st => .literal (.word "USING") :: .literal (.word st) ::
      (if row.tagVals.isEmpty then []
      else .literal (.word "TAGS") :: tupleTokens (row.tagVals.map (literalOf calls)))) ++
    tupleTokens (row.keys.map Literal.word))

theorem lex_values (h : NumbersAreWords calls) (row : InsertRow F) (rest : List Char) :
    lex (row.valuesTuple calls ++ rest) =
      (lex rest).map (tupleTokens (row.inserted calls).values ++ ·) := by
  have hchars : row.vals.map (SqlValue.chars calls) =
      (row.vals.map (SqlValue.literal calls)).map Literal.chars := by
    simp [chars_literal]
  rw [InsertRow.valuesTuple, hchars]
  refine lex_tuple ?_ rest
  rintro l hl
  obtain ⟨v, -, rfl⟩ := List.mem_map.mp hl
  exact literal_valid h v

theorem lex_columns {keys : List String} (h : ∀ k ∈ keys, isValidSqlIdentifier k = true)
    (rest : List Char) : lex (tuple (keys.map String.toList) ++ rest) =
      (lex rest).map (tupleTokens (keys.map Literal.word) ++ ·) := by
  have hchars : keys.map String.toList = (keys.map Literal.word).map Literal.chars := by
    simp [Literal.chars]
  rw [hchars]
  refine lex_tuple ?_ rest
  rintro l hl
  obtain ⟨k, hk, rfl⟩ := List.mem_map.mp hl
  exact isWord_identifier (h k hk)

theorem lex_tags (h : NumbersAreWords calls) (tags : List (Value F)) (rest : List Char) :
    lex (tuple (tags.map (formatSqlValue calls)) ++ rest) =
      (lex rest).map (tupleTokens (tags.map (literalOf calls)) ++ ·) := by
  have hchars : tags.map (formatSqlValue calls) =
      (tags.map (literalOf calls)).map Literal.chars := by
    simp [chars_literalOf]
  rw [hchars]
  refine lex_tuple ?_ rest
  rintro l hl
  obtain ⟨v, -, rfl⟩ := List.mem_map.mp hl
  exact literalOf_valid h v

theorem lex_target (h : NumbersAreWords calls) {row : InsertRow F} (hrow : row.Valid)
    (rest : List Char) :
    lex (row.target calls ++ rest) = (lex rest).map (row.targetTokens calls ++ ·) := by
  have htable := isWord_identifier hrow.table
  have hcolumns := lex_columns hrow.keys rest
  have husing : IsWord "USING" := isWord_identifier (by decide)
  have htags : IsWord "TAGS" := isWord_identifier (by decide)
  simp only [InsertRow.target, InsertRow.targetTokens, InsertRow.usingClause, List.append_assoc,
    List.cons_append]
  rw [lex_wordBlank htable]
  cases hst : row.sTable with
  | none => simp [hcolumns, Function.comp_def]
  | some st =>
    have hst := isWord_identifier (hrow.sTable st hst)
    simp only [List.append_assoc, List.cons_append]
    rw [lex_wordBlank husing, lex_wordBlank hst, InsertRow.tagsClause]
    split
    · simp [hcolumns, Function.comp_def]
    · simp only [List.append_assoc, List.cons_append]
      rw [lex_wordBlank htags, lex_tags h]
      simp [hcolumns, Function.comp_def]

theorem asIdentifier_word {w : String} (h : isValidSqlIdentifier w = true) :
    asIdentifier (.word w) = some w := if_pos h

theorem mapM_asIdentifier {keys : List String} (h : ∀ k ∈ keys, isValidSqlIdentifier k = true) :
    (keys.map Literal.word).mapM asIdentifier = some keys := by
  induction keys with
  | nil => rfl
  | cons k keys ih =>
    obtain ⟨hk, hkeys⟩ := List.forall_mem_cons.mp h
    simp [asIdentifier_word hk, ih hkeys]

theorem readColumns_tokens {keys : List String} (hne : keys ≠ [])
    (h : ∀ k ∈ keys, isValidSqlIdentifier k = true) (rest : List Token) :
    readColumns (tupleTokens (keys.map Literal.word) ++ rest) = some (keys, rest) := by
  have hwords : keys.map Literal.word ≠ [] := by simpa using hne
  simp [readColumns, readTuple_tokens hwords, mapM_asIdentifier h]

theorem tupleTokens_head (ls : List Literal) : ∃ more, tupleTokens ls = .left :: more := by
  cases ls with
  | nil => exact ⟨_, rfl⟩
  | cons l ls => exact ⟨_, rfl⟩

theorem readTarget_tokens {row : InsertRow F} (hrow : row.Valid) (rest : List Token) :
    readTarget (row.targetTokens calls ++ rest) = some ((row.inserted calls).target, rest) := by
  have hcolumns := readColumns_tokens hrow.keys_ne_nil hrow.keys rest
  have htable := asIdentifier_word hrow.table
  obtain ⟨more, hmore⟩ := tupleTokens_head (row.keys.map Literal.word)
  cases hst : row.sTable with
  | none =>
    simp only [InsertRow.targetTokens, hst, List.nil_append, List.cons_append]
    rw [hmore, List.cons_append] at hcolumns ⊢
    simp [readTarget, hcolumns, htable, InsertRow.inserted, hst]
  | some st =>
    have hstOk := asIdentifier_word (hrow.sTable st hst)
    simp only [InsertRow.targetTokens, hst, List.cons_append]
    by_cases htags : row.tagVals = []
    · simp only [htags, List.isEmpty_nil, if_true, List.nil_append]
      rw [hmore, List.cons_append] at hcolumns ⊢
      simp [readTarget, hcolumns, htable, hstOk, InsertRow.inserted, hst, htags]
    · have htuple : row.tagVals.map (literalOf calls) ≠ [] := by simpa using htags
      simp [readTarget, readTuple_tokens htuple, hcolumns, htable, hstOk, InsertRow.inserted, hst,
        htags]

-- ---- Clauses

structure Holds (calls : Calls F) (group : List Char × List (List Char)) (rows : List (InsertRow F)) :
    Prop where
  nonempty : rows ≠ []
  tuples : group.2 = rows.map (InsertRow.valuesTuple · calls)
  target : ∀ row ∈ rows, row.target calls = group.1

def clauseTokens (calls : Calls F) : List (InsertRow F) → List Token
  | [] => []
  | row :: rows => row.targetTokens calls ++ .literal (.word "VALUES") ::
      ((row :: rows).map fun row => (row.inserted calls).values).flatMap tupleTokens

theorem target_eq_of_chars (h : NumbersAreWords calls) {row row' : InsertRow F} (hrow : row.Valid)
    (hrow' : row'.Valid) (heq : row.target calls = row'.target calls) :
    (row.inserted calls).target = (row'.inserted calls).target := by
  have hlex := lex_target h hrow []
  have hlex' := lex_target h hrow' []
  rw [heq, hlex'] at hlex
  have htokens : row'.targetTokens calls = row.targetTokens calls := by simpa using hlex
  have hread := @readTarget_tokens F calls row hrow []
  have hread' := @readTarget_tokens F calls row' hrow' []
  rw [htokens, hread] at hread'
  exact (Prod.mk.inj (Option.some.inj hread')).1

theorem lex_tuples (h : NumbersAreWords calls) (row : InsertRow F) (rows : List (InsertRow F))
    (rest : List Char) :
    lex (List.intercalate [' '] ((row :: rows).map (InsertRow.valuesTuple · calls)) ++ rest) =
      (lex rest).map
        (((row :: rows).map fun row => (row.inserted calls).values).flatMap tupleTokens ++ ·) := by
  induction rows generalizing row with
  | nil => simp [lex_values h]
  | cons next rows ih =>
    have ih := ih next
    simp only [List.map_cons, List.intercalate_cons_cons, List.append_assoc, List.cons_append,
      List.nil_append] at ih ⊢
    rw [lex_values h, lex_blank, ih]
    simp [Function.comp_def]

theorem lex_clause (h : NumbersAreWords calls) {group : List Char × List (List Char)}
    {rows : List (InsertRow F)} (hrows : ∀ row ∈ rows, row.Valid) (hold : Holds calls group rows)
    (rest : List Char) :
    lex (clauseChars group ++ rest) = (lex rest).map (clauseTokens calls rows ++ ·) := by
  cases rows with
  | nil => exact absurd rfl hold.nonempty
  | cons row rows =>
    have hvalues : IsWord "VALUES" := isWord_identifier (by decide)
    have hrow := hrows row List.mem_cons_self
    simp only [clauseChars, ← hold.target row List.mem_cons_self, hold.tuples, List.append_assoc,
      List.cons_append]
    rw [lex_target h hrow, lex_blank, lex_wordBlank hvalues, lex_tuples h]
    simp [clauseTokens, Function.comp_def]

theorem inserted_values_ne_nil {row : InsertRow F} (hrow : row.Valid) :
    (row.inserted calls).values ≠ [] := by
  simpa [InsertRow.inserted] using hrow.vals_ne_nil

theorem readClause_tokens (h : NumbersAreWords calls) {group : List Char × List (List Char)}
    {rows : List (InsertRow F)} (hrows : ∀ row ∈ rows, row.Valid) (hold : Holds calls group rows)
    {rest : List Token} (hrest : NoTuple rest) : readClause (clauseTokens calls rows ++ rest) =
      some (rows.map (InsertRow.inserted · calls), rest) := by
  cases rows with
  | nil => exact absurd rfl hold.nonempty
  | cons row rows =>
    obtain ⟨hrow, hmore⟩ := List.forall_mem_cons.mp hrows
    have htuples : ∀ ls ∈ rows.map fun row => (row.inserted calls).values, ls ≠ [] := by
      rintro ls hls
      obtain ⟨next, hnext, rfl⟩ := List.mem_map.mp hls
      exact inserted_values_ne_nil (hmore next hnext)
    have htarget : ∀ next ∈ rows, (row.inserted calls).target = (next.inserted calls).target := by
      rintro next hnext
      have hsame := (hold.target row List.mem_cons_self).trans
        (hold.target next (List.mem_cons_of_mem _ hnext)).symm
      exact target_eq_of_chars h hrow (hmore next hnext) hsame
    have hvalues := readValues_tokens (@inserted_values_ne_nil F calls row hrow) htuples hrest
    simp only [clauseTokens, List.map_cons, List.append_assoc, List.cons_append] at hvalues ⊢
    simp only [readClause, readTarget_tokens hrow, Option.bind_eq_bind, Option.bind_some, hvalues]
    refine congrArg (fun rows => some (_ :: rows, rest)) ?_
    simp only [List.map_map]
    refine List.map_congr_left fun next hnext => ?_
    exact congrArg (Inserted.mk · (next.inserted calls).values) (htarget next hnext)

-- ---- Statements

variable {groups : List (List Char × List (List Char))} {rowGroups : List (List (InsertRow F))}

theorem lex_clauses (h : NumbersAreWords calls) (hgroups : List.Forall₂ (Holds calls) groups rowGroups)
    (hrows : ∀ rows ∈ rowGroups, ∀ row ∈ rows, row.Valid) :
    lex (List.intercalate [' '] (groups.map clauseChars)) =
      some (rowGroups.flatMap (clauseTokens calls)) := by
  induction hgroups with
  | nil => rfl
  | cons hold hmore ih =>
    obtain ⟨hfirst, hrows⟩ := List.forall_mem_cons.mp hrows
    have ih := ih hrows
    cases hmore with
    | nil =>
      have hclause := lex_clause h hfirst hold []
      simpa using hclause
    | cons _ _ =>
      simp only [List.map_cons, List.intercalate_cons_cons, List.append_assoc, List.cons_append,
        List.nil_append] at ih ⊢
      rw [lex_clause h hfirst hold, lex_blank, ih]
      rfl

theorem noTuple_clauses (hgroups : List.Forall₂ (Holds calls) groups rowGroups) :
    NoTuple (rowGroups.flatMap (clauseTokens calls)) := by
  rintro t ht
  cases hgroups with
  | nil => cases ht
  | @cons _ rows _ _ hold _ =>
    cases rows with
    | nil => exact absurd rfl hold.nonempty
    | cons row rows =>
      obtain rfl := Option.some.inj ht
      exact nofun

theorem readClauses_tokens (h : NumbersAreWords calls)
    (hgroups : List.Forall₂ (Holds calls) groups rowGroups)
    (hrows : ∀ rows ∈ rowGroups, ∀ row ∈ rows, row.Valid) {n : Nat} (hn : rowGroups.length ≤ n) :
    readClauses n (rowGroups.flatMap (clauseTokens calls)) =
      some (rowGroups.flatten.map (InsertRow.inserted · calls)) := by
  induction hgroups generalizing n with
  | nil => cases n <;> rfl
  | @cons _ rows _ rowGroups hold hmore ih =>
    obtain ⟨hfirst, hrows⟩ := List.forall_mem_cons.mp hrows
    cases n with
    | zero => cases hn
    | succ n =>
      have hread := readClause_tokens h hfirst hold (noTuple_clauses hmore)
      have ih := ih hrows (Nat.le_of_succ_le_succ hn)
      cases rows with
      | nil => exact absurd rfl hold.nonempty
      | cons row rows =>
        rw [List.flatMap_cons, List.flatten_cons, List.map_append]
        change (do
          let rows ← readClause (clauseTokens calls (row :: rows) ++ _)
          let more ← readClauses n rows.2
          return rows.1 ++ more) = _
        rw [hread]
        simp [ih]

theorem length_clauses (hgroups : List.Forall₂ (Holds calls) groups rowGroups) :
    rowGroups.length ≤ (rowGroups.flatMap (clauseTokens calls)).length := by
  induction hgroups with
  | nil => exact Nat.le_refl 0
  | @cons _ rows _ _ hold _ ih =>
    cases rows with
    | nil => exact absurd rfl hold.nonempty
    | cons row rows =>
      simp only [List.length_cons, List.flatMap_cons, List.length_append, clauseTokens,
        InsertRow.targetTokens]
      omega

theorem readInsert_insertInto (h : NumbersAreWords calls)
    (hgroups : List.Forall₂ (Holds calls) groups rowGroups)
    (hrows : ∀ rows ∈ rowGroups, ∀ row ∈ rows, row.Valid) :
    readInsert (insertInto (groups.map clauseChars)) =
      some (rowGroups.flatten.map (InsertRow.inserted · calls)) := by
  have hinsert : IsWord "INSERT" := isWord_identifier (by decide)
  have hinto : IsWord "INTO" := isWord_identifier (by decide)
  have htext : (insertInto (groups.map clauseChars)).toList = "INSERT".toList ++ ' ' ::
      ("INTO".toList ++ ' ' :: List.intercalate [' '] (groups.map clauseChars)) :=
    String.toList_ofList
  rw [readInsert, htext, lex_wordBlank hinsert, lex_wordBlank hinto, lex_clauses h hgroups hrows]
  simp only [Option.map_some, Option.bind_some, readStatement]
  exact readClauses_tokens h hgroups hrows (length_clauses hgroups)

-- ---- Records

variable {config : TdengineConfig} {record : Row F} {row : InsertRow F}

theorem checkIdentifier_ok_iff {kind name : String} :
    checkIdentifier kind name = .ok () ↔ isValidSqlIdentifier name = true := by
  unfold checkIdentifier
  split <;> simp [*]

theorem tableOf_valid {table : String} (h : config.tableOf calls record = .ok table) :
    isValidSqlIdentifier table = true := by
  unfold TdengineConfig.tableOf at h
  dsimp only at h
  split at h
  · cases h
  · obtain ⟨hcheck, h⟩ := check_bind_ok_iff.mp h
    obtain rfl := Except.ok.inj h
    exact checkIdentifier_ok_iff.mp hcheck

theorem sTableOf_valid {sTable : Option String} (h : config.sTableOf calls record = .ok sTable) :
    ∀ st ∈ sTable, isValidSqlIdentifier st = true := by
  unfold TdengineConfig.sTableOf at h
  split at h
  · obtain rfl := Except.ok.inj h
    exact nofun
  · obtain ⟨hcheck, h⟩ := check_bind_ok_iff.mp h
    obtain rfl := Except.ok.inj h
    rintro st hst
    exact Option.some.inj hst ▸ checkIdentifier_ok_iff.mp hcheck

theorem tsVal_valid {ts : SqlValue F} (h : config.tsVal record = .ok ts) :
    isValidSqlIdentifier config.tsFieldName = true :=
  checkIdentifier_ok_iff.mp (check_bind_ok_iff.mp h).1

theorem columnsOf_valid {columns : List (String × SqlValue F)}
    (h : config.columnsOf record = .ok columns) :
    ∀ column ∈ columns, isValidSqlIdentifier column.1 = true := by
  rintro column hcolumn
  unfold TdengineConfig.columnsOf at h
  split at h
  · obtain ⟨f, -, hf⟩ := exists_of_mapM h column hcolumn
    obtain ⟨hcheck, hf⟩ := check_bind_ok_iff.mp hf
    obtain ⟨v, -, hf⟩ := bind_eq_ok hf
    obtain rfl := Except.ok.inj hf
    exact checkIdentifier_ok_iff.mp hcheck
  · obtain ⟨cells, hcells, h⟩ := bind_eq_ok h
    obtain rfl := Except.ok.inj h
    have hcolumn : some column ∈ cells := List.reduceOption_mem_iff.mp hcolumn
    obtain ⟨k, -, hk⟩ := exists_of_mapM hcells _ hcolumn
    obtain ⟨hcheck, hk⟩ := check_bind_ok_iff.mp hk
    obtain ⟨v, -, rfl⟩ := Option.map_eq_some_iff.mp (Except.ok.inj hk)
    exact checkIdentifier_ok_iff.mp hcheck

theorem insertRow_valid (h : config.insertRow calls record = .ok row) : row.Valid := by
  unfold TdengineConfig.insertRow at h
  split at h
  · cases h
  · obtain ⟨table, htable, h⟩ := bind_eq_ok h
    obtain ⟨sTable, hsTable, h⟩ := bind_eq_ok h
    obtain ⟨tagVals, -, h⟩ := bind_eq_ok h
    obtain ⟨ts, hts, h⟩ := bind_eq_ok h
    obtain ⟨columns, hcolumns, h⟩ := bind_eq_ok h
    obtain rfl := Except.ok.inj h
    refine ⟨tableOf_valid htable, sTableOf_valid hsTable, ?_, by simp, by simp⟩
    refine List.forall_mem_cons.mpr ⟨tsVal_valid hts, ?_⟩
    rintro k hk
    obtain ⟨column, hcolumn, rfl⟩ := List.mem_map.mp hk
    exact columnsOf_valid hcolumns column hcolumn

theorem addParts_holds (hgroups : List.Forall₂ (Holds calls) groups rowGroups) :
    ∃ rowGroups', List.Forall₂ (Holds calls)
      (addParts groups (row.target calls, row.valuesTuple calls)) rowGroups' ∧
        rowGroups'.flatten = rowGroups.flatten ++ [row] := by
  have hnew : List.Forall₂ (Holds calls)
      (groups ++ [(row.target calls, [row.valuesTuple calls])]) (rowGroups ++ [[row]]) :=
    List.rel_append hgroups (.cons ⟨by simp, rfl, by simp⟩ .nil)
  rcases List.eq_nil_or_concat' groups with rfl | ⟨init, last, rfl⟩
  · exact ⟨_, hnew, by simp⟩
  · obtain ⟨initRows, rows, rfl, hinit, hlast⟩ := forall₂_concat hgroups
    simp only [addParts, List.getLast?_concat, List.dropLast_concat]
    split
    · next htarget =>
      refine ⟨initRows ++ [rows ++ [row]], List.rel_append hinit (.cons ⟨by simp, ?_, ?_⟩ .nil),
        by simp⟩
      · simp [hlast.tuples]
      · rintro next hnext
        rcases List.mem_append.mp hnext with hold | hsame
        · exact hlast.target next hold
        · obtain rfl := List.mem_singleton.mp hsame
          exact htarget.symm
    · exact ⟨_, hnew, by simp⟩

def rowsOf (config : TdengineConfig) (calls : Calls F) (records : List (Row F)) :
    List (InsertRow F) :=
  records.filterMap fun record => (config.insertRow calls record).toOption

theorem groups_hold (config : TdengineConfig) (calls : Calls F) (records : List (Row F)) :
    ∃ rowGroups, List.Forall₂ (Holds calls) (config.groups calls records) rowGroups ∧
      rowGroups.flatten = rowsOf config calls records := by
  induction records using List.reverseRecOn with
  | nil => exact ⟨[], .nil, rfl⟩
  | append_singleton records record ih =>
    obtain ⟨rowGroups, hgroups, hflatten⟩ := ih
    simp only [TdengineConfig.groups, List.foldl_append, List.foldl_cons, List.foldl_nil] at hgroups ⊢
    simp only [TdengineConfig.buildInsertParts]
    cases hrow : config.insertRow calls record with
    | error message => exact ⟨rowGroups, hgroups, by simp [hflatten, rowsOf, hrow, Except.toOption]⟩
    | ok row =>
      obtain ⟨rowGroups', hgroups', hflatten'⟩ := @addParts_holds F calls _ _ row hgroups
      refine ⟨rowGroups', hgroups', ?_⟩
      simp [hflatten', hflatten, rowsOf, hrow, Except.toOption]

structure Reads (config : TdengineConfig) (calls : Calls F) (record : Row F) (read : Inserted) :
    Prop where
  row : ∃ row, config.insertRow calls record = .ok row ∧ read = row.inserted calls
  single : ∃ sql, config.buildInsertSql calls record = .ok sql ∧ readInsert sql = some [read]

theorem buildInsertParts_ok (hrow : config.insertRow calls record = .ok row) :
    config.buildInsertParts calls record = .ok (row.target calls, row.valuesTuple calls) := by
  rw [TdengineConfig.buildInsertParts, hrow]
  rfl

theorem buildInsertParts_error {message : String}
    (hrow : config.insertRow calls record = .error message) :
    config.buildInsertParts calls record = .error message := by
  rw [TdengineConfig.buildInsertParts, hrow]
  rfl

theorem reads_of_row (h : NumbersAreWords calls) (hrow : config.insertRow calls record = .ok row) :
    Reads config calls record (row.inserted calls) := by
  refine ⟨⟨row, hrow, rfl⟩, insertInto [clauseChars (row.target calls, [row.valuesTuple calls])],
    ?_, ?_⟩
  · rw [TdengineConfig.buildInsertSql, TdengineConfig.buildInsertClause, buildInsertParts_ok hrow]
    rfl
  · have hgroups : List.Forall₂ (Holds calls) [(row.target calls, [row.valuesTuple calls])] [[row]] :=
      .cons ⟨by simp, rfl, by simp⟩ .nil
    have hvalid : ∀ rows ∈ [[row]], ∀ row ∈ rows, row.Valid := by
      simpa using insertRow_valid hrow
    have hread := readInsert_insertInto h hgroups hvalid
    rw [List.map_singleton] at hread
    exact hread

theorem forall₂_reads (h : NumbersAreWords calls) (records : List (Row F)) :
    List.Forall₂ (Reads config calls)
      (records.filter fun record => (config.buildInsertParts calls record).isOk)
      ((rowsOf config calls records).map (InsertRow.inserted · calls)) := by
  induction records with
  | nil => exact .nil
  | cons record records ih =>
    cases hrow : config.insertRow calls record with
    | error message =>
      have hnot : ¬(config.buildInsertParts calls record).isOk = true := by
        simp [buildInsertParts_error hrow, Except.isOk, Except.toBool]
      rw [List.filter_cons, if_neg hnot, rowsOf, List.filterMap_cons_none (by rw [hrow]; rfl)]
      exact ih
    | ok row =>
      have hok : (config.buildInsertParts calls record).isOk = true := by
        simp [buildInsertParts_ok hrow, Except.isOk, Except.toBool]
      have hsome : (config.insertRow calls record).toOption = some row := by
        rw [hrow]
        rfl
      rw [List.filter_cons, if_pos hok, rowsOf, List.filterMap_cons, hsome]
      exact .cons (reads_of_row h hrow) ih

/-- The statement of a batch is read as the rows of its records, and a string ends where it was
ended. -/
theorem batch_rows (config : TdengineConfig) (h : NumbersAreWords calls) (records : List (Row F)) :
    (∃ sql rows, config.buildBatchInsertSql calls records = .ok sql ∧ readInsert sql = some rows ∧
      List.Forall₂ (Reads config calls)
        (records.filter fun record => (config.buildInsertParts calls record).isOk) rows) ∧
    ∀ s rest, lex (formatSqlValue calls (.string s) ++ rest) =
      (lex rest).map (.literal (.quoted s) :: ·) := by
  refine ⟨?_, fun s rest => lex_quoted s rest⟩
  obtain ⟨rowGroups, hgroups, hflatten⟩ := groups_hold config calls records
  have hreads := @forall₂_reads F calls config h records
  have hvalid : ∀ rows ∈ rowGroups, ∀ row ∈ rows, row.Valid := by
    rintro rows hrows row hrow
    have hmem : row ∈ rowsOf config calls records :=
      hflatten ▸ List.mem_flatten_of_mem hrows hrow
    obtain ⟨record, -, hrecord⟩ := List.mem_filterMap.mp hmem
    cases hresult : config.insertRow calls record with
    | error message =>
      rw [hresult] at hrecord
      cases hrecord
    | ok row' =>
      rw [hresult] at hrecord
      obtain rfl := Option.some.inj hrecord
      exact insertRow_valid hresult
  have hread := readInsert_insertInto h hgroups hvalid
  rw [hflatten] at hread
  by_cases hempty : config.groups calls records = []
  · rw [hempty] at hgroups
    cases hgroups
    rw [← hflatten] at hreads
    refine ⟨"", [], ?_, rfl, hreads⟩
    unfold TdengineConfig.buildBatchInsertSql
    split
    · rfl
    · simp [hempty]
  · refine ⟨_, _, ?_, hread, hreads⟩
    have hrecords : ¬records.isEmpty = true := by
      intro hnil
      rw [List.isEmpty_iff.mp hnil] at hempty
      exact hempty rfl
    unfold TdengineConfig.buildBatchInsertSql
    rw [if_neg hrecords, if_neg (by simpa using hempty)]

end

def integerCalls : Calls ℚ where
  applyTemplate text _ := text
  toText
    | .number (.int n) => toString n
    | _ => "0.5"

theorem integerCalls_words : NumbersAreWords integerCalls := by
  rintro (n | f)
  · refine ⟨toString_ne_empty n, fun c hc => ?_⟩
    have hinside : ∀ c : Char, c.isDigit → isSeparator c = false := by
      intro c hc
      by_contra hsep
      simp only [isSeparator, Bool.not_eq_false, Bool.or_eq_true, beq_iff_eq] at hsep
      rcases hsep with (((rfl | rfl) | rfl) | rfl) | rfl <;> cases hc
    rcases mem_toString hc with rfl | hdigit
    · rfl
    · exact hinside c hdigit
  · exact ⟨by simp [integerCalls], by simp [integerCalls, isSeparator]⟩

def meterConfig : TdengineConfig where
  table := "d1"
  sTable := some "meters"
  tagFields := some ["group"]
  fields := some ["note"]
  tsFieldName := "ts"
  provideTs := true

def meterRecord (note : String) : Row ℚ :=
  (AList.insert "note" (.string note) ((AList.insert "group" (.string "a', ('") ∅).insert
    "ts" (.number (.int 1))))

/-- The empty record is skipped. -/
theorem meter_rows :
    (∃ sql rows, meterConfig.buildBatchInsertSql integerCalls
        [meterRecord "it's", ∅, meterRecord "\\') VALUES ("] = .ok sql ∧
      readInsert sql = some rows ∧ List.Forall₂ (Reads meterConfig integerCalls)
        ([meterRecord "it's", ∅, meterRecord "\\') VALUES ("].filter fun record =>
          (meterConfig.buildInsertParts integerCalls record).isOk) rows) ∧
    ∀ s rest, lex (formatSqlValue integerCalls (.string s) ++ rest) =
      (lex rest).map (.literal (.quoted s) :: ·) :=
  batch_rows meterConfig integerCalls_words _

end Rekuiper.Connectors.Tdengine
