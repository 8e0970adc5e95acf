import Mathlib.Data.List.Basic
import Mathlib.Data.List.Forall2
import Mathlib.Data.List.Induction

/-!
# Tables of text

A table is read as RFC 4180 has it, character by character: fields around a separator, records
at line breaks, and quotes around a field that holds one of these, with its own quotes doubled.
A text that is written so reads as the cells it was written from.
-/

namespace Rekuiper.Lib.Table

variable {d : Char}

-- ---- The reader

/-- Where the reader is in a field: outside of quotes, inside, behind the quote that ends it or is
doubled, or behind a carriage return. -/
inductive Field
  | bare (read : List Char)
  | quoted (read : List Char)
  | closed (read : List Char)
  | returned (read : List Char)
  deriving DecidableEq

structure Reader where
  records : List (List (List Char))
  cells : List (List Char)
  field : Field
  deriving DecidableEq

def Reader.new : Reader := ⟨[], [], .bare []⟩

namespace Reader

def endField (r : Reader) (cell : List Char) : Reader :=
  { r with cells := r.cells ++ [cell], field := .bare [] }

def endRecord (r : Reader) (cell : List Char) : Reader :=
  ⟨r.records ++ [r.cells ++ [cell]], [], .bare []⟩

/-- What ends a field that has no open quote. -/
def stop (d : Char) (r : Reader) (cell : List Char) (c : Char) : Option Reader :=
  if c = d then some (r.endField cell)
  else if c = '\n' then some (r.endRecord cell)
  else if c = '\r' then some { r with field := .returned cell }
  else none

def step (d : Char) (r : Reader) (c : Char) : Option Reader :=
  match r.field with
  | .bare read =>
    if c = '"' then if read = [] then some { r with field := .quoted [] } else none
    else (r.stop d read c).or (some { r with field := .bare (read ++ [c]) })
  | .quoted read =>
    if c = '"' then some { r with field := .closed read }
    else some { r with field := .quoted (read ++ [c]) }
  | .closed read =>
    if c = '"' then some { r with field := .quoted (read ++ ['"']) } else r.stop d read c
  | .returned read => if c = '\n' then some (r.endRecord read) else none

def feed (d : Char) (r : Reader) (text : List Char) : Option Reader := text.foldlM (step d) r

/-- The records once the text has ended; the last one may have no line break. -/
def finish (r : Reader) : Option (List (List (List Char))) :=
  match r.field with
  | .bare read => if read = [] ∧ r.cells = [] then some r.records else some (r.endRecord read).records
  | .closed read => some (r.endRecord read).records
  | .quoted _ | .returned _ => none

theorem feed_cons (r : Reader) (c : Char) (text : List Char) :
    r.feed d (c :: text) = (r.step d c).bind fun r => r.feed d text := List.foldlM_cons

theorem feed_append (r : Reader) (text after : List Char) :
    r.feed d (text ++ after) = (r.feed d text).bind fun r => r.feed d after := List.foldlM_append

end Reader

/-- The records of a text, unless it is no table. -/
def read (d : Char) (text : List Char) : Option (List (List (List Char))) :=
  (Reader.new.feed d text).bind Reader.finish

-- ---- Fields

def Bare (d c : Char) : Prop := c ≠ d ∧ c ≠ '"' ∧ c ≠ '\n' ∧ c ≠ '\r'

instance : Decidable (Bare d c) := inferInstanceAs (Decidable (_ ∧ _))

theorem bare_of_all {cs : List Char} (h : (cs.all fun c => decide (Bare d c)) = true) :
    ∀ c ∈ cs, Bare d c := fun c hc => of_decide_eq_true (List.all_eq_true.mp h c hc)

def doubled (c : Char) : List Char := if c = '"' then ['"', '"'] else [c]

inductive Writes (d : Char) : List Char → List Char → Prop
  | bare {cell : List Char} (h : ∀ c ∈ cell, Bare d c) : Writes d cell cell
  | quoted {cell : List Char} : Writes d ('"' :: cell.flatMap doubled ++ ['"']) cell

theorem feed_bare {cell : List Char} (h : ∀ c ∈ cell, Bare d c) (r : Reader) (read : List Char)
    (hr : r.field = .bare read) : r.feed d cell = some { r with field := .bare (read ++ cell) } := by
  induction cell generalizing r read with
  | nil =>
    obtain ⟨records, cells, field⟩ := r
    obtain rfl : field = .bare read := hr
    simp [Reader.feed]
  | cons c cell ih =>
    obtain ⟨⟨hd, hq, hn, hr'⟩, hcell⟩ := List.forall_mem_cons.mp h
    have hstep : r.step d c = some { r with field := .bare (read ++ [c]) } := by
      simp [Reader.step, hr, Reader.stop, hd, hq, hn, hr']
    rw [Reader.feed_cons, hstep, Option.bind_some, ih hcell _ (read ++ [c]) rfl]
    simp

theorem feed_doubled (cell : List Char) (r : Reader) (read : List Char)
    (hr : r.field = .quoted read) :
    r.feed d (cell.flatMap doubled) = some { r with field := .quoted (read ++ cell) } := by
  induction cell generalizing r read with
  | nil =>
    obtain ⟨records, cells, field⟩ := r
    obtain rfl : field = .quoted read := hr
    simp [Reader.feed]
  | cons c cell ih =>
    have hstep : r.feed d (doubled c) = some { r with field := .quoted (read ++ [c]) } := by
      by_cases hq : c = '"'
      · simp [doubled, hq, Reader.feed, Reader.step, hr]
      · simp [doubled, hq, Reader.feed, Reader.step, hr]
    rw [List.flatMap_cons, Reader.feed_append, hstep, Option.bind_some, ih _ (read ++ [c]) rfl]
    simp

theorem Writes.feed {raw cell : List Char} (h : Writes d raw cell) (r : Reader)
    (hr : r.field = .bare []) :
    ∃ field, r.feed d raw = some { r with field := field } ∧
      (field = .bare cell ∨ field = .closed cell) := by
  cases h with
  | bare h => exact ⟨_, feed_bare h r [] hr, .inl rfl⟩
  | quoted =>
    have hopen : r.step d '"' = some { r with field := .quoted [] } := by simp [Reader.step, hr]
    refine ⟨.closed cell, ?_, .inr rfl⟩
    rw [List.cons_append, Reader.feed_cons, hopen, Option.bind_some, Reader.feed_append,
      feed_doubled cell _ [] rfl]
    simp [Reader.feed, Reader.step]

theorem Writes.feed_stop {raw cell : List Char} (h : Writes d raw cell) {r r' : Reader} {c : Char}
    (hr : r.field = .bare []) (hc : c ≠ '"')
    (hstop : ∀ field, ({ r with field := field } : Reader).stop d cell c = some r')
    (after : List Char) : r.feed d (raw ++ c :: after) = r'.feed d after := by
  obtain ⟨field, hfeed, hfield⟩ := h.feed r hr
  rw [Reader.feed_append, hfeed, Option.bind_some, Reader.feed_cons]
  have hstep : ({ r with field := field } : Reader).step d c = some r' := by
    rcases hfield with rfl | rfl
    · simp [Reader.step, hc, hstop]
    · simp [Reader.step, hc, hstop]
  rw [hstep, Option.bind_some]

theorem Writes.getLast?_ne {raw cell : List Char} (h : Writes d raw cell) :
    '\n' ∉ raw.getLast? := by
  cases h with
  | bare h => exact fun hlast => (h '\n' (List.mem_of_getLast? hlast)).2.2.1 rfl
  | quoted => simp [List.getLast?_cons]

-- ---- Records and tables

theorem intercalate_concat {α : Type} (sep : List α) (first : List (List α)) (last : List α) :
    sep.intercalate (first ++ [last]) = first.flatMap (· ++ sep) ++ last := by
  induction first with
  | nil => simp
  | cons part first ih =>
    cases first with
    | nil => simp
    | cons next first =>
      rw [List.cons_append, List.cons_append, List.intercalate_cons_cons, ← List.cons_append, ih]
      simp

theorem getLast?_record_ne {raws : List (List Char)} (h : ∀ raw ∈ raws, '\n' ∉ raw.getLast?)
    (hd : d ≠ '\n') : '\n' ∉ ([d].intercalate raws).getLast? := by
  induction raws using List.reverseRecOn with
  | nil => simp
  | append_singleton first last _ =>
    have hlast := h last (by simp)
    rw [intercalate_concat]
    cases last using List.reverseRecOn with
    | nil =>
      cases first using List.reverseRecOn with
      | nil => simp
      | append_singleton first part => simpa [← List.append_assoc] using hd
    | append_singleton cell c => simpa [← List.append_assoc] using hlast

variable (hd : d ≠ '"' ∧ d ≠ '\n')

include hd

theorem feed_record {raws cells : List (List Char)} (h : List.Forall₂ (Writes d) raws cells)
    (hne : raws ≠ []) (r : Reader) (hr : r.field = .bare []) (after : List Char) :
    r.feed d ([d].intercalate raws ++ '\n' :: after) =
      (⟨r.records ++ [r.cells ++ cells], [], .bare []⟩ : Reader).feed d after := by
  induction h generalizing r with
  | nil => exact absurd rfl hne
  | @cons raw cell raws cells hfirst hrest ih =>
    cases raws with
    | nil =>
      obtain rfl := List.forall₂_nil_left_iff.mp hrest
      rw [List.intercalate_singleton]
      refine hfirst.feed_stop hr (by decide) (fun field => ?_) after
      simp [Reader.stop, hd.2.symm, Reader.endRecord]
    | cons next raws =>
      have hstop : ∀ field,
          ({ r with field := field } : Reader).stop d cell d = some (r.endField cell) := by
        intro field
        simp [Reader.stop, Reader.endField]
      rw [List.intercalate_cons_cons, List.append_assoc, List.append_assoc, List.singleton_append,
        hfirst.feed_stop hr hd.1 hstop, ih (by simp) _ rfl]
      simp [Reader.endField]

def lines (d : Char) (records : List (List (List Char))) : List Char :=
  records.flatMap fun raws => [d].intercalate raws ++ ['\n']

theorem read_lines {records table : List (List (List Char))}
    (h : List.Forall₂ (List.Forall₂ (Writes d)) records table) (hne : ∀ raws ∈ records, raws ≠ []) :
    read d (lines d records) = some table := by
  have hfeed : ∀ before, (⟨before, [], .bare []⟩ : Reader).feed d (lines d records) =
      some ⟨before ++ table, [], .bare []⟩ := by
    induction h with
    | nil => simp [lines, Reader.feed]
    | @cons raws cells records table hfirst hrest ih =>
      intro before
      obtain ⟨hraws, hne⟩ := List.forall_mem_cons.mp hne
      rw [lines, List.flatMap_cons, List.append_assoc, List.singleton_append,
        feed_record hd hfirst hraws _ rfl, ← lines, ih hne]
      simp
  rw [read, Reader.new, hfeed []]
  simp [Reader.finish]

end Rekuiper.Lib.Table
