import Mathlib.Data.List.Basic

/-!
# Scanners

A text that is read from a byte position on. A slice that does not begin on a character boundary
of the text panics. The scanner keeps the positions it has been at, and it notes the texts at which
some scans begin: both are for statements about a run, and no step reads them. `Scans` is the rule
of correctness for steps of a scanner; it says that a step stays on boundaries, and that it panics
only after a bad note.
-/

namespace Rekuiper.Lib

/-- The bytes of some characters in UTF-8. -/
def byteLen : List Char → Nat
  | [] => 0
  | c :: cs => c.utf8Size + byteLen cs

@[simp] theorem byteLen_nil : byteLen [] = 0 := rfl

@[simp] theorem byteLen_cons (c : Char) (cs : List Char) :
    byteLen (c :: cs) = c.utf8Size + byteLen cs := rfl

@[simp] theorem byteLen_append (a b : List Char) : byteLen (a ++ b) = byteLen a + byteLen b := by
  induction a with
  | nil => simp
  | cons c a ih => simp [ih, Nat.add_assoc]

theorem byteLen_pos {cs : List Char} (h : cs ≠ []) : 0 < byteLen cs := by
  cases cs with
  | nil => exact absurd rfl h
  | cons c cs => exact Nat.add_pos_left c.utf8Size_pos _

theorem length_le_byteLen (cs : List Char) : cs.length ≤ byteLen cs := by
  induction cs with
  | nil => exact Nat.le_refl _
  | cons c cs ih =>
    have := c.utf8Size_pos
    rw [List.length_cons, byteLen_cons]
    omega

/-- `&s[i..]`, where it does not panic. -/
def sliceFrom : List Char → Nat → Option (List Char)
  | cs, 0 => some cs
  | [], _ + 1 => none
  | c :: cs, i + 1 => if c.utf8Size ≤ i + 1 then sliceFrom cs (i + 1 - c.utf8Size) else none

/-- `rest` is what the text has from the byte on. -/
def RestAt (input : List Char) (i : Nat) (rest : List Char) : Prop :=
  ∃ before, input = before ++ rest ∧ byteLen before = i

theorem sliceFrom_eq_some_iff {cs rest : List Char} {i : Nat} :
    sliceFrom cs i = some rest ↔ RestAt cs i rest := by
  induction cs, i using sliceFrom.induct with
  | case1 cs =>
    rw [sliceFrom, Option.some.injEq]
    constructor
    · rintro rfl
      exact ⟨[], rfl, rfl⟩
    · rintro ⟨before, rfl, h⟩
      cases before with
      | nil => rfl
      | cons c before => exact absurd h (Nat.ne_of_gt (byteLen_pos (List.cons_ne_nil _ _)))
  | case2 i =>
    rw [sliceFrom]
    constructor
    · intro h
      cases h
    · rintro ⟨before, h, hlen⟩
      obtain ⟨rfl, -⟩ := List.append_eq_nil_iff.mp h.symm
      cases hlen
  | case3 c cs i hle ih =>
    rw [sliceFrom, if_pos hle, ih]
    constructor
    · rintro ⟨before, rfl, h⟩
      exact ⟨c :: before, rfl, by rw [byteLen_cons]; omega⟩
    · rintro ⟨before, h, hlen⟩
      cases before with
      | nil => cases hlen
      | cons c' before =>
        obtain ⟨rfl, rfl⟩ := List.cons.inj h
        exact ⟨before, rfl, by rw [byteLen_cons] at hlen; omega⟩
  | case4 c cs i hle =>
    rw [sliceFrom, if_neg hle]
    constructor
    · intro h
      cases h
    · rintro ⟨before, h, hlen⟩
      cases before with
      | nil => cases hlen
      | cons c' before =>
        obtain ⟨rfl, -⟩ := List.cons.inj h
        rw [byteLen_cons] at hlen
        omega

theorem sliceFrom_inside (before : List Char) {c : Char} (text : List Char) {k : Nat} (hk : 0 < k)
    (hlt : k < c.utf8Size) : sliceFrom (before ++ c :: text) (byteLen before + k) = none := by
  rw [Option.eq_none_iff_forall_ne_some]
  intro rest hrest
  obtain ⟨before', happ, hlen⟩ := sliceFrom_eq_some_iff.mp hrest
  rcases List.append_eq_append_iff.mp happ with ⟨skipped, rfl, hskip⟩ | ⟨skipped, rfl, -⟩
  · rw [byteLen_append] at hlen
    cases skipped with
    | nil =>
      rw [byteLen_nil] at hlen
      omega
    | cons c' skipped =>
      obtain ⟨rfl, -⟩ := List.cons.inj hskip
      rw [byteLen_cons] at hlen
      omega
  · rw [byteLen_append] at hlen
    omega

/-- `&s[..i]`, where it does not panic. -/
def sliceTo : List Char → Nat → Option (List Char)
  | _, 0 => some []
  | [], _ + 1 => none
  | c :: cs, i + 1 =>
    if c.utf8Size ≤ i + 1 then (sliceTo cs (i + 1 - c.utf8Size)).map (c :: ·) else none

theorem sliceTo_append (text rest : List Char) : sliceTo (text ++ rest) (byteLen text) = some text := by
  induction text with
  | nil => cases rest <;> rfl
  | cons c text ih =>
    obtain ⟨n, hn⟩ := Nat.exists_eq_succ_of_ne_zero (Nat.ne_of_gt (byteLen_pos (List.cons_ne_nil c text)))
    rw [hn, List.cons_append, sliceTo, ← Nat.succ_eq_add_one, ← hn, byteLen_cons,
      if_pos (Nat.le_add_right _ _), Nat.add_sub_cancel_left, ih]
    rfl

theorem sliceTo_eq_some {text head : List Char} {n : Nat} (h : sliceTo text n = some head) :
    ∃ after, text = head ++ after ∧ byteLen head = n := by
  induction text, n using sliceTo.induct generalizing head with
  | case1 text =>
    obtain rfl : [] = head := by simpa [sliceTo] using h
    exact ⟨text, rfl, rfl⟩
  | case2 n => simp [sliceTo] at h
  | case3 c text n hle ih =>
    rw [sliceTo, if_pos hle] at h
    obtain ⟨tail, htail, rfl⟩ := Option.map_eq_some_iff.mp h
    obtain ⟨after, rfl, hlen⟩ := ih htail
    exact ⟨after, rfl, by rw [byteLen_cons]; omega⟩
  | case4 c text n hle =>
    rw [sliceTo, if_neg hle] at h
    cases h

theorem RestAt.unique {input rest rest' : List Char} {i : Nat} (h : RestAt input i rest)
    (h' : RestAt input i rest') : rest = rest' :=
  Option.some.inj ((sliceFrom_eq_some_iff.mpr h).symm.trans (sliceFrom_eq_some_iff.mpr h'))

theorem RestAt.start (input : List Char) : RestAt input 0 input := ⟨[], rfl, rfl⟩

theorem RestAt.skip {input rest : List Char} {i : Nat} {skipped : List Char}
    (h : RestAt input i (skipped ++ rest)) : RestAt input (i + byteLen skipped) rest := by
  obtain ⟨before, rfl, rfl⟩ := h
  exact ⟨before ++ skipped, by simp, by simp⟩

theorem RestAt.skip_char {input rest : List Char} {c : Char} {i : Nat}
    (h : RestAt input i (c :: rest)) : RestAt input (i + c.utf8Size) rest :=
  have h : RestAt input i ([c] ++ rest) := h
  h.skip

theorem RestAt.length {input rest : List Char} {i : Nat} (h : RestAt input i rest) :
    byteLen input = i + byteLen rest := by
  obtain ⟨before, rfl, rfl⟩ := h
  exact byteLen_append _ _

-- ---- Steps

/-- Why a scan stops without a result: it fails, it panics, or it has no steps left. -/
inductive Stop
  | fail (text : String)
  | panic
  | unfinished
  deriving DecidableEq, Repr

structure Scanner (ρ : Type) where
  input : List Char
  pos : Nat
  trail : List Nat
  notes : List ρ

def Scanner.new {ρ : Type} (input : List Char) : Scanner ρ := ⟨input, 0, [0], []⟩

abbrev Scan (ρ α : Type) := ExceptT Stop (StateM (Scanner ρ)) α

namespace Scan

variable {ρ α β γ : Type}

def go (m : Scan ρ α) (s : Scanner ρ) : Except Stop α × Scanner ρ := m s

def fail (text : String) : Scan ρ α := throw (.fail text)

def position : Scan ρ Nat := return (← get).pos

def seek (pos : Nat) : Scan ρ Unit :=
  modify fun s => { s with pos := pos, trail := s.trail ++ [pos] }

/-- `self.pos += n` -/
def advance (n : Nat) : Scan ρ Unit :=
  modify fun s => { s with pos := s.pos + n, trail := s.trail ++ [s.pos + n] }

/-- `self.pos >= self.input.len()` -/
def atEnd : Scan ρ Bool := return byteLen (← get).input ≤ (← get).pos

/-- `&self.input[self.pos..]` -/
def rest : Scan ρ (List Char) := do
  let s ← get
  match sliceFrom s.input s.pos with
  | some text => pure text
  | none => throw .panic

/-- `&self.input[self.pos + n..]` -/
def restAfter (n : Nat) : Scan ρ (List Char) := do
  let s ← get
  match sliceFrom s.input (s.pos + n) with
  | some text => pure text
  | none => throw .panic

/-- `&self.input[start..self.pos]` -/
def textSince (start : Nat) : Scan ρ (List Char) := do
  let s ← get
  match (sliceFrom s.input start).bind (sliceTo · (s.pos - start)) with
  | some text => pure text
  | none => throw .panic

/-- `&text[..n]` -/
def upTo (text : List Char) (n : Nat) : Scan ρ (List Char) :=
  match sliceTo text n with
  | some head => pure head
  | none => throw .panic

def within (inner : List Char) (m : Scan ρ α) : Scan ρ α :=
  ExceptT.mk fun s =>
    let (result, scanned) := m.go (Scanner.new inner)
    (result, { s with notes := s.notes ++ scanned.notes })

/-- `self.pos < self.input.len() && self.input[self.pos..].starts_with(c)` -/
def looksAt (c : Char) : Scan ρ Bool := do
  if ← atEnd then return false
  else return (← rest).head? == some c

/-- `self.pos < self.input.len() && self.input[self.pos..].starts_with(text)` -/
def looksAtText (text : List Char) : Scan ρ Bool := do
  if ← atEnd then return false
  else return text.isPrefixOf (← rest)

def note (r : ρ) : Scan ρ Unit := modify fun s => { s with notes := s.notes ++ [r] }

def repeatFor (step : β → Scan ρ (β ⊕ γ)) : Nat → β → Scan ρ γ
  | 0, _ => throw .unfinished
  | fuel + 1, b => do
    match ← step b with
    | .inl b => repeatFor step fuel b
    | .inr c => pure c

def loop (step : β → Scan ρ (β ⊕ γ)) (b : β) : Scan ρ γ := do
  let s ← get
  repeatFor step (byteLen s.input + 1 - s.pos) b

theorem go_bind (m : Scan ρ α) (f : α → Scan ρ β) (s : Scanner ρ) :
    (m >>= f).go s =
      match m.go s with
      | (.ok a, s') => (f a).go s'
      | (.error e, s') => (.error e, s') := by
  unfold go
  change (match m s with | (r, s') => ExceptT.bindCont f r s') = _
  obtain ⟨r, s'⟩ := m s
  cases r <;> rfl

theorem go_rest {s : Scanner ρ} {text : List Char} (h : RestAt s.input s.pos text) :
    (rest : Scan ρ (List Char)).go s = (.ok text, s) := by
  change (match sliceFrom s.input s.pos with
    | some text => (pure text : Scan ρ (List Char))
    | none => throw Stop.panic).go s = _
  rw [sliceFrom_eq_some_iff.mpr h]
  rfl

theorem go_rest_panic {s : Scanner ρ} (h : sliceFrom s.input s.pos = none) :
    (rest : Scan ρ (List Char)).go s = (.error .panic, s) := by
  change (match sliceFrom s.input s.pos with
    | some text => (pure text : Scan ρ (List Char))
    | none => throw Stop.panic).go s = _
  rw [h]
  rfl

theorem go_atEnd (s : Scanner ρ) :
    (atEnd : Scan ρ Bool).go s = (.ok (decide (byteLen s.input ≤ s.pos)), s) := rfl

theorem go_loop (step : β → Scan ρ (β ⊕ γ)) (b : β) (s : Scanner ρ) :
    (loop step b).go s = (repeatFor step (byteLen s.input + 1 - s.pos) b).go s := rfl

end Scan

-- ---- Correct steps

section
variable {ρ α β γ : Type} (plain : ρ → Prop) (input : List Char)

/-- The scanner is on a boundary of the text, and has been on boundaries all the time. -/
structure Sound (s : Scanner ρ) : Prop where
  same : s.input = input
  pos : ∃ rest, RestAt input s.pos rest
  trail : ∀ pos ∈ s.trail, ∃ rest, RestAt input pos rest
  notes : ∀ r ∈ s.notes, plain r

/-- How a correct step ends. -/
inductive Ends (Q : α → Nat → Prop) : Except Stop α × Scanner ρ → Prop
  | ok {a : α} {s : Scanner ρ} (sound : Sound plain input s) (post : Q a s.pos) : Ends Q (.ok a, s)
  | fail {text : String} {s : Scanner ρ} (sound : Sound plain input s) :
      Ends Q (.error (.fail text), s)
  | panic {s : Scanner ρ} (noted : ∃ r ∈ s.notes, ¬plain r) : Ends Q (.error .panic, s)

/-- From a position with `P`, a step of a sound scanner ends on one with `Q`, or it fails, or it has
noted something that is not plain and panics. -/
def Scans (P : Nat → Prop) (m : Scan ρ α) (Q : α → Nat → Prop) : Prop :=
  ∀ s : Scanner ρ, Sound plain input s → P s.pos → Ends plain input Q (m.go s)

variable {plain input} {P P' : Nat → Prop} {Q Q' : α → Nat → Prop}

theorem Sound.start : Sound plain input (Scanner.new input : Scanner ρ) where
  same := rfl
  pos := ⟨input, RestAt.start input⟩
  trail _ hpos := ⟨input, List.mem_singleton.mp hpos ▸ RestAt.start input⟩
  notes _ hr := nomatch hr

theorem Sound.seek {s : Scanner ρ} (h : Sound plain input s) {pos : Nat}
    (hpos : ∃ rest, RestAt input pos rest) :
    Sound plain input { s with pos := pos, trail := s.trail ++ [pos] } where
  same := h.same
  pos := hpos
  trail p hp := by
    rcases List.mem_append.mp hp with hp | hp
    · exact h.trail p hp
    · exact List.mem_singleton.mp hp ▸ hpos
  notes := h.notes

theorem Sound.pos_le {s : Scanner ρ} (h : Sound plain input s) : s.pos ≤ byteLen input := by
  obtain ⟨rest, hrest⟩ := h.pos
  exact hrest.length ▸ Nat.le_add_right _ _

theorem Ends.mono {result : Except Stop α × Scanner ρ} (h : Ends plain input Q result)
    (hQ : ∀ a pos, Q a pos → Q' a pos) : Ends plain input Q' result := by
  cases h with
  | ok sound post => exact .ok sound (hQ _ _ post)
  | fail sound => exact .fail sound
  | panic noted => exact .panic noted

namespace Scans

theorem mono {m : Scan ρ α} (h : Scans plain input P' m Q') (hP : ∀ pos, P pos → P' pos)
    (hQ : ∀ a pos, Q' a pos → Q a pos) : Scans plain input P m Q :=
  fun s sound pre => (h s sound (hP _ pre)).mono hQ

theorem pre {m : Scan ρ α} (h : Scans plain input P' m Q) (hP : ∀ pos, P pos → P' pos) :
    Scans plain input P m Q := h.mono hP fun _ _ => id

theorem post {m : Scan ρ α} (h : Scans plain input P m Q') (hQ : ∀ a pos, Q' a pos → Q a pos) :
    Scans plain input P m Q := h.mono (fun _ => id) hQ

theorem given {φ : Prop} {m : Scan ρ α} (h : ∀ pos, P pos → φ)
    (hm : φ → Scans plain input P m Q) : Scans plain input P m Q :=
  fun s sound pre => hm (h _ pre) s sound pre

theorem at_pos {m : Scan ρ α} (h : ∀ p, P p → Scans plain input (· = p) m Q) :
    Scans plain input P m Q :=
  fun s sound pre => h s.pos pre s sound rfl

theorem bind {R : β → Nat → Prop} {m : Scan ρ α} {f : α → Scan ρ β}
    (hm : Scans plain input P m Q) (hf : ∀ a, Scans plain input (Q a) (f a) R) :
    Scans plain input P (m >>= f) R := by
  intro s sound pre
  rw [Scan.go_bind]
  have h := hm s sound pre
  generalize m.go s = result at h
  cases h with
  | ok sound post => exact hf _ _ sound post
  | fail sound => exact .fail sound
  | panic noted => exact .panic noted

theorem pure {a : α} (h : ∀ pos, P pos → Q a pos) :
    Scans plain input P (Pure.pure a : Scan ρ α) Q :=
  fun _ sound pre => .ok sound (h _ pre)

theorem fail {text : String} : Scans plain input P (Scan.fail text : Scan ρ α) Q :=
  fun _ sound _ => .fail sound

theorem ite {condition : Prop} [Decidable condition] {m m' : Scan ρ α}
    (h : condition → Scans plain input P m Q) (h' : ¬condition → Scans plain input P m' Q) :
    Scans plain input P (if condition then m else m') Q := by
  split
  · exact h ‹_›
  · exact h' ‹_›

theorem position : Scans plain input P (Scan.position : Scan ρ Nat)
    fun saved pos => P pos ∧ saved = pos ∧ ∃ rest, RestAt input saved rest :=
  fun _ sound pre => .ok sound ⟨pre, rfl, sound.pos⟩

theorem seek {saved : Nat} {Q : Unit → Nat → Prop} (hsaved : ∃ rest, RestAt input saved rest)
    (h : Q () saved) : Scans plain input P (Scan.seek saved : Scan ρ Unit) Q :=
  fun _ sound _ => .ok (sound.seek hsaved) h

theorem advance {n : Nat} {Q : Unit → Nat → Prop}
    (h : ∀ pos, P pos → (∃ rest, RestAt input (pos + n) rest) ∧ Q () (pos + n)) :
    Scans plain input P (Scan.advance n : Scan ρ Unit) Q :=
  fun _ sound pre => .ok (sound.seek (h _ pre).1) (h _ pre).2

theorem advance_text {n : Nat} {Q : Unit → Nat → Prop}
    (h : ∀ pos, P pos → Q () (pos + n) ∧
      ∃ skipped rest, byteLen skipped = n ∧ RestAt input pos (skipped ++ rest)) :
    Scans plain input P (Scan.advance n : Scan ρ Unit) Q := by
  refine Scans.advance fun pos pre => ?_
  obtain ⟨hpost, skipped, rest, rfl, hrest⟩ := h pos pre
  exact ⟨⟨rest, hrest.skip⟩, hpost⟩

theorem restAfter {n : Nat} (h : ∀ pos, P pos → ∃ rest, RestAt input (pos + n) rest) :
    Scans plain input P (Scan.restAfter n : Scan ρ (List Char))
      fun text pos => P pos ∧ RestAt input (pos + n) text := by
  intro s sound pre
  obtain ⟨text, htext⟩ := h _ pre
  have hslice := sliceFrom_eq_some_iff.mpr (sound.same ▸ htext)
  have hgo : (Scan.restAfter n : Scan ρ (List Char)).go s = (.ok text, s) := by
    change (match sliceFrom s.input (s.pos + n) with
      | some text => (Pure.pure text : Scan ρ (List Char))
      | none => throw Stop.panic).go s = _
    rw [hslice]
    rfl
  rw [hgo]
  exact .ok sound ⟨pre, htext⟩

theorem rest : Scans plain input P (Scan.rest : Scan ρ (List Char))
    fun text pos => P pos ∧ RestAt input pos text :=
  fun s sound pre =>
    Scans.restAfter (n := 0) (P := (· = s.pos)) (fun _ h => h ▸ sound.pos) s sound rfl |>.mono
      fun _ _ h => ⟨h.1 ▸ pre, h.2⟩

theorem textSince {start : Nat} (h : ∀ pos, P pos → ∃ text rest, RestAt input start (text ++ rest) ∧
      pos = start + byteLen text) :
    Scans plain input P (Scan.textSince start : Scan ρ (List Char)) fun _ => P := by
  intro s sound pre
  obtain ⟨text, rest, hrest, hpos⟩ := h _ pre
  have hslice := sliceFrom_eq_some_iff.mpr (sound.same ▸ hrest)
  have hgo : (Scan.textSince start : Scan ρ (List Char)).go s = (.ok text, s) := by
    change (match (sliceFrom s.input start).bind (sliceTo · (s.pos - start)) with
      | some text => (Pure.pure text : Scan ρ (List Char))
      | none => throw Stop.panic).go s = _
    rw [hslice, Option.bind_some, hpos, Nat.add_sub_cancel_left, sliceTo_append]
    rfl
  rw [hgo]
  exact .ok sound pre

theorem upTo {text : List Char} {n : Nat}
    (h : ∀ pos, P pos → ∃ head after, text = head ++ after ∧ byteLen head = n) :
    Scans plain input P (Scan.upTo text n : Scan ρ (List Char))
      fun head pos => P pos ∧ byteLen head = n ∧ ∃ after, text = head ++ after := by
  intro s sound pre
  obtain ⟨head, after, rfl, rfl⟩ := h _ pre
  rw [Scan.upTo, sliceTo_append]
  exact .ok sound ⟨pre, rfl, after, rfl⟩

theorem within {inner : List Char} {m : Scan ρ α} {R : α → Nat → Prop}
    (h : Scans plain inner (· = 0) m R) :
    Scans plain input P (Scan.within inner m) fun a pos => P pos ∧ ∃ stop, R a stop := by
  intro s sound pre
  have hends := h (Scanner.new inner) Sound.start rfl
  change Ends plain input _ ((m.go (Scanner.new inner)).1,
    { s with notes := s.notes ++ (m.go (Scanner.new inner)).2.notes })
  generalize m.go (Scanner.new inner) = result at hends
  have hnotes : ∀ {scanned : Scanner ρ}, Sound plain inner scanned →
      Sound plain input { s with notes := s.notes ++ scanned.notes } := by
    refine fun hinner => ⟨sound.same, sound.pos, sound.trail, fun r hr => ?_⟩
    rcases List.mem_append.mp hr with hr | hr
    · exact sound.notes r hr
    · exact hinner.notes r hr
  cases hends with
  | ok hinner post => exact .ok (hnotes hinner) ⟨pre, _, post⟩
  | fail hinner => exact .fail (hnotes hinner)
  | panic noted =>
    obtain ⟨r, hr, hplain⟩ := noted
    exact .panic ⟨r, List.mem_append_right _ hr, hplain⟩

theorem atEnd : Scans plain input P (Scan.atEnd : Scan ρ Bool)
    fun ended pos => P pos ∧ (ended = true → RestAt input pos []) ∧
      (ended = false → pos < byteLen input) := by
  intro s sound pre
  refine .ok sound ⟨pre, fun hended => ?_, fun hended => ?_⟩
  · obtain ⟨text, htext⟩ := sound.pos
    have hlen := htext.length
    have hle : byteLen s.input ≤ s.pos := of_decide_eq_true hended
    rw [sound.same] at hle
    cases text with
    | nil => exact htext
    | cons c text =>
      have hpos := c.utf8Size_pos
      rw [byteLen_cons] at hlen
      omega
  · exact sound.same ▸ Nat.lt_of_not_le (of_decide_eq_false hended)

theorem seen {test : List Char → Bool} :
    Scans plain input P (do if ← Scan.atEnd then return false else return test (← Scan.rest) :
      Scan ρ Bool)
      fun found pos => P pos ∧ (found = true → ∃ text, RestAt input pos text ∧ test text = true) := by
  refine Scans.bind Scans.atEnd fun ended => ?_
  cases ended with
  | true => exact Scans.pure fun pos h => ⟨h.1, fun h => nomatch h⟩
  | false =>
    exact Scans.bind Scans.rest fun text => Scans.pure fun pos h =>
      ⟨h.1.1, fun hfound => ⟨text, h.2, hfound⟩⟩

theorem looksAt (c : Char) : Scans plain input P (Scan.looksAt c : Scan ρ Bool)
    fun found pos => P pos ∧ (found = true → ∃ text, RestAt input pos (c :: text)) := by
  refine Scans.seen.post fun found pos h => ⟨h.1, fun hfound => ?_⟩
  obtain ⟨text, htext, hhead⟩ := h.2 hfound
  cases text with
  | nil => cases hhead
  | cons c' text =>
    obtain rfl : c' = c := Option.some.inj (eq_of_beq hhead)
    exact ⟨text, htext⟩

theorem looksAtText (text : List Char) : Scans plain input P (Scan.looksAtText text : Scan ρ Bool)
    fun found pos => P pos ∧ (found = true → ∃ rest, RestAt input pos (text ++ rest)) := by
  refine Scans.seen.post fun found pos h => ⟨h.1, fun hfound => ?_⟩
  obtain ⟨all, hall, hprefix⟩ := h.2 hfound
  obtain ⟨rest, rfl⟩ := List.isPrefixOf_iff_prefix.mp hprefix
  exact ⟨rest, hall⟩

theorem note {r : ρ} (hr : plain r) {m : Scan ρ α} (h : Scans plain input P m Q) :
    Scans plain input P (do Scan.note r; m) Q := by
  refine Scans.bind (Q := fun _ pos => P pos) (fun s sound pre => ?_) fun _ => h
  refine .ok ⟨sound.same, sound.pos, sound.trail, fun r' hr' => ?_⟩ pre
  rcases List.mem_append.mp hr' with hr' | hr'
  · exact sound.notes r' hr'
  · exact List.mem_singleton.mp hr' ▸ hr

theorem note_panic {r : ρ} (hr : ¬plain r) {m : Scan ρ α}
    (h : ∀ s : Scanner ρ, s.input = input → P s.pos → ∃ s', m.go s = (.error .panic, s') ∧
      s.notes ⊆ s'.notes) :
    Scans plain input P (do Scan.note r; m) Q := by
  intro s sound pre
  obtain ⟨s', hgo, hsub⟩ := h { s with notes := s.notes ++ [r] } sound.same pre
  change Ends plain input Q (m.go { s with notes := s.notes ++ [r] })
  rw [hgo]
  exact .panic ⟨r, hsub (List.mem_append_right _ List.mem_cons_self), hr⟩

theorem bounded {m : Nat → Scan ρ α} {I : Nat → Prop} {p₀ : Nat}
    (h : ∀ steps p, p₀ ≤ p → byteLen input < p + steps →
      Scans plain input (fun pos => p ≤ pos ∧ I pos) (m steps) Q) :
    Scans plain input (fun pos => p₀ ≤ pos ∧ I pos)
      (do let s ← get; m (byteLen s.input + 1 - s.pos)) Q := by
  intro s sound pre
  have hpos := sound.pos_le
  refine h _ s.pos pre.1 ?_ s sound ⟨Nat.le_refl s.pos, pre.2⟩
  rw [sound.same]
  omega

theorem loop {step : β → Scan ρ (β ⊕ γ)} {I : Nat → Prop} {R : γ → Nat → Prop} {p₀ : Nat}
    (hstep : ∀ b p, p₀ ≤ p → Scans plain input (fun pos => p ≤ pos ∧ I pos) (step b) fun r pos =>
      match r with
      | .inl _ => p < pos ∧ I pos
      | .inr c => R c pos)
    (b : β) : Scans plain input (fun pos => p₀ ≤ pos ∧ I pos) (Scan.loop step b) R := by
  refine Scans.bounded (m := fun fuel => Scan.repeatFor step fuel b) fun fuel => ?_
  induction fuel generalizing b with
  | zero =>
    intro p _ hfuel s sound pre
    have hpos := sound.pos_le
    have := pre.1
    omega
  | succ fuel ih =>
    intro p hp hfuel
    refine Scans.bind (hstep b p hp) fun r => ?_
    cases r with
    | inl b' => exact (ih b' (p + 1) (Nat.le_succ_of_le hp) (by omega)).pre fun pos hpos => hpos
    | inr c => exact Scans.pure fun _ h => h

end Scans

-- ---- Progress

variable (plain input) in
/-- From where `K` is known, not before `p₀`, the step moves on by at least the gain of its
result. -/
def Gains (K : Nat → Prop) (p₀ : Nat) (m : Scan ρ α) (gain : α → Nat) : Prop :=
  ∀ p, p₀ ≤ p → Scans plain input (fun pos => p ≤ pos ∧ K pos) m fun a pos => p + gain a ≤ pos

variable (plain input) in
/-- The step does not move, and it tells `R` of its result and the position. -/
def Reads (m : Scan ρ α) (R : α → Nat → Prop) : Prop :=
  ∀ P : Nat → Prop, Scans plain input P m fun a pos => P pos ∧ R a pos

abbrev Anywhere : Nat → Prop := fun _ => True

def goingOn : β ⊕ γ → Nat
  | .inl _ => 1
  | .inr _ => 0

theorem goingOn_le_one (r : β ⊕ γ) : goingOn r ≤ 1 := by
  cases r with
  | inl _ => exact Nat.le_refl 1
  | inr _ => exact Nat.zero_le 1

theorem Reads.gains {m : Scan ρ α} {R : α → Nat → Prop} {K : Nat → Prop} {p₀ : Nat}
    (h : Reads plain input m R) : Gains plain input K p₀ m fun _ => 0 :=
  fun _ _ => (h _).post fun _ _ h => h.1.1

namespace Gains

variable {K K' : Nat → Prop} {p₀ p₁ : Nat} {gain gain' : α → Nat}

theorem mono {m : Scan ρ α} (h : Gains plain input K' p₁ m gain') (hK : ∀ pos, K pos → K' pos)
    (hp : p₁ ≤ p₀) (hgain : ∀ a, gain a ≤ gain' a) : Gains plain input K p₀ m gain :=
  fun p hp₀ => (h p (Nat.le_trans hp hp₀)).mono (fun _ h => ⟨h.1, hK _ h.2⟩) fun a _ h =>
    Nat.le_trans (Nat.add_le_add_left (hgain a) p) h

theorem anywhere {m : Scan ρ α} (h : Gains plain input Anywhere p₀ m gain) :
    Gains plain input K p₀ m gain := h.mono (fun _ _ => trivial) (Nat.le_refl _) fun _ => Nat.le_refl _

theorem later {m : Scan ρ α} (h : Gains plain input Anywhere p₁ m gain) (hp : p₁ ≤ p₀) :
    Gains plain input K p₀ m gain := h.mono (fun _ _ => trivial) hp fun _ => Nat.le_refl _

theorem least {m : Scan ρ α} (h : Gains plain input K p₀ m gain) :
    Gains plain input K p₀ m fun _ => 0 := h.mono (fun _ => id) (Nat.le_refl _) fun _ => Nat.zero_le _

theorem later_least {m : Scan ρ α} (h : Gains plain input Anywhere p₁ m gain) (hp : p₁ ≤ p₀) :
    Gains plain input K p₀ m fun _ => 0 := (h.later hp).least

theorem beyond {m : Scan ρ α} (h : byteLen input < p₀) : Gains plain input K p₀ m gain :=
  fun _ hp _ sound pre =>
    absurd (Nat.le_trans (Nat.le_trans hp pre.1) sound.pos_le) (Nat.not_le_of_gt h)

theorem pure {a : α} (h : gain a = 0) : Gains plain input K p₀ (Pure.pure a : Scan ρ α) gain :=
  fun _ _ => Scans.pure fun _ hpos => h ▸ hpos.1

theorem fail {text : String} : Gains plain input K p₀ (Scan.fail text : Scan ρ α) gain :=
  fun _ _ => Scans.fail

theorem bind {m : Scan ρ α} {f : α → Scan ρ β} {gain' : β → Nat}
    (hm : Gains plain input K p₀ m gain)
    (hf : ∀ a, Gains plain input Anywhere (p₀ + gain a) (f a) fun b => gain' b - gain a) :
    Gains plain input K p₀ (m >>= f) gain' := by
  refine fun p hp => Scans.bind (hm p hp) fun a => ?_
  refine (hf a (p + gain a) (Nat.add_le_add_right hp _)).mono (fun _ h => ⟨h, trivial⟩)
    fun b pos h => ?_
  simp only at h
  omega

theorem stay {m : Scan ρ α} {f : α → Scan ρ β} {gain : β → Nat}
    (hm : Gains plain input K p₀ m fun _ => 0)
    (hf : ∀ a, Gains plain input Anywhere p₀ (f a) gain) : Gains plain input K p₀ (m >>= f) gain :=
  bind hm hf

theorem move {m : Scan ρ α} {f : α → Scan ρ β} {gain : β → Nat}
    (hm : Gains plain input K p₀ m fun _ => 1)
    (hf : ∀ a, Gains plain input Anywhere (p₀ + 1) (f a) fun b => gain b - 1) :
    Gains plain input K p₀ (m >>= f) gain :=
  bind hm hf

theorem map {m : Scan ρ α} {f : α → β} {gain : β → Nat}
    (hm : Gains plain input K p₀ m fun a => gain (f a)) :
    Gains plain input K p₀ (f <$> m) gain := by
  rw [map_eq_pure_bind]
  exact fun p hp => Scans.bind (hm p hp) fun a => Scans.pure fun _ h => h

theorem read {m : Scan ρ α} {R : α → Nat → Prop} {f : α → Scan ρ β} {gain : β → Nat}
    (hm : Reads plain input m R)
    (hf : ∀ a, Gains plain input (fun pos => K pos ∧ R a pos) p₀ (f a) gain) :
    Gains plain input K p₀ (m >>= f) gain :=
  fun p hp => Scans.bind (hm _) fun a => (hf a p hp).pre fun _ h => ⟨h.1.1, h.1.2, h.2⟩

theorem restAfter {n : Nat} {f : List Char → Scan ρ α}
    (hK : ∀ pos, K pos → ∃ rest, RestAt input (pos + n) rest)
    (hf : ∀ text, Gains plain input K p₀ (f text) gain) :
    Gains plain input K p₀ (Scan.restAfter n >>= f) gain :=
  fun p hp => Scans.bind (Scans.restAfter fun pos h => hK pos h.2) fun text =>
    (hf text p hp).pre fun _ h => h.1

theorem saving {f : Nat → Scan ρ α} (h : ∀ saved, p₀ ≤ saved → (∃ rest, RestAt input saved rest) →
      Scans plain input (saved ≤ ·) (f saved) fun a pos => saved + gain a ≤ pos) :
    Gains plain input K p₀ (Scan.position >>= f) gain := by
  refine fun p hp => Scans.bind Scans.position fun saved => ?_
  refine Scans.given (φ := p ≤ saved ∧ ∃ rest, RestAt input saved rest) (fun pos h => ?_) fun hsaved => ?_
  · exact ⟨h.2.1 ▸ h.1.1, h.2.2⟩
  · refine (h saved (Nat.le_trans hp hsaved.1) hsaved.2).mono (fun pos h => ?_) fun a pos ha => ?_
    · exact Nat.le_of_eq h.2.1
    · exact Nat.le_trans (Nat.add_le_add_right hsaved.1 _) ha

theorem from_pos {m : Scan ρ α} (h : Gains plain input Anywhere p₁ m gain) {p : Nat} (hp : p₁ ≤ p) :
    Scans plain input (p ≤ ·) m fun a pos => p + gain a ≤ pos := (h p hp).pre fun _ h => ⟨h, trivial⟩

theorem sound {m : Scan ρ α} (h : Gains plain input Anywhere p₀ m gain) {s s' : Scanner ρ} {a : α}
    (hs : Sound plain input s) (hpos : p₀ ≤ s.pos) (hgo : m.go s = (.ok a, s')) :
    Sound plain input s' := by
  have hends := h s.pos hpos s hs ⟨Nat.le_refl _, trivial⟩
  rw [hgo] at hends
  cases hends with
  | ok sound _ => exact sound

theorem test {m : Scan ρ Bool} {R : Bool → Nat → Prop} {yes no : Scan ρ α}
    (hm : Reads plain input m R)
    (hyes : Gains plain input (fun pos => K pos ∧ R true pos) p₀ yes gain)
    (hno : Gains plain input (fun pos => K pos ∧ R false pos) p₀ no gain) :
    Gains plain input K p₀ (m >>= fun b => if b = true then yes else no) gain := by
  refine read hm fun b => ?_
  cases b with
  | true => exact hyes
  | false => exact hno

theorem advance_text {n : Nat} (hn : 0 < n) (hK : ∀ pos, K pos →
      ∃ skipped rest, byteLen skipped = n ∧ RestAt input pos (skipped ++ rest)) :
    Gains plain input K p₀ (Scan.advance n : Scan ρ Unit) fun _ => 1 :=
  fun _ _ => Scans.advance_text fun pos h => ⟨Nat.add_le_add h.1 hn, hK pos h.2⟩

theorem advance_char {c : Char} {f : Unit → Scan ρ α} (hc : c.utf8Size = 1)
    (hK : ∀ pos, K pos → ∃ text, RestAt input pos (c :: text))
    (hf : Gains plain input Anywhere (p₀ + 1) (f ()) fun a => gain a - 1) :
    Gains plain input K p₀ (Scan.advance 1 >>= f) gain := by
  refine bind (advance_text Nat.one_pos fun pos h => ?_) fun _ => hf
  obtain ⟨text, htext⟩ := hK pos h
  exact ⟨[c], text, by rw [byteLen_cons, hc, byteLen_nil], htext⟩

theorem take {c : Char} {f : Unit → Scan ρ α} {no : Scan ρ α} (hc : c.utf8Size = 1)
    (hyes : Gains plain input Anywhere (p₀ + 1) (f ()) fun a => gain a - 1)
    (hno : Gains plain input K p₀ no gain) :
    Gains plain input K p₀
      (Scan.looksAt c >>= fun b => if b = true then Scan.advance 1 >>= f else no) gain :=
  test (fun _ => Scans.looksAt c) (advance_char hc (fun _ h => h.2 rfl) hyes)
    (hno.mono (fun _ h => h.1) (Nat.le_refl _) fun _ => Nat.le_refl _)

theorem loop {step : β → Scan ρ (β ⊕ γ)} (h : ∀ b, Gains plain input Anywhere p₀ (step b) goingOn)
    (b : β) : Gains plain input K p₀ (Scan.loop step b) fun _ => 0 := by
  refine anywhere fun p hp => Scans.loop (fun b p' hp' => ?_) b
  refine ((h b) p' (Nat.le_trans hp hp')).post fun r pos hr => ?_
  cases r with
  | inl _ => exact ⟨hr, trivial⟩
  | inr _ => exact Nat.le_trans hp' hr

theorem bounded {m : Nat → Scan ρ α}
    (h : ∀ steps p, p₀ ≤ p → byteLen input < p + steps →
      Gains plain input Anywhere p (m steps) gain) :
    Gains plain input K p₀ (do let s ← get; m (byteLen s.input + 1 - s.pos)) gain := by
  refine anywhere fun p hp => Scans.bounded fun steps p' hp' hsteps => ?_
  refine (h steps p' (Nat.le_trans hp hp') hsteps p' (Nat.le_refl _)).post fun a pos ha => ?_
  omega

end Gains

end

-- ---- Runs behind another text

theorem sliceFrom_append (before cs : List Char) (i : Nat) :
    sliceFrom (before ++ cs) (byteLen before + i) = sliceFrom cs i := by
  induction before with
  | nil => simp
  | cons c before ih =>
    obtain ⟨n, hn⟩ := Nat.exists_eq_succ_of_ne_zero
      (show byteLen (c :: before) + i ≠ 0 from Nat.ne_of_gt
        (Nat.add_pos_left (byteLen_pos (List.cons_ne_nil c before)) i))
    have hlen : n + 1 = c.utf8Size + (byteLen before + i) := by
      rw [← Nat.succ_eq_add_one, ← hn, byteLen_cons, Nat.add_assoc]
    rw [hn, List.cons_append, sliceFrom, hlen, if_pos (Nat.le_add_right _ _),
      Nat.add_sub_cancel_left, ih]

section
variable {ρ α β γ δ : Type} {before : List Char}

structure Shifted (before : List Char) (s s' : Scanner ρ) : Prop where
  input : s'.input = before ++ s.input
  pos : s'.pos = byteLen before + s.pos

/-- Where the one scan has a result, the other has one too, and both with `R`. -/
def Leads (before : List Char) (s s' : Scanner ρ) (m : Scan ρ α) (m' : Scan ρ β)
    (R : α → β → Scanner ρ → Prop) : Prop :=
  ∀ a t, m.go s = (.ok a, t) → ∃ b t', m'.go s' = (.ok b, t') ∧ Shifted before t t' ∧ R a b t

/-- The results of the one scan are those of the other behind the text. -/
def Agrees (before : List Char) (m m' : Scan ρ α) : Prop :=
  ∀ s s', Shifted before s s' → Leads before s s' m m' fun a b _ => a = b

variable {s s' : Scanner ρ}

theorem Shifted.length (h : Shifted before s s') :
    byteLen s'.input + 1 - s'.pos = byteLen s.input + 1 - s.pos := by
  rw [h.input, h.pos, byteLen_append]
  omega

theorem Leads.bind {m : Scan ρ α} {m' : Scan ρ β} {f : α → Scan ρ γ} {f' : β → Scan ρ δ}
    {R : α → β → Scanner ρ → Prop} {R' : γ → δ → Scanner ρ → Prop} (h : Leads before s s' m m' R)
    (hf : ∀ a b t t', R a b t → Shifted before t t' → Leads before t t' (f a) (f' b) R') :
    Leads before s s' (m >>= f) (m' >>= f') R' := by
  intro c t hgo
  rw [Scan.go_bind] at hgo
  rcases hm : m.go s with ⟨_ | a, u⟩
  · rw [hm] at hgo
    cases hgo
  · rw [hm] at hgo
    obtain ⟨b, u', hm', hshift, hR⟩ := h a u hm
    obtain ⟨d, t', hgo', hend⟩ := hf a b u u' hR hshift c t hgo
    refine ⟨d, t', ?_, hend⟩
    rw [Scan.go_bind, hm']
    exact hgo'

theorem Leads.pure {a : α} {b : β} {R : α → β → Scanner ρ → Prop} (hs : Shifted before s s')
    (h : R a b s) : Leads before s s' (Pure.pure a) (Pure.pure b) R := by
  rintro _ _ hgo
  cases hgo
  exact ⟨b, s', rfl, hs, h⟩

theorem Leads.mono {m : Scan ρ α} {m' : Scan ρ β} {R R' : α → β → Scanner ρ → Prop}
    (h : Leads before s s' m m' R) (hR : ∀ a b t, R a b t → R' a b t) : Leads before s s' m m' R' := by
  intro a t hgo
  obtain ⟨b, t', hgo', hshift, hab⟩ := h a t hgo
  exact ⟨b, t', hgo', hshift, hR a b t hab⟩

theorem Leads.ite {condition : Prop} [Decidable condition] {m n : Scan ρ α} {m' n' : Scan ρ β}
    {R : α → β → Scanner ρ → Prop} (h : condition → Leads before s s' m m' R)
    (h' : ¬condition → Leads before s s' n n' R) :
    Leads before s s' (if condition then m else n) (if condition then m' else n') R := by
  split
  · exact h ‹_›
  · exact h' ‹_›

theorem Leads.map {m : Scan ρ α} {m' : Scan ρ β} {g : β → γ} {R : α → β → Scanner ρ → Prop}
    {R' : α → γ → Scanner ρ → Prop} (h : Leads before s s' m m' R)
    (hg : ∀ a b t, R a b t → R' a (g b) t) :
    Leads before s s' m (m' >>= fun b => Pure.pure (g b)) R' := by
  intro a t hgo
  obtain ⟨b, t', hgo', hshift, hab⟩ := h a t hgo
  refine ⟨g b, t', ?_, hshift, hg a b t hab⟩
  rw [Scan.go_bind, hgo']
  rfl

theorem Leads.behind {m : Scan ρ α} {m' : Scan ρ δ} {f' : δ → Scan ρ β} {d : δ} {t' : Scanner ρ}
    {R : α → β → Scanner ρ → Prop} (hgo : m'.go s' = (.ok d, t'))
    (h : Leads before s t' m (f' d) R) : Leads before s s' m (m' >>= f') R := by
  intro a t hm
  obtain ⟨b, u', hf, hend⟩ := h a t hm
  refine ⟨b, u', ?_, hend⟩
  rw [Scan.go_bind, hgo]
  exact hf

theorem Leads.after {m m' : Scan ρ α} {f : α → Scan ρ β} {f' : α → Scan ρ γ}
    {R : β → γ → Scanner ρ → Prop} (hm : Agrees before m m') (hs : Shifted before s s')
    (hf : ∀ a t t', m.go s = (.ok a, t) → Shifted before t t' → Leads before t t' (f a) (f' a) R) :
    Leads before s s' (m >>= f) (m' >>= f') R := by
  have hsame : Leads before s s' m m' fun a b t => a = b ∧ m.go s = (.ok a, t) := by
    intro a t hgo
    obtain ⟨b, t', hgo', hshift, rfl⟩ := hm s s' hs a t hgo
    exact ⟨a, t', hgo', hshift, rfl, hgo⟩
  refine hsame.bind ?_
  rintro a _ t t' ⟨rfl, hgo⟩ ht
  exact hf a t t' hgo ht

theorem Leads.position {f : Nat → Scan ρ α} {f' : Nat → Scan ρ β} {R : α → β → Scanner ρ → Prop}
    (h : Leads before s s' (f s.pos) (f' s'.pos) R) :
    Leads before s s' (Scan.position >>= f) (Scan.position >>= f') R := h

def sliced : Option α → Except Stop α
  | some a => .ok a
  | none => .error .panic

theorem go_rest_sliced (s : Scanner ρ) :
    (Scan.rest : Scan ρ (List Char)).go s = (sliced (sliceFrom s.input s.pos), s) := by
  change (match sliceFrom s.input s.pos with
    | some text => (Pure.pure text : Scan ρ (List Char))
    | none => throw Stop.panic).go s = _
  cases sliceFrom s.input s.pos <;> rfl

namespace Agrees

theorem bind {m m' : Scan ρ α} {f f' : α → Scan ρ β} (h : Agrees before m m')
    (hf : ∀ a, Agrees before (f a) (f' a)) : Agrees before (m >>= f) (m' >>= f') := by
  intro s s' hs
  refine (h s s' hs).bind ?_
  rintro a _ t t' rfl ht
  exact hf a t t' ht

theorem pure {a : α} : Agrees before (Pure.pure a : Scan ρ α) (Pure.pure a) :=
  fun _ _ hs => Leads.pure hs rfl

theorem throw {stop : Stop} {m' : Scan ρ α} : Agrees before (throw stop) m' :=
  fun _ _ _ _ _ hgo => nomatch hgo

theorem fail {text : String} {m' : Scan ρ α} : Agrees before (Scan.fail text) m' := throw

theorem ite {condition : Prop} [Decidable condition] {m m' n n' : Scan ρ α}
    (h : Agrees before m m') (h' : Agrees before n n') :
    Agrees before (if condition then m else n) (if condition then m' else n') := by
  split
  · exact h
  · exact h'

theorem read {m m' : Scan ρ α} {r r' : Scanner ρ → Except Stop α}
    (hm : ∀ s, m.go s = (r s, s)) (hm' : ∀ s, m'.go s = (r' s, s))
    (h : ∀ s s', Shifted before s s' → r' s' = r s) : Agrees before m m' := by
  rintro s s' hs a t hgo
  rw [hm] at hgo
  obtain ⟨hr, rfl⟩ := Prod.mk.inj hgo
  exact ⟨a, s', by rw [hm', h s s' hs, hr], hs, rfl⟩

theorem atEnd : Agrees before (Scan.atEnd : Scan ρ Bool) Scan.atEnd := by
  refine read Scan.go_atEnd Scan.go_atEnd fun s s' hs => ?_
  simp only [hs.input, hs.pos, byteLen_append, Nat.add_le_add_iff_left]

theorem rest : Agrees before (Scan.rest : Scan ρ (List Char)) Scan.rest := by
  refine read go_rest_sliced go_rest_sliced fun s s' hs => ?_
  rw [hs.input, hs.pos, sliceFrom_append]

theorem restAfter (n : Nat) :
    Agrees before (Scan.restAfter n : Scan ρ (List Char)) (Scan.restAfter n) := by
  have hgo : ∀ s : Scanner ρ, (Scan.restAfter n : Scan ρ (List Char)).go s =
      (sliced (sliceFrom s.input (s.pos + n)), s) := by
    intro s
    change (match sliceFrom s.input (s.pos + n) with
      | some text => (Pure.pure text : Scan ρ (List Char))
      | none => MonadExcept.throw Stop.panic).go s = _
    cases sliceFrom s.input (s.pos + n) <;> rfl
  refine read hgo hgo fun s s' hs => ?_
  rw [hs.input, hs.pos, Nat.add_assoc, sliceFrom_append]

theorem textSince (start : Nat) : Agrees before (Scan.textSince start : Scan ρ (List Char))
    (Scan.textSince (byteLen before + start)) := by
  have hgo : ∀ start (s : Scanner ρ), (Scan.textSince start : Scan ρ (List Char)).go s =
      (sliced ((sliceFrom s.input start).bind (sliceTo · (s.pos - start))), s) := by
    intro start s
    change (match (sliceFrom s.input start).bind (sliceTo · (s.pos - start)) with
      | some text => (Pure.pure text : Scan ρ (List Char))
      | none => MonadExcept.throw Stop.panic).go s = _
    cases (sliceFrom s.input start).bind (sliceTo · (s.pos - start)) <;> rfl
  refine read (hgo _) (hgo _) fun s s' hs => ?_
  simp only [hs.input, hs.pos, sliceFrom_append, Nat.add_sub_add_left]

theorem looksAt (c : Char) : Agrees before (Scan.looksAt c : Scan ρ Bool) (Scan.looksAt c) :=
  atEnd.bind fun _ => ite pure (rest.bind fun _ => pure)

theorem looksAtText (text : List Char) :
    Agrees before (Scan.looksAtText text : Scan ρ Bool) (Scan.looksAtText text) :=
  atEnd.bind fun _ => ite pure (rest.bind fun _ => pure)

theorem position {f f' : Nat → Scan ρ α} (h : ∀ p, Agrees before (f p) (f' (byteLen before + p))) :
    Agrees before (Scan.position >>= f) (Scan.position >>= f') := by
  rintro s s' hs
  have hf := h s.pos s s' hs
  rw [← hs.pos] at hf
  exact hf

theorem seek (p : Nat) :
    Agrees before (Scan.seek p : Scan ρ Unit) (Scan.seek (byteLen before + p)) := by
  rintro s s' hs _ _ hgo
  cases hgo
  exact ⟨(), _, rfl, ⟨hs.input, rfl⟩, rfl⟩

theorem advance (n : Nat) : Agrees before (Scan.advance n : Scan ρ Unit) (Scan.advance n) := by
  rintro s s' hs _ _ hgo
  cases hgo
  exact ⟨(), _, rfl, ⟨hs.input, by simp only [hs.pos, Nat.add_assoc]⟩, rfl⟩

theorem note (r : ρ) : Agrees before (Scan.note r) (Scan.note r) := by
  rintro s s' hs _ _ hgo
  cases hgo
  exact ⟨(), _, rfl, ⟨hs.input, hs.pos⟩, rfl⟩

theorem loop {step step' : β → Scan ρ (β ⊕ γ)} (h : ∀ b, Agrees before (step b) (step' b)) (b : β) :
    Agrees before (Scan.loop step b) (Scan.loop step' b) := by
  have hsteps : ∀ fuel b, Agrees before (Scan.repeatFor step fuel b) (Scan.repeatFor step' fuel b) := by
    intro fuel
    induction fuel with
    | zero => exact fun _ => throw
    | succ fuel ih =>
      refine fun b => (h b).bind fun result => ?_
      cases result with
      | inl b => exact ih b
      | inr c => exact pure
  rintro s s' hs a t hgo
  rw [Scan.go_loop] at hgo
  obtain ⟨b', t', hgo', hend⟩ := hsteps _ b s s' hs a t hgo
  refine ⟨b', t', ?_, hend⟩
  rw [Scan.go_loop, hs.length]
  exact hgo'

end Agrees

-- ---- What a scan keeps

/-- Where the scan ends with a result like that, the scanners before and after it are related. -/
def Keeps (r : Scanner ρ → Scanner ρ → Prop) (m : Scan ρ α) (Q : α → Prop) : Prop :=
  ∀ s a t, m.go s = (.ok a, t) → Q a → r s t

def SameText (s t : Scanner ρ) : Prop := t.input = s.input

instance : IsPreorder (Scanner ρ) SameText where
  refl _ := rfl
  trans _ _ _ h h' := h'.trans h

namespace Keeps

variable {r : Scanner ρ → Scanner ρ → Prop} [IsPreorder (Scanner ρ) r] {Q : α → Prop}

theorem pure {a : α} : Keeps r (Pure.pure a : Scan ρ α) Q := by
  rintro s _ _ hgo -
  cases hgo
  exact refl_of r s

theorem bind {m : Scan ρ β} {f : β → Scan ρ α} (hm : Keeps r m fun _ => True)
    (hf : ∀ b, Keeps r (f b) Q) : Keeps r (m >>= f) Q := by
  rintro s a u hgo hQ
  rw [Scan.go_bind] at hgo
  rcases hb : m.go s with ⟨_ | b, t⟩
  · rw [hb] at hgo
    cases hgo
  · rw [hb] at hgo
    exact trans_of r (hm s b t hb trivial) (hf b t a u hgo hQ)

omit [IsPreorder (Scanner ρ) r] in
theorem ite {condition : Prop} [Decidable condition] {m m' : Scan ρ α} (h : Keeps r m Q)
    (h' : Keeps r m' Q) : Keeps r (if condition then m else m') Q := by
  split
  · exact h
  · exact h'

omit [IsPreorder (Scanner ρ) r] in
theorem never {m : Scan ρ β} {g : β → α} (h : ∀ b, ¬Q (g b)) :
    Keeps r (m >>= fun b => Pure.pure (g b)) Q := by
  rintro s a u hgo hQ
  rw [Scan.go_bind] at hgo
  rcases hb : m.go s with ⟨_ | b, t⟩
  · rw [hb] at hgo
    cases hgo
  · rw [hb] at hgo
    cases hgo
    exact absurd hQ (h b)

theorem atEnd {Q : Bool → Prop} : Keeps r (Scan.atEnd : Scan ρ Bool) Q := by
  rintro s _ _ hgo -
  rw [Scan.go_atEnd] at hgo
  cases hgo
  exact refl_of r s

theorem rest {Q : List Char → Prop} : Keeps r (Scan.rest : Scan ρ (List Char)) Q := by
  rintro s _ _ hgo -
  rw [go_rest_sliced] at hgo
  obtain ⟨-, rfl⟩ := Prod.mk.inj hgo
  exact refl_of r s

omit [IsPreorder (Scanner ρ) r] in
theorem advance (n : Nat) {Q : Unit → Prop} : Keeps SameText (Scan.advance n : Scan ρ Unit) Q := by
  rintro s _ _ hgo -
  cases hgo
  rfl

end Keeps

def Yields (m : Scan ρ α) (Q : α → Prop) : Prop := ∀ s a t, m.go s = (.ok a, t) → Q a

namespace Yields

variable {Q : α → Prop} {R : β → Prop}

theorem bind {m : Scan ρ β} {f : β → Scan ρ α} (hm : Yields m R) (hf : ∀ b, R b → Yields (f b) Q) :
    Yields (m >>= f) Q := by
  rintro s a u hgo
  rw [Scan.go_bind] at hgo
  rcases hb : m.go s with ⟨_ | b, t⟩
  · rw [hb] at hgo
    cases hgo
  · rw [hb] at hgo
    exact hf b (hm s b t hb) t a u hgo

theorem behind {m : Scan ρ β} {f : β → Scan ρ α} (hf : ∀ b, Yields (f b) Q) : Yields (m >>= f) Q :=
  bind (R := fun _ => True) (fun _ _ _ _ => trivial) fun b _ => hf b

theorem pure {a : α} (h : Q a) : Yields (Pure.pure a : Scan ρ α) Q := by
  rintro s _ _ hgo
  cases hgo
  exact h

theorem fail {text : String} : Yields (Scan.fail text : Scan ρ α) Q := fun _ _ _ hgo => nomatch hgo

theorem ite {condition : Prop} [Decidable condition] {m m' : Scan ρ α} (h : Yields m Q)
    (h' : Yields m' Q) : Yields (if condition then m else m') Q := by
  split
  · exact h
  · exact h'

theorem loop {step : β → Scan ρ (β ⊕ α)} (h : ∀ b, R b → Yields (step b) (Sum.elim R Q)) {b : β}
    (hb : R b) : Yields (Scan.loop step b) Q := by
  have hsteps : ∀ fuel b, R b → Yields (Scan.repeatFor step fuel b) Q := by
    intro fuel
    induction fuel with
    | zero => exact fun _ _ _ _ _ hgo => nomatch hgo
    | succ fuel ih =>
      refine fun b hb => (h b hb).bind fun result hresult => ?_
      cases result with
      | inl b => exact ih b hresult
      | inr a => exact pure hresult
  exact fun s a t hgo => hsteps _ b hb s a t hgo

end Yields

end

end Rekuiper.Lib
