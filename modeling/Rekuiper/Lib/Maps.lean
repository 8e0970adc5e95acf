import Mathlib.Data.List.AList

/-!
# Hash maps

`AList` stands for a hash map. `upsert` is the entry pattern: the value under a
key, or a default, is changed in place.
-/

namespace Rekuiper.Lib

variable {α β : Type} [DecidableEq α]

abbrev HashMap (α β : Type) := AList fun _ : α => β

namespace HashMap

/-- `entry(key).or_default()`, changed by `f`. -/
def upsert (m : HashMap α β) (key : α) (default : β) (f : β → β) : HashMap α β :=
  m.insert key (f ((m.lookup key).getD default))

theorem lookup_upsert (m : HashMap α β) (key : α) (default : β) (f : β → β) :
    (m.upsert key default f).lookup key = some (f ((m.lookup key).getD default)) :=
  AList.lookup_insert m

theorem lookup_upsert_ne (m : HashMap α β) {key other : α} (default : β) (f : β → β)
    (h : other ≠ key) : (m.upsert key default f).lookup other = m.lookup other :=
  AList.lookup_insert_ne h

def find (m : HashMap α β) (key : α) (default : β) : β := (m.lookup key).getD default

theorem find_upsert (m : HashMap α β) (key other : α) (default : β) (f : β → β) :
    (m.upsert key default f).find other default =
      if other = key then f (m.find key default) else m.find other default := by
  unfold find
  split
  · subst other
    rw [lookup_upsert]
    rfl
  · rw [lookup_upsert_ne m default f ‹_›]

theorem find_insert (m : HashMap α β) (key other : α) (value default : β) :
    HashMap.find (m.insert key value) other default =
      if other = key then value else m.find other default := by
  unfold find
  split
  · subst other
    rw [AList.lookup_insert]
    rfl
  · rw [AList.lookup_insert_ne ‹_›]

theorem find_erase (m : HashMap α β) (key other : α) (default : β) :
    HashMap.find (m.erase key) other default =
      if other = key then default else m.find other default := by
  unfold find
  split
  · subst other
    rw [AList.lookup_erase]
    rfl
  · rw [AList.lookup_erase_ne ‹_›]

/-- `entry(key).or_insert(value)` -/
def orInsert (m : HashMap α β) (key : α) (value : β) : HashMap α β :=
  if key ∈ m then m else m.insert key value

theorem lookup_orInsert (m : HashMap α β) (key other : α) (value : β) :
    (m.orInsert key value).lookup other =
      (m.lookup other).or (if other = key then some value else none) := by
  unfold orInsert
  split
  · rename_i hmem
    split
    · subst other
      obtain ⟨v, hv⟩ := Option.isSome_iff_exists.mp (AList.lookup_isSome.mpr hmem)
      rw [hv, Option.some_or]
    · rw [Option.or_none]
  · rename_i hmem
    split
    · subst other
      rw [AList.lookup_insert, AList.lookup_eq_none.mpr hmem, Option.none_or]
    · rw [AList.lookup_insert_ne ‹_›, Option.or_none]

/-- The same keys, with every value changed by `f`. -/
def mapValues {γ : Type} (f : β → γ) (m : HashMap α β) : HashMap α γ where
  entries := m.entries.map fun entry => ⟨entry.1, f entry.2⟩
  nodupKeys := by
    have h := m.nodupKeys
    unfold List.NodupKeys List.keys at h ⊢
    rwa [List.map_map]

theorem lookup_mapValues {γ : Type} (f : β → γ) (m : HashMap α β) (key : α) :
    (m.mapValues f).lookup key = (m.lookup key).map f :=
  List.dlookup_map₂ (f := fun _ => f) key

/-- The entries whose keys satisfy `p`. -/
def retain (p : α → Bool) (m : HashMap α β) : HashMap α β where
  entries := m.entries.filter fun entry => p entry.1
  nodupKeys := m.nodupKeys.sublist List.filter_sublist

omit [DecidableEq α] in
theorem mem_entries_retain {p : α → Bool} {m : HashMap α β} {entry : Sigma fun _ : α => β} :
    entry ∈ (m.retain p).entries ↔ entry ∈ m.entries ∧ p entry.1 = true :=
  List.mem_filter

theorem lookup_retain {p : α → Bool} (m : HashMap α β) {key : α} (h : p key = true) :
    (m.retain p).lookup key = m.lookup key := by
  refine Option.ext fun value => ?_
  rw [← Option.mem_def, ← Option.mem_def, AList.mem_lookup_iff, AList.mem_lookup_iff,
    mem_entries_retain]
  exact and_iff_left h

theorem lookup_retain_none {p : α → Bool} (m : HashMap α β) {key : α} (h : m.lookup key = none) :
    (m.retain p).lookup key = none := by
  refine Option.eq_none_iff_forall_not_mem.mpr fun value hvalue => ?_
  rw [AList.mem_lookup_iff, mem_entries_retain, ← AList.mem_lookup_iff, h] at hvalue
  exact absurd hvalue.1 (by simp)

/-- How many of the keys satisfy `p`. -/
def tally (p : α → Bool) (m : HashMap α β) : Nat := m.keys.countP p

omit [DecidableEq α] in
theorem tally_le_length (p : α → Bool) (m : HashMap α β) : tally p m ≤ m.entries.length :=
  calc
    tally p m ≤ m.keys.length := List.countP_le_length
    _ = m.entries.length := List.length_map _

theorem tally_insert_of_mem {p : α → Bool} {m : HashMap α β} {key : α} (h : key ∈ m) (value : β) :
    tally p (m.insert key value) = tally p m := by
  unfold tally
  rw [AList.keys_insert]
  exact ((List.perm_cons_erase h).countP_eq p).symm

theorem tally_insert_le (p : α → Bool) (m : HashMap α β) (key : α) (value : β) :
    tally p (m.insert key value) ≤ tally p m + 1 := by
  unfold tally
  rw [AList.keys_insert, List.countP_cons]
  have hle : (m.keys.erase key).countP p ≤ m.keys.countP p := List.erase_sublist.countP_le
  split <;> omega

theorem tally_insert_of_not {p : α → Bool} {m : HashMap α β} {key : α} (h : p key = false)
    (value : β) : tally p (m.insert key value) ≤ tally p m := by
  unfold tally
  rw [AList.keys_insert, List.countP_cons, h]
  exact List.erase_sublist.countP_le

theorem tally_erase {p : α → Bool} {m : HashMap α β} {key : α} (h : key ∈ m) (hp : p key = true) :
    tally p (m.erase key) + 1 = tally p m := by
  unfold tally
  rw [AList.keys_erase, (List.perm_cons_erase h).countP_eq p, List.countP_cons, if_pos hp]

omit [DecidableEq α] in
theorem tally_eq_zero {p : α → Bool} {m : HashMap α β} (h : ∀ key ∈ m, p key = false) :
    tally p m = 0 :=
  List.countP_eq_zero.mpr fun key hkey => by simp [h key hkey]

omit [DecidableEq α] in
theorem tally_le_of_within {p : α → Bool} {m : HashMap α β} {keys : List α}
    (h : ∀ key ∈ m, p key = true → key ∈ keys) : tally p m ≤ keys.length := by
  unfold tally
  rw [List.countP_eq_length_filter]
  refine (List.subperm_of_subset (m.keys_nodup.filter _) fun key hkey => ?_).length_le
  have hkey := List.mem_filter.mp hkey
  exact h key hkey.1 hkey.2

omit [DecidableEq α] in
theorem le_tally {p : α → Bool} {m : HashMap α β} {keys : List α} (hnodup : keys.Nodup)
    (h : ∀ key ∈ keys, key ∈ m ∧ p key = true) : keys.length ≤ tally p m := by
  unfold tally
  rw [List.countP_eq_length_filter]
  exact (List.subperm_of_subset hnodup fun key hkey => List.mem_filter.mpr (h key hkey)).length_le

theorem length_le_of_lookup {m m' : HashMap α β} (h : ∀ key, m'.lookup key = m.lookup key) :
    m'.entries.length ≤ m.entries.length := by
  have hsub : m'.keys ⊆ m.keys := fun key hkey => by
    have hsome := AList.lookup_isSome.mpr (AList.mem_keys.mpr hkey)
    rw [h] at hsome
    exact AList.lookup_isSome.mp hsome
  calc
    m'.entries.length = m'.keys.length := (List.length_map _).symm
    _ ≤ m.keys.length := (List.subperm_of_subset m'.keys_nodup hsub).length_le
    _ = m.entries.length := List.length_map _

/-- Changes an entry with an insertion of its own: `f` says what is stored, if anything. -/
def update (insert : HashMap α β → α → β → HashMap α β) (m : HashMap α β)
    (w : α × (Option β → Option β)) : HashMap α β :=
  match w.2 (m.lookup w.1) with
  | some value => insert m w.1 value
  | none => m

def Idle (m : HashMap α β) (w : α × (Option β → Option β)) : Prop :=
  w.2 (m.lookup w.1) = none ∨ w.2 (m.lookup w.1) = m.lookup w.1

section
variable {insert : HashMap α β → α → β → HashMap α β} {writes : List (α × (Option β → Option β))}
  {m : HashMap α β}

theorem lookup_update_idle (hinsert : ∀ m key value, m.lookup key = some value → ∀ k,
      (insert m key value).lookup k = m.lookup k) {w : α × (Option β → Option β)}
    (h : Idle m w) (k : α) : (update insert m w).lookup k = m.lookup k := by
  unfold update
  split
  · next value hvalue =>
    rcases h with h | h
    · rw [h] at hvalue
      cases hvalue
    · exact hinsert m _ value (h.symm.trans hvalue) k
  · rfl

theorem lookup_updates_idle (hinsert : ∀ m key value, m.lookup key = some value → ∀ k,
      (insert m key value).lookup k = m.lookup k)
    (h : ∀ w ∈ writes, Idle m w) (k : α) :
    (writes.foldl (update insert) m).lookup k = m.lookup k := by
  induction writes generalizing m with
  | nil => rfl
  | cons w writes ih =>
    rw [List.forall_mem_cons] at h
    have hw := lookup_update_idle hinsert h.1
    rw [List.foldl_cons, ih fun w' hw' => ?_, hw]
    unfold Idle
    rw [hw]
    exact h.2 w' hw'

theorem length_insert_le (m : HashMap α β) (key : α) (value : β) :
    (m.insert key value).entries.length ≤ m.entries.length + 1 := by
  have hkeys := congrArg List.length (AList.keys_insert (a := key) (b := value) m)
  have hle := List.length_erase_le (l := m.keys) (a := key)
  simp only [AList.keys, List.keys, List.length_map, List.length_cons] at hkeys hle
  omega

section
variable {w : α × (Option β → Option β)}
  (hplain : ∀ key value, insert m key value = m.insert key value)
include hplain

theorem lookup_update_self :
    (update insert m w).lookup w.1 = (w.2 (m.lookup w.1)).or (m.lookup w.1) := by
  unfold update
  split
  · next value hvalue => rw [hplain, AList.lookup_insert, hvalue, Option.some_or]
  · next hvalue => rw [hvalue, Option.none_or]

theorem lookup_update_ne {k : α} (h : k ≠ w.1) : (update insert m w).lookup k = m.lookup k := by
  unfold update
  split
  · rw [hplain, AList.lookup_insert_ne h]
  · rfl

theorem length_update_le : (update insert m w).entries.length ≤ m.entries.length + 1 := by
  unfold update
  split
  · rw [hplain]
    exact length_insert_le m _ _
  · exact Nat.le_succ _

end

theorem lookup_updates (hnodup : (writes.map Prod.fst).Nodup)
    (hroom : ∀ m', m'.entries.length < m.entries.length + writes.length → ∀ key value,
      insert m' key value = m'.insert key value) :
    (∀ k ∉ writes.map Prod.fst, (writes.foldl (update insert) m).lookup k = m.lookup k) ∧
      ∀ w ∈ writes, (writes.foldl (update insert) m).lookup w.1 =
        (w.2 (m.lookup w.1)).or (m.lookup w.1) := by
  induction writes generalizing m with
  | nil => exact ⟨fun _ _ => rfl, by simp⟩
  | cons w writes ih =>
    rw [List.map_cons, List.nodup_cons] at hnodup
    rw [List.length_cons] at hroom
    have hplain : ∀ key value, insert m key value = m.insert key value := hroom m (by omega)
    have hlength := length_update_le (w := w) hplain
    obtain ⟨hother, hwritten⟩ := ih (m := update insert m w) hnodup.2
      fun m' hm' => hroom m' (by omega)
    rw [List.foldl_cons, List.forall_mem_cons]
    refine ⟨fun k hk => ?_, ?_, fun w' hw' => ?_⟩
    · rw [List.map_cons, List.mem_cons, not_or] at hk
      exact (hother k hk.2).trans (lookup_update_ne hplain hk.1)
    · rw [hother w.1 hnodup.1, lookup_update_self hplain]
    · have hne : w'.1 ≠ w.1 := fun h => hnodup.1 (h ▸ List.mem_map_of_mem hw')
      rw [hwritten w' hw', lookup_update_ne hplain hne]

theorem idle_of_lookup_updates (hnodup : (writes.map Prod.fst).Nodup)
    (hroom : ∀ m', m'.entries.length < m.entries.length + writes.length → ∀ key value,
      insert m' key value = m'.insert key value)
    (h : ∀ k, (writes.foldl (update insert) m).lookup k = m.lookup k) :
    ∀ w ∈ writes, Idle m w := by
  intro w hw
  have hwritten := (lookup_updates hnodup hroom).2 w hw
  rw [h] at hwritten
  unfold Idle
  cases hvalue : w.2 (m.lookup w.1) with
  | none => exact .inl rfl
  | some value =>
    rw [hvalue, Option.some_or] at hwritten
    exact .inr hwritten.symm

end

end HashMap

end Rekuiper.Lib
