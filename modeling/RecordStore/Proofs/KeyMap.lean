import Mathlib.Data.List.Sort
import RecordStore.KeyMap

/-! # Lookups in key maps

A key map is known by its lookups. Each operation has one equation that says what a lookup finds
after it, and overlaid writes take effect key by key.
-/

namespace RecordStore

variable {α : Type} {key other : Bytes}

theorem mem_insertEntry_self (value : α) (entries : List (Bytes × α)) :
    (key, value) ∈ insertEntry key value entries := by
  induction entries with
  | nil => simp [insertEntry]
  | cons entry rest ih =>
    unfold insertEntry
    split
    · exact List.mem_cons_self
    · split
      · exact List.mem_cons_self
      · exact List.mem_cons_of_mem _ ih

theorem find?_insertEntry_of_ne (h : other ≠ key) (value : α) (entries : List (Bytes × α)) :
    (insertEntry key value entries).find? (·.1 = other) = entries.find? (·.1 = other) := by
  have h' : ¬ key = other := fun e => h e.symm
  induction entries with
  | nil => simp [insertEntry, h']
  | cons entry rest ih =>
    unfold insertEntry
    split
    · simp [h']
    · split
      · next heq => simp [← heq, h']
      · simp only [List.find?_cons, ih]

namespace KeyMap

theorem get?_eq_some_iff {m : KeyMap α} {value : α} :
    m.get? key = some value ↔ (key, value) ∈ m.entries := by
  obtain ⟨entries, ascending⟩ := m
  simp only [get?, Option.map_eq_some_iff]
  constructor
  · rintro ⟨⟨k, v⟩, hfind, rfl⟩
    have hk : k = key := by simpa using List.find?_some hfind
    exact hk ▸ List.mem_of_find?_eq_some hfind
  · intro hmem
    induction entries with
    | nil => simp at hmem
    | cons entry rest ih =>
      rw [List.pairwise_cons] at ascending
      rcases List.mem_cons.mp hmem with rfl | hrest
      · exact ⟨(key, value), by simp, rfl⟩
      · have hlt : entry.1 < key := ascending.1 _ hrest
        have hne : entry.1 ≠ key := fun e => List.lt_irrefl _ (e ▸ hlt)
        simpa [hne] using ih ascending.2 hrest

theorem get?_eq_none_iff {m : KeyMap α} :
    m.get? key = none ↔ ∀ value, (key, value) ∉ m.entries := by
  simp only [← get?_eq_some_iff]
  cases m.get? key <;> simp

@[simp] theorem get?_empty : (empty : KeyMap α).get? key = none := rfl

theorem get?_insert (m : KeyMap α) (value : α) :
    (m.insert key value).get? other = if other = key then some value else m.get? other := by
  split
  · next h =>
    subst h
    exact get?_eq_some_iff.mpr (mem_insertEntry_self value m.entries)
  · next h => simp only [get?, insert, find?_insertEntry_of_ne h]

theorem get?_erase (m : KeyMap α) :
    (m.erase key).get? other = if other = key then none else m.get? other := by
  split
  · next h => simp [get?_eq_none_iff, erase, h]
  · next h =>
    ext value
    simp [get?_eq_some_iff, erase, h]

theorem get?_write (m : KeyMap α) (value : Option α) :
    (m.write key value).get? other = if other = key then value else m.get? other := by
  cases value with
  | none => exact get?_erase m
  | some value => exact get?_insert m value

theorem mem_entries_range {m : KeyMap α} {first last : Bytes} {value : α} :
    (key, value) ∈ (m.range first last).entries ↔
      m.get? key = some value ∧ ¬ key < first ∧ key < last := by
  simp only [range, List.mem_filter, ← get?_eq_some_iff, Bool.and_eq_true, Bool.not_eq_true',
    decide_eq_false_iff_not, decide_eq_true_eq]

/-- Entries in ascending order are determined by their members. -/
theorem entries_eq_of_mem_iff {l l' : List (Bytes × α)} (h : l.Pairwise (·.1 < ·.1))
    (h' : l'.Pairwise (·.1 < ·.1)) (hmem : ∀ p, p ∈ l ↔ p ∈ l') : l = l' := by
  have hirrefl : Std.Irrefl fun p q : Bytes × α => p.1 < q.1 := ⟨fun p => List.lt_irrefl p.1⟩
  have hantisymm : Std.Antisymm fun p q : Bytes × α => p.1 < q.1 :=
    ⟨fun p q hpq hqp => (List.lt_asymm hpq hqp).elim⟩
  exact List.Pairwise.eq_of_mem_iff h h' hmem

theorem eq_of_get? {m m' : KeyMap α} (h : ∀ key, m.get? key = m'.get? key) : m = m' := by
  have hentries : m.entries = m'.entries := by
    apply entries_eq_of_mem_iff m.ascending m'.ascending
    rintro ⟨key, value⟩
    rw [← get?_eq_some_iff, ← get?_eq_some_iff, h]
  obtain ⟨entries, _⟩ := m
  obtain ⟨entries', _⟩ := m'
  obtain rfl : entries = entries' := hentries
  rfl

theorem get?_foldl_write (writes : List (Bytes × Option α)) (h : writes.Pairwise (·.1 < ·.1))
    (m : KeyMap α) :
    (writes.foldl (fun acc p => acc.write p.1 p.2) m).get? key =
      ((writes.find? (·.1 = key)).map Prod.snd).getD (m.get? key) := by
  induction writes generalizing m with
  | nil => rfl
  | cons p rest ih =>
    rw [List.pairwise_cons] at h
    rw [List.foldl_cons, ih h.2, get?_write]
    by_cases hp : p.1 = key
    · have hrest : rest.find? (·.1 = key) = none := by
        simp only [List.find?_eq_none, decide_eq_true_eq]
        rintro q hq rfl
        exact List.lt_irrefl _ (hp ▸ h.1 q hq)
      simp [hp, hrest]
    · have hp' : ¬ key = p.1 := fun e => hp e.symm
      simp [hp, hp']

theorem get?_overlay (m : KeyMap α) (writes : KeyMap (Option α)) :
    (m.overlay writes).get? key = (writes.get? key).getD (m.get? key) :=
  get?_foldl_write writes.entries writes.ascending m

end KeyMap
end RecordStore
