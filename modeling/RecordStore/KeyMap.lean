import RecordStore.Bytes

/-! # Maps in key order

A finite map from byte strings, listed in strictly ascending key order. Stored tables and the
buffered writes of a transaction are such maps.
-/

namespace RecordStore

def insertEntry {α : Type} (key : Bytes) (value : α) : List (Bytes × α) → List (Bytes × α)
  | [] => [(key, value)]
  | entry :: rest =>
    if key < entry.1 then (key, value) :: entry :: rest
    else if key = entry.1 then (key, value) :: rest
    else entry :: insertEntry key value rest

theorem mem_insertEntry {α : Type} {key : Bytes} {value : α} {entries : List (Bytes × α)}
    {p : Bytes × α} (h : p ∈ insertEntry key value entries) : p = (key, value) ∨ p ∈ entries := by
  induction entries with
  | nil => simpa [insertEntry] using h
  | cons entry rest ih =>
    simp only [insertEntry] at h
    split at h
    · simpa using h
    · split at h
      · rcases List.mem_cons.mp h with h | h
        · exact .inl h
        · exact .inr (List.mem_cons_of_mem _ h)
      · rcases List.mem_cons.mp h with h | h
        · exact .inr (h ▸ List.mem_cons_self)
        · exact (ih h).imp_right (List.mem_cons_of_mem _)

theorem ascending_insertEntry {α : Type} {key : Bytes} {value : α} {entries : List (Bytes × α)}
    (h : entries.Pairwise (·.1 < ·.1)) : (insertEntry key value entries).Pairwise (·.1 < ·.1) := by
  induction entries with
  | nil => simp [insertEntry]
  | cons entry rest ih =>
    rw [List.pairwise_cons] at h
    simp only [insertEntry]
    split
    · next hlt =>
      refine List.pairwise_cons.mpr ⟨fun p hp => ?_, List.pairwise_cons.mpr h⟩
      rcases List.mem_cons.mp hp with rfl | hp
      · exact hlt
      · exact List.lt_trans hlt (h.1 p hp)
    · split
      · next heq => exact List.pairwise_cons.mpr ⟨fun p hp => heq ▸ h.1 p hp, h.2⟩
      · next hlt hne =>
        refine List.pairwise_cons.mpr ⟨fun p hp => ?_, ih h.2⟩
        rcases mem_insertEntry hp with rfl | hp
        · exact Std.lt_of_le_of_ne (List.not_lt.mp hlt) (Ne.symm hne)
        · exact h.1 p hp

structure KeyMap (α : Type) where
  entries : List (Bytes × α)
  ascending : entries.Pairwise (·.1 < ·.1)
deriving DecidableEq, Repr

namespace KeyMap

variable {α : Type}

def empty : KeyMap α := ⟨[], List.Pairwise.nil⟩

instance : Inhabited (KeyMap α) := ⟨empty⟩

def size (m : KeyMap α) : Nat := m.entries.length

def get? (m : KeyMap α) (key : Bytes) : Option α :=
  (m.entries.find? (·.1 = key)).map Prod.snd

def insert (m : KeyMap α) (key : Bytes) (value : α) : KeyMap α :=
  ⟨insertEntry key value m.entries, ascending_insertEntry m.ascending⟩

def erase (m : KeyMap α) (key : Bytes) : KeyMap α :=
  ⟨m.entries.filter (·.1 ≠ key), m.ascending.filter _⟩

/-- The entries whose key is at or after `first` and before `last`. -/
def range (m : KeyMap α) (first last : Bytes) : KeyMap α :=
  ⟨m.entries.filter fun p => !(p.1 < first) && p.1 < last, m.ascending.filter _⟩

def take (m : KeyMap α) (count : Nat) : KeyMap α :=
  ⟨m.entries.take count, m.ascending.sublist (List.take_sublist ..)⟩

/-- One write: a value to store, or nothing to remove what is stored. -/
def write (m : KeyMap α) (key : Bytes) : Option α → KeyMap α
  | some value => m.insert key value
  | none => m.erase key

def overlay (m : KeyMap α) (writes : KeyMap (Option α)) : KeyMap α :=
  writes.entries.foldl (fun acc p => acc.write p.1 p.2) m

@[simp] theorem entries_empty : (empty : KeyMap α).entries = [] := rfl

end KeyMap
end RecordStore
