import RecordStore.Proofs.Connections
import RecordStore.Proofs.Writes

/-! # Range reads

A limited read asks the database for as many rows more as there are buffered writes in the range.
That is enough: it finds what it would find among all rows with the writes carried out.
-/

namespace RecordStore

section Take

variable {α : Type} {key : Bytes} {entries : List (Bytes × α)}

theorem take_insertEntry_take (value : α) (entries : List (Bytes × α)) (n : Nat) :
    (insertEntry key value (entries.take (n + 1))).take n =
      (insertEntry key value entries).take n := by
  induction entries generalizing n with
  | nil => simp
  | cons entry rest ih =>
    cases n with
    | zero => simp
    | succ n =>
      rw [List.take_succ_cons, insertEntry, insertEntry]
      split
      · have hrest : (entry :: rest.take (n + 1)).take n = (entry :: rest).take n := by
          rw [← List.take_succ_cons, List.take_take, Nat.min_eq_left (by omega)]
        rw [List.take_succ_cons, List.take_succ_cons, hrest]
      · split
        · simp [List.take_take]
        · rw [List.take_succ_cons, List.take_succ_cons, ih]

theorem take_filter_take (h : entries.Pairwise (·.1 < ·.1)) (n : Nat) :
    ((entries.take (n + 1)).filter (·.1 ≠ key)).take n = (entries.filter (·.1 ≠ key)).take n := by
  induction entries generalizing n with
  | nil => simp
  | cons entry rest ih =>
    rw [List.pairwise_cons] at h
    rw [List.take_succ_cons]
    by_cases hkey : entry.1 = key
    · have hrest : ∀ p ∈ rest, decide (p.1 ≠ key) = true := by
        rintro p hp
        apply decide_eq_true
        rintro rfl
        exact List.lt_irrefl _ (hkey ▸ h.1 p hp)
      have htake : ∀ p ∈ rest.take n, decide (p.1 ≠ key) = true := fun p hp =>
        hrest p (List.mem_of_mem_take hp)
      rw [List.filter_cons_of_neg (by simp [hkey]), List.filter_cons_of_neg (by simp [hkey]),
        List.filter_eq_self.mpr hrest, List.filter_eq_self.mpr htake, List.take_take, Nat.min_self]
    · rw [List.filter_cons_of_pos (by simp [hkey]), List.filter_cons_of_pos (by simp [hkey])]
      cases n with
      | zero => rfl
      | succ n => rw [List.take_succ_cons, List.take_succ_cons, ih h.2]

end Take

namespace KeyMap

variable {α : Type} {key : Bytes}

theorem ext_entries {m m' : KeyMap α} (h : m.entries = m'.entries) : m = m' := by
  cases m
  cases m'
  simpa using h

/-- One write hides at most one entry. -/
theorem take_write_take (m : KeyMap α) (value : Option α) (n : Nat) :
    ((m.take (n + 1)).write key value).take n = (m.write key value).take n := by
  apply ext_entries
  cases value with
  | none => exact take_filter_take m.ascending n
  | some value => exact take_insertEntry_take value m.entries n

theorem take_carryOut_take (m : KeyMap α) (writes : List (Bytes × Option α)) (n : Nat) :
    ((m.take (n + writes.length)).carryOut writes).take n = (m.carryOut writes).take n := by
  induction writes generalizing m with
  | nil =>
    apply ext_entries
    simp [take, List.take_take]
  | cons p rest ih =>
    have hwrite : ((m.take (n + (p :: rest).length)).write p.1 p.2).take (n + rest.length) =
        (m.write p.1 p.2).take (n + rest.length) := m.take_write_take p.2 (n + rest.length)
    rw [carryOut_cons, carryOut_cons, ← ih, hwrite, ih]

theorem get?_range (m : KeyMap α) (first last : Bytes) :
    (m.range first last).get? key = if ¬ key < first ∧ key < last then m.get? key else none := by
  ext value
  rw [get?_eq_some_iff, mem_entries_range]
  split
  · next h => exact and_iff_left h
  · next h => exact iff_of_false (fun hkey => h hkey.2) nofun

/-- A range of a map with writes carried out is the range with the writes of the range. -/
theorem range_overlay (m : KeyMap α) (writes : KeyMap (Option α)) (first last : Bytes) :
    (m.range first last).overlay (writes.range first last) =
      (m.overlay writes).range first last := by
  apply eq_of_get?
  intro key
  rw [get?_overlay, get?_range, get?_range, get?_range, get?_overlay]
  split <;> rfl

/-- The first entries of a range, all of them unless the limit is positive. -/
def head (m : KeyMap Bytes) (first last : Bytes) (limit : Int) : List (Bytes × Bytes) :=
  if 0 < limit then (m.range first last).entries.take limit.toNat else (m.range first last).entries

end KeyMap

def Buffer.seen (b : Buffer) (D : KeyMap Bytes) : KeyMap Bytes :=
  if b.readYourWrites then D.overlay b.writes else D

theorem Buffer.range_seen (b : Buffer) (D : KeyMap Bytes) (first last : Bytes) :
    (D.range first last).overlay (b.pending first last) = (b.seen D).range first last := by
  unfold pending seen
  split
  · exact D.range_overlay b.writes first last
  · rfl

theorem Transaction.range_active {s : Store} {D : KeyMap Bytes} {b : Buffer} {first last : Bytes}
    {limit : Int} (htable : s.table = .holding D) (hasks : b.asksTooMuch first last limit = false) :
    (Transaction.active b).range s first last limit = .ok ((b.seen D).head first last limit) := by
  have hnot : ¬ b.asksTooMuch first last limit = true := by simp [hasks]
  simp only [range, if_neg hnot, htable, KeyMap.head, ← b.range_seen D first last]
  by_cases hpos : 0 < limit
  · have hwanted : (b.wanted first last limit).toNat =
        limit.toNat + (b.pending first last).entries.length := by
      rw [Buffer.wanted, KeyMap.size]
      omega
    rw [if_neg (by omega), if_pos hpos, hwanted, KeyMap.overlay_eq_carryOut,
      KeyMap.take_carryOut_take, ← KeyMap.overlay_eq_carryOut]
    rfl
  · rw [if_pos (by omega), if_neg hpos]

end RecordStore
