import Mathlib.Data.List.Induction
import RecordStore.Proofs.KeyMap

/-! # Writes in turn

A list of writes is carried out in turn. The last write of each key decides, so the map of the last
writes has the same effect.
-/

namespace RecordStore.KeyMap

variable {α : Type}

def carryOut (m : KeyMap α) (writes : List (Bytes × Option α)) : KeyMap α :=
  writes.foldl (fun acc p => acc.write p.1 p.2) m

@[simp] theorem carryOut_nil (m : KeyMap α) : m.carryOut [] = m := rfl

@[simp] theorem carryOut_cons (m : KeyMap α) (p : Bytes × Option α)
    (writes : List (Bytes × Option α)) :
    m.carryOut (p :: writes) = (m.write p.1 p.2).carryOut writes := rfl

theorem overlay_eq_carryOut (m : KeyMap α) (writes : KeyMap (Option α)) :
    m.overlay writes = m.carryOut writes.entries := rfl

/-- For each key written or cleared, the last of these. -/
def ofWrites (writes : List (Bytes × Option α)) : KeyMap (Option α) :=
  writes.foldl (fun acc p => acc.insert p.1 p.2) empty

def lastWrite (writes : List (Bytes × Option α)) (key : Bytes) : Option (Option α) :=
  (writes.reverse.find? (·.1 = key)).map Prod.snd

theorem lastWrite_concat (writes : List (Bytes × Option α)) (p : Bytes × Option α) (key : Bytes) :
    lastWrite (writes ++ [p]) key = if key = p.1 then some p.2 else lastWrite writes key := by
  rw [lastWrite, List.reverse_append, List.reverse_singleton, List.singleton_append,
    List.find?_cons]
  by_cases h : p.1 = key
  · simp [h]
  · simp [h, Ne.symm h, lastWrite]

theorem ofWrites_concat (writes : List (Bytes × Option α)) (p : Bytes × Option α) :
    ofWrites (writes ++ [p]) = (ofWrites writes).insert p.1 p.2 := by
  rw [ofWrites, List.foldl_append]
  rfl

theorem get?_ofWrites (writes : List (Bytes × Option α)) (key : Bytes) :
    (ofWrites writes).get? key = lastWrite writes key := by
  induction writes using List.reverseRecOn with
  | nil => rfl
  | append_singleton writes p ih => rw [ofWrites_concat, get?_insert, lastWrite_concat, ih]

/-- Of the writes of a key the last one counts. -/
theorem get?_carryOut (m : KeyMap α) (writes : List (Bytes × Option α)) (key : Bytes) :
    (m.carryOut writes).get? key = (lastWrite writes key).getD (m.get? key) := by
  induction writes using List.reverseRecOn with
  | nil => rfl
  | append_singleton writes p ih =>
    have hlast : m.carryOut (writes ++ [p]) = (m.carryOut writes).write p.1 p.2 := by
      rw [carryOut, List.foldl_append]
      rfl
    rw [hlast, get?_write, lastWrite_concat, ih]
    split <;> rfl

theorem overlay_ofWrites (m : KeyMap α) (writes : List (Bytes × Option α)) :
    m.overlay (ofWrites writes) = m.carryOut writes := by
  apply eq_of_get?
  intro key
  rw [get?_overlay, get?_ofWrites, get?_carryOut]

end RecordStore.KeyMap
