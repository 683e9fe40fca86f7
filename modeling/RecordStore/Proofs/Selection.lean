import RecordStore.Record

/-! # Selecting from records

A record gives what is asked of it if it has fields in it and none of those asked for is missing.
What it gives are the fields asked for, or all of them if none is named.
-/

namespace RecordStore

theorem mapM_eq_some_filterMap {α β : Type} {f : α → Option β} {l : List α}
    (h : ∀ a ∈ l, (f a).isSome = true) : l.mapM f = some (l.filterMap f) := by
  induction l with
  | nil => rfl
  | cons a rest ih =>
    obtain ⟨b, hb⟩ := Option.isSome_iff_exists.mp (h a List.mem_cons_self)
    rw [List.mapM_cons, ih fun a' ha' => h a' (List.mem_cons_of_mem _ ha'),
      List.filterMap_cons_some hb, hb]
    rfl

theorem mapM_eq_none {α β : Type} {f : α → Option β} {l : List α} {a : α} (ha : a ∈ l)
    (h : f a = none) : l.mapM f = none := by
  induction l with
  | nil => simp at ha
  | cons a' rest ih =>
    rw [List.mapM_cons]
    rcases List.mem_cons.mp ha with rfl | ha
    · rw [h]
      rfl
    · rw [ih ha]
      cases f a' <;> rfl

theorem Fields.isSome_get?_iff {α : Type} {fields : Fields α} {name : String} :
    (fields.get? name).isSome = true ↔ name ∈ fields.names := by
  simp [get?, names, List.find?_isSome]

namespace Record

def Has (r : Record) (p : Projection) : Prop :=
  r.isEmpty = false ∧ ∀ name ∈ p.names, name ∈ r.names

def restrict (r : Record) (names : List String) : Record :=
  .ofList (names.filterMap fun name => (r.get? name).map (name, ·))

instance (r : Record) (p : Projection) : Decidable (r.Has p) := inferInstanceAs (Decidable (_ ∧ _))

/-- What the record gives of what is asked of it. -/
def project (p : Projection) (r : Record) : Option Record :=
  if r.Has p then some (if p.names = [] then r else r.restrict p.names) else none

theorem select_all (r : Record) : select .all r = if r.isEmpty then none else some r := by
  rw [select]
  split <;> rfl

theorem select_of_has {p : Projection} {r : Record} (h : r.Has p) :
    select p r = some (if p.names = [] then r else r.restrict p.names) := by
  rw [select, if_neg (by simp [h.1])]
  by_cases hall : p.names = []
  · rw [if_pos (by simp [Projection.isAll, hall]), if_pos hall]
  · rw [if_neg (by simpa [Projection.isAll] using hall), if_neg hall, mapM_eq_some_filterMap]
    · rfl
    · intro name hname
      rw [Option.isSome_map]
      exact Fields.isSome_get?_iff.mpr (h.2 name hname)

theorem select_of_not_has {p : Projection} {r : Record} (h : ¬ r.Has p) : select p r = none := by
  rw [select]
  split
  · rfl
  · next hr =>
    obtain ⟨name, hname, hmissing⟩ : ∃ name ∈ p.names, name ∉ r.names := by
      simpa [Has, hr] using h
    have hnone : r.get? name = none := by
      rw [← Option.not_isSome_iff_eq_none, Fields.isSome_get?_iff]
      exact hmissing
    have hall : ¬ p.isAll = true := by
      rw [Projection.isAll, List.isEmpty_iff]
      exact List.ne_nil_of_mem hname
    rw [if_neg hall, mapM_eq_none hname (by rw [hnone]; rfl)]
    rfl

theorem select_eq_project (p : Projection) (r : Record) : select p r = project p r := by
  rw [project]
  split
  · next h => exact select_of_has h
  · next h => exact select_of_not_has h

theorem isSome_select_iff {p : Projection} {r : Record} :
    (select p r).isSome = true ↔ r.Has p := by
  rw [select_eq_project, project]
  split <;> simp [*]

end Record
end RecordStore
