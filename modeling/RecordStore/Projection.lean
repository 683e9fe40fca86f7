/-! # Projections

The set of field names that a read asks for, kept in ascending order. The empty set asks for
every field.
-/

namespace RecordStore

def insertName (name : String) : List String → List String
  | [] => [name]
  | n :: rest =>
    if name < n then name :: n :: rest else if name = n then n :: rest
    else n :: insertName name rest

theorem mem_insertName {name x : String} {names : List String} :
    x ∈ insertName name names ↔ x = name ∨ x ∈ names := by
  induction names with
  | nil => simp [insertName]
  | cons n rest ih =>
    simp only [insertName]
    split
    · simp
    · split
      · next h => simp [h]
      · simp only [List.mem_cons, ih]
        exact or_left_comm

theorem pairwise_insertName {name : String} {names : List String}
    (h : names.Pairwise (· < ·)) : (insertName name names).Pairwise (· < ·) := by
  induction names with
  | nil => simp [insertName]
  | cons n rest ih =>
    rw [List.pairwise_cons] at h
    simp only [insertName]
    split
    · next hlt =>
      refine List.pairwise_cons.mpr ⟨fun x hx => ?_, List.pairwise_cons.mpr h⟩
      rcases List.mem_cons.mp hx with rfl | hx
      · exact hlt
      · exact String.lt_trans hlt (h.1 x hx)
    · split
      · exact List.pairwise_cons.mpr h
      · next hlt hne =>
        refine List.pairwise_cons.mpr ⟨fun x hx => ?_, ih h.2⟩
        rcases mem_insertName.mp hx with rfl | hx
        · exact Std.lt_of_le_of_ne (String.not_lt.mp hlt) (Ne.symm hne)
        · exact h.1 x hx

structure Projection where
  names : List String
  ascending : names.Pairwise (· < ·)
deriving DecidableEq, Repr

namespace Projection

def all : Projection := ⟨[], List.Pairwise.nil⟩

instance : Inhabited Projection := ⟨all⟩

def insert (name : String) (p : Projection) : Projection :=
  ⟨insertName name p.names, pairwise_insertName p.ascending⟩

def ofList (names : List String) : Projection := names.foldr insert all

def isAll (p : Projection) : Bool := p.names.isEmpty

theorem mem_ofList {name : String} {names : List String} :
    name ∈ (ofList names).names ↔ name ∈ names := by
  induction names with
  | nil => rfl
  | cons n rest ih =>
    simp only [List.mem_cons, ← ih]
    exact mem_insertName

end Projection
end RecordStore
