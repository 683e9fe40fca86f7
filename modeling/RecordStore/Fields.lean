/-! # Fields

Named values in a fixed order, each name once. A new value for a name in use takes the place of
the old one; a new name comes last.
-/

namespace RecordStore

/-- The pairs with the value put under the name. -/
def putEntry {α : Type} (name : String) (value : α) : List (String × α) → List (String × α)
  | [] => [(name, value)]
  | entry :: rest =>
    if entry.1 = name then (name, value) :: rest else entry :: putEntry name value rest

theorem names_putEntry {α : Type} (name : String) (value : α) (entries : List (String × α)) :
    (putEntry name value entries).map Prod.fst =
      if name ∈ entries.map Prod.fst then entries.map Prod.fst
      else entries.map Prod.fst ++ [name] := by
  induction entries with
  | nil => simp [putEntry]
  | cons entry rest ih =>
    by_cases h : entry.1 = name
    · simp [putEntry, h]
    · have h' : name ≠ entry.1 := fun e => h e.symm
      simp only [putEntry, h, if_false, List.map_cons, ih, List.mem_cons, h', false_or]
      split <;> simp

structure Fields (α : Type) where
  entries : List (String × α)
  distinct : (entries.map Prod.fst).Nodup
deriving DecidableEq, Repr

namespace Fields

variable {α β : Type}

def empty : Fields α := ⟨[], List.nodup_nil⟩

instance : Inhabited (Fields α) := ⟨empty⟩

def names (fields : Fields α) : List String := fields.entries.map Prod.fst

def isEmpty (fields : Fields α) : Bool := fields.entries.isEmpty

def get? (fields : Fields α) (name : String) : Option α :=
  (fields.entries.find? (·.1 = name)).map Prod.snd

def put (fields : Fields α) (name : String) (value : α) : Fields α where
  entries := putEntry name value fields.entries
  distinct := by
    rw [names_putEntry]
    split
    · exact fields.distinct
    · next h =>
      rw [List.nodup_append]
      exact ⟨fields.distinct, by simp, fun a ha b hb => by
        rw [List.mem_singleton] at hb
        subst hb
        exact fun e => h (e ▸ ha)⟩

def putAll (fields : Fields α) (pairs : List (String × α)) : Fields α :=
  pairs.foldl (fun acc p => acc.put p.1 p.2) fields

/-- Each name at its first position with its last value. -/
def ofList (pairs : List (String × α)) : Fields α := empty.putAll pairs

/-- The fields of `base`, with those of `new` in place of or after them. -/
def overlay (base new : Fields α) : Fields α := base.putAll new.entries

def map (f : α → β) (fields : Fields α) : Fields β where
  entries := fields.entries.map fun p => (p.1, f p.2)
  distinct := by simpa [List.map_map, Function.comp_def] using fields.distinct

/-- Whether two collections hold equivalent values under the same names, in whatever order. -/
def sameBy (same : α → α → Bool) (a b : Fields α) : Bool :=
  a.entries.length == b.entries.length &&
    a.entries.all fun p => (b.get? p.1).any (same p.2 ·)

@[simp] theorem entries_empty : (empty : Fields α).entries = [] := rfl

@[simp] theorem entries_put (fields : Fields α) (name : String) (value : α) :
    (fields.put name value).entries = putEntry name value fields.entries := rfl

theorem ext_entries {a b : Fields α} (h : a.entries = b.entries) : a = b := by
  cases a; cases b; simp_all

theorem get?_put (fields : Fields α) (name other : String) (value : α) :
    (fields.put name value).get? other = if other = name then some value else fields.get? other := by
  simp only [get?, entries_put]
  induction fields.entries with
  | nil =>
    by_cases h : other = name
    · simp [putEntry, h]
    · have h' : name ≠ other := fun e => h e.symm
      simp [putEntry, h, h']
  | cons entry rest ih =>
    by_cases h : entry.1 = name
    · by_cases ho : other = name
      · simp [putEntry, h, ho]
      · have ho' : name ≠ other := fun e => ho e.symm
        simp [putEntry, h, ho, ho']
    · simp only [putEntry, h, if_false, List.find?_cons]
      by_cases he : entry.1 = other
      · have ho : other ≠ name := fun e => h (he.trans e)
        simp [he, ho]
      · simp only [he, decide_false, ih]

end Fields
end RecordStore
