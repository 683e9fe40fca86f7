import RecordStore.Proofs.KeyOrder

/-! # Row keys of tables

Within a table, row keys are told apart and ordered by the ids alone. Two tables share a row key
exactly if what begins the keys of one also begins those of the other, which cannot be if no name
has a colon in it.
-/

namespace RecordStore

/-- Texts that have no colon before one are told apart by what comes before it. -/
theorem append_colon_prefix_iff {x y s t : List Char} (hx : ':' ∉ x) (hy : ':' ∉ y) :
    x ++ ':' :: s <+: y ++ ':' :: t ↔ x = y ∧ s <+: t := by
  induction x generalizing y with
  | nil =>
    cases y with
    | nil => simp
    | cons d y =>
      have hd : ':' ≠ d := List.ne_of_not_mem_cons hy
      simp [hd]
  | cons c x ih =>
    cases y with
    | nil =>
      have hc : c ≠ ':' := (List.ne_of_not_mem_cons hx).symm
      simp [hc]
    | cons d y =>
      simp only [List.cons_append, List.cons_prefix_cons, List.cons.injEq, and_assoc,
        ih (List.not_mem_of_not_mem_cons hx) (List.not_mem_of_not_mem_cons hy)]

namespace Key

variable {db table db' table' : String}

def stem (db table : String) : List Char := (row db table "").toList

theorem row_eq_append (db table id : String) : row db table id = row db table "" ++ id := by
  simp [row, String.append_assoc]

theorem toList_row_eq (db table id : String) :
    (row db table id).toList = stem db table ++ id.toList := by
  rw [row_eq_append, String.toList_append, stem]

theorem row_inj {a b : String} : row db table a = row db table b ↔ a = b := by
  rw [row_eq_append, row_eq_append db table b, String.append_right_inj]

theorem pack_row_lt_iff {a b : String} :
    pack (row db table a) < pack (row db table b) ↔ a < b := by
  refine Bytes.lt_iff_of_increasing (f := fun id => pack (row db table id)) fun a b h => ?_
  apply pack_lt_pack
  rw [String.lt_iff, toList_row_eq, toList_row_eq]
  exact List.append_left_lt (String.lt_iff.mp h)

/-- Neither table's row keys begin as all those of the other do. -/
def Apart (db table db' table' : String) : Prop :=
  ¬ stem db table <+: stem db' table' ∧ ¬ stem db' table' <+: stem db table

instance : Decidable (Apart db table db' table') := inferInstanceAs (Decidable (_ ∧ _))

theorem row_eq_of_stem_prefix (h : stem db table <+: stem db' table') (id' : String) :
    ∃ id, row db table id = row db' table' id' := by
  obtain ⟨rest, hrest⟩ := h
  refine ⟨.ofList (rest ++ id'.toList), ?_⟩
  rw [← String.toList_inj, toList_row_eq, toList_row_eq, String.toList_ofList, ← hrest,
    List.append_assoc]

theorem apart_iff :
    Apart db table db' table' ↔ ∀ id id', row db table id ≠ row db' table' id' := by
  constructor
  · rintro ⟨hleft, hright⟩ id id' heq
    have hlist : stem db table ++ id.toList = stem db' table' ++ id'.toList := by
      rw [← toList_row_eq, ← toList_row_eq, heq]
    rcases List.prefix_or_prefix_of_prefix (List.prefix_append (stem db table) id.toList)
      (hlist ▸ List.prefix_append (stem db' table') id'.toList) with h | h
    · exact hleft h
    · exact hright h
  · intro h
    constructor
    · intro hbegins
      obtain ⟨id, hid⟩ := row_eq_of_stem_prefix hbegins ""
      exact h id "" hid
    · intro hbegins
      obtain ⟨id', hid'⟩ := row_eq_of_stem_prefix hbegins ""
      exact h "" id' hid'.symm

theorem packText_rowFrom_eq_ok_iff {start : Text} {first : Bytes} :
    packText (rowFrom db table start) = .ok first ↔
      ∃ id, start = .unicode id ∧ first = pack (row db table id) := by
  cases start with
  | unicode id => simp [rowFrom, eq_comm]
  | broken t => simp [rowFrom]

/-- Tables are apart if and only if no row of one is met by a scan of the other. -/
theorem apart_iff_range : Apart db table db' table' ↔
    ∀ id start, ¬ (¬ pack (row db table id) < pack (row db' table' start) ∧
      pack (row db table id) < pack (rangeEnd table' (some db'))) := by
  simp only [pack_mem_range_iff, apart_iff]
  constructor
  · rintro h id start ⟨id', heq, -⟩
    exact h id id' heq
  · intro h id id' heq
    exact h id id' ⟨id', heq, String.lt_irrefl id'⟩

theorem apart_of_no_colon (hdb : ':' ∉ db.toList) (htable : ':' ∉ table.toList)
    (hdb' : ':' ∉ db'.toList) (htable' : ':' ∉ table'.toList)
    (hne : (db, table) ≠ (db', table')) : Apart db table db' table' := by
  have hbegins : ∀ {a b a' b' : String}, ':' ∉ a.toList → ':' ∉ b.toList → ':' ∉ a'.toList →
      ':' ∉ b'.toList → stem a b <+: stem a' b' → (a, b) = (a', b') := by
    intro a b a' b' ha hb ha' hb' h
    simp only [stem, toList_row, List.append_assoc, List.cons_append] at h
    rw [append_colon_prefix_iff ha ha', append_colon_prefix_iff hb hb'] at h
    obtain ⟨hfst, hsnd, -⟩ := h
    rw [String.toList_inj.mp hfst, String.toList_inj.mp hsnd]
  exact ⟨fun h => hne (hbegins hdb htable hdb' htable' h),
    fun h => hne (hbegins hdb' htable' hdb htable h).symm⟩

end Key
end RecordStore
