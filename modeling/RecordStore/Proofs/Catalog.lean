import RecordStore.Client
import RecordStore.Proofs.KeyOrder
import RecordStore.Proofs.RecordRoundTrip
import RecordStore.Proofs.Rows
import RecordStore.Proofs.Selection

/-! # Catalogs

What clients that do not batch are promised: a catalog of records by row key, and slots. Each call
is one step on the catalog, and the stored rows are the records in stored form.
-/

namespace RecordStore

namespace Fields

variable {α : Type}

def erase (fields : Fields α) (name : String) : Fields α where
  entries := fields.entries.filter (·.1 ≠ name)
  distinct := fields.distinct.sublist (List.filter_sublist.map _)

theorem get?_eq_some_iff {fields : Fields α} {name : String} {value : α} :
    fields.get? name = some value ↔ (name, value) ∈ fields.entries := by
  obtain ⟨entries, distinct⟩ := fields
  simp only [get?, Option.map_eq_some_iff]
  induction entries with
  | nil => simp
  | cons entry rest ih =>
    rw [List.map_cons, List.nodup_cons] at distinct
    by_cases h : entry.1 = name
    · have hrest : (name, value) ∉ rest := fun hmem =>
        distinct.1 (List.mem_map.mpr ⟨_, hmem, h.symm⟩)
      obtain ⟨n, v⟩ := entry
      simp_all [eq_comm]
    · have hne : (name, value) ≠ entry := fun e => h (congrArg Prod.fst e).symm
      simp [h, hne, ih distinct.2]

theorem get?_erase (fields : Fields α) (name other : String) :
    (fields.erase name).get? other = if other = name then none else fields.get? other := by
  ext value
  rw [get?_eq_some_iff, erase, List.mem_filter]
  split
  · next h => simp [h]
  · next h => simp [h, get?_eq_some_iff]

end Fields

structure Catalog where
  /-- The records by row key. -/
  records : Fields Record
  slots : String → Record

namespace Catalog

inductive Request where
  | read (table id : String) (p : Projection) (slot : Option String)
  | insert (table id : String) (values : Record)
  | update (table id : String) (values : Record)
  | delete (table id : String)
  | scan (table start : String) (count : Int) (p : Projection)

def Request.toCall : Request → Client.Call
  | .read table id p slot => .read table id p slot
  | .insert table id values => .insert table id (values.map Value.text)
  | .update table id values => .update table id (values.map Value.text)
  | .delete table id => .delete table id
  | .scan table start count p => .scan table start count p

def fill (M : Catalog) (slot : Option String) (r : Record) : Catalog :=
  slot.elim M fun name =>
    { M with slots := Function.update M.slots name ((M.slots name).overlay r) }

/-- The records of a table from an id on, in ascending order of their row keys. -/
def tail (M : Catalog) (db table start : String) : List (String × Record) :=
  (M.records.entries.filter fun e => (Key.row db table "").toList.isPrefixOf e.1.toList &&
    !decide (e.1 < Key.row db table start)).mergeSort fun a b => decide (a.1 ≤ b.1)

/-- The first of these records, all of them unless the count is positive. -/
def slice (M : Catalog) (db table start : String) (count : Int) : List (String × Record) :=
  if 0 < count then (M.tail db table start).take count.toNat else M.tail db table start

def step (db : String) (M : Catalog) : Request → Client.Reply × Catalog
  | .read table id p slot =>
    match (M.records.get? (Key.row db table id)).bind (Record.project p) with
    | some r => (.status .ok, M.fill slot r)
    | none => (.status .error, M)
  | .insert table id values =>
    let key := Key.row db table id
    if (Key.pack key).length ≤ maxKeyBytes then
      (.status .ok, { M with records := M.records.put key values })
    else (.status .error, M)
  | .update table id values =>
    let key := Key.row db table id
    match M.records.get? key with
    | some r =>
      if r.isEmpty then (.status .error, M)
      else (.status .ok, { M with records := M.records.put key (r.overlay values) })
    | none => (.status .error, M)
  | .delete table id => (.status .ok, { M with records := M.records.erase (Key.row db table id) })
  | .scan table start count p =>
    match ((M.slice db table start count).map Prod.snd).mapM (Record.project p) with
    | some records => (.scanned .ok records, M)
    | none => (.scanned .error [], M)

/-- The rows are the records in stored form, and there are no others. -/
def Mirrors (rows : Rows) (records : Fields Record) : Prop :=
  ∀ key data, rows key = some data ↔
    ∃ s r, records.get? s = some r ∧ key = Key.pack s ∧ data = Record.encode r

variable {rows : Rows} {records : Fields Record}

theorem Mirrors.get (h : Mirrors rows records) (s : String) :
    rows (Key.pack s) = (records.get? s).map Record.encode := by
  ext data
  rw [h, Option.map_eq_some_iff]
  constructor
  · rintro ⟨s', r, hr, hkey, rfl⟩
    rw [Key.pack_inj] at hkey
    exact ⟨r, hkey ▸ hr, rfl⟩
  · rintro ⟨r, hr, rfl⟩
    exact ⟨s, r, hr, rfl, rfl⟩

theorem Mirrors.update (h : Mirrors rows records) {records' : Fields Record} {s : String}
    {r : Option Record} (hr : ∀ s', records'.get? s' = if s' = s then r else records.get? s') :
    Mirrors (Function.update rows (Key.pack s) (r.map Record.encode)) records' := by
  intro key data
  by_cases hkey : key = Key.pack s
  · subst hkey
    rw [Function.update_self, Option.map_eq_some_iff]
    constructor
    · rintro ⟨r', rfl, rfl⟩
      exact ⟨s, r', by rw [hr, if_pos rfl], rfl, rfl⟩
    · rintro ⟨s', r', hr', hpack, rfl⟩
      rw [Key.pack_inj] at hpack
      rw [hr, if_pos hpack.symm] at hr'
      exact ⟨r', hr', rfl⟩
  · rw [Function.update_of_ne hkey, h]
    constructor
    · rintro ⟨s', r', hr', rfl, rfl⟩
      have hne : s' ≠ s := fun e => hkey (congrArg Key.pack e)
      exact ⟨s', r', by rw [hr, if_neg hne]; exact hr', rfl, rfl⟩
    · rintro ⟨s', r', hr', rfl, rfl⟩
      have hne : s' ≠ s := fun e => hkey (congrArg Key.pack e)
      rw [hr, if_neg hne] at hr'
      exact ⟨s', r', hr', rfl, rfl⟩

theorem Mirrors.put (h : Mirrors rows records) (s : String) (r : Record) :
    Mirrors (Function.update rows (Key.pack s) (some r.encode)) (records.put s r) :=
  h.update (r := some r) (records.get?_put s · r)

theorem Mirrors.erase (h : Mirrors rows records) (s : String) :
    Mirrors (Function.update rows (Key.pack s) none) (records.erase s) :=
  h.update (r := none) (records.get?_erase s)

end Catalog
end RecordStore
