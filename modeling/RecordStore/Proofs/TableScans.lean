import Mathlib.Data.Set.List
import RecordStore.Proofs.RowKeys
import RecordStore.Proofs.Scans
import RecordStore.Session

/-! # Scans of stored rows

What a scan answers on any stored rows, whether or not they hold records: the rows of the table from
an id on, as many as asked for, each read as asked, or nothing if one of these cannot be read so.
-/

namespace RecordStore

/-- The stored rows of a table from an id on, in the order of their ids. -/
structure KeyMap.IsTail (D : KeyMap Bytes) (db table start : String)
    (rows : List (String × Bytes)) : Prop where
  ascending : rows.Pairwise (·.1 < ·.1)
  mem_iff {id : String} {data : Bytes} :
    (id, data) ∈ rows ↔ D.get? (Key.pack (Key.row db table id)) = some data ∧ ¬ id < start

/-- The first of a list, all of it unless the limit is positive. -/
def firsts {α : Type} (limit : Int) (l : List α) : List α :=
  if 0 < limit then l.take limit.toNat else l

theorem firsts_map {α β : Type} (f : α → β) (limit : Int) (l : List α) :
    firsts limit (l.map f) = (firsts limit l).map f := by
  unfold firsts
  split
  · rw [List.map_take]
  · rfl

namespace KeyMap

variable {D : KeyMap Bytes} {db table start : String} {rows : List (String × Bytes)}

def storedRow (db table : String) (row : String × Bytes) : Bytes × Bytes :=
  (Key.pack (Key.row db table row.1), row.2)

theorem storedRow_injective (db table : String) : Function.Injective (storedRow db table) := by
  rintro ⟨id, data⟩ ⟨id', data'⟩ h
  obtain ⟨hkey, hdata⟩ := Prod.mk.inj h
  exact Prod.ext (Key.row_inj.mp (Key.pack_injective hkey)) hdata

/-- If all keys are those of texts, the entries of a table's range are its rows. -/
theorem exists_isTail (hkeys : ∀ key data, D.get? key = some data → ∃ s, key = Key.pack s)
    (db table start : String) : ∃ rows, D.IsTail db table start rows ∧
      (D.range (Key.pack (Key.row db table start))
        (Key.pack (Key.rangeEnd table (some db)))).entries = rows.map (storedRow db table) := by
  let E := D.range (Key.pack (Key.row db table start)) (Key.pack (Key.rangeEnd table (some db)))
  have hrow : ∀ entry ∈ E.entries, ∃ row, storedRow db table row = entry := by
    rintro ⟨key, data⟩ hentry
    obtain ⟨hdata, hrange⟩ := mem_entries_range.mp hentry
    obtain ⟨s, rfl⟩ := hkeys key data hdata
    obtain ⟨id, rfl, -⟩ := Key.pack_mem_range_iff.mp hrange
    exact ⟨(id, data), rfl⟩
  obtain ⟨rows, hrows⟩ : E.entries ∈ Set.range (List.map (storedRow db table)) := by
    rw [Set.range_list_map]
    exact hrow
  refine ⟨rows, ⟨?_, ?_⟩, hrows.symm⟩
  · have hascending := E.ascending
    rw [← hrows] at hascending
    exact (List.pairwise_map.mp hascending).imp fun h => Key.pack_row_lt_iff.mp h
  · intro id data
    have hmem : (id, data) ∈ rows ↔ storedRow db table (id, data) ∈ E.entries := by
      rw [← hrows, List.mem_map_of_injective (storedRow_injective db table)]
    rw [hmem, storedRow, mem_entries_range, Key.pack_mem_range_iff]
    simp only [Key.row_inj, exists_eq_left']

theorem head_eq_firsts (D : KeyMap Bytes) (first last : Bytes) (limit : Int) :
    D.head first last limit = firsts limit (D.range first last).entries := rfl

end KeyMap

theorem firsts_max {α : Type} (limit : Int) (l : List α) :
    firsts (max limit 0) l = firsts limit l := by
  unfold firsts
  by_cases hpos : 0 < limit
  · rw [if_pos (by omega), if_pos hpos, max_eq_left hpos.le]
  · rw [if_neg (by omega), if_neg hpos]

namespace Scan

/-- What a scan is to answer when it comes upon the rows. -/
inductive Answers (p : Projection) (rows : List (String × Bytes)) :
    Status × List Record → Prop where
  | read {records : List Record} :
      List.Forall₂ (fun row r => Record.read p row.2 = .ok (some r)) rows records →
      Answers p rows (.ok, records)
  | unread {row : String × Bytes} : row ∈ rows → (∀ r, Record.read p row.2 ≠ .ok (some r)) →
      Answers p rows (.error, [])

theorem readAll_eq_iff {p : Projection} {rows : List Bytes} {records : List Record} :
    readAll p rows = .ok (some records) ↔
      List.Forall₂ (fun data r => Record.read p data = .ok (some r)) rows records := by
  induction rows generalizing records with
  | nil => simp [readAll, eq_comm]
  | cons data rest ih =>
    rw [readAll, List.forall₂_cons_left_iff]
    simp only [← ih]
    rcases Record.read p data with e | _ | r
    · simp
    · simp
    · rcases readAll p rest with e | _ | found
      · simp
      · simp
      · simp [eq_comm]

theorem exists_unread {p : Projection} {rows : List Bytes}
    (h : ∀ records, readAll p rows ≠ .ok (some records)) :
    ∃ data ∈ rows, ∀ r, Record.read p data ≠ .ok (some r) := by
  induction rows with
  | nil => exact (h [] rfl).elim
  | cons data rest ih =>
    by_cases hdata : ∃ r, Record.read p data = .ok (some r)
    · obtain ⟨r, hr⟩ := hdata
      have hrest : ∀ records, readAll p rest ≠ .ok (some records) := by
        intro records hrecords
        exact h (r :: records) (by simp [readAll, hr, hrecords])
      obtain ⟨unread, hmem, hunread⟩ := ih hrest
      exact ⟨unread, List.mem_cons_of_mem _ hmem, hunread⟩
    · exact ⟨data, List.mem_cons_self, not_exists.mp hdata⟩

theorem answers_readAll (p : Projection) (rows : List (String × Bytes)) :
    Answers p rows (verdict (readAll p (rows.map Prod.snd))) := by
  unfold verdict
  split
  · next records h => exact .read (List.forall₂_map_left_iff.mp (readAll_eq_iff.mp h))
  · next h =>
    obtain ⟨data, hdata, hunread⟩ := exists_unread h
    obtain ⟨row, hrow, rfl⟩ := List.mem_map.mp hdata
    exact .unread hrow hunread

end Scan

namespace Session

variable {s : Session} {D : KeyMap Bytes}

/-- A scan of any session on a store that is ready finds the first rows of the table from an id on.
It answers with all of them, each read as asked, or with an error and no record, and leaves the
table, the clients and the transactions as they were. -/
theorem step_scan (hready : s.shared.store.Ready) (htable : s.shared.store.table = .holding D)
    (hkeys : ∀ key data, D.get? key = some data → ∃ text, key = Key.pack text)
    (db table start : String) {limit : Int} (hlimit : limit ≤ Buffer.maxLimit) (p : Projection) :
    ∃ rows status records s', D.IsTail db table start rows ∧
      Scan.Answers p (firsts limit rows) (status, records) ∧
      step (.scan db table start limit p) s = (.ok (.client (.scanned status records)), s') ∧
      s'.shared.store.table = .holding D ∧ s'.clients = s.clients ∧
      s'.transactions = s.transactions := by
  obtain ⟨rows, hrows, hrange⟩ := KeyMap.exists_isTail hkeys db table start
  obtain ⟨links, f, -, hscan⟩ := Shared.scan_ready
    (w := { s.shared with footprint := { s.shared.footprint with events := [] } }) hready htable db
    table start hlimit p
  have hhead : (D.head (Key.pack (Key.row db table start)) (Key.pack (Key.rangeEnd table (some db)))
      (max limit 0)).map Prod.snd = (firsts limit rows).map Prod.snd := by
    rw [KeyMap.head_eq_firsts, firsts_max, hrange, firsts_map, List.map_map]
    rfl
  have hanswers := Scan.answers_readAll p (firsts limit rows)
  rw [hhead] at hscan
  rcases hverdict : Scan.verdict (Scan.readAll p ((firsts limit rows).map Prod.snd)) with
    ⟨status, records⟩
  rw [hverdict] at hanswers hscan
  refine ⟨rows, status, records, { s with shared := ⟨{ s.shared.store with links }, f⟩ }, hrows,
    hanswers, ?_, htable, rfl, rfl⟩
  simp only [step, perform, onShared, Step.slotNames, List.foldl_nil, hscan]

theorem step_scan_of_queued_and_buffered :
    let row : Fields Value := .ofList [("f", .text "1")]
    let stored (n : String) : Bytes := Record.encode (.ofList [("f", n)])
    let D : KeyMap Bytes := (((KeyMap.empty.insert (Key.pack "db:t:a\x00") (stored "2")).insert
      (Key.pack "db:t:é") (stored "3")).insert (Key.pack "db:t:A") (stored "0")).insert
      (Key.pack "db:u:b") (stored "9")
    let queued : Client := { Client.new ⟨.text "db", 5⟩ false with
      queue := ⟨[⟨"t", "db:t:b", .insert row⟩]⟩ }
    let buffered : Transaction :=
      .active ⟨true, .insert .empty (Key.pack "db:t:é") none, false, .fresh⟩
    let s : Session := ⟨⟨{ Store.new "kv" true with table := .holding D }, .empty⟩,
      ⟨.text "db", 0⟩, .ofList [("x", queued)], .ofList [("T", buffered)]⟩
    (∃ rows status records s', D.IsTail "db" "t" "a" rows ∧
      Scan.Answers .all (firsts 2 rows) (status, records) ∧
      step (.scan "db" "t" "a" 2 .all) s = (.ok (.client (.scanned status records)), s') ∧
      s'.shared.store.table = .holding D ∧ s'.clients = s.clients ∧
      s'.transactions = s.transactions) ∧
      (s.shared.scan "db" "t" "a" 2 .all).1 =
        (.ok, [.ofList [("f", "2")], .ofList [("f", "3")]]) := by
  intro row stored D queued buffered s
  have hkeys : ∀ key data, D.get? key = some data → ∃ text, key = Key.pack text := by
    intro key data hdata
    simp only [D, KeyMap.get?_insert, KeyMap.get?_empty] at hdata
    split_ifs at hdata with hu hA he ha
    · exact ⟨_, hu⟩
    · exact ⟨_, hA⟩
    · exact ⟨_, he⟩
    · exact ⟨_, ha⟩
  exact ⟨step_scan ⟨rfl, rfl, D, rfl⟩ rfl hkeys "db" "t" "a" (by decide) .all, by decide +kernel⟩

/-- A scan from an id with a surrogate in it fails, though the record of a later id can be read. -/
theorem scan_of_surrogate :
    let t : BrokenText := ⟨[0xD800], rfl⟩
    let r : Record := .ofList [("f", "1")]
    let D : KeyMap Bytes := .insert .empty (Key.pack (Key.row "DB" "t" "\ue000")) r.encode
    let s : Session := ⟨⟨{ Store.new "kv" true with table := .holding D }, .empty⟩,
      ⟨.text "DB", 0⟩, .empty, .empty⟩
    (∀ code ∈ t.codes, code < codePoint '\ue000') ∧ Record.read .all r.encode = .ok (some r) ∧
      (step (.scan "DB" "t" (.broken t) 0 .all) s).1 = .ok (.client (.scanned .error [])) :=
  ⟨List.forall_mem_singleton.mpr (by decide +kernel), by decide +kernel, rfl⟩

end Session
end RecordStore
