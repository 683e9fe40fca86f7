import RecordStore.Proofs.Catalog
import RecordStore.Proofs.RangeReads

/-! # Scans of a catalog

What a scan finds in a store that mirrors a catalog: the first records of the table from an id on,
and nothing at all if one of them lacks what is asked for.
-/

namespace RecordStore

theorem Key.mem_tail_iff {db table start s : String} :
    (Key.row db table "").toList.isPrefixOf s.toList = true ∧ ¬ s < Key.row db table start ↔
      ∃ id, s = Key.row db table id ∧ ¬ id < start := by
  constructor
  · rintro ⟨htable, hstart⟩
    obtain ⟨id, hid⟩ := List.isPrefixOf_iff_prefix.mp htable
    obtain rfl : s = Key.row db table (.ofList id) := by
      rw [← String.toList_inj, ← hid]
      simp [Key.row]
    have hend : Key.pack (Key.row db table (.ofList id)) <
        Key.pack (Key.rangeEnd table (some db)) :=
      (Key.pack_mem_range_iff.mpr ⟨_, rfl, String.lt_irrefl (.ofList id)⟩).2
    rw [← Key.pack_lt_pack_iff] at hstart
    exact Key.pack_mem_range_iff.mp ⟨hstart, hend⟩
  · rintro ⟨id, rfl, hid⟩
    have hstart : ¬ Key.pack (Key.row db table id) < Key.pack (Key.row db table start) :=
      (Key.pack_mem_range_iff.mpr ⟨id, rfl, hid⟩).1
    refine ⟨List.isPrefixOf_iff_prefix.mpr ⟨id.toList, ?_⟩, Key.pack_lt_pack_iff.not.mp hstart⟩
    simp [Key.row]

namespace Catalog

variable {M : Catalog} {D : KeyMap Bytes}

theorem mem_tail_iff {db table start : String} {e : String × Record} :
    e ∈ M.tail db table start ↔
      M.records.get? e.1 = some e.2 ∧ ∃ id, e.1 = Key.row db table id ∧ ¬ id < start := by
  rw [tail, List.mem_mergeSort, List.mem_filter, Fields.get?_eq_some_iff, ← Key.mem_tail_iff]
  simp

theorem tail_ascending (db table start : String) :
    (M.tail db table start).Pairwise (·.1 < ·.1) := by
  have htrans : ∀ a b c : String × Record, decide (a.1 ≤ b.1) = true → decide (b.1 ≤ c.1) = true →
      decide (a.1 ≤ c.1) = true := fun a b c hab hbc =>
    decide_eq_true (String.le_trans (of_decide_eq_true hab) (of_decide_eq_true hbc))
  have htotal : ∀ a b : String × Record, (decide (a.1 ≤ b.1) || decide (b.1 ≤ a.1)) = true := by
    intro a b
    simpa using String.le_total a.1 b.1
  have hsorted : (M.tail db table start).Pairwise fun a b => decide (a.1 ≤ b.1) = true :=
    List.pairwise_mergeSort htrans htotal _
  have hdistinct : (M.tail db table start).Pairwise fun a b => a.1 ≠ b.1 := by
    refine (List.mergeSort_perm _ _).symm.pairwise ?_ fun h => h.symm
    exact (List.pairwise_map.mp M.records.distinct).filter _
  refine hsorted.imp₂ (fun a b hle hne => ?_) hdistinct
  exact Std.lt_of_le_of_ne (of_decide_eq_true hle) hne

theorem entries_range (h : Mirrors D.get? M.records) (db table start : String) :
    (D.range (Key.pack (Key.row db table start))
      (Key.pack (Key.rangeEnd table (some db)))).entries =
      (M.tail db table start).map fun e => (Key.pack e.1, Record.encode e.2) := by
  have hmem : ∀ p : Bytes × Bytes, p ∈ (D.range (Key.pack (Key.row db table start))
      (Key.pack (Key.rangeEnd table (some db)))).entries ↔
      p ∈ (M.tail db table start).map fun e => (Key.pack e.1, Record.encode e.2) := by
    rintro ⟨key, data⟩
    simp only [KeyMap.range, List.mem_filter, ← KeyMap.get?_eq_some_iff, h key data, List.mem_map,
      mem_tail_iff, Prod.mk.injEq, Bool.and_eq_true, Bool.not_eq_true', decide_eq_false_iff_not,
      decide_eq_true_eq]
    constructor
    · rintro ⟨⟨s, r, hr, rfl, rfl⟩, hrange⟩
      exact ⟨(s, r), ⟨hr, Key.pack_mem_range_iff.mp hrange⟩, rfl, rfl⟩
    · rintro ⟨⟨s, r⟩, ⟨hr, hrow⟩, rfl, rfl⟩
      exact ⟨⟨s, r, hr, rfl, rfl⟩, Key.pack_mem_range_iff.mpr hrow⟩
  refine KeyMap.entries_eq_of_mem_iff (KeyMap.ascending _) ?_ hmem
  refine List.pairwise_map.mpr ((tail_ascending db table start).imp fun hlt => ?_)
  exact Key.pack_lt_pack hlt

theorem readAll_encode (p : Projection) (records : List Record) :
    Scan.readAll p (records.map Record.encode) = .ok (records.mapM (Record.project p)) := by
  induction records with
  | nil => rfl
  | cons r rest ih =>
    rw [List.map_cons, Scan.readAll, Record.read_of_encode, Record.select_eq_project,
      List.mapM_cons]
    cases Record.project p r with
    | none => rfl
    | some selected =>
      simp only [ih]
      cases rest.mapM (Record.project p) <;> rfl

end Catalog

namespace Connection

variable {c : Connection} {D : KeyMap Bytes}

theorem fetch_ready (hready : c.store.Ready) (htable : c.store.table = .holding D)
    (first last : Bytes) {limit : Int} (hlimit : limit ≤ Buffer.maxLimit) :
    ∃ links, Scan.fetch backend (.ok first) last limit c =
      (.ok (D.head first last limit), ⟨{ c.store with links }, .finished⟩) := by
  obtain ⟨links, link, hbegin⟩ := begin_ok (c := c) hready.1 hready.2.1 false
  have hasks : Buffer.asksTooMuch ⟨false, .empty, false, link⟩ first last limit = false := by
    simpa [Buffer.asksTooMuch, Buffer.wanted, Buffer.pending, KeyMap.size] using fun _ => hlimit
  obtain ⟨link', hrange⟩ : ∃ link', backend.range first last limit
      ⟨{ c.store with links }, .active ⟨false, .empty, false, link⟩⟩ =
        (.ok (D.head first last limit),
          ⟨{ c.store with links }, .active ⟨false, .empty, false, link'⟩⟩) :=
    ⟨_, Prod.ext (Transaction.range_active htable hasks) rfl⟩
  obtain ⟨links', hrollback⟩ := rollback_of_active { c.store with links }
    (b := ⟨false, .empty, false, link'⟩) rfl
  have hend : backend.rollback ⟨{ c.store with links }, .active ⟨false, .empty, false, link'⟩⟩ =
      (.ok (), ⟨{ c.store with links := links' }, .finished⟩) := hrollback
  refine ⟨links', Attempt.bind_eq_ok_iff.mpr ⟨(), _, hbegin, ?_⟩⟩
  rw [Scan.rangeAndEnd, Scan.range, hrange]
  simp only [hend]

end Connection

/-- What a scan answers once the rows that it fetched have been read. -/
def Scan.verdict : Except DecodeError (Option (List Record)) → Status × List Record
  | .ok (some records) => (.ok, records)
  | _ => (.error, [])

/-- What a scan of a store that is ready answers, and what it leaves as it was. -/
theorem Shared.scan_ready {w : Shared} {D : KeyMap Bytes} (hready : w.store.Ready)
    (htable : w.store.table = .holding D) (db table start : String) {limit : Int}
    (hlimit : limit ≤ Buffer.maxLimit) (p : Projection) :
    ∃ links f, f.slots = w.footprint.slots ∧ w.scan db table start limit p =
      (Scan.verdict (Scan.readAll p ((D.head (Key.pack (Key.row db table start))
        (Key.pack (Key.rangeEnd table (some db))) (max limit 0)).map Prod.snd)),
        ⟨{ w.store with links }, f⟩) := by
  obtain ⟨links, hfetch⟩ := Connection.fetch_ready (c := ⟨w.store, .finished⟩) hready htable
    (Key.pack (Key.row db table start)) (Key.pack (Key.rangeEnd table (some db)))
    (show max limit 0 ≤ Buffer.maxLimit by simp only [Buffer.maxLimit] at *; omega)
  simp only [Shared.scan, Scan.scan, Key.rowFrom, Scan.find, Key.packText_unicode, Attempt.bind_eq,
    hfetch]
  cases Scan.readAll p ((D.head (Key.pack (Key.row db table start))
    (Key.pack (Key.rangeEnd table (some db))) (max limit 0)).map Prod.snd) with
  | error e =>
    refine ⟨links, _, ?_, rfl⟩
    rfl
  | ok found =>
    cases found with
    | none =>
      refine ⟨links, _, ?_, rfl⟩
      rfl
    | some records =>
      refine ⟨links, _, ?_, rfl⟩
      rfl

namespace Catalog

variable {M : Catalog} {D : KeyMap Bytes}

theorem head_range (h : Mirrors D.get? M.records) (db table start : String) (count : Int) :
    (D.head (Key.pack (Key.row db table start)) (Key.pack (Key.rangeEnd table (some db)))
      (max count 0)).map Prod.snd =
      ((M.slice db table start count).map Prod.snd).map Record.encode := by
  rw [KeyMap.head, slice, entries_range h]
  by_cases hpos : 0 < count
  · rw [if_pos (by omega), if_pos hpos, Int.max_eq_left (by omega), ← List.map_take, List.map_map,
      List.map_map]
    rfl
  · rw [if_neg (by omega), if_neg hpos, List.map_map, List.map_map]
    rfl

theorem scan_of_mirrors {w : Shared} (hready : w.store.Ready)
    (hmirrors : Mirrors w.store.table.rows M.records) (db table start : String) {count : Int}
    (hcount : count ≤ Buffer.maxLimit) (p : Projection) :
    ∃ links f, f.slots = w.footprint.slots ∧ w.scan db table start count p =
      (match ((M.slice db table start count).map Prod.snd).mapM (Record.project p) with
        | some records => (.ok, records)
        | none => (.error, []), ⟨{ w.store with links }, f⟩) := by
  obtain ⟨D, hD⟩ := hready.2.2
  have hrows : w.store.table.rows = D.get? := by rw [hD]; rfl
  rw [hrows] at hmirrors
  obtain ⟨links, f, hslots, hscan⟩ := Shared.scan_ready hready hD db table start hcount p
  refine ⟨links, f, hslots, ?_⟩
  rw [hscan, head_range hmirrors, readAll_encode]
  cases ((M.slice db table start count).map Prod.snd).mapM (Record.project p) <;> rfl

end Catalog
end RecordStore
