import RecordStore.Proofs.Unpacking
import RecordStore.Record

/-! # Reading back records

A record that was encoded decodes to itself, fields in the same order.
-/

namespace RecordStore

namespace Fields

variable {α β : Type}

theorem putEntry_of_not_mem {name : String} {value : α} {entries : List (String × α)}
    (h : name ∉ entries.map Prod.fst) :
    putEntry name value entries = entries ++ [(name, value)] := by
  induction entries with
  | nil => rfl
  | cons entry rest ih =>
    rw [List.map_cons, List.mem_cons, not_or] at h
    have hne : entry.1 ≠ name := fun e => h.1 e.symm
    simp [putEntry, hne, ih h.2]

theorem entries_putAll_of_nodup {fields : Fields α} {pairs : List (String × α)}
    (h : (fields.names ++ pairs.map Prod.fst).Nodup) :
    (fields.putAll pairs).entries = fields.entries ++ pairs := by
  induction pairs generalizing fields with
  | nil => simp [putAll]
  | cons p pairs ih =>
    have hp : p.1 ∉ fields.names := by
      simp only [List.map_cons, List.nodup_append] at h
      exact fun hmem => h.2.2 _ hmem _ List.mem_cons_self rfl
    have hput : (fields.put p.1 p.2).entries = fields.entries ++ [p] := putEntry_of_not_mem hp
    have hnames : ((fields.put p.1 p.2).names ++ pairs.map Prod.fst).Nodup := by
      rw [names, hput]
      simpa [names] using h
    rw [putAll, List.foldl_cons, ← putAll, ih hnames, hput, List.append_assoc,
      List.singleton_append]

theorem ofList_entries (fields : Fields α) : ofList fields.entries = fields := by
  refine ext_entries ?_
  rw [ofList, entries_putAll_of_nodup (by simpa [names] using fields.distinct)]
  rfl

theorem map_put {β : Type} (f : α → β) (fields : Fields α) (name : String) (value : α) :
    (fields.put name value).map f = (fields.map f).put name (f value) := by
  refine ext_entries ?_
  simp only [map, entries_put]
  induction fields.entries with
  | nil => rfl
  | cons entry rest ih =>
    simp only [putEntry, List.map_cons]
    split
    · rfl
    · rw [List.map_cons, ih]

theorem map_overlay {β : Type} (f : α → β) (base new : Fields α) :
    (base.overlay new).map f = (base.map f).overlay (new.map f) := by
  have hputAll : ∀ (pairs : List (String × α)) (base : Fields α), (base.putAll pairs).map f =
      (base.map f).putAll (pairs.map fun p => (p.1, f p.2)) := by
    intro pairs
    induction pairs with
    | nil => exact fun _ => rfl
    | cons p pairs ih =>
      intro base
      have hstep := ih (base.put p.1 p.2)
      rw [map_put] at hstep
      exact hstep
  exact hputAll new.entries base

theorem map_injective {β : Type} {f : α → β} (hf : ∀ x y, f x = f y → x = y) {a b : Fields α}
    (h : a.map f = b.map f) : a = b := by
  refine ext_entries (List.map_inj_right ?_ |>.mp (congrArg entries h))
  rintro ⟨n, x⟩ ⟨m, y⟩ hxy
  obtain ⟨rfl, hf'⟩ := Prod.mk.inj hxy
  rw [hf x y hf']

theorem isEmpty_overlay {base : Fields α} (h : base.isEmpty = false) (new : Fields α) :
    (base.overlay new).isEmpty = false := by
  have hputAll : ∀ (pairs : List (String × α)) (base : Fields α), base.isEmpty = false →
      (base.putAll pairs).isEmpty = false := by
    intro pairs
    induction pairs with
    | nil => exact fun _ h => h
    | cons p pairs ih =>
      intro base _
      refine ih (base.put p.1 p.2) ?_
      simp only [isEmpty, entries_put]
      cases base.entries with
      | nil => rfl
      | cons entry rest =>
        rw [putEntry]
        split <;> rfl
  exact hputAll new.entries base h

end Fields

namespace Record

open RecordStore.Tuple

theorem mapM_ofPair_map_pair (entries : List (String × String)) :
    (entries.map pair).mapM ofPair = .ok entries := by
  induction entries with
  | nil => rfl
  | cons p rest ih =>
    rw [List.map_cons, List.mapM_cons, ih]
    rfl

/-- Pairs of texts do not fill the room that the reader has. -/
theorem unpackWithin_pack_pairs (pairs : List (String × String)) :
    unpackWithin room (Tuple.pack (pairs.map pair)) = .ok (pairs.map pair) := by
  refine unpackWithin_of_pack fun e he => ?_
  obtain ⟨p, -, rfl⟩ := List.mem_map.mp he
  simp [pair, Element.depth, Element.depthAll, room]

theorem decode_of_encode (r : Record) : decode (encode r) = .ok r := by
  simp only [decode, encode, unpackWithin_pack_pairs, mapM_ofPair_map_pair]
  exact congrArg Except.ok (Fields.ofList_entries r)

theorem encode_injective {a b : Record} (h : encode a = encode b) : a = b := by
  have hdecode : decode (encode a) = decode (encode b) := by rw [h]
  simpa only [decode_of_encode, Except.ok.injEq] using hdecode

theorem read_of_encode (p : Projection) (r : Record) : read p (encode r) = .ok (select p r) := by
  rw [read, decode_of_encode]
  rfl

end Record
end RecordStore
