import RecordStore.Proofs.Catalog

/-! # Reading back what was asked for

A record that was encoded comes back as it was, or as the part of it that a projection asks for. An
empty record does not come back, nor does one that lacks a field asked for.
-/

namespace RecordStore

theorem Projection.nodup_names (p : Projection) : p.names.Nodup :=
  p.ascending.imp fun hlt => String.ne_of_lt hlt

namespace Record

theorem entries_restrict {names : List String} (hnames : names.Nodup) (r : Record) :
    (r.restrict names).entries =
      names.filterMap fun name => (r.get? name).map (name, ·) := by
  have hfst : (names.filterMap fun name => (r.get? name).map (name, ·)).map Prod.fst =
      names.filter fun name => (r.get? name).isSome := by
    rw [List.map_filterMap, ← List.filterMap_eq_filter]
    congr 1
    funext name
    cases hvalue : r.get? name <;> simp [Option.guard, hvalue]
  have hdistinct : ((Fields.empty : Record).names ++
      (names.filterMap fun name => (r.get? name).map (name, ·)).map Prod.fst).Nodup := by
    rw [hfst]
    exact hnames.filter _
  exact Fields.entries_putAll_of_nodup hdistinct

theorem get?_restrict {names : List String} (hnames : names.Nodup) (r : Record) (name : String) :
    (r.restrict names).get? name = if name ∈ names then r.get? name else none := by
  ext value
  rw [Fields.get?_eq_some_iff, entries_restrict hnames, List.mem_filterMap]
  simp only [Option.map_eq_some_iff, Prod.mk.injEq]
  constructor
  · rintro ⟨_, hname, _, hvalue, rfl, rfl⟩
    rw [if_pos hname]
    exact hvalue
  · intro h
    split at h
    · next hname => exact ⟨name, hname, value, h, rfl, rfl⟩
    · cases h

/-- Reading an encoded record never fails. It gives the record, or its part with the fields asked
for, or nothing if the record is empty or lacks one of them. -/
theorem read_encode_map_text (r : Record) (p : Projection) :
    ∃ data answer, (r.map Value.text).encode = .ok data ∧ read p data = .ok answer ∧
      if r.isEmpty then answer = none
      else if p.names = [] then answer = some r
      else if ∀ name ∈ p.names, name ∈ r.names then
        ∃ part, answer = some part ∧
          ∀ name, part.get? name = if name ∈ p.names then r.get? name else none
      else answer = none := by
  refine ⟨r.encode, r.project p, encode_map_text r, ?_, ?_⟩
  · rw [read_of_encode, select_eq_project]
  split
  · next hr => exact if_neg fun h => by simp [h.1] at hr
  · next hr =>
    have hfull : r.isEmpty = false := by simpa using hr
    split
    · next hall => rw [project, if_pos ⟨hfull, by simp [hall]⟩, if_pos hall]
    · next hall =>
      split
      · next hnames =>
        refine ⟨r.restrict p.names, ?_, get?_restrict p.nodup_names r⟩
        rw [project, if_pos ⟨hfull, hnames⟩, if_neg hall]
      · next hnames => exact if_neg fun h => hnames h.2

/-- A text with a surrogate in it has no stored form. -/
theorem encode_of_surrogate :
    let t : BrokenText := ⟨[0xD800], rfl⟩
    (Fields.ofList [("f", Value.ofText (.broken t))]).encode = .error (.broken t) := rfl

end Record
end RecordStore
