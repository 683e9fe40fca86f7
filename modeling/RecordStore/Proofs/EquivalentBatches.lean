import RecordStore.Proofs.EquivalentStores
import RecordStore.Scan

/-! # Batches of interchangeable operations

Batches whose operations are interchangeable one by one come to the same verdict on equivalent
stores. They fill the same slots with records that agree, and leave equivalent stores behind. A scan
finds records that agree on both.
-/

namespace RecordStore

open Attempt (Alike Matches Pairs matches_change matches_changeSecond matches_fail matches_ofExcept
  matches_pure)

theorem Fields.keyed_put {α : Type} {V : α → α → Prop} {a b : Fields α}
    (h : Keyed V a.entries b.entries) (name : String) {x y : α} (hxy : V x y) :
    Keyed V (a.put name x).entries (b.put name y).entries := by
  suffices hput : ∀ {l l' : List (String × α)}, Keyed V l l' →
      Keyed V (putEntry name x l) (putEntry name y l') from hput h
  intro l l' h
  induction h with
  | nil => exact .cons ⟨rfl, hxy⟩ .nil
  | cons hp hrest ih =>
    rw [putEntry, putEntry, hp.1]
    split
    · exact .cons ⟨rfl, hxy⟩ hrest
    · exact .cons hp ih

theorem Fields.keyed_get? {α : Type} {V : α → α → Prop} {a b : Fields α}
    (h : Keyed V a.entries b.entries) (name : String) : Option.Rel V (a.get? name) (b.get? name) :=
  h.find? fun _ _ hname => by rw [hname]

/-- The same slots hold records that agree, and the same was counted. Nothing is said of events. -/
structure Footprint.Equivalent (f f' : Footprint) : Prop where
  slots : Keyed Fields.Agree f.slots.entries f'.slots.entries
  metrics : f.metrics = f'.metrics

namespace Footprint

variable {f f' : Footprint}

theorem Equivalent.report (h : f.Equivalent f') (e e' : Event) :
    (f.report e).Equivalent (f'.report e') :=
  ⟨h.slots, h.metrics⟩

theorem Equivalent.slot (h : f.Equivalent f') (name : String) :
    (f.slot name).Agree (f'.slot name) := by
  have hslot := Fields.keyed_get? h.slots name
  unfold Footprint.slot
  generalize f.slots.get? name = x at hslot
  generalize f'.slots.get? name = y at hslot
  cases hslot with
  | none => exact .refl _
  | some hr => exact hr

theorem Equivalent.declare (h : f.Equivalent f') (name : String) :
    (f.declare name).Equivalent (f'.declare name) :=
  ⟨Fields.keyed_put h.slots name (h.slot name), h.metrics⟩

theorem Equivalent.fill (h : f.Equivalent f') (name : String) {r r' : Record} (hr : r.Agree r') :
    (f.fill name r).Equivalent (f'.fill name r') :=
  ⟨Fields.keyed_put h.slots name ((h.slot name).overlay hr), h.metrics⟩

theorem Equivalent.observeBatch (h : f.Equivalent f') (status : Status) (size : Nat) :
    (f.observeBatch status size).Equivalent (f'.observeBatch status size) :=
  ⟨h.slots, congrArg (·.observeBatch status size) h.metrics⟩

theorem Equivalent.observeScan (h : f.Equivalent f') (status : Status) :
    (f.observeScan status).Equivalent (f'.observeScan status) :=
  ⟨h.slots, congrArg (·.observeScan status) h.metrics⟩

end Footprint

namespace Batch

inductive Request.PackAlike : Request → Request → Prop where
  | read (p : Projection) (slot : Option String) : PackAlike (.read p slot) (.read p slot)
  | update {v w : Fields Value} : v.PackAlike w → PackAlike (.update v) (.update w)

structure Pending.Equivalent (p q : Pending) : Prop where
  key : p.key = q.key
  request : p.request.PackAlike q.request
  row : Alike Fault.Equivalent (Option.Rel Record.Equivalent) p.row q.row

inductive Outcome.Equivalent : Outcome → Outcome → Prop where
  | missing : Equivalent .missing .missing
  | incomplete : Equivalent .incomplete .incomplete
  | found {r r' : Record} (slot : Option String) : r.Agree r' →
      Equivalent (.found r slot) (.found r' slot)
  | merged {data data' : Bytes} : Record.Equivalent data data' →
      Equivalent (.merged data) (.merged data')

theorem settle_equivalent {a b : Request} (h : a.PackAlike b) {row row' : Option Bytes}
    (hrow : Option.Rel Record.Equivalent row row') :
    Alike Fault.Equivalent Outcome.Equivalent (settle a row) (settle b row') := by
  cases hrow with
  | none => cases h <;> exact .ok .missing
  | some hdata =>
    cases h with
    | read p slot =>
      unfold settle
      dsimp only
      rcases Record.read_equivalent p hdata with ⟨e, e', hs, ht⟩ | ⟨x, y, hs, ht, hxy⟩
      · rw [hs, ht]
        exact .error (.decode e e')
      · rw [hs, ht]
        cases hxy with
        | none => exact .ok .incomplete
        | some hr => exact .ok (.found slot hr)
    | update hv =>
      unfold settle
      dsimp only
      rcases Record.read_equivalent .all hdata with ⟨e, e', hs, ht⟩ | ⟨x, y, hs, ht, hxy⟩
      · rw [hs, ht]
        exact .error (.decode e e')
      · rw [hs, ht]
        cases hxy with
        | none => exact .ok .missing
        | some hr =>
          dsimp only
          rcases (Fields.PackAlike.overlay hr hv).encode with ⟨v, w, hm, hm'⟩ |
            ⟨data, data', hm, hm', hmerged⟩
          · rw [hm, hm']
            exact .error (.unpackable v w)
          · rw [hm, hm']
            exact .ok (.merged hmerged)

theorem Pending.Equivalent.outcome {p q : Pending} (h : p.Equivalent q) :
    Alike Fault.Equivalent Outcome.Equivalent p.outcome q.outcome := by
  obtain ⟨key, request, row⟩ := p
  obtain ⟨key', request', row'⟩ := q
  obtain ⟨-, hrequest, hrow⟩ := h
  cases hrow with
  | error he => exact .error he
  | ok hvalue => exact settle_equivalent hrequest hvalue

theorem conclude_matches (key : String) {x y : Outcome} (h : x.Equivalent y) :
    Matches (Pairs Connection.Equivalent Footprint.Equivalent) Fault.Equivalent Eq
      (conclude Connection.backend key x) (conclude Connection.backend key y) := by
  cases h with
  | missing =>
    exact (matches_changeSecond fun _ _ hf => hf.report _ _).answer fun _ _ _ => rfl
  | incomplete => exact matches_pure rfl
  | found slot hr =>
    refine Matches.answer (matches_changeSecond fun f f' hf => ?_) fun _ _ _ => rfl
    cases slot with
    | none => exact hf
    | some name => exact hf.fill name hr
  | merged hdata => exact (Connection.set_matches _ hdata).onFirst.answer fun _ _ _ => rfl

theorem resolve_matches {p q : Pending} (h : p.Equivalent q) :
    Matches (Pairs Connection.Equivalent Footprint.Equivalent) Fault.Equivalent Eq
      (resolve Connection.backend p) (resolve Connection.backend q) :=
  (matches_ofExcept h.outcome).bind fun _ _ hxy => h.key ▸ conclude_matches p.key hxy

theorem send_matches {op op' : Operation} (h : op.Interchangeable op') :
    Matches Connection.Equivalent Fault.Equivalent (Option.Rel Pending.Equivalent)
      (send Connection.backend op) (send Connection.backend op') := by
  obtain ⟨-, hkey, haction⟩ := h.packAlike
  obtain ⟨table, key, action⟩ := op
  obtain ⟨table', key', action'⟩ := op'
  obtain rfl : key = key' := hkey
  unfold send
  dsimp only at haction ⊢
  cases haction with
  | delete => exact (Connection.clear_matches _).answer fun _ _ _ => .none
  | insert hv =>
    rcases hv.encode with ⟨v, w, hs, ht⟩ | ⟨data, data', hs, ht, hdata⟩
    · simp only [hs, ht]
      exact matches_fail (.unpackable v w)
    · simp only [hs, ht]
      exact (Connection.set_matches _ hdata).answer fun _ _ _ => .none
  | read p slot =>
    exact (Connection.get_matches _).answer fun _ _ hrow => .some ⟨rfl, .read p slot, hrow⟩
  | update hv =>
    exact (Connection.get_matches _).answer fun _ _ hrow => .some ⟨rfl, .update hv, hrow⟩

theorem execute_equivalent {ops ops' : List Operation}
    (hops : List.Forall₂ Operation.Interchangeable ops ops') {t t' : Connection × Footprint}
    (h : Pairs Connection.Equivalent Footprint.Equivalent t t') :
    (execute Connection.backend ops t).1 = (execute Connection.backend ops' t').1 ∧
      Pairs Connection.Equivalent Footprint.Equivalent (execute Connection.backend ops t).2
        (execute Connection.backend ops' t').2 :=
  execute_matches Connection.backend_endsAlike
    (body_matches (fun _ _ => send_matches) (fun _ _ => resolve_matches)
      (fun _ _ _ hf => hf.report _ _) hops)
    hops.length_eq (fun _ _ _ _ _ hf => hf.report _ _)
    (fun status size _ _ hf => hf.observeBatch status size) h

end Batch

namespace Scan

theorem range_matches (first : Except Value Bytes) (last : Bytes) (limit : Int) :
    Matches Connection.Equivalent Fault.Equivalent (Keyed Record.Equivalent)
      (range Connection.backend first last limit) (range Connection.backend first last limit) := by
  cases first with
  | error v => exact matches_fail (.unpackable v v)
  | ok first => exact Connection.range_matches first last limit

theorem rangeAndEnd_matches (first : Except Value Bytes) (last : Bytes) (limit : Int) :
    Matches Connection.Equivalent Fault.Equivalent (Keyed Record.Equivalent)
      (rangeAndEnd Connection.backend first last limit)
      (rangeAndEnd Connection.backend first last limit) := by
  intro c d h
  obtain ⟨hentries, hafter⟩ := range_matches first last limit c d h
  have hrollback : Matches Connection.Equivalent Fault.Equivalent Eq Connection.backend.rollback
      Connection.backend.rollback := Connection.rollback_matches
  unfold rangeAndEnd
  dsimp only
  rcases hrollback.cases hafter with ⟨e, e', u, u', hs, ht, he, hend⟩ |
    ⟨_, _, u, u', hs, ht, -, hend⟩
  · rw [hs, ht]
    exact ⟨.error he, hend⟩
  · rw [hs, ht]
    exact ⟨hentries, hend⟩

theorem readAll_equivalent (p : Projection) {list list' : List Bytes}
    (h : List.Forall₂ Record.Equivalent list list') :
    (∃ e e', readAll p list = .error e ∧ readAll p list' = .error e') ∨
      ∃ x y, readAll p list = .ok x ∧ readAll p list' = .ok y ∧
        Option.Rel (List.Forall₂ Fields.Agree) x y := by
  induction h with
  | nil => exact .inr ⟨_, _, rfl, rfl, .some .nil⟩
  | cons hdata _ ih =>
    unfold readAll
    rcases Record.read_equivalent p hdata with ⟨e, e', hs, ht⟩ | ⟨x, y, hs, ht, hxy⟩
    · exact .inl ⟨e, e', by rw [hs], by rw [ht]⟩
    · rw [hs, ht]
      cases hxy with
      | none => exact .inr ⟨_, _, rfl, rfl, .none⟩
      | some hr =>
        rcases ih with ⟨e, e', hs, ht⟩ | ⟨x, y, hs, ht, hxy⟩
        · exact .inl ⟨e, e', by rw [hs], by rw [ht]⟩
        · rw [hs, ht]
          cases hxy with
          | none => exact .inr ⟨_, _, rfl, rfl, .none⟩
          | some hrest => exact .inr ⟨_, _, rfl, rfl, .some (.cons hr hrest)⟩

theorem find_matches (first : Text) (last : String) (limit : Int) (p : Projection) :
    Matches Connection.Equivalent Fault.Equivalent (Option.Rel (List.Forall₂ Fields.Agree))
      (find Connection.backend first last limit p)
      (find Connection.backend first last limit p) := by
  have hfetch : Matches Connection.Equivalent Fault.Equivalent (Keyed Record.Equivalent)
      (fetch Connection.backend (Key.packText first) (Key.pack last) (max limit 0))
      (fetch Connection.backend (Key.packText first) (Key.pack last) (max limit 0)) :=
    (Connection.begin_matches false).bind fun _ _ _ => rangeAndEnd_matches _ _ _
  refine hfetch.bind fun l l' hl => ?_
  have hvalues : List.Forall₂ Record.Equivalent (l.map Prod.snd) (l'.map Prod.snd) :=
    List.forall₂_map_left_iff.mpr (List.forall₂_map_right_iff.mpr (hl.imp fun _ _ hp => hp.2))
  rcases readAll_equivalent p hvalues with ⟨e, e', hs, ht⟩ | ⟨x, y, hs, ht, hxy⟩
  · rw [hs, ht]
    exact matches_fail (.decode e e')
  · rw [hs, ht]
    exact matches_pure hxy

theorem scan_equivalent (db table : String) (start : Text) (limit : Int) (p : Projection)
    {t t' : Connection × Footprint} (h : Pairs Connection.Equivalent Footprint.Equivalent t t') :
    let x := scan Connection.backend db table start limit p t
    let y := scan Connection.backend db table start limit p t'
    x.1.1 = y.1.1 ∧ List.Forall₂ Fields.Agree x.1.2 y.1.2 ∧
      Pairs Connection.Equivalent Footprint.Equivalent x.2 y.2 := by
  unfold scan
  dsimp only
  rcases (find_matches (Key.rowFrom db table start) (Key.rangeEnd table (some db)) limit p).cases
    h.1 with ⟨e, e', u, u', hs, ht, -, hafter⟩ | ⟨x, y, u, u', hs, ht, hxy, hafter⟩
  · rw [hs, ht]
    exact ⟨rfl, .nil, hafter, ((h.2.report _ _).report _ _).observeScan _⟩
  · rw [hs, ht]
    cases hxy with
    | none => exact ⟨rfl, .nil, hafter, ((h.2.report _ _).report _ _).observeScan _⟩
    | some hrecords => exact ⟨rfl, hrecords, hafter, (h.2.report _ _).observeScan _⟩

end Scan

end RecordStore
