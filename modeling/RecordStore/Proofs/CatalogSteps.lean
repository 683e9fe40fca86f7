import RecordStore.Proofs.BatchMeaning
import RecordStore.Proofs.Scans

/-! # Batches of one operation

A batch of one text operation on a store that agrees with a catalog is one step of the catalog.
-/

namespace RecordStore

namespace Catalog

open Batch

/-- The store and the slots are as the catalog says, and the store is ready. -/
structure Agrees (M : Catalog) (w : Shared) : Prop where
  ready : w.store.Ready
  rows : Mirrors w.store.table.rows M.records
  short : ∀ s r, M.records.get? s = some r → (Key.pack s).length ≤ maxKeyBytes
  slots : ∀ name, w.footprint.slot name = M.slots name

variable {M : Catalog} {w : Shared} {table key : String}

theorem outcome_read (p : Projection) (slot : Option String) (record : Option Record) :
    Pending.outcome ⟨key, .read p slot, .ok (record.map Record.encode)⟩ =
      .ok (record.elim .missing fun r =>
        (r.project p).elim .incomplete fun r => .found r slot) := by
  cases record with
  | none => rfl
  | some r =>
    simp only [Pending.outcome, Except.bind, Option.map_some, settle, Record.read_of_encode,
      Record.select_eq_project, Option.elim_some]
    cases r.project p <;> rfl

theorem outcome_update (values : Record) (record : Option Record) :
    Pending.outcome ⟨key, .update (values.map Value.text), .ok (record.map Record.encode)⟩ =
      .ok (record.elim .missing fun r =>
        if r.isEmpty then .missing else .merged (Record.encode (r.overlay values))) := by
  cases record with
  | none => rfl
  | some r =>
    simp only [Pending.outcome, Except.bind, Option.map_some, settle, Record.read_of_encode,
      Record.select_all, Option.elim_some]
    cases r.isEmpty with
    | true => rfl
    | false =>
      simp only [Bool.false_eq_true, if_false, ← Fields.map_overlay, Record.encode_map_text]

/-- A batch of one operation that can be sent and settled takes the catalog to another if its rows
and its footprint do. -/
theorem Agrees.execute (h : Agrees M w) {op : Operation} {M' : Catalog} (hsend : Sendable op)
    (hask : ∀ p ∈ ask w.store.table.rows [op], Settleable p)
    (hrows : Mirrors (after w.store.table.rows [op]) M'.records)
    (hshort : ∀ s r, M'.records.get? s = some r → (Key.pack s).length ≤ maxKeyBytes)
    (hslots : ∀ name,
      (settled w.footprint (ask w.store.table.rows [op])).slot name = M'.slots name) :
    (w.execute [op]).1 = verdict ((ask w.store.table.rows [op]).map Pending.status) ∧
      Agrees M' (w.execute [op]).2 := by
  obtain ⟨hstatus, hafter, hfootprint⟩ :=
    Shared.execute_serves h.ready (by simp) (by simpa using hsend) hask
  refine ⟨hstatus, Shared.execute_ready h.ready _, hafter ▸ hrows, hshort, ?_⟩
  intro name
  rw [Footprint.slot, hfootprint]
  exact hslots name

theorem short_put (h : ∀ s r, M.records.get? s = some r → (Key.pack s).length ≤ maxKeyBytes)
    (hkey : (Key.pack key).length ≤ maxKeyBytes) (r : Record) :
    ∀ s r', (M.records.put key r).get? s = some r' → (Key.pack s).length ≤ maxKeyBytes := by
  intro s r' hr
  rw [Fields.get?_put] at hr
  split at hr
  · next hs => exact hs ▸ hkey
  · exact h s r' hr

theorem Agrees.insert (h : Agrees M w) (hkey : (Key.pack key).length ≤ maxKeyBytes)
    (values : Record) : (w.execute [⟨table, key, .insert (values.map Value.text)⟩]).1 = .ok ∧
      Agrees { M with records := M.records.put key values }
        (w.execute [⟨table, key, .insert (values.map Value.text)⟩]).2 := by
  have hsend : Sendable ⟨table, key, .insert (values.map Value.text)⟩ := by
    rintro _ ⟨⟩
    exact ⟨⟨_, Record.encode_map_text values⟩, hkey⟩
  refine h.execute hsend ?_ ?_ ?_ h.slots
  · exact nofun
  · have hrows := h.rows.put key values
    simpa [after, ask, Operation.request?, leave, Record.encode_map_text, Except.toOption]
      using hrows
  · exact short_put h.short hkey values

theorem Agrees.delete (h : Agrees M w) : (w.execute [⟨table, key, .delete⟩]).1 = .ok ∧
    Agrees { M with records := M.records.erase key } (w.execute [⟨table, key, .delete⟩]).2 := by
  have hsend : Sendable ⟨table, key, .delete⟩ := nofun
  refine h.execute hsend nofun (h.rows.erase key) ?_ h.slots
  intro s r hr
  rw [Fields.get?_erase] at hr
  split at hr
  · cases hr
  · exact h.short s r hr

section Request

variable {op : Operation}

def asked (M : Catalog) (key : String) (request : Batch.Request) : Pending :=
  ⟨key, request, .ok ((M.records.get? key).map Record.encode)⟩

theorem Agrees.ask_singleton (h : Agrees M w) {request : Batch.Request}
    (hrequest : op.request? = some request) :
    ask w.store.table.rows [op] = [M.asked op.key request] := by
  simp [ask, hrequest, h.rows.get, asked]

theorem after_singleton {rows : Rows} {request : Batch.Request}
    (hrequest : op.request? = some request) :
    after rows [op] = (ask rows [op]).foldl Pending.write rows := by
  rw [after, leaveAll_cons, leave_of_request hrequest, leaveAll_nil]

theorem sendable_of_request {request : Batch.Request} (hrequest : op.request? = some request) :
    Sendable op := by
  intro values haction
  simp [Operation.request?, haction] at hrequest

theorem Agrees.request (h : Agrees M w) {request : Batch.Request} {outcome : Outcome} {M' : Catalog}
    (hrequest : op.request? = some request)
    (houtcome : (M.asked op.key request).outcome = .ok outcome)
    (hmerged : ∀ data, outcome ≠ .merged data) (hrecords : M'.records = M.records)
    (hslots : ∀ name, ((M.asked op.key request).trace w.footprint).slot name = M'.slots name) :
    (w.execute [op]).1 = verdict [(M.asked op.key request).status] ∧
      Agrees M' (w.execute [op]).2 := by
  have hask := h.ask_singleton hrequest
  have hwrite : ∀ data, (M.asked op.key request).outcome ≠ .ok (.merged data) := fun data hdata =>
    hmerged data (Except.ok.inj (houtcome.symm.trans hdata))
  rw [← List.map_singleton, ← hask]
  refine h.execute (sendable_of_request hrequest) ?_ ?_ (hrecords ▸ h.short) ?_
  · rw [hask]
    rintro _ (_ | ⟨_, ⟨⟩⟩)
    exact ⟨⟨outcome, houtcome⟩, fun data hdata => (hwrite data hdata).elim⟩
  · rw [after_singleton hrequest, hask, List.foldl_cons, List.foldl_nil,
      write_of_outcome_ne_merged hwrite, hrecords]
    exact h.rows
  · rw [hask]
    exact hslots

theorem Agrees.merged (h : Agrees M w) {request : Batch.Request} {r : Record}
    (hrequest : op.request? = some request)
    (houtcome : (M.asked op.key request).outcome = .ok (.merged r.encode))
    (hkey : (Key.pack op.key).length ≤ maxKeyBytes) :
    (w.execute [op]).1 = .ok ∧
      Agrees { M with records := M.records.put op.key r } (w.execute [op]).2 := by
  have hask := h.ask_singleton hrequest
  have hstatus : verdict ((ask w.store.table.rows [op]).map Pending.status) = .ok := by
    simp [hask, verdict, Pending.status, houtcome]
  rw [← hstatus]
  refine h.execute (sendable_of_request hrequest) ?_ ?_ (short_put h.short hkey r) ?_
  · rw [hask]
    rintro _ (_ | ⟨_, ⟨⟩⟩)
    exact ⟨⟨_, houtcome⟩, fun _ _ => hkey⟩
  · rw [after_singleton hrequest, hask, List.foldl_cons, List.foldl_nil]
    simp only [Pending.write, houtcome]
    exact h.rows.put op.key r
  · rw [hask]
    intro name
    simp only [settled, List.foldl_cons, List.foldl_nil, Pending.trace, houtcome]
    exact h.slots name

theorem Agrees.refused (h : Agrees M w) {request : Batch.Request} {outcome : Outcome}
    (hrequest : op.request? = some request)
    (houtcome : (M.asked op.key request).outcome = .ok outcome)
    (hrefused : outcome = .missing ∨ outcome = .incomplete) :
    (w.execute [op]).1 = .error ∧ Agrees M (w.execute [op]).2 := by
  have hmerged : ∀ data, outcome ≠ .merged data := by
    rcases hrefused with rfl | rfl
    · exact nofun
    · exact nofun
  have hslots : ((M.asked op.key request).trace w.footprint).slots = w.footprint.slots := by
    rcases hrefused with rfl | rfl
    · simp only [Pending.trace, houtcome, Footprint.report]
    · simp only [Pending.trace, houtcome]
  have hstatus : verdict [(M.asked op.key request).status] = .error := by
    rcases hrefused with rfl | rfl <;> simp [Pending.status, houtcome, verdict]
  rw [← hstatus]
  apply h.request hrequest houtcome hmerged rfl
  intro name
  rw [Footprint.slot, hslots]
  exact h.slots name

theorem Agrees.found (h : Agrees M w) {request : Batch.Request} {r : Record} {slot : Option String}
    (hrequest : op.request? = some request)
    (houtcome : (M.asked op.key request).outcome = .ok (.found r slot)) :
    (w.execute [op]).1 = .ok ∧ Agrees (M.fill slot r) (w.execute [op]).2 := by
  have hrecords : (M.fill slot r).records = M.records := by cases slot <;> rfl
  have hagrees : _ ∧ Agrees (M.fill slot r) _ := h.request hrequest houtcome nofun hrecords
    fun name => by
      simp only [Pending.trace, houtcome]
      cases slot with
      | none => exact h.slots name
      | some slot =>
        simp only [Option.elim_some, Footprint.slot_fill, fill, Function.update_apply, h.slots]
  simpa [Pending.status, houtcome, verdict] using hagrees

end Request

section Read

variable {p : Projection} {slot : Option String}

theorem Agrees.read_error (h : Agrees M w)
    (hselected : (M.records.get? key).bind (Record.project p) = none) :
    (w.execute [⟨table, key, .read p slot⟩]).1 = .error ∧
      Agrees M (w.execute [⟨table, key, .read p slot⟩]).2 := by
  have houtcome : (M.asked key (.read p slot)).outcome = _ :=
    outcome_read p slot (M.records.get? key)
  have hrequest : Operation.request? ⟨table, key, .read p slot⟩ = some (.read p slot) := rfl
  cases hrecord : M.records.get? key with
  | none => exact h.refused hrequest (by rw [houtcome, hrecord]; rfl) (.inl rfl)
  | some r =>
    rw [hrecord, Option.bind_some] at hselected
    refine h.refused hrequest ?_ (.inr rfl)
    rw [houtcome, hrecord, Option.elim_some, hselected]
    rfl

theorem Agrees.read_ok (h : Agrees M w) {r : Record}
    (hselected : (M.records.get? key).bind (Record.project p) = some r) :
    (w.execute [⟨table, key, .read p slot⟩]).1 = .ok ∧
      Agrees (M.fill slot r) (w.execute [⟨table, key, .read p slot⟩]).2 := by
  have houtcome : (M.asked key (.read p slot)).outcome = _ :=
    outcome_read p slot (M.records.get? key)
  obtain ⟨stored, hrecord, hproject⟩ := Option.bind_eq_some_iff.mp hselected
  have hrequest : Operation.request? ⟨table, key, .read p slot⟩ = some (.read p slot) := rfl
  refine h.found hrequest ?_
  rw [houtcome, hrecord, Option.elim_some, hproject]
  rfl

end Read

section Update

variable {values : Record}

theorem Agrees.update_error (h : Agrees M w)
    (hrecord : ∀ r, M.records.get? key = some r → r.isEmpty = true) :
    (w.execute [⟨table, key, .update (values.map Value.text)⟩]).1 = .error ∧
      Agrees M (w.execute [⟨table, key, .update (values.map Value.text)⟩]).2 := by
  have houtcome : (M.asked key (.update (values.map Value.text))).outcome = _ :=
    outcome_update values (M.records.get? key)
  have hrequest : Operation.request? ⟨table, key, .update (values.map Value.text)⟩ = some _ := rfl
  refine h.refused hrequest ?_ (.inl rfl)
  rw [houtcome]
  cases hr : M.records.get? key with
  | none => rfl
  | some r => rw [Option.elim_some, if_pos (hrecord r hr)]

theorem Agrees.update_ok (h : Agrees M w) {r : Record} (hrecord : M.records.get? key = some r)
    (hr : ¬ r.isEmpty = true) :
    (w.execute [⟨table, key, .update (values.map Value.text)⟩]).1 = .ok ∧
      Agrees { M with records := M.records.put key (r.overlay values) }
        (w.execute [⟨table, key, .update (values.map Value.text)⟩]).2 := by
  have houtcome : (M.asked key (.update (values.map Value.text))).outcome = _ :=
    outcome_update values (M.records.get? key)
  have hrequest : Operation.request? ⟨table, key, .update (values.map Value.text)⟩ = some _ := rfl
  refine h.merged hrequest ?_ (h.short key r hrecord)
  rw [houtcome, hrecord, Option.elim_some, if_neg hr]

end Update

theorem Agrees.insert_long (h : Agrees M w) (hkey : ¬ (Key.pack key).length ≤ maxKeyBytes)
    (values : Record) : (w.execute [⟨table, key, .insert (values.map Value.text)⟩]).1 = .error ∧
      Agrees M (w.execute [⟨table, key, .insert (values.map Value.text)⟩]).2 := by
  obtain ⟨c, b, hbegin, hactive⟩ : ∃ c b, Connection.backend.begin true ⟨w.store, .finished⟩ =
      (.ok (), c) ∧ c.transaction = .active b := by
    obtain ⟨links, link, hbegin⟩ :=
      Connection.begin_ok (c := ⟨w.store, .finished⟩) h.ready.1 h.ready.2.1 true
    exact ⟨_, _, hbegin, rfl⟩
  have hsend : send Connection.backend ⟨table, key, .insert (values.map Value.text)⟩ c =
      (.error (.keyTooLong (Key.pack key)), c) := by
    simp only [send, Record.encode_map_text, Attempt.bind_pure_apply, Connection.backend,
      Connection.buffer, hactive, Transaction.set, if_pos (Nat.not_le.mp hkey), Except.map]
  have hdispatch : dispatch Connection.backend [⟨table, key, .insert (values.map Value.text)⟩] c =
      (.error (.keyTooLong (Key.pack key)), c) := dispatch_isLoop.cons_eq_error_iff.mpr (.inl hsend)
  have hbody : body Connection.backend [⟨table, key, .insert (values.map Value.text)⟩]
      (c, w.footprint) = (.error (.keyTooLong (Key.pack key)), (c, w.footprint)) :=
    body_eq_error_iff.mpr (.inl ⟨c, hdispatch, rfl⟩)
  have hrun : (Connection.backend.beside Footprint).run (body Connection.backend _)
      ((⟨w.store, .finished⟩ : Connection), w.footprint) = (.error _, _) :=
    run_eq_error_iff.mpr (.inr (.inl ⟨_, _, _, hbegin, hbody, rfl, rfl⟩))
  have htable := run_error Connection.transactional hrun
  have hexecute := execute_of_run_error (by simp) hrun
  refine ⟨by rw [Shared.execute_fst, hexecute], Shared.execute_ready h.ready _, ?_, h.short, ?_⟩
  · rw [Shared.execute_store, hexecute]
    exact (congrArg (fun t : Table => Mirrors t.rows M.records) htable).mpr h.rows
  · intro name
    rw [Shared.execute_footprint, hexecute]
    exact h.slots name

end Catalog
end RecordStore
