import RecordStore.Proofs.ClientAnswers
import RecordStore.Proofs.EquivalentBatches

/-! # Clients of equivalent stores

Clients that have queued interchangeable operations serve interchangeable calls alike, on equivalent
stores: the answers are the same but for the order of fields in the records that a scan finds.
-/

namespace RecordStore

open Attempt (Matches Pairs)

structure Shared.Equivalent (w v : Shared) : Prop where
  store : w.store.Equivalent v.store
  footprint : w.footprint.Equivalent v.footprint

/-- The clients differ at most in their queued operations, and these are interchangeable. -/
inductive Client.Equivalent : Client → Client → Prop where
  | mk {settings : ClientSettings} {ownsStore closed : Bool} {ops ops' : List Operation} :
      List.Forall₂ Operation.Interchangeable ops ops' →
      Equivalent ⟨settings, ownsStore, ⟨ops⟩, closed⟩ ⟨settings, ownsStore, ⟨ops'⟩, closed⟩

def Client.Call.Interchangeable (call call' : Client.Call) : Prop :=
  call = call' ∨ ∀ db, ∃ op op', call.operation? db = some op ∧ call'.operation? db = some op' ∧
    op.Interchangeable op'

inductive Client.Reply.Equivalent : Client.Reply → Client.Reply → Prop where
  | done : Equivalent .done .done
  | status (s : Status) : Equivalent (.status s) (.status s)
  | scanned (s : Status) {records records' : List Record} :
      List.Forall₂ Fields.Agree records records' →
      Equivalent (.scanned s records) (.scanned s records')

namespace Shared

variable {w v : Shared}

theorem Equivalent.report (h : w.Equivalent v) (e e' : Event) :
    (w.report e).Equivalent (v.report e') :=
  ⟨h.store, h.footprint.report e e'⟩

theorem Equivalent.connected (h : w.Equivalent v) :
    Pairs Connection.Equivalent Footprint.Equivalent (⟨w.store, .finished⟩, w.footprint)
      (⟨v.store, .finished⟩, v.footprint) :=
  ⟨⟨h.store, .finished⟩, h.footprint⟩

theorem execute_equivalent (h : w.Equivalent v) {ops ops' : List Operation}
    (hops : List.Forall₂ Operation.Interchangeable ops ops') :
    (w.execute ops).1 = (v.execute ops').1 ∧ (w.execute ops).2.Equivalent (v.execute ops').2 := by
  obtain ⟨hstatus, hconnection, hfootprint⟩ := Batch.execute_equivalent hops h.connected
  exact ⟨hstatus, hconnection.store, hfootprint⟩

theorem scan_equivalent (h : w.Equivalent v) (db table : String) (start : Text) (limit : Int)
    (p : Projection) :
    (w.scan db table start limit p).1.1 = (v.scan db table start limit p).1.1 ∧
      List.Forall₂ Fields.Agree (w.scan db table start limit p).1.2
        (v.scan db table start limit p).1.2 ∧
      (w.scan db table start limit p).2.Equivalent (v.scan db table start limit p).2 := by
  obtain ⟨hstatus, hrecords, hconnection, hfootprint⟩ :=
    Scan.scan_equivalent db table start limit p h.connected
  exact ⟨hstatus, hrecords, hconnection.store, hfootprint⟩

theorem withStore_matches {α β : Type} {A : α → β → Prop} {m : Attempt Store α}
    {m' : Attempt Store β} (hm : Matches Store.Equivalent Fault.Equivalent A m m') :
    Matches Shared.Equivalent Fault.Equivalent A (withStore m) (withStore m') :=
  fun _ _ h => ⟨(hm _ _ h.store).1, (hm _ _ h.store).2, h.footprint⟩

theorem close_matches : Matches Shared.Equivalent Eq Eq close close := by
  intro w v h
  unfold close
  rcases Store.close_matches.cases h.store with ⟨e, _, u, u', hs, ht, rfl, hafter⟩ |
    ⟨wasOpen, _, u, u', hs, ht, rfl, hafter⟩
  · rw [hs, ht]
    exact ⟨.error rfl, hafter, h.footprint⟩
  · rw [hs, ht]
    have hclosed : Shared.Equivalent { w with store := u } { v with store := u' } :=
      ⟨hafter, h.footprint⟩
    refine ⟨.ok rfl, ?_⟩
    dsimp only
    split
    · exact hclosed.report _ _
    · exact hclosed

end Shared

namespace Client

variable {c d : Client} {w v : Shared} {op op' : Operation} {call call' : Call}

structure Served (x y : Except Fault Reply × Client × Shared) : Prop where
  reply : Attempt.Alike Fault.Equivalent Reply.Equivalent x.1 y.1
  client : x.2.1.Equivalent y.2.1
  shared : x.2.2.Equivalent y.2.2

theorem Equivalent.settings_eq (h : c.Equivalent d) : c.settings = d.settings := by
  cases h
  rfl

theorem Equivalent.ownsStore_eq (h : c.Equivalent d) : c.ownsStore = d.ownsStore := by
  cases h
  rfl

theorem Equivalent.closed_eq (h : c.Equivalent d) : c.closed = d.closed := by
  cases h
  rfl

theorem Equivalent.operations (h : c.Equivalent d) :
    List.Forall₂ Operation.Interchangeable c.queue.operations d.queue.operations := by
  obtain ⟨hops⟩ := h
  exact hops

theorem Equivalent.isEmpty_eq (h : c.Equivalent d) : c.queue.isEmpty = d.queue.isEmpty := by
  obtain ⟨hops⟩ := h
  cases hops <;> rfl

theorem flushQueue_equivalent (hc : c.Equivalent d) (hw : w.Equivalent v) :
    (c.flushQueue w).1 = (d.flushQueue v).1 ∧
      (c.flushQueue w).2.1.Equivalent (d.flushQueue v).2.1 ∧
      (c.flushQueue w).2.2.Equivalent (d.flushQueue v).2.2 := by
  obtain ⟨hops⟩ := hc
  obtain ⟨hstatus, hafter⟩ := Shared.execute_equivalent hw hops
  exact ⟨hstatus, .mk .nil, hafter⟩

theorem submit_equivalent (hop : op.Interchangeable op') (hc : c.Equivalent d)
    (hw : w.Equivalent v) :
    (c.submit op w).1 = (d.submit op' v).1 ∧ (c.submit op w).2.1.Equivalent (d.submit op' v).2.1 ∧
      (c.submit op w).2.2.Equivalent (d.submit op' v).2.2 := by
  have hqueued : Client.Equivalent { c with queue := c.queue.append op }
      { d with queue := d.queue.append op' } := by
    obtain ⟨hops⟩ := hc
    exact .mk (List.rel_append hops (.cons hop .nil))
  have hdue : (c.queue.append op).shouldFlush c.settings.batchSize =
      (d.queue.append op').shouldFlush d.settings.batchSize := by
    unfold Queue.shouldFlush Queue.size
    rw [hc.settings_eq, hqueued.operations.length_eq]
  unfold submit
  dsimp only
  rw [hdue]
  split
  · exact flushQueue_equivalent hqueued hw
  · exact ⟨rfl, hqueued, hw⟩

theorem drained_equivalent (hc : c.Equivalent d) (hw : w.Equivalent v) :
    (c.drained w).Equivalent (d.drained v) := by
  obtain ⟨hstatus, hafter⟩ := Shared.execute_equivalent hw hc.operations
  unfold drained
  dsimp only
  rw [hc.isEmpty_eq, hstatus]
  split
  · exact hw
  · split
    · exact hafter
    · exact hafter.report _ _

theorem cleanup_served (hc : c.Equivalent d) (hw : w.Equivalent v) :
    Served (c.cleanup w) (d.cleanup v) := by
  have hdrained := drained_equivalent hc hw
  have hclient : Client.Equivalent { c with queue := .empty, closed := true }
      { d with queue := .empty, closed := true } := by
    cases hc
    exact .mk .nil
  rw [cleanup_eq, cleanup_eq]
  dsimp only
  by_cases hd : d.ownsStore = true
  · rw [if_pos (hc.ownsStore_eq.trans hd), if_pos hd]
    rcases Shared.close_matches.cases hdrained with ⟨e, _, u, u', hs, ht, rfl, hafter⟩ |
      ⟨_, _, u, u', hs, ht, -, hafter⟩
    · rw [hs, ht]
      exact ⟨.error (.refl _), hclient, hafter.report _ _⟩
    · rw [hs, ht]
      exact ⟨.ok .done, hclient, hafter⟩
  · rw [if_neg (hc.ownsStore_eq ▸ hd), if_neg hd]
    exact ⟨.ok .done, hclient, hdrained⟩

theorem closed_served (hc : c.Equivalent d) (hw : w.Equivalent v) (hclosed : d.closed = true)
    (hcall : call ≠ .cleanup) (hcall' : call' ≠ .cleanup) :
    Served (c.call call w) (d.call call' v) := by
  have hclosed' : c.closed = true := hc.closed_eq.trans hclosed
  rw [call_error_of_closed hclosed hcall', call_error_of_closed hclosed' hcall]
  exact ⟨.error (.refl _), hc, hw⟩

theorem operation_served (hc : c.Equivalent d) (hw : w.Equivalent v) (hop : op.Interchangeable op')
    (h : call.operation? c.settings.dbText = some op)
    (h' : call'.operation? d.settings.dbText = some op') :
    Served (c.call call w) (d.call call' v) := by
  cases hclosed : d.closed with
  | true =>
    refine closed_served hc hw hclosed ?_ ?_
    · rintro rfl
      cases h
    · rintro rfl
      cases h'
  | false =>
    have hopen : c.closed = false := hc.closed_eq.trans hclosed
    rw [call_of_operation hopen h, call_of_operation hclosed h']
    obtain ⟨hstatus, hclient, hshared⟩ := submit_equivalent hop hc
      (hw.report (.called op.kindName op.key) (.called op'.kindName op'.key))
    refine ⟨?_, hclient, hshared⟩
    dsimp only
    rw [hstatus]
    exact .ok (.status _)

theorem scan_served (hc : c.Equivalent d) (hw : w.Equivalent v) (hopen : d.closed = false)
    (table : String) (start : Text) (count : Int) (p : Projection) :
    Served (c.call (.scan table start count p) w) (d.call (.scan table start count p) v) := by
  have hopen' : c.closed = false := hc.closed_eq.trans hopen
  obtain ⟨hstatus, hrecords, hshared⟩ :=
    Shared.scan_equivalent hw d.settings.dbText table start count p
  rw [call_scan hopen, call_scan hopen', hc.settings_eq]
  dsimp only
  rw [hstatus]
  exact ⟨.ok (.scanned _ hrecords), hc, hshared⟩

theorem flush_served (hc : c.Equivalent d) (hw : w.Equivalent v) (hopen : d.closed = false) :
    Served (c.call .flush w) (d.call .flush v) := by
  have hopen' : c.closed = false := hc.closed_eq.trans hopen
  obtain ⟨hstatus, hclient, hshared⟩ := flushQueue_equivalent hc hw
  rw [call_flush hopen, call_flush hopen', hc.isEmpty_eq, hstatus]
  split
  · exact ⟨.ok (.status _), hc, hw⟩
  · exact ⟨.ok (.status _), hclient, hshared⟩

theorem same_served (hc : c.Equivalent d) (hw : w.Equivalent v) (call : Call) :
    Served (c.call call w) (d.call call v) := by
  cases call with
  | scan table start count p =>
    cases hclosed : d.closed with
    | true => exact closed_served hc hw hclosed nofun nofun
    | false => exact scan_served hc hw hclosed table start count p
  | flush =>
    cases hclosed : d.closed with
    | true => exact closed_served hc hw hclosed nofun nofun
    | false => exact flush_served hc hw hclosed
  | cleanup =>
    by_cases hclosed : d.closed = true
    · rw [cleanup_of_closed hclosed, cleanup_of_closed (hc.closed_eq.trans hclosed)]
      exact ⟨.ok .done, hc, hw⟩
    · have hopen : ¬ c.closed = true := hc.closed_eq ▸ hclosed
      have hcleanup : ∀ {c : Client} {w : Shared}, ¬ c.closed = true →
          c.call .cleanup w = c.cleanup w := fun h => if_neg h
      rw [hcleanup hopen, hcleanup hclosed]
      exact cleanup_served hc hw
  | _ => exact operation_served hc hw (.refl _) rfl (hc.settings_eq ▸ rfl)

theorem call_served (hc : c.Equivalent d) (hw : w.Equivalent v) (h : call.Interchangeable call') :
    Served (c.call call w) (d.call call' v) := by
  rcases h with rfl | h
  · exact same_served hc hw call
  · obtain ⟨op, op', hcall, hcall', hop⟩ := h c.settings.dbText
    exact operation_served hc hw hop hcall (hc.settings_eq ▸ hcall')

end Client

end RecordStore
