import RecordStore.Proofs.AcceptedOperations
import RecordStore.Proofs.SessionSteps
import RecordStore.Proofs.UnbatchedSessions

/-! # Clients answer

Whatever a store is like, every call of an open client is answered with a status. A client that was
cleaned up is closed and holds nothing, and from then on it refuses every other call and changes
nothing.
-/

namespace RecordStore

namespace Shared

theorem execute_status (w : Shared) (ops : List Operation) :
    (w.execute ops).1 = .ok ∨ (w.execute ops).1 = .error :=
  (Batch.allOrNothing Connection.transactional ops (⟨w.store, .finished⟩, w.footprint)).status

theorem scan_status (w : Shared) (db table : String) (start : Text) (limit : Int)
    (p : Projection) :
    (w.scan db table start limit p).1.1 = .ok ∨
      (w.scan db table start limit p).1 = (.error, []) := by
  simp only [scan, Scan.scan]
  split
  · exact .inl rfl
  · exact .inr rfl
  · exact .inr rfl

theorem closeFault_execute (w : Shared) (ops : List Operation) :
    (w.execute ops).2.store.closeFault = w.store.closeFault :=
  (Batch.execute_preserves (Connection.preserves_frame w.store) ops
    (⟨w.store, .finished⟩, w.footprint) (.refl w.store)).closeFault

theorem close_ok {w : Shared} (h : w.store.closeFault = none) : w.close.1 = .ok () := by
  simp only [close, Store.close, h]

end Shared

namespace Client

def Call.Allows : Call → Reply → Prop
  | .scan .., .scanned status records => status = .ok ∨ status = .error ∧ records = []
  | .flush, .status status => status = .ok ∨ status = .error
  | .cleanup, .done => True
  | .scan .., _ | .flush, _ | .cleanup, _ => False
  | _, .status status => status = .ok ∨ status = .error ∨ status = .batched
  | _, _ => False

variable {c : Client} {call : Call} {op : Operation}

theorem Call.allows_of_operation (db : String) (h : call.operation? db = some op) {status : Status}
    (hstatus : status ≠ .notFound) : call.Allows (.status status) := by
  have hthree : status = .ok ∨ status = .error ∨ status = .batched := by
    cases status <;> simp_all
  cases call <;> first | exact hthree | cases h

theorem closeFault_drained (c : Client) (w : Shared) :
    (c.drained w).store.closeFault = w.store.closeFault := by
  unfold drained
  split
  · rfl
  · dsimp only
    split
    · exact w.closeFault_execute _
    · exact w.closeFault_execute _

theorem cleanup_done {w : Shared} (h : c.ownsStore = true → w.store.closeFault = none) :
    (c.cleanup w).1 = .ok .done := by
  rw [cleanup_eq]
  dsimp only
  split
  · next howns =>
    have hclose := Shared.close_ok ((c.closeFault_drained w).trans (h howns))
    split
    · rfl
    · next e w' he =>
      rw [he] at hclose
      cases hclose
  · rfl

theorem call_answered (hopen : c.closed = false) {w : Shared}
    (h : call = .cleanup → c.ownsStore = true → w.store.closeFault = none) :
    ∃ reply, (c.call call w).1 = .ok reply ∧ call.Allows reply := by
  have hexecute : (c.carryOut call w).1 ≠ .notFound := by
    rcases (c.announce call w).execute_status (c.queuedWith call).operations with hs | hs
    · rw [carryOut, hs]
      decide
    · rw [carryOut, hs]
      decide
  cases call with
  | scan table start count p =>
    rw [call_scan hopen]
    refine ⟨_, rfl, ?_⟩
    rcases w.scan_status c.settings.dbText table start count p with hok | hfails
    · exact .inl hok
    · rw [hfails]
      exact .inr ⟨rfl, rfl⟩
  | flush =>
    rw [flush_eq hopen]
    split
    · exact ⟨_, rfl, Shared.execute_status ..⟩
    · exact ⟨_, rfl, .inl rfl⟩
  | cleanup =>
    have hclosed : ¬ c.closed = true := by simp [hopen]
    have hcall : c.call .cleanup w = c.cleanup w := if_neg hclosed
    rw [hcall]
    exact ⟨.done, cleanup_done (h rfl), trivial⟩
  | _ =>
    rw [call_submits hopen rfl]
    split
    · exact ⟨_, rfl, Call.allows_of_operation c.settings.dbText rfl hexecute⟩
    · exact ⟨_, rfl, Call.allows_of_operation c.settings.dbText rfl (by decide)⟩

theorem call_error_of_closed (hclosed : c.closed = true) (hne : call ≠ .cleanup) (w : Shared) :
    c.call call w = (.error .clientClosed, c, w) := by
  cases call with
  | cleanup => exact (hne rfl).elim
  | _ => exact if_pos hclosed

theorem cleanup_of_closed (hclosed : c.closed = true) (w : Shared) :
    c.call .cleanup w = (.ok .done, c, w) := if_pos hclosed

theorem closed_call (c : Client) (call : Call) (w : Shared) :
    (c.call call w).2.1.closed = true ↔ c.closed = true ∨ call = .cleanup := by
  by_cases hclosed : c.closed = true
  · rw [call_of_closed hclosed]
    exact ⟨.inl, fun _ => hclosed⟩
  · have hopen : c.closed = false := by simpa using hclosed
    rw [client_call_of_open hopen, hopen]
    cases call <;> simp

end Client

namespace Session

variable {s : Session} {name : String} {c : Client} {call : Client.Call}

/-- What a call of an open client comes to: an answer that the call allows, as long as the client
can close its own store, and after cleaning up a closed client that holds nothing. -/
structure Answers (s : Session) (name : String) (c : Client) (call : Client.Call) : Prop where
  answered : (call = .cleanup → c.ownsStore = true → s.shared.store.closeFault = none) →
    ∃ reply, (step (.call name call) s).1 = .ok (.client reply) ∧ call.Allows reply
  closed : call = .cleanup → (step (.call name call) s).2.clients.get? name =
    some { c with queue := .empty, closed := true }

structure Refuses (s : Session) (name : String) (call : Client.Call) : Prop where
  refused : call ≠ .cleanup → ∃ e, (step (.call name call) s).1 = .error e ∧ e.kind = .state ∧
    e.message = "Client is closed"
  cleanup : call = .cleanup → (step (.call name call) s).1 = .ok (.client .done)
  store : (step (.call name call) s).2.shared.store = s.shared.store
  clients : (step (.call name call) s).2.clients = s.clients
  transactions : (step (.call name call) s).2.transactions = s.transactions
  slots (slot : String) : (step (.call name call) s).2.shared.footprint.slot slot =
    s.shared.footprint.slot slot
  metrics : (step (.call name call) s).2.shared.footprint.metrics = s.shared.footprint.metrics

theorem answers_of_open (hc : s.clients.get? name = some c) (hopen : c.closed = false)
    (call : Client.Call) : s.Answers name c call where
  answered h := by
    obtain ⟨reply, hreply, hallows⟩ := Client.call_answered hopen (w := s.entered call) h
    refine ⟨reply, ?_, hallows⟩
    rw [step_call hc]
    exact congrArg (Except.map Answer.client) hreply
  closed := by
    rintro rfl
    have hclosed : ¬ c.closed = true := by simp [hopen]
    have hcall : c.call .cleanup (s.entered .cleanup) = c.cleanup (s.entered .cleanup) :=
      if_neg hclosed
    rw [step_call hc]
    dsimp only
    rw [Fields.get?_put, if_pos rfl, hcall, Client.cleanup_client]

theorem refuses_of_closed (hc : s.clients.get? name = some c) (hclosed : c.closed = true)
    (call : Client.Call) : s.Refuses name call := by
  have hstep : ∀ {r}, c.call call (s.entered call) = (r, c, s.entered call) →
      step (.call name call) s = (r.map .client, { s with shared := s.entered call }) := by
    intro r hcall
    rw [step_call hc, hcall]
    dsimp only
    rw [Fields.put_eq_self hc]
  have hafter : (step (.call name call) s).2 = { s with shared := s.entered call } :=
    congrArg Prod.snd (hstep (Prod.ext rfl (Client.call_of_closed hclosed call _)))
  refine ⟨fun hne => ?_, ?_, ?_, ?_, ?_, fun slot => ?_, ?_⟩
  · exact ⟨.clientClosed, by rw [hstep (Client.call_error_of_closed hclosed hne _)]; rfl, rfl, rfl⟩
  · rintro rfl
    rw [hstep (Client.cleanup_of_closed hclosed _)]
    rfl
  · rw [hafter]
    rfl
  · rw [hafter]
  · rw [hafter]
  · rw [hafter, entered]
    exact Footprint.slot_declareAll ..
  · rw [hafter, entered]
    exact Footprint.metrics_declareAll ..

/-- A step closes a client if it cleans that client up, and opens none but a new one. -/
theorem closed_step (hc : s.clients.get? name = some c) {st : Step} (hst : st ≠ .newClient name) :
    ∃ c', (step st s).2.clients.get? name = some c' ∧
      (c'.closed = true ↔ c.closed = true ∨ st = .call name .cleanup) := by
  by_cases hown : ∃ call, st = .call name call
  · obtain ⟨call, rfl⟩ := hown
    refine ⟨(c.call call (s.entered call)).2.1, ?_, ?_⟩
    · rw [step_call hc]
      exact (Fields.get?_put ..).trans (if_pos rfl)
    · rw [c.closed_call call (s.entered call)]
      simp only [Step.call.injEq, true_and]
  · have hname : name ∉ st.client? := by
      cases st with
      | newClient other =>
        rintro ⟨⟩
        exact hst rfl
      | call other call =>
        rintro ⟨⟩
        exact hown ⟨call, rfl⟩
      | _ => exact Option.not_mem_none name
    have hcleanup : st ≠ .call name .cleanup := fun heq => hown ⟨.cleanup, heq⟩
    exact ⟨c, (clients_step_of_ne hname s).trans hc, by simp only [hcleanup, or_false]⟩

/-- After a run, a client is closed if it was, or if it was cleaned up meanwhile. -/
theorem closed_final (hc : s.clients.get? name = some c) {steps : List Step}
    (hsteps : ∀ st ∈ steps, st ≠ .newClient name) :
    ∃ c', (final step s steps).clients.get? name = some c' ∧
      (c'.closed = true ↔ c.closed = true ∨ .call name .cleanup ∈ steps) := by
  induction steps generalizing s c with
  | nil => exact ⟨c, hc, by simp⟩
  | cons st rest ih =>
    obtain ⟨c₁, hc₁, hclosed₁⟩ := closed_step hc (hsteps st List.mem_cons_self)
    obtain ⟨c', hc', hclosed'⟩ := ih hc₁ fun st hmem => hsteps st (List.mem_cons_of_mem _ hmem)
    exact ⟨c', hc', by rw [hclosed', hclosed₁, List.mem_cons, or_assoc, eq_comm (a := st)]⟩

/-- Whatever state a session is in, an open client answers every call with a status that the call
allows, and a closed one refuses every call but a cleanup, which does nothing. Cleaning up is what
closes a client, and it stays closed. -/
theorem call_isContained (hc : s.clients.get? name = some c) (call : Client.Call) :
    (c.closed = false → s.Answers name c call) ∧ (c.closed = true → s.Refuses name call) ∧
      ∀ steps, (∀ st ∈ steps, st ≠ .newClient name) →
        ∃ c', (final step s steps).clients.get? name = some c' ∧
          (c'.closed = true ↔ c.closed = true ∨ .call name .cleanup ∈ steps) :=
  ⟨fun hopen => answers_of_open hc hopen call, fun hclosed => refuses_of_closed hc hclosed call,
    fun _ hsteps => closed_final hc hsteps⟩

end Session

end RecordStore
