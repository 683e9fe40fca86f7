import RecordStore.Proofs.ClientCalls
import RecordStore.Proofs.SharedViews

/-! # Clients that use rows of their own

A call is answered alike wherever the rows look alike that it meets. To whoever uses other rows and
slots, it makes no difference unless it closes the store.
-/

namespace RecordStore.Client

variable {K : Bytes → Prop} {S : String → Prop} {c : Client} {w w' : Shared} {call : Call}
  {op : Operation}

/-- The rows that a call may meet, with all that is queued by then, are among those given. -/
structure Meets (c : Client) (call : Call) (K : Bytes → Prop) : Prop where
  queued : ∀ op ∈ (c.queuedWith call).operations, K (Key.pack op.key)
  range {table : String} {start : Text} {count : Int} {p : Projection} :
    call = .scan table start count p →
      ∀ f, Key.packText (Key.rowFrom c.settings.dbText table start) = .ok f → ∀ key, ¬ key < f →
        key < Key.pack (Key.rangeEnd table (some c.settings.dbText)) → K key

/-- The same came of a call in two places, as far as the rows and slots tell. -/
structure Alike (K : Bytes → Prop) (S : String → Prop)
    (x y : Except Fault Reply × Client × Shared) : Prop where
  reply : x.1 = y.1
  client : x.2.1 = y.2.1
  shared : x.2.2.AgreesOn K S y.2.2

theorem mem_queuedWith : op ∈ (c.queuedWith call).operations ↔
    op ∈ c.queue.operations ∨ call.operation? c.settings.dbText = some op := by
  rw [operations_queuedWith, List.mem_append, Option.mem_toList]

/-- All that a call can come to: a reply at once, an operation more in the queue, a batch, a scan,
or the end of the session. -/
theorem call_cases (c : Client) (call : Call) :
    (∃ r, ∀ w, c.call call w = (r, c, w)) ∨
    (∀ w, c.call call w =
      (.ok (.status .batched), { c with queue := c.queuedWith call }, c.announce call w)) ∨
    (∀ w, c.call call w =
      (.ok (.status (c.carryOut call w).1), { c with queue := .empty }, (c.carryOut call w).2)) ∨
    (∃ table start count p, call = .scan table start count p ∧ ∀ w, c.call call w =
      let answer := w.scan c.settings.dbText table start count p
      (.ok (.scanned answer.1.1 answer.1.2), c, answer.2)) ∨
    call = .cleanup ∧ ∀ w, c.call call w = c.cleanup w := by
  by_cases hclosed : c.closed = true
  · refine .inl ?_
    cases call with
    | cleanup => exact ⟨_, fun w => if_pos hclosed⟩
    | _ => exact ⟨_, fun w => if_pos hclosed⟩
  · have hopen : c.closed = false := by simpa using hclosed
    by_cases hop : ∃ op, call.operation? c.settings.dbText = some op
    · obtain ⟨op, hop⟩ := hop
      by_cases hdue : c.isDue call = true
      · exact .inr (.inr (.inl fun w => (call_submits hopen hop).trans (if_pos hdue)))
      · exact .inr (.inl fun w => (call_submits hopen hop).trans (if_neg hdue))
    · cases call with
      | read | insert | update | delete => exact (hop ⟨_, rfl⟩).elim
      | scan => exact .inr (.inr (.inr (.inl ⟨_, _, _, _, rfl, fun w => if_neg hclosed⟩)))
      | flush =>
        by_cases hempty : c.queue.isEmpty = true
        · exact .inl ⟨_, fun w => (call_flush hopen).trans (if_pos hempty)⟩
        · exact .inr (.inr (.inl fun w => (call_flush hopen).trans (if_neg hempty)))
      | cleanup => exact .inr (.inr (.inr (.inr ⟨rfl, fun w => if_neg hclosed⟩)))

def drained (c : Client) (w : Shared) : Shared :=
  if c.queue.isEmpty then w
  else
    let (status, w') := w.execute c.queue.operations
    if status = .ok then w' else w'.report (.finalFlushFailed status)

theorem cleanup_eq (c : Client) (w : Shared) :
    c.cleanup w =
      let c' := { c with queue := .empty, closed := true }
      if c.ownsStore then
        match (c.drained w).close with
        | (.ok (), w') => (.ok .done, c', w')
        | (.error e, w') =>
          (.error (.raised .store e.message), c', w'.report (.cleanupFailed e))
      else (.ok .done, c', c.drained w) := by
  unfold cleanup drained
  by_cases hempty : c.queue.isEmpty = true
  · obtain ⟨settings, ownsStore, ⟨operations⟩, closed⟩ := c
    obtain rfl : operations = [] := List.isEmpty_iff.mp hempty
    rfl
  · simp only [if_neg hempty, flushQueue, Queue.drain]
    rfl

theorem cleanup_client (c : Client) (w : Shared) :
    (c.cleanup w).2.1 = { c with queue := .empty, closed := true } := by
  rw [cleanup_eq]
  dsimp only
  split
  · split <;> rfl
  · rfl

theorem call_client (c : Client) (call : Call) (w : Shared) :
    ∃ queue closed, (c.call call w).2.1 = { c with queue, closed } ∧
      ∀ op ∈ queue.operations, op ∈ (c.queuedWith call).operations := by
  have hqueue : ∀ op ∈ c.queue.operations, op ∈ (c.queuedWith call).operations :=
    fun op hop => mem_queuedWith.mpr (.inl hop)
  rcases call_cases c call with ⟨r, hcall⟩ | hcall | hcall | ⟨_, _, _, _, -, hcall⟩ | ⟨-, hcall⟩
  · exact ⟨c.queue, c.closed, by rw [hcall], hqueue⟩
  · exact ⟨c.queuedWith call, c.closed, by rw [hcall], fun op hop => hop⟩
  · exact ⟨.empty, c.closed, by rw [hcall], nofun⟩
  · exact ⟨c.queue, c.closed, by rw [hcall], hqueue⟩
  · exact ⟨.empty, true, by rw [hcall, cleanup_client], nofun⟩

section Views

open Shared (AgreesOn)

theorem agreesOn_announce_left (h : w.AgreesOn K S w') : (c.announce call w).AgreesOn K S w' := by
  unfold announce
  cases call.operation? c.settings.dbText with
  | none => exact h
  | some op => exact h.report_left _

theorem agreesOn_announce (h : w.AgreesOn K S w') :
    (c.announce call w).AgreesOn K S (c.announce call w') := by
  unfold announce
  cases call.operation? c.settings.dbText with
  | none => exact h
  | some op => exact h.report _ _

theorem agreesOn_drained (h : w.AgreesOn K S w')
    (hqueue : ∀ op ∈ c.queue.operations, K (Key.pack op.key)) :
    (c.drained w).AgreesOn K S (c.drained w') := by
  obtain ⟨hstatus, hshared⟩ := h.execute hqueue
  unfold drained
  split
  · exact h
  · rcases hw : w.execute c.queue.operations with ⟨status, v⟩
    rcases hw' : w'.execute c.queue.operations with ⟨status', v'⟩
    rw [hw, hw'] at hstatus hshared
    obtain rfl : status = status' := hstatus
    by_cases hok : status = .ok
    · simp only [if_pos hok]
      exact hshared
    · simp only [if_neg hok]
      exact hshared.report _ _

theorem agreesOn_drained_left (h : w.AgreesOn K S w')
    (hkeys : ∀ op ∈ c.queue.operations, ¬ K (Key.pack op.key))
    (hslots : ∀ op ∈ c.queue.operations, ∀ name, op.slot? = some name → ¬ S name) :
    (c.drained w).AgreesOn K S w' := by
  have hshared := h.execute_left hkeys hslots
  unfold drained
  split
  · exact h
  · rcases hw : w.execute c.queue.operations with ⟨status, v⟩
    rw [hw] at hshared
    by_cases hok : status = .ok
    · simp only [if_pos hok]
      exact hshared
    · simp only [if_neg hok]
      exact hshared.report_left _

theorem alike_cleanup (h : w.AgreesOn K S w')
    (hqueue : ∀ op ∈ c.queue.operations, K (Key.pack op.key)) :
    Alike K S (c.cleanup w) (c.cleanup w') := by
  have hdrained := agreesOn_drained h hqueue
  rw [cleanup_eq, cleanup_eq]
  dsimp only
  split
  · obtain ⟨hresult, hclosed⟩ := hdrained.close
    rcases hw : (c.drained w).close with ⟨e | _, v⟩ <;>
      rcases hw' : (c.drained w').close with ⟨e' | _, v'⟩ <;> rw [hw, hw'] at hresult hclosed
    · obtain rfl := Except.error.inj hresult
      exact ⟨rfl, rfl, hclosed.report _ _⟩
    · cases hresult
    · cases hresult
    · exact ⟨rfl, rfl, hclosed⟩
  · exact ⟨rfl, rfl, hdrained⟩

theorem alike_call (h : w.AgreesOn K S w') (hcall : c.Meets call K) :
    Alike K S (c.call call w) (c.call call w') := by
  rcases call_cases c call with ⟨r, heq⟩ | heq | heq | ⟨table, start, count, p, hscan, heq⟩ |
    ⟨-, heq⟩
  · rw [heq, heq]
    exact ⟨rfl, rfl, h⟩
  · rw [heq, heq]
    exact ⟨rfl, rfl, agreesOn_announce h⟩
  · obtain ⟨hstatus, hshared⟩ := (agreesOn_announce h).execute hcall.queued
    rw [heq, heq]
    exact ⟨congrArg (Except.ok ∘ Reply.status) hstatus, rfl, hshared⟩
  · obtain ⟨hanswer, hshared⟩ := h.scan (hcall.range hscan) count p
    rw [heq, heq]
    exact ⟨congrArg (fun a => Except.ok (Reply.scanned a.1 a.2)) hanswer, rfl, hshared⟩
  · rw [heq, heq]
    exact alike_cleanup h fun op hop => hcall.queued op (mem_queuedWith.mpr (.inl hop))

/-- A call that neither scans nor closes the store makes no difference to other rows and slots. -/
theorem agreesOn_call_left (h : w.AgreesOn K S w')
    (hscan : ∀ table start count p, call ≠ .scan table start count p)
    (hcleanup : call = .cleanup → c.ownsStore = false)
    (hkeys : ∀ op ∈ (c.queuedWith call).operations, ¬ K (Key.pack op.key))
    (hslots : ∀ op ∈ (c.queuedWith call).operations, ∀ name, op.slot? = some name → ¬ S name) :
    (c.call call w).2.2.AgreesOn K S w' := by
  rcases call_cases c call with ⟨r, heq⟩ | heq | heq | ⟨table, start, count, p, heq, -⟩ |
    ⟨hcall, heq⟩
  · rw [heq]
    exact h
  · rw [heq]
    exact agreesOn_announce_left h
  · rw [heq]
    exact (agreesOn_announce_left h).execute_left hkeys hslots
  · exact (hscan table start count p heq).elim
  · have hdrained := agreesOn_drained_left (c := c) h
      (fun op hop => hkeys op (mem_queuedWith.mpr (.inl hop)))
      fun op hop => hslots op (mem_queuedWith.mpr (.inl hop))
    rw [heq, cleanup_eq]
    simp only [hcleanup hcall, Bool.false_eq_true, if_false]
    exact hdrained

end Views

end RecordStore.Client
