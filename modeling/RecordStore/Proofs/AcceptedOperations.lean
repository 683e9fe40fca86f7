import RecordStore.Proofs.ClientViews

/-! # Accepted operations

A client carries out each operation that it accepts once, and all of them in the order of the calls,
whatever becomes of its batches and whatever else is done with the store. Until then it keeps them
in its queue, which never holds a whole batch.
-/

namespace RecordStore

open Batch

namespace Scan

theorem table_range (first : Except Value Bytes) (last : Bytes) (limit : Int) (c : Connection) :
    (range Connection.backend first last limit c).2.store.table = c.store.table := by
  cases first <;> rfl

theorem table_rangeAndEnd (first : Except Value Bytes) (last : Bytes) (limit : Int)
    (c : Connection) :
    (rangeAndEnd Connection.backend first last limit c).2.store.table = c.store.table := by
  let c' := (range Connection.backend first last limit c).2
  obtain ⟨links, habandon⟩ := Connection.abandon_eq .storeClosed c'
  have hback : (Connection.backend.rollback c').2.store.table = c.store.table :=
    (congrArg (·.store.table) habandon).trans (table_range first last limit c)
  simp only [rangeAndEnd]
  split
  · next e s hrollback => exact (congrArg (·.2.store.table) hrollback).symm.trans hback
  · next r s hrollback => exact (congrArg (·.2.store.table) hrollback).symm.trans hback

theorem table_fetch (first : Except Value Bytes) (last : Bytes) (limit : Int) (c : Connection) :
    (fetch Connection.backend first last limit c).2.store.table = c.store.table := by
  rw [fetch, Attempt.bind_eq]
  rcases hbegin : Connection.backend.begin false c with ⟨r, c'⟩
  rcases Connection.begin_cases hbegin with ⟨⟨e, rfl⟩, rfl⟩ | ⟨rfl, -, -, links, link, rfl⟩
  · rfl
  · exact table_rangeAndEnd first last limit _

theorem table_find (first : Text) (last : String) (limit : Int) (p : Projection) (c : Connection) :
    (find Connection.backend first last limit p c).2.store.table = c.store.table := by
  have htable := table_fetch (Key.packText first) (Key.pack last) (max limit 0) c
  rw [find, Attempt.bind_eq]
  rcases hfetch : fetch Connection.backend (Key.packText first) (Key.pack last) (max limit 0) c with
    ⟨e | entries, c'⟩ <;> rw [hfetch] at htable
  · exact htable
  · rcases hread : readAll p (entries.map Prod.snd) with e | records
    · simp only [hread]
      exact htable
    · simp only [hread]
      exact htable

end Scan

namespace Shared

/-- What batches change: the table, the slots, and the counts of batches. -/
def effects (w : Shared) : (Table × Fields Record) × StatusCounts × Nat × List Nat × Int :=
  let m := w.footprint.metrics
  (w.contents, m.batches, m.batchTimings, m.sizes, m.sizeSum)

theorem metrics_close (w : Shared) : w.close.2.footprint.metrics = w.footprint.metrics := by
  unfold close Store.close
  cases w.store.closeFault with
  | some e => rfl
  | none => cases hopen : w.store.isOpen <;> simp [report, Footprint.report]

theorem effects_close (w : Shared) : w.close.2.effects = w.effects := by
  rw [effects, effects, contents_close, metrics_close]

theorem effects_scan (w : Shared) (db table : String) (start : Text) (limit : Int)
    (p : Projection) :
    (w.scan db table start limit p).2.effects = w.effects := by
  have hfind := Scan.table_find (Key.rowFrom db table start) (Key.rangeEnd table (some db)) limit p
    ⟨w.store, .finished⟩
  have htable : (w.scan db table start limit p).2.store.table = w.store.table := by
    rw [← hfind]
    simp only [scan, Scan.scan]
    split <;> next hresult => rw [hresult]
  have hfootprint : ∃ events scans timings, (w.scan db table start limit p).2.footprint =
      ⟨w.footprint.slots, events, { w.footprint.metrics with scans, scanTimings := timings }⟩ := by
    simp only [scan, Scan.scan]
    split <;> exact ⟨_, _, _, rfl⟩
  obtain ⟨events, scans, timings, hfootprint⟩ := hfootprint
  rw [effects, contents, htable, hfootprint]
  rfl

theorem execute_ne_batched (w : Shared) (ops : List Operation) : (w.execute ops).1 ≠ .batched := by
  have hall := allOrNothing Connection.transactional ops (⟨w.store, .finished⟩, w.footprint)
  rw [execute_fst]
  rcases hall.status with h | h <;> rw [h] <;> nofun

end Shared

theorem Queue.eq_empty {q : Queue} (h : q.isEmpty = true) : q = .empty :=
  congrArg mk (List.isEmpty_iff.mp h)

namespace Client

/-- A call of a client, with what is shared when the client makes it. Anything can have been done to
that since the client's call before. -/
abbrev Visit := Call × Shared

def attend (c : Client) (v : Visit) : Client := (serve v.1 (c, v.2)).1

def attendAll (c : Client) (visits : List Visit) : Client := visits.foldl attend c

variable {α : Type}

/-- What is found at the calls of a client, whatever each of them meets. -/
def atVisits (f : Call → Client × Shared → Option α) (c : Client) : List Visit → List α
  | [] => []
  | v :: rest => (f v.1 (c, v.2)).toList ++ atVisits f (c.attend v) rest

def acceptedAt (c : Client) (visits : List Visit) : List Operation :=
  (atVisits answer? c visits).map Prod.fst

def batchesAt (c : Client) (visits : List Visit) : List (List Operation) :=
  (atVisits batch? c visits).map Prod.fst

section Call

variable {c : Client} {w : Shared} {call : Call} {op : Operation}

theorem call_of_closed (hclosed : c.closed = true) (call : Call) (w : Shared) :
    (c.call call w).2 = (c, w) := by
  cases call <;> exact congrArg Prod.snd (if_pos hclosed)

theorem call_refuses (hclosed : c.closed = true)
    (h : call.operation? c.settings.dbText = some op) :
    c.call call w = (.error .clientClosed, c, w) := by
  cases call <;> cases h <;> exact if_pos hclosed

theorem queuedWith_of_none (h : call.operation? c.settings.dbText = none) :
    c.queuedWith call = c.queue := by
  rw [queuedWith, h, Option.elim_none]

theorem isDue_of_closed (hclosed : c.closed = true) : c.isDue call = false := by
  simp [isDue, hclosed]

theorem call_scan (hopen : c.closed = false) (table : String) (start : Text) (count : Int)
    (p : Projection) (w : Shared) : c.call (.scan table start count p) w =
      let answer := w.scan c.settings.dbText table start count p
      (.ok (.scanned answer.1.1 answer.1.2), c, answer.2) := by
  have hclosed : ¬ c.closed = true := by simp [hopen]
  exact if_neg hclosed

theorem isDue_scan (c : Client) (table : String) (start : Text) (count : Int) (p : Projection) :
    c.isDue (.scan table start count p) = false := by
  simp [isDue]

theorem flush_eq (hopen : c.closed = false) (w : Shared) :
    c.call .flush w =
      if c.isDue .flush then
        (.ok (.status (c.carryOut .flush w).1), { c with queue := .empty }, (c.carryOut .flush w).2)
      else (.ok (.status .ok), c, w) := by
  have hdue : c.isDue .flush = !c.queue.isEmpty := by simp [isDue, hopen]
  rw [call_flush hopen, hdue]
  cases c.queue.isEmpty <;> rfl

theorem isDue_cleanup (hopen : c.closed = false) : c.isDue .cleanup = !c.queue.isEmpty := by
  simp [isDue, hopen]

/-- An open client has carried out what is queued or has it still, and cleaning up closes it. -/
theorem client_call_of_open (hopen : c.closed = false) (call : Call) (w : Shared) :
    (c.call call w).2.1 =
      { c with
        queue := if c.isDue call then .empty else c.queuedWith call
        closed := call matches .cleanup } := by
  have hclosed : ¬ c.closed = true := by simp [hopen]
  cases call with
  | scan table start count p =>
    have hsame : c = { c with closed := false } := by rw [← hopen]
    rw [call_scan hopen, isDue_scan]
    exact hsame
  | flush =>
    rw [flush_eq hopen, ← hopen]
    split <;> rfl
  | cleanup =>
    have hcall : c.call .cleanup w = c.cleanup w := if_neg hclosed
    rw [hcall, cleanup_client, isDue_cleanup hopen]
    cases hempty : c.queue.isEmpty with
    | true => rw [queuedWith_of_none rfl, Queue.eq_empty hempty]; rfl
    | false => rfl
  | _ =>
    rw [call_submits hopen rfl, ← hopen]
    split <;> rfl

theorem effects_announce (c : Client) (call : Call) (w : Shared) :
    (c.announce call w).effects = w.effects := by
  unfold announce
  cases call.operation? c.settings.dbText with
  | none => rfl
  | some op => rfl

theorem effects_drained (c : Client) (w : Shared) :
    (c.drained w).effects =
      if c.queue.isEmpty then w.effects else (w.execute c.queue.operations).2.effects := by
  unfold drained
  split
  · rfl
  · dsimp only
    split <;> rfl

theorem effects_call (c : Client) (call : Call) (w : Shared) :
    (c.call call w).2.2.effects =
      if c.isDue call then (c.carryOut call w).2.effects else w.effects := by
  by_cases hclosed : c.closed = true
  · rw [call_of_closed hclosed, isDue_of_closed hclosed]
    rfl
  have hopen : c.closed = false := by simpa using hclosed
  cases call with
  | scan table start count p =>
    rw [call_scan hopen, isDue_scan]
    exact w.effects_scan c.settings.dbText table start count p
  | flush =>
    rw [flush_eq hopen]
    split <;> rfl
  | cleanup =>
    have hcall : c.call .cleanup w = c.cleanup w := if_neg hclosed
    have hdrained : (c.cleanup w).2.2.effects = (c.drained w).effects := by
      have hclose := (c.drained w).effects_close
      rw [cleanup_eq]
      dsimp only
      split
      · split <;> next h => rw [h] at hclose; exact hclose
      · rfl
    rw [hcall, hdrained, effects_drained, isDue_cleanup hopen]
    cases c.queue.isEmpty <;> rfl
  | _ =>
    rw [call_submits hopen rfl]
    split
    · rfl
    · exact effects_announce ..

theorem answer?_eq (c : Client) (call : Call) (w : Shared) :
    answer? call (c, w) =
      if c.closed then none
      else (call.operation? c.settings.dbText).map fun op =>
        (op, if c.isDue call then (c.carryOut call w).1 else .batched) := by
  cases hop : call.operation? c.settings.dbText with
  | none => simp [answer?, hop]
  | some op =>
    by_cases hclosed : c.closed = true
    · simp [answer?, hop, call_refuses hclosed hop, hclosed]
    · have hopen : c.closed = false := by simpa using hclosed
      by_cases hdue : c.isDue call = true
      · simp [answer?, hop, call_submits hopen hop, hdue, hclosed]
      · simp [answer?, hop, call_submits hopen hop, hdue, hclosed]

/-- A call adds what it accepts to the queue, or to the batch with all that was queued. -/
theorem accepted_attend (c : Client) (v : Visit) :
    ((batch? v.1 (c, v.2)).map Prod.fst).toList.flatten ++ (c.attend v).queue.operations =
      c.queue.operations ++ ((answer? v.1 (c, v.2)).map Prod.fst).toList := by
  obtain ⟨call, w⟩ := v
  by_cases hclosed : c.closed = true
  · simp [batch?, isDue_of_closed hclosed, answer?_eq, attend, serve, call_of_closed hclosed,
      hclosed]
  · have hopen : c.closed = false := by simpa using hclosed
    have hanswer : ((answer? call (c, w)).map Prod.fst).toList =
        (call.operation? c.settings.dbText).toList := by
      rw [answer?_eq, hopen]
      cases call.operation? c.settings.dbText <;> rfl
    rw [hanswer, ← operations_queuedWith, attend, serve, client_call_of_open hopen, batch?]
    dsimp only
    split
    · simp [Queue.empty]
    · simp

end Call

theorem accepted_attendAll (c : Client) (visits : List Visit) :
    (c.batchesAt visits).flatten ++ (c.attendAll visits).queue.operations =
      c.queue.operations ++ c.acceptedAt visits := by
  induction visits generalizing c with
  | nil => rw [acceptedAt, atVisits, List.map_nil, List.append_nil]; rfl
  | cons v rest ih =>
    have hv := c.accepted_attend v
    have hbatches : c.batchesAt (v :: rest) =
        ((batch? v.1 (c, v.2)).map Prod.fst).toList ++ (c.attend v).batchesAt rest := by
      rw [batchesAt, atVisits, List.map_append, ← batchesAt, Option.toList_map]
    have haccepted : c.acceptedAt (v :: rest) =
        ((answer? v.1 (c, v.2)).map Prod.fst).toList ++ (c.attend v).acceptedAt rest := by
      rw [acceptedAt, atVisits, List.map_append, ← acceptedAt, Option.toList_map]
    calc (c.batchesAt (v :: rest)).flatten ++ ((c.attend v).attendAll rest).queue.operations
      _ = ((batch? v.1 (c, v.2)).map Prod.fst).toList.flatten ++
            (((c.attend v).batchesAt rest).flatten ++
              ((c.attend v).attendAll rest).queue.operations) := by
        rw [hbatches, List.flatten_append, List.append_assoc]
      _ = c.queue.operations ++ c.acceptedAt (v :: rest) := by
        rw [ih (c.attend v), ← List.append_assoc, hv, haccepted, List.append_assoc]

/-- The client holds less than a batch of `n` operations, and nothing once it is closed. -/
structure Within (n : Nat) (c : Client) : Prop where
  batchSize : max c.settings.batchSize 1 = n
  size : c.queue.size < n
  closed : c.closed = true → c.queue.operations = []

/-- What a call comes to for a client whose batches have `n` operations. -/
structure Serves (n : Nat) (c : Client) (call : Call) (w : Shared) : Prop where
  refused {op : Operation} : call.operation? c.settings.dbText = some op → c.closed = true →
    c.call call w = (.error .clientClosed, c, w) ∧ batch? call (c, w) = none
  answered {op : Operation} : call.operation? c.settings.dbText = some op → c.closed = false →
    ∃ status, (c.call call w).1 = .ok (.status status) ∧
      (status = .batched ↔ batch? call (c, w) = none) ∧
      (status = .batched → (c.call call w).2.2.store = w.store ∧
        (c.call call w).2.2.footprint.slots = w.footprint.slots ∧
        (c.call call w).2.2.footprint.metrics = w.footprint.metrics)
  /-- A batch that an operation completes. -/
  completed {op : Operation} {ops : List Operation} {status : Status} :
    call.operation? c.settings.dbText = some op → batch? call (c, w) = some (ops, status) →
      ops.length = n ∧ (c.call call w).1 = .ok (.status status)
  /-- A batch that clears the queue. -/
  cleared {ops : List Operation} {status : Status} :
    call.operation? c.settings.dbText = none → batch? call (c, w) = some (ops, status) →
      (call = .flush ∨ call = .cleanup) ∧ 1 ≤ ops.length ∧ ops.length ≤ n - 1
  executed {ops : List Operation} {status : Status} : batch? call (c, w) = some (ops, status) →
    status = ((c.announce call w).execute ops).1 ∧
      (c.call call w).2.2.effects = ((c.announce call w).execute ops).2.effects
  idle : batch? call (c, w) = none → (c.call call w).2.2.effects = w.effects
  emptied : call = .cleanup → (c.attend (call, w)).queue.operations = []

variable {n : Nat} {c : Client} {w : Shared} {call : Call} {op : Operation}

theorem within_new (settings : ClientSettings) (ownsStore : Bool) :
    (new settings ownsStore).Within (max settings.batchSize 1) :=
  ⟨rfl, lt_of_lt_of_le zero_lt_one (le_max_right _ _), fun _ => rfl⟩

theorem batch?_eq_some_iff {ops : List Operation} {status : Status} :
    batch? call (c, w) = some (ops, status) ↔ c.isDue call = true ∧
      ops = (c.queuedWith call).operations ∧ status = (c.carryOut call w).1 := by
  rw [batch?]
  split
  · next hdue => simp [hdue, eq_comm]
  · next hdue => simp [hdue]

theorem batch?_eq_none_iff : batch? call (c, w) = none ↔ c.isDue call = false := by
  rw [batch?]
  split
  · next hdue => simp [hdue]
  · next hdue => simp [hdue]

theorem queue_of_cleanup (hopen : c.closed = false) (h : (call matches .cleanup) = true) :
    (if c.isDue call then Queue.empty else c.queuedWith call).operations = [] := by
  cases call with
  | cleanup =>
    rw [isDue_cleanup hopen, queuedWith_of_none rfl]
    cases hempty : c.queue.isEmpty with
    | true => exact List.isEmpty_iff.mp hempty
    | false => rfl
  | _ => cases h

theorem clears_of_isDue (hop : call.operation? c.settings.dbText = none)
    (hdue : c.isDue call = true) :
    (call = .flush ∨ call = .cleanup) ∧ c.queue.operations ≠ [] := by
  cases call with
  | scan => simp [isDue_scan] at hdue
  | flush => exact ⟨.inl rfl, by simpa [Queue.isEmpty] using (Bool.and_eq_true_iff.mp hdue).2⟩
  | cleanup => exact ⟨.inr rfl, by simpa [Queue.isEmpty] using (Bool.and_eq_true_iff.mp hdue).2⟩
  | _ => cases hop

namespace Within

theorem isDue_iff (h : c.Within n) (hopen : c.closed = false)
    (hop : call.operation? c.settings.dbText = some op) :
    c.isDue call = true ↔ c.queue.size + 1 = n := by
  have hsize := h.size
  have hbatchSize := h.batchSize
  rw [isDue_of_operation hopen hop, Queue.shouldFlush, decide_eq_true_iff, Queue.size_append]
  omega

theorem attend (h : c.Within n) (v : Visit) : (c.attend v).Within n := by
  obtain ⟨call, w⟩ := v
  by_cases hclosed : c.closed = true
  · rw [Client.attend, serve, call_of_closed hclosed]
    exact h
  have hopen : c.closed = false := by simpa using hclosed
  have hpos : 0 < n := lt_of_le_of_lt (Nat.zero_le _) h.size
  rw [Client.attend, serve, client_call_of_open hopen]
  refine ⟨h.batchSize, ?_, fun hcleanup => ?_⟩
  · split
    · exact hpos
    · next hdue =>
      cases hop : call.operation? c.settings.dbText with
      | none =>
        rw [queuedWith_of_none hop]
        exact h.size
      | some op =>
        have hlast := mt (h.isDue_iff hopen hop).mpr hdue
        have hsize := h.size
        rw [queuedWith, hop, Option.elim_some, Queue.size_append]
        omega
  · exact queue_of_cleanup hopen hcleanup

theorem serves (h : c.Within n) (call : Call) (w : Shared) : c.Serves n call w where
  refused hop hclosed :=
    ⟨call_refuses hclosed hop, batch?_eq_none_iff.mpr (isDue_of_closed hclosed)⟩
  answered hop hopen := by
    rw [batch?_eq_none_iff, call_submits hopen hop]
    split
    · next hdue =>
      have hne := (c.announce call w).execute_ne_batched (c.queuedWith call).operations
      exact ⟨_, rfl, ⟨fun h => (hne h).elim, fun h => by simp [hdue] at h⟩, fun h => (hne h).elim⟩
    · next hdue =>
      refine ⟨_, rfl, ⟨fun _ => by simpa using hdue, fun _ => rfl⟩, fun _ => ?_⟩
      rw [announce, hop]
      exact ⟨rfl, rfl, rfl⟩
  completed hop hbatch := by
    obtain ⟨hdue, rfl, rfl⟩ := batch?_eq_some_iff.mp hbatch
    have hopen : c.closed = false := by
      cases hclosed : c.closed with
      | true => simp [isDue_of_closed hclosed] at hdue
      | false => rfl
    have hlast := (h.isDue_iff hopen hop).mp hdue
    rw [operations_queuedWith, hop, call_submits hopen hop, if_pos hdue]
    exact ⟨by simpa [Queue.size] using hlast, rfl⟩
  cleared hop hbatch := by
    obtain ⟨hdue, rfl, -⟩ := batch?_eq_some_iff.mp hbatch
    obtain ⟨hcall, hqueue⟩ := clears_of_isDue hop hdue
    rw [queuedWith_of_none hop]
    exact ⟨hcall, List.length_pos_iff.mpr hqueue, Nat.le_sub_one_of_lt h.size⟩
  executed hbatch := by
    obtain ⟨hdue, rfl, rfl⟩ := batch?_eq_some_iff.mp hbatch
    rw [effects_call, if_pos hdue]
    exact ⟨rfl, rfl⟩
  idle hbatch := by
    rw [effects_call, batch?_eq_none_iff.mp hbatch]
    rfl
  emptied := by
    rintro rfl
    by_cases hclosed : c.closed = true
    · rw [Client.attend, serve, call_of_closed hclosed]
      exact h.closed hclosed
    · have hopen : c.closed = false := by simpa using hclosed
      rw [Client.attend, serve, client_call_of_open hopen]
      exact queue_of_cleanup hopen rfl

theorem attendAll (h : c.Within n) (visits : List Visit) : (c.attendAll visits).Within n := by
  induction visits generalizing c with
  | nil => exact h
  | cons v rest ih => exact ih (h.attend v)

end Within

/-- Whatever calls a client gets, and whatever each of them meets, the batches that it has carried
out and what is queued are the operations that it has accepted, each once and in the order of the
calls. The queue holds less than a batch, and a batch is carried out as soon as it is complete, or
when the queue is cleared. -/
theorem accepted_inOrder (settings : ClientSettings) (ownsStore : Bool) (visits : List Visit) :
    let first := new settings ownsStore
    let c := first.attendAll visits
    let n := max settings.batchSize 1
    (first.batchesAt visits).flatten ++ c.queue.operations = first.acceptedAt visits ∧
      c.queue.size ≤ n - 1 ∧ (c.closed = true → c.queue.operations = []) ∧
      ∀ call w, c.Serves n call w := by
  intro first c n
  have hwithin : c.Within n := (within_new settings ownsStore).attendAll visits
  exact ⟨accepted_attendAll first visits, Nat.le_sub_one_of_lt hwithin.size, hwithin.closed,
    hwithin.serves⟩

theorem accepted_inOrder_of_failing_batches :
    let w : Shared := ⟨Store.new "kv" false, .empty⟩
    let first := new ⟨.text "db", 2⟩ false
    let visits : List Visit := [(.insert "t" "a" .empty, w), (.delete "t" "b", w),
      (.read "t" "a" .all none, w), (.flush, w), (.delete "t" "c", w), (.cleanup, w),
      (.delete "t" "d", w)]
    (first.batchesAt visits).flatten ++ (first.attendAll visits).queue.operations =
        first.acceptedAt visits ∧
      (atVisits batch? first visits).map (fun x => (x.1.length, x.2)) =
        [(2, .error), (1, .error), (1, .error)] ∧
      (first.acceptedAt visits).map Operation.key = ["db:t:a", "db:t:b", "db:t:a", "db:t:c"] :=
  ⟨(accepted_inOrder ⟨.text "db", 2⟩ false _).1, by decide +kernel, by decide +kernel⟩

end Client

end RecordStore
