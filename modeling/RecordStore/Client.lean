import RecordStore.Batch
import RecordStore.Operation
import RecordStore.Scan
import RecordStore.Settings

/-! # Clients

A session of one caller. Reads and writes wait in its queue until there are as many as the batch
size, and the call that completes a batch carries it out. Scans run at once and see committed
records only.
-/

/-! ## Queues -/

namespace RecordStore

structure Queue where
  operations : List Operation

namespace Queue

def empty : Queue := ⟨[]⟩

def size (q : Queue) : Nat := q.operations.length

def isEmpty (q : Queue) : Bool := q.operations.isEmpty

def append (q : Queue) (op : Operation) : Queue := ⟨q.operations ++ [op]⟩

/-- Whether the queue has reached the threshold. A threshold below one counts as one. -/
def shouldFlush (q : Queue) (threshold : Int) : Bool := max threshold 1 ≤ q.size

/-- Every operation in order, and the queue without them. -/
def drain (q : Queue) : List Operation × Queue := (q.operations, empty)

@[simp] theorem operations_append (q : Queue) (op : Operation) :
    (q.append op).operations = q.operations ++ [op] := rfl

@[simp] theorem size_append (q : Queue) (op : Operation) : (q.append op).size = q.size + 1 := by
  simp [size, append]

end Queue

/-! ## What clients share -/

structure Shared where
  store : Store
  footprint : Footprint

namespace Shared

def report (w : Shared) (e : Event) : Shared := { w with footprint := w.footprint.report e }

def withStore {α : Type} (m : Attempt Store α) : Attempt Shared α := fun w =>
  let (r, store) := m w.store
  (r, { w with store })

def execute (operations : List Operation) (w : Shared) : Status × Shared :=
  let (status, c, f) :=
    Batch.execute Connection.backend operations (⟨w.store, .finished⟩, w.footprint)
  (status, ⟨c.store, f⟩)

def scan (db table : String) (start : Text) (limit : Int) (p : Projection) (w : Shared) :
    (Status × List Record) × Shared :=
  let (answer, c, f) :=
    Scan.scan Connection.backend db table start limit p (⟨w.store, .finished⟩, w.footprint)
  (answer, ⟨c.store, f⟩)

/-- Close the store; only a store that was open reports it. -/
def close : Attempt Shared Unit := fun w =>
  match w.store.close with
  | (.error e, store) => (.error e, { w with store })
  | (.ok wasOpen, store) =>
    let w' := { w with store }
    (.ok (), if wasOpen then w'.report (.storeClosed store.tableName) else w')

end Shared

/-! ## Calls -/

structure Client where
  settings : ClientSettings
  /-- Whether cleaning up closes the store too. -/
  ownsStore : Bool
  queue : Queue
  closed : Bool

namespace Client

inductive Call where
  | read (table key : String) (p : Projection) (slot : Option String)
  | insert (table key : String) (values : Fields Value)
  | update (table key : String) (values : Fields Value)
  | delete (table key : String)
  | scan (table : String) (start : Text) (count : Int) (p : Projection)
  | flush
  | cleanup

inductive Reply where
  | done
  | status (s : Status)
  | scanned (s : Status) (records : List Record)
deriving DecidableEq, Repr, Inhabited

def new (settings : ClientSettings) (ownsStore : Bool) : Client :=
  ⟨settings, ownsStore, .empty, false⟩

def rowKey (c : Client) (table key : String) : String := Key.row c.settings.dbText table key

/-- Carry out the queued operations. They leave the queue first, so a failed batch is never
repeated. -/
def flushQueue (c : Client) (w : Shared) : Status × Client × Shared :=
  let (operations, queue) := c.queue.drain
  let (status, w') := w.execute operations
  (status, { c with queue }, w')

/-- Accept an operation, and carry out the batch if that completes it. -/
def submit (op : Operation) (c : Client) (w : Shared) : Status × Client × Shared :=
  let c' := { c with queue := c.queue.append op }
  if c'.queue.shouldFlush c.settings.batchSize then c'.flushQueue w else (.batched, c', w)

def request (verb table key : String) (action : Action) (c : Client) (w : Shared) :
    Except Fault Reply × Client × Shared :=
  let rowKey := c.rowKey table key
  let (status, c', w') := c.submit ⟨table, rowKey, action⟩ (w.report (.called verb rowKey))
  (.ok (.status status), c', w')

/-- Carry out what is queued and close the session, and the store with it if it is the session's
own. -/
def cleanup (c : Client) (w : Shared) : Except Fault Reply × Client × Shared :=
  let (c', w') :=
    if c.queue.isEmpty then (c, w)
    else
      let (status, c', w') := c.flushQueue w
      (c', if status = .ok then w' else w'.report (.finalFlushFailed status))
  let c' := { c' with closed := true }
  if c.ownsStore then
    match w'.close with
    | (.ok (), w'') => (.ok .done, c', w'')
    | (.error e, w'') =>
      (.error (.raised .store e.message), c', w''.report (.cleanupFailed e))
  else (.ok .done, c', w')

def call (call : Call) (c : Client) (w : Shared) : Except Fault Reply × Client × Shared :=
  match call with
  | .cleanup => if c.closed then (.ok .done, c, w) else c.cleanup w
  | call =>
    if c.closed then (.error .clientClosed, c, w)
    else
      match call with
      | .read table key p slot => c.request "read" table key (.read p slot) w
      | .insert table key values => c.request "insert" table key (.insert values) w
      | .update table key values => c.request "update" table key (.update values) w
      | .delete table key => c.request "delete" table key .delete w
      | .scan table start count p =>
        let ((status, records), w') := w.scan c.settings.dbText table start count p
        (.ok (.scanned status records), c, w')
      | .flush =>
        if c.queue.isEmpty then (.ok (.status .ok), c, w)
        else
          let (status, c', w') := c.flushQueue w
          (.ok (.status status), c', w')
      | .cleanup => c.cleanup w

end Client
end RecordStore
