import RecordStore.Client

/-! # Sessions

A store with its clients and transactions, each known by a name: how they come to be, and everything
that can be done to them. A step is a call of a client, a step of a transaction, work on the store
itself, or a look at what is there.
-/

/-! ## Sessions and how they start -/

namespace RecordStore

structure Session where
  shared : Shared
  settings : ClientSettings
  clients : Fields Client
  transactions : Fields Transaction

namespace Session

inductive Mode where
  /-- A table ready for any number of clients. -/
  | shared
  /-- One client, which owns the store. -/
  | owned
  /-- A store whose table does not exist yet. -/
  | bare
  /-- A store whose database cannot be opened. -/
  | unreachable
deriving DecidableEq, Repr, Inhabited

/-- The name of the client that owns the store. -/
def ownerName : String := "c"

def configured (client : ClientSettings) (store : StoreSettings) : List Event :=
  [.configured "DB name" client.dbText,
   .configured "DB batch size" (toString client.batchSize),
   .configured "Store table" store.tableName,
   .configured "IO threads" store.ioThreads.shown]

/-- A session whose table has been created. -/
def withTable (props : Properties) : Except Fault Session := do
  let client ← (ClientSettings.ofProperties props).mapError .settings
  let store ← (StoreSettings.ofProperties props).mapError .settings
  let footprint := { Footprint.empty with events := configured client store }
  match (Store.new store.tableName true).ensureTable with
  | (.error e, _) => throw e
  | (.ok (), s) => return ⟨⟨s, footprint⟩, client, .empty, .empty⟩

def withoutTable (props : Properties) (reachable : Bool) : Except Fault Session := do
  let store ← (StoreSettings.ofProperties props).mapError .settings
  let client ← (ClientSettings.ofProperties props).mapError .settings
  return ⟨⟨Store.new store.tableName reachable, .empty⟩, client, .empty, .empty⟩

def start (mode : Mode) (props : Properties) : Except Fault Session :=
  match mode with
  | .shared => withTable props
  | .owned => do
    let s ← withTable props
    return { s with clients := s.clients.put ownerName (.new s.settings true) }
  | .bare => withoutTable props true
  | .unreachable => withoutTable props false

def pending (s : Session) (client : String) : Nat :=
  (s.clients.get? client).elim 0 (·.queue.size)

end Session
end RecordStore

/-! ## Steps -/

namespace RecordStore.Session

inductive Step where
  | newClient (client : String)
  | call (client : String) (call : Client.Call)
  | begin (transaction : String) (readYourWrites : Bool)
  | within (transaction : String) (step : Transaction.Step)
  /-- Steps in a transaction of their own, then a fault if one is to be raised. -/
  | run (steps : List Transaction.Step) (fault : Option Fault)
  | put (key : String) (values : Fields Value)
  | putRaw (key : String) (data : Bytes)
  | lookUp (key : String) (p : Projection)
  | execute (operations : List Operation)
  | scan (db table : String) (start : Text) (limit : Int) (p : Projection)
  | slots
  | dump
  | metrics
  | observeBatch (status : Value) (size : Int)
  | observeScan (status : Value)
  | ensureTable
  | dropTable
  | closeStore
  | breakClose (fault : Fault)

inductive Answer where
  | done
  | client (reply : Client.Reply)
  | transaction (reply : Transaction.Reply)
  | replies (list : List Transaction.Reply)
  /-- The row under a key, if there is one, and the selected record, if it has one. -/
  | row (record : Option (Option Record))
  | slots (slots : Fields Record)
  | dump (table : Option (KeyMap Bytes))
  | metrics (m : Metrics)

def statusOf (v : Value) : Except Fault Status :=
  match v with
  | .text name => (Status.ofName? name).elim (.error (.notAStatus v)) .ok
  | v => .error (.notAStatus v)

def onShared {α : Type} (m : Attempt Shared α) : Attempt Session α := fun s =>
  let (r, shared) := m s.shared
  (r, { s with shared })

def onStore {α : Type} (m : Attempt Store α) : Attempt Session α := onShared (Shared.withStore m)

def onFootprint (f : Footprint → Footprint) : Attempt Session Unit :=
  Attempt.change fun s => { s with shared := { s.shared with footprint := f s.shared.footprint } }

def callClient (name : String) (call : Client.Call) : Attempt Session Client.Reply := fun s =>
  match s.clients.get? name with
  | none => (.error (.unknownName name), s)
  | some c =>
    let (r, c', shared) := c.call call s.shared
    (r, { s with shared, clients := s.clients.put name c' })

def beginTransaction (name : String) (readYourWrites : Bool) : Attempt Session Unit := fun s =>
  match Transaction.begin readYourWrites s.shared.store with
  | .error e => (.error e, s)
  | .ok (t, store) =>
    (.ok (), { s with
      shared := { s.shared with store }
      transactions := s.transactions.put name t })

def stepTransaction (name : String) (step : Transaction.Step) :
    Attempt Session Transaction.Reply := fun s =>
  match s.transactions.get? name with
  | none => (.error (.unknownName name), s)
  | some t =>
    let (r, c) := Connection.perform step ⟨s.shared.store, t⟩
    (r, { s with
      shared := { s.shared with store := c.store }
      transactions := s.transactions.put name c.transaction })

def reportSize (size : Int) : Attempt Session Unit := fun s =>
  match s.shared.footprint.metrics.reportSize? size with
  | none => (.error .sizeTooLarge, s)
  | some metrics => onFootprint (fun f => { f with metrics }) s

/-- Steps in order, then the fault if there is one. -/
def scripted (steps : List Transaction.Step) (fault : Option Fault) :
    Attempt Connection (List Transaction.Reply) := do
  let replies ← Connection.performAll steps
  match fault with
  | some e => Attempt.fail e
  | none => return replies

/-- The slots that a step names. They are known from then on, whatever becomes of the step. -/
def Step.slotNames : Step → List String
  | .call _ (.read _ _ _ slot) => slot.toList
  | .execute operations => operations.filterMap Operation.slot?
  | _ => []

def perform : Step → Attempt Session Answer
  | .newClient name => do
    Attempt.change fun s => { s with clients := s.clients.put name (.new s.settings false) }
    return .done
  | .call name call => .client <$> callClient name call
  | .begin name readYourWrites => do
    beginTransaction name readYourWrites
    return .done
  | .within name step => .transaction <$> stepTransaction name step
  | .run steps fault => .replies <$> onStore (Store.run (scripted steps fault))
  | .put key values => do
    onStore <| Store.run <|
      match values.encode with
      | .error v => Attempt.fail (.unpackable v)
      | .ok data => Connection.buffer (·.set (Key.pack key) data)
    return .done
  | .putRaw key data => do
    onStore (Store.run (Connection.buffer (·.set (Key.pack key) data)))
    return .done
  | .lookUp key p => do
    match ← onStore (Store.run (Connection.perform (.get (Key.pack key)))) with
    | .value (some data) =>
      match Record.read p data with
      | .error e => Attempt.fail (.decode e)
      | .ok record => return .row (some record)
    | _ => return .row none
  | .execute operations =>
    onShared fun w =>
      let (status, w') := w.execute operations
      (.ok (.client (.status status)), w')
  | .scan db table start limit p =>
    onShared fun w =>
      let ((status, records), w') := w.scan db table start limit p
      (.ok (.client (.scanned status records)), w')
  | .slots => fun s => (.ok (.slots s.shared.footprint.slots), s)
  | .dump => fun s => (.ok (.dump s.shared.store.named?), s)
  | .metrics => fun s => (.ok (.metrics s.shared.footprint.metrics), s)
  | .observeBatch status size => do
    let status ← Attempt.ofExcept (statusOf status)
    onFootprint fun f => { f with metrics := f.metrics.countBatch status }
    reportSize size
    return .done
  | .observeScan status => do
    let status ← Attempt.ofExcept (statusOf status)
    onFootprint (·.observeScan status)
    return .done
  | .ensureTable => do
    onStore Store.ensureTable
    return .done
  | .dropTable => do
    onStore (Attempt.change Store.dropTable)
    return .done
  | .closeStore => do
    onShared Shared.close
    return .done
  | .breakClose fault => do
    onStore (Attempt.change fun s => { s with closeFault := some fault })
    return .done

/-- One step: the events in the footprint afterwards are those of this step. -/
def step (step : Step) (s : Session) : Except Fault Answer × Session :=
  let f := { s.shared.footprint with events := [] }
  let f := step.slotNames.foldl Footprint.declare f
  perform step { s with shared := { s.shared with footprint := f } }

end RecordStore.Session
