import RecordStore.Footprint
import RecordStore.Store.Connection

/-! # Batches

A batch is carried out in one transaction and in two passes. The first sends every operation to
the store in order: an insert or delete buffers its write, a read or update asks for its row. The
second takes the rows in order: a read fills its slot, an update writes its merged record. A
failure anywhere abandons the transaction and is reported as one error.
-/

namespace RecordStore.Batch

variable {σ : Type}

/-- What a row was asked for. -/
inductive Request where
  | read (p : Projection) (slot : Option String)
  | update (values : Fields Value)

/-- A request that has been sent, with the result that is awaited for it. -/
structure Pending where
  key : String
  request : Request
  row : Except Fault (Option Bytes)

inductive Outcome where
  | missing
  /-- The record is empty or lacks a field asked for. -/
  | incomplete
  | found (r : Record) (slot : Option String)
  | merged (data : Bytes)

def settle : Request → Option Bytes → Except Fault Outcome
  | _, none => .ok .missing
  | .read p slot, some data =>
    match Record.read p data with
    | .error e => .error (.decode e)
    | .ok none => .ok .incomplete
    | .ok (some r) => .ok (.found r slot)
  | .update values, some data =>
    match Record.read .all data with
    | .error e => .error (.decode e)
    | .ok none => .ok .missing
    | .ok (some r) =>
      match ((r.map Value.text).overlay values).encode with
      | .error v => .error (.unpackable v)
      | .ok merged => .ok (.merged merged)

/-- What comes of a request, once its result is there. -/
def Pending.outcome (p : Pending) : Except Fault Outcome := p.row.bind (settle p.request)

/-- Send one operation. A request is kept with the result that is awaited for it. -/
def send (b : Backend σ) (op : Operation) : Attempt σ (Option Pending) :=
  let key := Key.pack op.key
  match op.action with
  | .insert values =>
    match values.encode with
    | .error v => Attempt.fail (.unpackable v)
    | .ok data => do
      b.set key data
      return none
  | .delete => do
    b.clear key
    return none
  | .read p slot => do
    let row ← b.get key
    return some ⟨op.key, .read p slot, row⟩
  | .update values => do
    let row ← b.get key
    return some ⟨op.key, .update values, row⟩

/-- Send the operations in order, and keep the requests whose rows are awaited. -/
def dispatch (b : Backend σ) : List Operation → Attempt σ (List Pending)
  | [] => pure []
  | op :: rest => do
    let sent ← send b op
    let others ← dispatch b rest
    return sent.toList ++ others

/-- Act on what came of the request for a key. -/
def conclude (b : Backend σ) (key : String) : Outcome → Attempt (σ × Footprint) Status
  | .missing => do
    Attempt.changeSecond (·.report (.keyNotFound key))
    return .notFound
  | .incomplete => return .notFound
  | .found r slot => do
    Attempt.changeSecond fun f => slot.elim f (f.fill · r)
    return .ok
  | .merged data => do
    (b.set (Key.pack key) data).onFirst
    return .ok

def resolve (b : Backend σ) (p : Pending) : Attempt (σ × Footprint) Status := do
  let outcome ← Attempt.ofExcept p.outcome
  conclude b p.key outcome

def resolveAll (b : Backend σ) : List Pending → Attempt (σ × Footprint) (List Status)
  | [] => pure []
  | p :: rest => do
    let status ← resolve b p
    let statuses ← resolveAll b rest
    return status :: statuses

/-- A batch is in order when every row it asked for was. -/
def verdict (statuses : List Status) : Status :=
  if statuses.all (· = .ok) then .ok else .error

/-- Both passes, inside the transaction. -/
def body (b : Backend σ) (operations : List Operation) : Attempt (σ × Footprint) Status := do
  let pending ← (dispatch b operations).onFirst
  let statuses ← resolveAll b pending
  Attempt.changeSecond (·.report (.batchResults statuses))
  return verdict statuses

/-- Carry out a batch. An empty one needs no transaction and leaves no trace. The report of a failed
batch is taken to be written whatever its values, as in `Value`. -/
def execute (b : Backend σ) (operations : List Operation) (s : σ × Footprint) :
    Status × σ × Footprint :=
  if operations.isEmpty then (.ok, s)
  else
    match (b.beside Footprint).run (body b operations) s with
    | (.ok status, s', f) => (status, s', f.observeBatch status operations.length)
    | (.error e, s', f) =>
      (.error, s', (f.report (.batchFailed operations e)).observeBatch .error operations.length)

end RecordStore.Batch
