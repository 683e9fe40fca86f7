import RecordStore.Store.Backend
import RecordStore.Store.Transaction

/-! # Connections

A store with a transaction in use on it, and the steps that can be taken there.
-/

namespace RecordStore

structure Connection where
  store : Store
  transaction : Transaction

namespace Transaction

inductive Step where
  | get (key : Bytes)
  | set (key value : Bytes)
  | clear (key : Bytes)
  | range (first last : Bytes) (limit : Int)
  | commit
  | rollback
  | refuse
deriving DecidableEq, Repr

inductive Reply where
  | done
  | value (v : Option Bytes)
  | entries (list : List (Bytes × Bytes))
deriving DecidableEq, Repr, Inhabited

end Transaction

namespace Connection

open Transaction (Step Reply)

def ask {α : Type} (f : Store → Transaction → Except Fault α)
    (after : Store → Transaction → Transaction) : Attempt Connection α := fun c =>
  (f c.store c.transaction, { c with transaction := after c.store c.transaction })

/-- A change of the transaction, if it succeeds. -/
def buffer (f : Transaction → Except Fault Transaction) : Attempt Connection Unit := fun c =>
  match f c.transaction with
  | .ok t => (.ok (), { c with transaction := t })
  | .error e => (.error e, c)

def commit : Attempt Connection Unit := fun c =>
  let (r, store) := c.transaction.commit c.store
  (r, ⟨store, .finished⟩)

def rollback : Attempt Connection Unit := fun c =>
  let (r, store) := c.transaction.rollback c.store
  (r, ⟨store, .finished⟩)

/-- Roll back after a fault. A failure of the database is reported as one of the store; any other
fault is reported as it is, unless rolling back fails as well. -/
def abandon (e : Fault) (c : Connection) : Fault × Connection :=
  let (r, c') := rollback c
  (if e.kind = .database then .raised .store e.message
    else match r with
      | .ok () => e
      | .error e' => e', c')

def backend : Backend Connection where
  begin readYourWrites := fun c =>
    match Transaction.begin readYourWrites c.store with
    | .ok (t, store) => (.ok (), ⟨store, t⟩)
    | .error e => (.error e, c)
  get key := ask (fun s t => t.get s key) fun s t => t.afterGet s key
  set key value := buffer (·.set key value)
  clear key := buffer (·.clear key)
  range first last limit :=
    ask (fun s t => t.range s first last limit) fun s t => t.afterRange s first last limit
  commit := commit
  rollback := rollback
  abandon := abandon

def perform : Step → Attempt Connection Reply
  | .get key =>
    ask (fun s t => (t.get s key).bind fun r => .value <$> r) fun s t => t.afterGet s key
  | .set key value => (fun _ => .done) <$> buffer (·.set key value)
  | .clear key => (fun _ => .done) <$> buffer (·.clear key)
  | .range first last limit =>
    ask (fun s t => .entries <$> t.range s first last limit) fun s t =>
      t.afterRange s first last limit
  | .commit => (fun _ => .done) <$> commit
  | .rollback => (fun _ => .done) <$> rollback
  | .refuse => (fun _ => .done) <$> Attempt.change fun c =>
      { c with transaction := c.transaction.refuse }

/-- The steps in order, up to the first that fails. -/
def performAll : List Step → Attempt Connection (List Reply)
  | [] => pure []
  | step :: rest => do
    let reply ← perform step
    let replies ← performAll rest
    return reply :: replies

end Connection

namespace Store

/-- Use the store through a connection of its own. -/
def through {α : Type} (m : Attempt Connection α) : Attempt Store α := fun s =>
  let (r, c) := m ⟨s, .finished⟩
  (r, c.store)

def run {α : Type} (body : Attempt Connection α) : Attempt Store α :=
  through (Connection.backend.run body)

end Store
end RecordStore
