import RecordStore.Store.Basic

/-! # Transactions

A transaction buffers its writes and carries them out when it commits. Committing or rolling back
finishes it, whether or not that succeeds, and a finished transaction can do nothing more.
-/

namespace RecordStore

/-- A transaction that can still be used. -/
structure Buffer where
  readYourWrites : Bool
  /-- For each key written or cleared, the latest of these. -/
  writes : KeyMap (Option Bytes)
  /-- Whether the database will refuse to end the transaction. -/
  refused : Bool
  link : Link
deriving DecidableEq, Repr, Inhabited

inductive Transaction where
  | active (b : Buffer)
  | finished
deriving DecidableEq, Repr, Inhabited

namespace Buffer

/-- The largest limit that the database accepts. -/
def maxLimit : Int := 9223372036854775807

/-- What a read of a key finds among the buffered writes. -/
def find? (b : Buffer) (key : Bytes) : Option (Option Bytes) :=
  if b.readYourWrites then b.writes.get? key else none

/-- The buffered writes that a read of a range takes into account. -/
def pending (b : Buffer) (first last : Bytes) : KeyMap (Option Bytes) :=
  if b.readYourWrites then b.writes.range first last else .empty

/-- How many entries the database is asked for. Every buffered write in the range can hide one
committed entry. -/
def wanted (b : Buffer) (first last : Bytes) (limit : Int) : Int :=
  limit + (b.pending first last).size

/-- Whether a limited read asks for more entries than the database accepts. -/
def asksTooMuch (b : Buffer) (first last : Bytes) (limit : Int) : Bool :=
  0 < limit && maxLimit < b.wanted first last limit

def linkAfterGet (b : Buffer) (s : Store) (key : Bytes) : Link :=
  if (b.find? key).isSome || !s.isOpen then b.link else b.link.look s.hasTable

def linkAfterRange (b : Buffer) (s : Store) (first last : Bytes) (limit : Int) : Link :=
  let link := if 0 < limit then b.link.prepareLimit s.hasTable else b.link
  if b.asksTooMuch first last limit then link else link.look s.hasTable

def linkAfterWrites (b : Buffer) (s : Store) : Link :=
  if b.writes.entries.isEmpty then b.link else b.link.look s.hasTable

end Buffer

namespace Transaction

def begin (readYourWrites : Bool) (s : Store) : Except Fault (Transaction × Store) :=
  if !s.isOpen then .error .storeClosed
  else if !s.reachable then .error .beginFailed
  else
    let (link, s') := s.lend
    .ok (.active ⟨readYourWrites, .empty, false, link⟩, s')

def fetch (s : Store) (key : Bytes) : Except Fault (Option Bytes) :=
  match s.table with
  | .holding table => .ok (table.get? key)
  | _ => .error .getFailed

/-- Ask for the value of a key. The request can fail at once; otherwise its result, which can be a
failure too, is there to be awaited. -/
def get (s : Store) (key : Bytes) : Transaction → Except Fault (Except Fault (Option Bytes))
  | .finished => .error .transactionClosed
  | .active b =>
    match b.find? key with
    | some buffered => .ok (.ok buffered)
    | none => if s.isOpen then .ok (fetch s key) else .error .storeClosed

def set (key value : Bytes) : Transaction → Except Fault Transaction
  | .finished => .error .transactionClosed
  | .active b =>
    if maxKeyBytes < key.length then .error (.keyTooLong key)
    else .ok (.active { b with writes := b.writes.insert key (some value) })

def clear (key : Bytes) : Transaction → Except Fault Transaction
  | .finished => .error .transactionClosed
  | .active b => .ok (.active { b with writes := b.writes.insert key none })

def afterGet (s : Store) (key : Bytes) : Transaction → Transaction
  | .finished => .finished
  | .active b => .active { b with link := b.linkAfterGet s key }

/-- The first entries of a range, all of them unless the limit is positive. -/
def range (s : Store) (first last : Bytes) (limit : Int) :
    Transaction → Except Fault (List (Bytes × Bytes))
  | .finished => .error .transactionClosed
  | .active b =>
    if b.asksTooMuch first last limit then
      .error (if (b.link.prepareLimit s.hasTable).preparedLimit then .limitTooLarge
        else .rangeFailed)
    else
      match s.table with
      | .holding table =>
        let rows := table.range first last
        let pending := b.pending first last
        if limit ≤ 0 then .ok (rows.overlay pending).entries
        else
          .ok (((rows.take (b.wanted first last limit).toNat).overlay pending).take
            limit.toNat).entries
      | _ => .error .rangeFailed

def afterRange (s : Store) (first last : Bytes) (limit : Int) : Transaction → Transaction
  | .finished => .finished
  | .active b => .active { b with link := b.linkAfterRange s first last limit }

/-- Carry out the buffered writes, all or none of them, and give the link back. -/
def commit (s : Store) : Transaction → Except Fault Unit × Store
  | .finished => (.error .transactionFinished, s)
  | .active b =>
    let s' := s.takeBack (b.linkAfterWrites s)
    if b.refused then (.error .commitFailed, s')
    else if b.writes.entries.isEmpty then (.ok (), s')
    else
      match s.table with
      | .holding table => (.ok (), { s' with table := .holding (table.overlay b.writes) })
      | _ => (.error .commitFailed, s')

/-- Drop the buffered writes and give the link back. -/
def rollback (s : Store) : Transaction → Except Fault Unit × Store
  | .finished => (.error .transactionFinished, s)
  | .active b => (if b.refused then .error .rollbackFailed else .ok (), s.takeBack b.link)

/-- Make the database refuse to end the transaction. -/
def refuse : Transaction → Transaction
  | .finished => .finished
  | .active b => .active { b with refused := true }

end Transaction
end RecordStore
