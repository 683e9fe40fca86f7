import RecordStore.Attempt

/-! # Backends

What batches and scans need of a store: one transaction at a time over a state of any type. The
same batch runs over a real store and over one that only records what is asked of it.
-/

namespace RecordStore

structure Backend (σ : Type) where
  begin (readYourWrites : Bool) : Attempt σ Unit
  /-- A request for a value, whose result is awaited later. -/
  get (key : Bytes) : Attempt σ (Except Fault (Option Bytes))
  set (key value : Bytes) : Attempt σ Unit
  clear (key : Bytes) : Attempt σ Unit
  range (first last : Bytes) (limit : Int) : Attempt σ (List (Bytes × Bytes))
  commit : Attempt σ Unit
  rollback : Attempt σ Unit
  /-- End the transaction after a fault, and say which fault is to be reported. -/
  abandon (e : Fault) : σ → Fault × σ

namespace Backend

variable {σ ω α : Type}

/-- The backend next to a second state that it leaves alone. -/
def beside (b : Backend σ) (ω : Type) : Backend (σ × ω) where
  begin readYourWrites := (b.begin readYourWrites).onFirst
  get key := (b.get key).onFirst
  set key value := (b.set key value).onFirst
  clear key := (b.clear key).onFirst
  range first last limit := (b.range first last limit).onFirst
  commit := b.commit.onFirst
  rollback := b.rollback.onFirst
  abandon e s :=
    let (e', s') := b.abandon e s.1
    (e', s', s.2)

/-- Carry out the body, and abandon the transaction if it fails. An interrupt is not among the
faults: it would leave the transaction as it is. -/
def guard (b : Backend σ) (body : Attempt σ α) : Attempt σ α := fun s =>
  match body s with
  | (.ok a, s') => (.ok a, s')
  | (.error e, s') =>
    let (e', s'') := b.abandon e s'
    (.error e', s'')

/-- Carry out the body in a new transaction and commit it. -/
def run (b : Backend σ) (body : Attempt σ α) : Attempt σ α := do
  b.begin true
  let answer ← b.guard body
  b.commit
  return answer

end Backend
end RecordStore
