import RecordStore.Proofs.Rows

/-! # Transactional backends

What a batch may rely on. Between its begin and its commit a transaction works on rows of its own,
and the committed table stays as it is; a commit that succeeds makes those rows the committed ones.
Any call may fail, but none of them changes the table when it does.
-/

namespace RecordStore

variable {σ : Type}

/-- A condition that the calls of a transaction in use leave as it is. -/
structure Backend.Keeps (b : Backend σ) (P : σ → Prop) : Prop where
  get {s s' : σ} {key : Bytes} {r : Except Fault (Except Fault (Option Bytes))} :
    b.get key s = (r, s') → P s → P s'
  set {s s' : σ} {key value : Bytes} {r : Except Fault Unit} :
    b.set key value s = (r, s') → P s → P s'
  clear {s s' : σ} {key : Bytes} {r : Except Fault Unit} : b.clear key s = (r, s') → P s → P s'

structure Backend.Preserves (b : Backend σ) (P : σ → Prop) : Prop extends b.Keeps P where
  begin {s s' : σ} {r : Except Fault Unit} : b.begin true s = (r, s') → P s → P s'
  commit {s s' : σ} {r : Except Fault Unit} : b.commit s = (r, s') → P s → P s'
  abandon {s : σ} (e : Fault) : P s → P (b.abandon e s).2

structure Backend.Transactional (b : Backend σ) where
  table : σ → Table
  /-- The rows as the transaction sees them. -/
  rows : σ → Rows
  /-- A transaction that sees its own writes is in use. -/
  Running : σ → Prop
  begin_table {s s' : σ} {r : Except Fault Unit} : b.begin true s = (r, s') → table s' = table s
  begin_rows {s s' : σ} : b.begin true s = (.ok (), s') → rows s' = (table s).rows
  begin_running {s s' : σ} : b.begin true s = (.ok (), s') → Running s'
  keeps_table (t : Table) : b.Keeps fun s => table s = t
  keeps_running : b.Keeps Running
  get_rows {s s' : σ} {key : Bytes} {row : Except Fault (Option Bytes)} :
    b.get key s = (.ok row, s') → rows s' = rows s
  get_value {s s' : σ} {key : Bytes} {row : Option Bytes} :
    Running s → b.get key s = (.ok (.ok row), s') → row = rows s key
  set_rows {s s' : σ} {key value : Bytes} :
    b.set key value s = (.ok (), s') → rows s' = Function.update (rows s) key (some value)
  clear_rows {s s' : σ} {key : Bytes} :
    b.clear key s = (.ok (), s') → rows s' = Function.update (rows s) key none
  commit_rows {s s' : σ} : b.commit s = (.ok (), s') → (table s').rows = rows s
  commit_table {s s' : σ} {e : Fault} : b.commit s = (.error e, s') → table s' = table s
  abandon_table (s : σ) (e : Fault) : table (b.abandon e s).2 = table s

/-- While the condition holds, no call fails but a write under a key that is too long. -/
structure Backend.Serves (b : Backend σ) (P : σ → Prop) : Prop where
  get {s : σ} (key : Bytes) : P s → ∃ row s', b.get key s = (.ok (.ok row), s') ∧ P s'
  set {s : σ} {key : Bytes} (value : Bytes) : P s → key.length ≤ maxKeyBytes →
    ∃ s', b.set key value s = (.ok (), s') ∧ P s'
  clear {s : σ} (key : Bytes) : P s → ∃ s', b.clear key s = (.ok (), s') ∧ P s'
  commit {s : σ} : P s → ∃ s', b.commit s = (.ok (), s')

end RecordStore
