import RecordStore.Footprint
import RecordStore.Store.Connection

/-! # Scans

A scan reads the committed records of one table in key order, in a transaction of its own that
buffered writes do not reach. One record that cannot be given as asked for fails the whole scan.
-/

namespace RecordStore.Scan

variable {σ : Type}

/-- The entries of a range whose first key has been packed, if it could be. -/
def range (b : Backend σ) (first : Except Value Bytes) (last : Bytes) (limit : Int) :
    Attempt σ (List (Bytes × Bytes)) :=
  match first with
  | .error v => Attempt.fail (.unpackable v)
  | .ok first => b.range first last limit

/-- Read the entries of a range and roll back. A failure to roll back takes the place of any
other. -/
def rangeAndEnd (b : Backend σ) (first : Except Value Bytes) (last : Bytes) (limit : Int) :
    Attempt σ (List (Bytes × Bytes)) := fun s =>
  let (entries, s') := range b first last limit s
  match b.rollback s' with
  | (.error e, s'') => (.error e, s'')
  | (.ok _, s'') => (entries, s'')

/-- The entries of a range, read in a transaction that does not see its own writes. -/
def fetch (b : Backend σ) (first : Except Value Bytes) (last : Bytes) (limit : Int) :
    Attempt σ (List (Bytes × Bytes)) := do
  b.begin false
  rangeAndEnd b first last limit

/-- The selected records, or none as soon as one of them is not to be had. -/
def readAll (p : Projection) : List Bytes → Except DecodeError (Option (List Record))
  | [] => .ok (some [])
  | data :: rest =>
    match Record.read p data with
    | .error e => .error e
    | .ok none => .ok none
    | .ok (some r) =>
      match readAll p rest with
      | .error e => .error e
      | .ok records => .ok (records.map (r :: ·))

/-- What a scan finds: its records, none if one is incomplete, or the fault that stops it. -/
def find (b : Backend σ) (first : Text) (last : String) (limit : Int) (p : Projection) :
    Attempt σ (Option (List Record)) := do
  let entries ← fetch b (Key.packText first) (Key.pack last) (max limit 0)
  match readAll p (entries.map Prod.snd) with
  | .error e => Attempt.fail (.decode e)
  | .ok records => return records

/-- The records of a table from an id on, at most `limit` of them if it is positive. -/
def scan (b : Backend σ) (db table : String) (start : Text) (limit : Int) (p : Projection)
    (s : σ × Footprint) : (Status × List Record) × σ × Footprint :=
  let first := Key.rowFrom db table start
  let last := Key.rangeEnd table (some db)
  let shown := (Value.ofText first).shown
  let f := s.2.report (.scanStarted shown last limit)
  match find b first last limit p s.1 with
  | (.ok (some records), s') => ((.ok, records), s', f.observeScan .ok)
  | (.ok none, s') =>
    ((.error, []), s', (f.report (.scanIncomplete shown last limit)).observeScan .error)
  | (.error e, s') =>
    ((.error, []), s', (f.report (.scanFailed shown last e)).observeScan .error)

end RecordStore.Scan
