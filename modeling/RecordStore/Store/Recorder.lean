import RecordStore.KeyMap
import RecordStore.Store.Backend

/-! # Recorders

A backend that keeps no data. It answers from fixed rows, fails where it is told to, and lists the
calls made to it in order; a call that fails is listed too.
-/

namespace RecordStore

/-- One call to a backend. -/
inductive StoreCall where
  | begin (readYourWrites : Bool)
  | get (key : Bytes)
  | set (key value : Bytes)
  | clear (key : Bytes)
  | range (first last : Bytes) (limit : Int)
  | commit
  | rollback
deriving DecidableEq, Repr

structure Recorder where
  rows : KeyMap Bytes
  /-- What every range read answers. -/
  entries : List (Bytes × Bytes)
  beginFault : Option Fault
  /-- Faults of the awaited results of reads. -/
  getFaults : KeyMap Fault
  setFaults : KeyMap Fault
  rangeFault : Option Fault
  commitFault : Option Fault
  rollbackFault : Option Fault
  calls : List StoreCall

namespace Recorder

def empty : Recorder := ⟨.empty, [], none, .empty, .empty, none, none, none, []⟩

/-- List a call, then fail or answer. -/
def record {α : Type} (call : StoreCall) (fault : Recorder → Option Fault)
    (answer : Recorder → α) : Attempt Recorder α := fun r =>
  ((fault r).elim (.ok (answer r)) .error, { r with calls := r.calls ++ [call] })

def backend : Backend Recorder where
  begin readYourWrites := record (.begin readYourWrites) beginFault fun _ => ()
  get key := record (.get key) (fun _ => none) fun r =>
    (r.getFaults.get? key).elim (.ok (r.rows.get? key)) .error
  set key value := record (.set key value) (·.setFaults.get? key) fun _ => ()
  clear key := record (.clear key) (fun _ => none) fun _ => ()
  range first last limit := record (.range first last limit) rangeFault entries
  commit := record .commit commitFault fun _ => ()
  rollback := record .rollback rollbackFault fun _ => ()
  abandon e r := (e, r)

end Recorder
end RecordStore
