import RecordStore.Fault
import RecordStore.Metrics
import RecordStore.Operation

/-! # Footprints

What calls leave behind besides stored data: the slots that reads have filled, the events
reported, and the metrics.
-/

/-! ## Events -/

namespace RecordStore

inductive Level where
  | debug
  | info
  | error
deriving DecidableEq, Repr, Inhabited

/-- The part of the library that reports an event. -/
inductive Source where
  | client
  | batch
  | scan
  | store
deriving DecidableEq, Repr, Inhabited

inductive Event where
  | configured (name value : String)
  | called (verb key : String)
  | keyNotFound (key : String)
  | batchResults (statuses : List Status)
  | batchFailed (operations : List Operation) (fault : Fault)
  | scanStarted (first last : String) (limit : Int)
  | scanIncomplete (first last : String) (limit : Int)
  | scanFailed (first last : String) (fault : Fault)
  | finalFlushFailed (status : Status)
  | cleanupFailed (fault : Fault)
  | storeClosed (table : String)

namespace Event

def level : Event → Level
  | .configured .. | .storeClosed _ => .info
  | .called .. | .keyNotFound _ | .batchResults _ | .scanStarted .. => .debug
  | .batchFailed .. | .scanIncomplete .. | .scanFailed .. | .finalFlushFailed _
  | .cleanupFailed _ => .error

def source : Event → Source
  | .configured .. | .called .. | .finalFlushFailed _ | .cleanupFailed _ => .client
  | .keyNotFound _ | .batchResults _ | .batchFailed .. => .batch
  | .scanStarted .. | .scanIncomplete .. | .scanFailed .. => .scan
  | .storeClosed _ => .store

def fault? : Event → Option Fault
  | .batchFailed _ fault | .scanFailed _ _ fault | .cleanupFailed fault => some fault
  | _ => none

def message : Event → String
  | .configured name value => name ++ ": " ++ value
  | .called verb key => verb ++ " key = " ++ key
  | .keyNotFound key => "Key not found: " ++ key
  | .batchResults statuses => "Batch results: " ++ " ".intercalate (statuses.map Status.name)
  | .batchFailed operations fault =>
    (if fault.kind = .store then "Store error" else "Error") ++ " performing batch operation -\n" ++
      "\n".intercalate (operations.map Operation.describe)
  | .scanStarted first last limit =>
    "scan key from " ++ first ++ " to " ++ last ++ " limit " ++ toString limit
  | .scanIncomplete first last limit =>
    "Error scanning keys: from " ++ first ++ " to " ++ last ++ " limit " ++ toString limit
  | .scanFailed first last fault =>
    (if fault.kind = .store ∨ fault.kind = .decode then "Error" else "Unexpected error") ++
      " scanning keys: from " ++ first ++ " to " ++ last
  | .finalFlushFailed status => "Final flush during cleanup finished with " ++ status.name
  | .cleanupFailed _ => "Error in database operation: cleanup"
  | .storeClosed table => "Closed key-value store on table " ++ table

end Event

/-! ## Slots, events and counts -/

structure Footprint where
  slots : Fields Record
  events : List Event
  metrics : Metrics

namespace Footprint

def empty : Footprint := ⟨.empty, [], .zero⟩

def slot (f : Footprint) (name : String) : Record := (f.slots.get? name).getD .empty

/-- Make a slot known, empty unless it has been filled. -/
def declare (f : Footprint) (name : String) : Footprint :=
  { f with slots := f.slots.put name (f.slot name) }

def fill (f : Footprint) (name : String) (r : Record) : Footprint :=
  { f with slots := f.slots.put name ((f.slot name).overlay r) }

def report (f : Footprint) (e : Event) : Footprint := { f with events := f.events ++ [e] }

def observeBatch (f : Footprint) (status : Status) (size : Nat) : Footprint :=
  { f with metrics := f.metrics.observeBatch status size }

def observeScan (f : Footprint) (status : Status) : Footprint :=
  { f with metrics := f.metrics.observeScan status }

end Footprint
end RecordStore
