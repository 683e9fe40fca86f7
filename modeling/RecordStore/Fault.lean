import RecordStore.Record
import RecordStore.Settings

/-! # Faults

Everything that can go wrong between a call and its answer, with the wording of each. What stops the
program from outside, an interrupt or an exit in the middle of a call, is no fault and left out.
-/

namespace RecordStore

/-- What a fault is about. Faults of one kind are handled alike. -/
inductive FaultKind where
  | settings
  | store
  | decode
  /-- A call that the state of its object rules out. -/
  | state
  | value
  | type
  /-- A text without a UTF-8 form. -/
  | encoding
  /-- Tuples nested deeper than they can be read. -/
  | nesting
  | overflow
  /-- A failure of the database itself, before the store has taken charge of it. -/
  | database
  /-- A name that stands for nothing. -/
  | missing
deriving DecidableEq, Repr, Inhabited

inductive Fault where
  | settings (e : SettingsError)
  | decode (e : DecodeError)
  /-- A value that a packed tuple cannot hold. -/
  | unpackable (v : Value)
  | keyTooLong (key : Bytes)
  | beginFailed
  | getFailed
  | rangeFailed
  | commitFailed
  | rollbackFailed
  | tableNotCreated (name : String)
  | limitTooLarge
  | sizeTooLarge
  | storeClosed
  | transactionClosed
  | transactionFinished
  | clientClosed
  | notAStatus (v : Value)
  | unknownName (name : String)
  /-- A fault raised by other code, with the text it came with. -/
  | raised (kind : FaultKind) (text : String)

def maxKeyBytes : Nat := 255

def Tuple.UnpackError.message : Tuple.UnpackError → String
  | .unterminatedRun offset => "Unterminated string at offset " ++ toString offset
  | .invalidText offset => "Invalid UTF-8 string at offset " ++ toString offset
  | .unterminatedTuple => "Unterminated nested tuple"
  | .tooDeep => "maximum recursion depth exceeded in comparison"
  | .unknownCode code offset =>
    "Unknown type code 0x" ++ String.ofList (Text.hexNumeral 2 code.toNat) ++ " at offset " ++
      toString offset

/-- Where a text has its first surrogates. -/
def BrokenText.message (t : BrokenText) : String :=
  let place :=
    match t.run with
    | [code] => " '" ++ String.ofList (Text.numberedEscape code.val) ++ "' in position " ++
        toString t.first
    | codes => "s in position " ++ toString t.first ++ "-" ++ toString (t.first + codes.length - 1)
  "'utf-8' codec can't encode character" ++ place ++ ": surrogates not allowed"

def DecodeError.message : DecodeError → String
  | .unpack e => e.message
  | .malformedField e => "Malformed field entry: " ++ (Value.ofElement e).written

namespace Fault

def kind : Fault → FaultKind
  | .settings (.unorderedThreads _) => .type
  | .settings _ => .settings
  | .decode (.unpack .tooDeep) => .nesting
  | .decode _ => .decode
  | .unpackable (.broken _) => .encoding
  | .unpackable _ => .type
  | .keyTooLong _ | .beginFailed | .getFailed | .rangeFailed | .commitFailed | .rollbackFailed
  | .tableNotCreated _ => .store
  | .limitTooLarge | .sizeTooLarge => .overflow
  | .storeClosed | .transactionClosed | .transactionFinished | .clientClosed => .state
  | .notAStatus _ => .value
  | .unknownName _ => .missing
  | .raised kind _ => kind

def message : Fault → String
  | .settings e => e.message
  | .decode e => e.message
  | .unpackable (.broken t) => t.message
  | .unpackable v => "Unsupported tuple element type: " ++ v.typeName
  | .keyTooLong key =>
    "Key exceeds " ++ toString maxKeyBytes ++ " bytes: " ++ Text.quotedBytes key
  | .beginFailed => "Failed to begin transaction"
  | .getFailed => "get failed"
  | .rangeFailed => "get_range failed"
  | .commitFailed => "Commit failed"
  | .rollbackFailed => "Rollback failed"
  | .tableNotCreated name => "Failed to create table " ++ name
  | .limitTooLarge => "Python int too large to convert to SQLite INTEGER"
  | .sizeTooLarge => "int too large to convert to float"
  | .storeClosed => "Store is closed"
  | .transactionClosed => "Transaction is closed"
  | .transactionFinished => "Transaction is already closed"
  | .clientClosed => "Client is closed"
  | .notAStatus v => v.written ++ " is not a valid Status"
  | .unknownName name => name
  | .raised _ text => text

end Fault
end RecordStore
