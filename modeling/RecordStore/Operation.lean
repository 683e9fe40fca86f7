import RecordStore.Record
import RecordStore.Tuple.Pack

/-! # Operations

A request against one row key. A read may name a slot, which receives the fields it finds. A row key
joins database, table and record id with colons. The semicolon is the character after the colon, so
the keys of a table end before the table's name and a semicolon.
-/

/-! ## Row keys -/

namespace RecordStore.Key

def row (db table id : String) : String := db ++ ":" ++ table ++ ":" ++ id

/-- The first text after every row key of a table. Without a database, keys begin at the table. -/
def rangeEnd (table : String) (db : Option String) : String :=
  match db with
  | none => table ++ ";"
  | some db => db ++ ":" ++ table ++ ";"

/-- The stored form of a row key. -/
def pack (key : String) : Bytes := Tuple.pack [.text key]

/-- The row key of any record id. -/
def rowFrom (db table : String) : Text → Text
  | .unicode id => .unicode (row db table id)
  | .broken id => .broken (id.after (row db table ""))

/-- The stored form of a key, or the key itself if it has none. -/
def packText (key : Text) : Except Value Bytes := Value.packAll [.ofText key]

@[simp] theorem packText_unicode (key : String) : packText key = .ok (pack key) := rfl

@[simp] theorem packText_broken (t : BrokenText) : packText (.broken t) = .error (.broken t) := rfl

end RecordStore.Key

/-! ## Requests -/

namespace RecordStore

inductive Action where
  | read (projection : Projection) (slot : Option String)
  | insert (values : Fields Value)
  | update (values : Fields Value)
  | delete

structure Operation where
  table : String
  key : String
  action : Action

namespace Operation

def kindName (op : Operation) : String :=
  match op.action with
  | .read .. => "read"
  | .insert _ => "insert"
  | .update _ => "update"
  | .delete => "delete"

def values (op : Operation) : Fields Value :=
  match op.action with
  | .insert values | .update values => values
  | .read .. | .delete => .empty

/-- The fields that an operation asks for; only a read may ask for less than all. -/
def projection (op : Operation) : Projection :=
  match op.action with
  | .read p _ => p
  | _ => .all

def slot? (op : Operation) : Option String :=
  match op.action with
  | .read _ slot => slot
  | _ => none

def writtenFields (fields : Fields Value) : String :=
  "\x7b" ++ ", ".intercalate (fields.entries.map fun p => Text.quoted p.1 ++ ": " ++ p.2.written) ++
    "\x7d"

/-- The names asked for, or the values brought along, in written form. -/
def payload (op : Operation) : String :=
  match op.action with
  | .read p _ =>
    if p.isAll then "<all fields>" else (Value.list (p.names.map .text)).written
  | .insert values | .update values => writtenFields values
  | .delete => writtenFields .empty

/-- The line that stands for an operation in reports of failed batches. -/
def describe (op : Operation) : String :=
  ", ".intercalate [op.kindName, op.key, op.payload, op.table]

/-- Whether two operations ask for the same; the slot does not count, nor does the order of
fields. -/
def same (a b : Operation) : Bool :=
  a.table == b.table && a.key == b.key &&
    match a.action, b.action with
    | .read p _, .read q _ => p == q
    | .insert v, .insert w | .update v, .update w => v.sameBy Value.same w
    | .delete, .delete => true
    | _, _ => false

end Operation
end RecordStore
