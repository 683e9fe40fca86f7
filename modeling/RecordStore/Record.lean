import RecordStore.Fields
import RecordStore.Projection
import RecordStore.Tuple.Unpack
import RecordStore.Value

/-! # Records

A record is an ordered collection of text fields. It is stored as the packed tuple of its fields,
each a pair of name and value.
-/

namespace RecordStore

open RecordStore.Tuple (Element UnpackError pack unpackWithin)

abbrev Record := Fields String

/-- Why stored bytes are no record, or cannot be read as one. -/
inductive DecodeError where
  | unpack (e : UnpackError)
  | malformedField (e : Element)
deriving DecidableEq, Repr

/-- The packed form of fields, or the first part of a value that cannot be packed. -/
def Fields.encode (fields : Fields Value) : Except Value Bytes :=
  pack <$> Value.toElements (fields.entries.map fun p => .tuple [.text p.1, p.2])

namespace Record

def pair (p : String × String) : Element := .nested [.text p.1, .text p.2]

def encode (r : Record) : Bytes := pack (r.entries.map pair)

def ofPair : Element → Except DecodeError (String × String)
  | .nested [.text name, .text value] => .ok (name, value)
  | e => .error (.malformedField e)

/-- How many elements the reader can be inside of. It takes up a part of the stack for each of them,
and this is about as many as the stack holds; a caller far down on it leaves a few less. -/
def room : Nat := 985

/-- The record that bytes stand for. A repeated name counts once, with its last value. -/
def decode (data : Bytes) : Except DecodeError Record :=
  match unpackWithin room data with
  | .error e => .error (.unpack e)
  | .ok items => Fields.ofList <$> items.mapM ofPair

/-- The part of a record that a projection asks for: none when the record has no fields or lacks
one of those asked for. -/
def select (p : Projection) (r : Record) : Option Record :=
  if r.isEmpty then none
  else if p.isAll then some r
  else Fields.ofList <$> p.names.mapM fun name => (r.get? name).map (name, ·)

/-- Decode bytes and select from the record. -/
def read (p : Projection) (data : Bytes) : Except DecodeError (Option Record) :=
  select p <$> decode data

theorem toElements_pairs (entries : List (String × String)) :
    Value.toElements (entries.map fun p => .tuple [.text p.1, .text p.2]) =
      .ok (entries.map pair) := by
  induction entries with
  | nil => rfl
  | cons p rest ih =>
    simp only [List.map_cons, Value.toElements, ih]
    rfl

/-- Text fields always pack, and to the bytes of the record. -/
theorem encode_map_text (r : Record) : (r.map Value.text).encode = .ok r.encode := by
  simp only [Fields.encode, Fields.map, List.map_map, Function.comp_def, toElements_pairs]
  rfl

end Record
end RecordStore
