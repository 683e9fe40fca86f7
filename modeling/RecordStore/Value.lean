import RecordStore.Text.Quoted
import RecordStore.Text.Real
import RecordStore.Tuple.Pack

/-! # Values

What callers may hand in as a field value, a setting or a name. Values that a packed tuple cannot
hold are values all the same: they are compared, shown in messages, and refused by name.

Any value can be written here, and any tuple packed. That a number of more than 4300 digits is
refused by whatever is to write it, and so is a tuple nested deeper than the stack, is left out.
-/

namespace RecordStore

open RecordStore.Tuple (Element)

inductive Value where
  | null
  | boolean (b : Bool)
  | integer (n : Int)
  | real (x : Float)
  | text (s : String)
  | broken (t : BrokenText)
  | bytes (b : Bytes)
  /-- Bytes in a buffer that may still change. -/
  | buffer (b : Bytes)
  | tuple (items : List Value)
  | list (items : List Value)
  | map (entries : List (String × Value))
deriving Inhabited, Repr

namespace Value

def typeName : Value → String
  | .null => "NoneType"
  | .boolean _ => "bool"
  | .integer _ => "int"
  | .real _ => "float"
  | .text _ | .broken _ => "str"
  | .bytes _ => "bytes"
  | .buffer _ => "bytearray"
  | .tuple _ => "tuple"
  | .list _ => "list"
  | .map _ => "dict"

mutual

def written : Value → String
  | .null => "None"
  | .boolean true => "True"
  | .boolean false => "False"
  | .integer n => toString n
  | .real x => Text.writtenReal x
  | .text s => Text.quoted s
  | .broken t => Text.quotedBroken t
  | .bytes b => Text.quotedBytes b
  | .buffer b => Text.quotedBuffer b
  | .tuple [] => "()"
  | .tuple [v] => "(" ++ v.written ++ ",)"
  | .tuple (v :: rest) => "(" ++ v.written ++ writtenRest rest ++ ")"
  | .list [] => "[]"
  | .list (v :: rest) => "[" ++ v.written ++ writtenRest rest ++ "]"
  | .map [] => "\x7b\x7d"
  | .map ((name, v) :: rest) =>
    "\x7b" ++ Text.quoted name ++ ": " ++ v.written ++ writtenEntries rest ++ "\x7d"

def writtenRest : List Value → String
  | [] => ""
  | v :: rest => ", " ++ v.written ++ writtenRest rest

def writtenEntries : List (String × Value) → String
  | [] => ""
  | (name, v) :: rest => ", " ++ Text.quoted name ++ ": " ++ v.written ++ writtenEntries rest

end

/-- The text of a value: a text stands for itself, with any surrogates in it escaped, and anything
else is written. -/
def shown : Value → String
  | .text s => s
  | .broken t => Text.escaped t
  | v => v.written

/-- Whether a value counts as empty: nothing, false, zero, or no content. -/
def isEmpty : Value → Bool
  | .null => true
  | .boolean b => !b
  | .integer n => n == 0
  | .real x => x == 0
  | .text s => s == ""
  | .broken _ => false
  | .bytes b | .buffer b => b.isEmpty
  | .tuple items | .list items => items.isEmpty
  | .map entries => entries.isEmpty

/-- A finite number as `sign * mantissa * 2 ^ exponent`; truth values count as one and zero. -/
def number? : Value → Option (Int × Int)
  | .boolean b => some (if b then 1 else 0, 0)
  | .integer n => some (n, 0)
  | .real x => (Text.Magnitude.ofFloat? x).map fun m =>
      (if x < 0 then -m.mantissa else m.mantissa, m.exponent)
  | _ => none

mutual

/-- Equality of values: numbers by amount, with a NaN the same as itself, bytes by content,
tuples apart from lists, and maps by their entries in whatever order. -/
def same : Value → Value → Bool
  | .null, .null => true
  | .text a, .text b => a == b
  | .broken a, .broken b => a == b
  | .bytes a, .bytes b | .bytes a, .buffer b | .buffer a, .bytes b | .buffer a, .buffer b => a == b
  | .tuple a, .tuple b => sameAll a b
  | .list a, .list b => sameAll a b
  | .map a, .map b => a.length == b.length && sameEntries a b
  | .real x, .real y => x == y || (x.isNaN && y.isNaN)
  | a, b =>
    match a.number?, b.number? with
    | some (m, e), some (n, f) =>
      m * Int.pow 2 e.toNat * Int.pow 2 (-f).toNat == n * Int.pow 2 f.toNat * Int.pow 2 (-e).toNat
    | _, _ => false

def sameAll : List Value → List Value → Bool
  | [], [] => true
  | a :: as, b :: bs => a.same b && sameAll as bs
  | _, _ => false

/-- Whether each of the entries is found among the others. -/
def sameEntries : List (String × Value) → List (String × Value) → Bool
  | [], _ => true
  | (name, a) :: as, bs => (bs.lookup name).any a.same && sameEntries as bs

end

def ofText : Text → Value
  | .unicode s => .text s
  | .broken t => .broken t

mutual

/-- The tuple element that stands for a value, or the first part of it that no element stands
for. A buffer is read as bytes and a list as a tuple. -/
def toElement : Value → Except Value Element
  | .null => .ok .null
  | .text s => .ok (.text s)
  | .bytes b | .buffer b => .ok (.bytes b)
  | .tuple items | .list items => .nested <$> toElements items
  | v => .error v

def toElements : List Value → Except Value (List Element)
  | [] => .ok []
  | v :: rest => do
    let e ← v.toElement
    let es ← toElements rest
    return e :: es

end

/-- The packed tuple of the values, or the first part of one that cannot be packed. -/
def packAll (items : List Value) : Except Value Bytes := Tuple.pack <$> toElements items

mutual

def ofElement : Element → Value
  | .null => .null
  | .bytes b => .bytes b
  | .text s => .text s
  | .nested items => .tuple (ofElements items)

def ofElements : List Element → List Value
  | [] => []
  | e :: es => ofElement e :: ofElements es

end

mutual

@[simp] theorem toElement_ofElement : (e : Element) → (ofElement e).toElement = .ok e
  | .null | .bytes _ | .text _ => rfl
  | .nested items => by simp [ofElement, toElement, toElements_ofElements items, Functor.map, Except.map]

@[simp] theorem toElements_ofElements : (es : List Element) → toElements (ofElements es) = .ok es
  | [] => rfl
  | e :: es => by
    simp [ofElements, toElements, toElement_ofElement e, toElements_ofElements es, bind,
      Except.bind, pure, Except.pure]

end

end Value
end RecordStore
