import RecordStore.Bytes

/-! # Packing

What a packed tuple can hold, and how it is written. A packed tuple is the concatenation of its
elements. Each begins with a code that orders the kinds, and byte order of packed tuples is element
order of the tuples.
-/

/-! ## Elements -/

namespace RecordStore.Tuple

inductive Element where
  | null
  | bytes (b : Bytes)
  | text (s : String)
  | nested (items : List Element)
deriving Inhabited, Repr

namespace Element

mutual

def decEq : (a b : Element) → Decidable (a = b)
  | .null, .null => isTrue rfl
  | .bytes a, .bytes b => decidable_of_iff (a = b) (by simp)
  | .text a, .text b => decidable_of_iff (a = b) (by simp)
  | .nested a, .nested b =>
    match decEqList a b with
    | isTrue h => isTrue (by rw [h])
    | isFalse h => isFalse (by simpa using h)
  | .null, .bytes _ | .null, .text _ | .null, .nested _ | .bytes _, .null | .bytes _, .text _
  | .bytes _, .nested _ | .text _, .null | .text _, .bytes _ | .text _, .nested _
  | .nested _, .null | .nested _, .bytes _ | .nested _, .text _ => isFalse nofun

def decEqList : (a b : List Element) → Decidable (a = b)
  | [], [] => isTrue rfl
  | a :: as, b :: bs =>
    match decEq a b, decEqList as bs with
    | isTrue h, isTrue h' => isTrue (by rw [h, h'])
    | isFalse h, _ => isFalse (by simp [h])
    | _, isFalse h => isFalse (by simp [h])
  | [], _ :: _ | _ :: _, [] => isFalse nofun

end

instance : DecidableEq Element := decEq

end Element

/-! ## Escaped runs

A run of bytes inside a packed tuple ends at a zero byte. A zero byte of the run itself is
written `00 FF`, so the end is the first zero that no `FF` follows.
-/

def escape (raw : Bytes) : Bytes := raw.flatMap fun b => if b = 0 then [0, 0xFF] else [b]

/-- Reads `00 FF` as a zero byte and every other byte as itself. -/
def unescape : Bytes → Bytes
  | 0 :: 0xFF :: rest => 0 :: unescape rest
  | b :: rest => b :: unescape rest
  | [] => []

/-- The position of the first ending zero of bytes that begin at `pos`. When there is none, the
position just past the last escaped zero, or `start` if no zero was met. -/
def terminatorFrom (start pos : Nat) : Bytes → Except Nat Nat
  | 0 :: 0xFF :: rest => terminatorFrom (pos + 2) (pos + 2) rest
  | 0 :: _ => .ok pos
  | _ :: rest => terminatorFrom start (pos + 1) rest
  | [] => .error start

/-- The position of the zero that ends the run beginning at `pos`. -/
def findTerminator (data : Bytes) (pos : Nat) : Except Nat Nat :=
  terminatorFrom pos pos (data.drop pos)

@[simp] theorem escape_nil : escape [] = [] := rfl

@[simp] theorem escape_cons (b : UInt8) (rest : Bytes) :
    escape (b :: rest) = (if b = 0 then [0, 0xFF] else [b]) ++ escape rest := rfl

/-! ## Packed tuples -/

def nullCode : UInt8 := 0x00
def bytesCode : UInt8 := 0x01
def textCode : UInt8 := 0x02
def nestedCode : UInt8 := 0x05

namespace Element

mutual

/-- An element inside a tuple that is itself an element. -/
def packInner : Element → Bytes
  | .null => [nullCode, 0xFF]
  | .bytes b => bytesCode :: escape b ++ [0]
  | .text s => textCode :: escape (.ofText s) ++ [0]
  | .nested items => nestedCode :: packInnerAll items ++ [0]

def packInnerAll : List Element → Bytes
  | [] => []
  | e :: rest => e.packInner ++ packInnerAll rest

end

/-- An element of the outermost tuple, where a null needs no mark. -/
def pack : Element → Bytes
  | .null => [nullCode]
  | e => e.packInner

end Element

def pack (items : List Element) : Bytes := items.flatMap Element.pack

@[simp] theorem pack_nil : pack [] = [] := rfl

@[simp] theorem pack_cons (e : Element) (items : List Element) :
    pack (e :: items) = e.pack ++ pack items := rfl

end RecordStore.Tuple
