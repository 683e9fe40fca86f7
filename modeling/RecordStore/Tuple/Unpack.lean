import RecordStore.Tuple.Pack

/-! # Unpacking

One pass over the bytes, with the tuples that are still open kept on a stack. The offsets in the
errors count from the first byte of the packed tuple. A reader has room for so many open tuples
only, and refuses what lies in more of them; `unpack` is the reader whose room does not end.
-/

namespace RecordStore.Tuple

/-- Why bytes are no packed tuple. -/
inductive UnpackError where
  | unterminatedRun (offset : Nat)
  | invalidText (offset : Nat)
  | unterminatedTuple
  /-- An element inside more tuples than there is room for. -/
  | tooDeep
  | unknownCode (code : UInt8) (offset : Nat)
deriving DecidableEq, Repr

/-- Reads the elements that begin at `pos`, each in fewer open tuples than `room` has place for, if
that is limited. `items` holds the elements of the innermost open tuple, last first, and `outer`
those of the tuples around it. -/
def unpackFrom (room : Option Nat) (pos : Nat) (outer : List (List Element))
    (items : List Element) : Bytes → Except UnpackError (List Element)
  | [] =>
    match outer with
    | [] => .ok items.reverse
    | _ :: _ => .error .unterminatedTuple
  | code :: rest =>
    if code = nullCode then
      match outer with
      | [] => unpackFrom room (pos + 1) [] (.null :: items) rest
      | above :: outer' =>
        if rest.head? = some 0xFF then unpackFrom room (pos + 2) outer (.null :: items) rest.tail
        else unpackFrom room (pos + 1) outer' (.nested items.reverse :: above) rest
    else if room.any (· ≤ outer.length) then .error .tooDeep
    else if code = bytesCode ∨ code = textCode then
      match findTerminator rest 0 with
      | .error restart => .error (.unterminatedRun (pos + 1 + restart))
      | .ok n =>
        let raw := unescape (rest.take n)
        let next := pos + 1 + n + 1
        if code = bytesCode then
          unpackFrom room next outer (.bytes raw :: items) (rest.drop (n + 1))
        else
          match raw.toText? with
          | none => .error (.invalidText pos)
          | some s => unpackFrom room next outer (.text s :: items) (rest.drop (n + 1))
    else if code = nestedCode then unpackFrom room (pos + 1) (items :: outer) [] rest
    else .error (.unknownCode code pos)
termination_by data => data.length
decreasing_by
  all_goals simp only [List.length_cons, List.length_drop, List.length_tail]
  all_goals omega

def unpack (data : Bytes) : Except UnpackError (List Element) := unpackFrom none 0 [] [] data

/-- The elements of a packed tuple, each in fewer tuples than `room`. -/
def unpackWithin (room : Nat) (data : Bytes) : Except UnpackError (List Element) :=
  unpackFrom (some room) 0 [] [] data

end RecordStore.Tuple
