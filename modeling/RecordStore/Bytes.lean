/-! # Texts and bytes

Keys and values are byte strings, compared byte by byte with a proper prefix first.
Text passes in and out of them as UTF-8, and only well-formed UTF-8 comes back as text.

A text is a `String` throughout and has a UTF-8 form. Callers may also hand in texts with a
surrogate in them, which have none: as field values, as the text of a key that is packed by itself,
and as the id at which a scan starts. In the other places (names of tables, databases, fields and
slots, and the keys of operations) such texts are left out.
-/

namespace RecordStore

abbrev Bytes := List UInt8

abbrev CodePoint := Fin 0x110000

/-- Half of a pair that writes a character beyond `FFFF` in UTF-16, and no character by itself. -/
def isSurrogate (code : CodePoint) : Bool := 0xD800 ≤ code.val && code.val ≤ 0xDFFF

def codePoint (c : Char) : CodePoint :=
  ⟨c.toNat, by
    have h := c.valid
    simp only [UInt32.isValidChar, Nat.isValidChar] at h
    simp only [Char.toNat]
    omega⟩

/-- A text with a surrogate in it. It has no UTF-8 form. -/
structure BrokenText where
  codes : List CodePoint
  broken : codes.any isSurrogate
deriving DecidableEq, Repr

namespace BrokenText

/-- The text with another before it. -/
def after (s : String) (t : BrokenText) : BrokenText :=
  ⟨s.toList.map codePoint ++ t.codes, by rw [List.any_append, t.broken, Bool.or_true]⟩

def first (t : BrokenText) : Nat := t.codes.findIdx isSurrogate

/-- The first surrogate and those that follow it at once. -/
def run (t : BrokenText) : List CodePoint := (t.codes.drop t.first).takeWhile isSurrogate

end BrokenText

/-- A text as callers hand it in. -/
inductive Text where
  | unicode (s : String)
  | broken (t : BrokenText)
deriving DecidableEq, Repr

instance : Coe String Text := ⟨.unicode⟩

namespace Bytes

def ofText (s : String) : Bytes := s.toByteArray.data.toList

/-- The text with this UTF-8 form; overlong, surrogate and truncated sequences have none. -/
def toText? (b : Bytes) : Option String := String.fromUTF8? ⟨b.toArray⟩

@[simp] theorem toText?_ofText (s : String) : toText? (ofText s) = some s := by
  simp only [toText?, ofText, String.fromUTF8?]
  exact dif_pos s.isValidUTF8

theorem toText?_eq_some_iff {b : Bytes} {s : String} : b.toText? = some s ↔ b = ofText s := by
  constructor
  · intro h
    simp only [toText?, String.fromUTF8?] at h
    split at h
    · simp only [Option.some.injEq] at h
      subst h
      rfl
    · simp at h
  · rintro rfl
    exact toText?_ofText s

end Bytes
end RecordStore
