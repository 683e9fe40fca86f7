import RecordStore.Bytes
import RecordStore.Text.Printable

/-! # Quoted text and bytes

A quoted form stands between single quotes, or between double quotes when the content has a
single quote and no double one. A quote that could end it and the backslash are escaped, line ends
and tabs have short escapes, and whatever is unprintable is written by its number.
-/

namespace RecordStore.Text

/-- The lower-case hexadecimal numeral of at least the given width. -/
def hexNumeral (width n : Nat) : List Char :=
  let digits := Nat.toDigits 16 n
  List.replicate (width - digits.length) '0' ++ digits

/-- The shortest numbered escape that fits. -/
def numberedEscape (n : Nat) : List Char :=
  if n < 0x100 then '\\' :: 'x' :: hexNumeral 2 n
  else if n < 0x10000 then '\\' :: 'u' :: hexNumeral 4 n
  else '\\' :: 'U' :: hexNumeral 8 n

def escapeChar (shown : Char → Bool) (escaped c : Char) : List Char :=
  if c = escaped ∨ c = '\\' then ['\\', c]
  else if c = '\n' then ['\\', 'n']
  else if c = '\r' then ['\\', 'r']
  else if c = '\t' then ['\\', 't']
  else if shown c then [c]
  else numberedEscape c.toNat

/-- The quote that needs the fewest escapes, single when in doubt. -/
def quoteFor (cs : List Char) : Char :=
  if cs.contains '\'' && !cs.contains '"' then '"' else '\''

/-- Quote characters, showing those that pass the test as themselves. -/
def quoteChars (shown : Char → Bool) (escaped : Char) (cs : List Char) : String :=
  let quote := quoteFor cs
  String.ofList (quote :: cs.flatMap (escapeChar shown escaped) ++ [quote])

def quoted (s : String) : String := quoteChars isPrintable (quoteFor s.toList) s.toList

/-- A text with each surrogate written by its number, and each other character as the function has
it. -/
def writeCodes (write : Char → List Char) (codes : List CodePoint) : List Char :=
  codes.flatMap fun c => if isSurrogate c then numberedEscape c.val else write (Char.ofNat c.val)

/-- A text with its surrogates written by their numbers. -/
def escaped (t : BrokenText) : String := String.ofList (writeCodes (fun c => [c]) t.codes)

/-- The quoted form of a text with a surrogate in it. -/
def quotedBroken (t : BrokenText) : String :=
  let quote := quoteFor (writeCodes (fun c => [c]) t.codes)
  String.ofList (quote :: writeCodes (escapeChar isPrintable quote) t.codes ++ [quote])

def charsOf (b : Bytes) : List Char := b.map fun byte => Char.ofNat byte.toNat

def isShownByte (c : Char) : Bool := 0x20 ≤ c.toNat && c.toNat ≤ 0x7E

/-- The quoted form of a byte string; only printable ASCII is shown as itself. -/
def quotedBytes (b : Bytes) : String :=
  "b" ++ quoteChars isShownByte (quoteFor (charsOf b)) (charsOf b)

/-- The quoted form of a buffer. A single quote is escaped in it even between double ones. -/
def quotedBuffer (b : Bytes) : String :=
  "bytearray(b" ++ quoteChars isShownByte '\'' (charsOf b) ++ ")"

end RecordStore.Text
