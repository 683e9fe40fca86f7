/-! # Written integers

An optional sign, then decimal digits of any script with single underscores between them, at
most 4300 digits in all, and white space around the whole.
-/

/-! ## White space

The characters that surround a value without belonging to it: the line and space separators,
the tabulators and line ends, the four information separators, and the next-line control.
-/

namespace RecordStore.Text

def isBlank (c : Char) : Bool :=
  let n := c.toNat
  (0x09 ≤ n && n ≤ 0x0D) || (0x1C ≤ n && n ≤ 0x20) || n == 0x85 || n == 0xA0 || n == 0x1680 ||
    (0x2000 ≤ n && n ≤ 0x200A) || n == 0x2028 || n == 0x2029 || n == 0x202F || n == 0x205F ||
    n == 0x3000

def trim (cs : List Char) : List Char :=
  ((cs.dropWhile isBlank).reverse.dropWhile isBlank).reverse

/-! ## Decimal digits

Every script's decimal digits (general category Nd) come in runs of ten, from zero to nine.
A run is listed by the code point of its zero.
-/

def digitZeros : List Nat :=
  [0x30, 0x660, 0x6F0, 0x7C0, 0x966, 0x9E6, 0xA66, 0xAE6, 0xB66, 0xBE6, 0xC66, 0xCE6, 0xD66,
   0xDE6, 0xE50, 0xED0, 0xF20, 0x1040, 0x1090, 0x17E0, 0x1810, 0x1946, 0x19D0, 0x1A80, 0x1A90,
   0x1B50, 0x1BB0, 0x1C40, 0x1C50, 0xA620, 0xA8D0, 0xA900, 0xA9D0, 0xA9F0, 0xAA50, 0xABF0, 0xFF10,
   0x104A0, 0x10D30, 0x11066, 0x110F0, 0x11136, 0x111D0, 0x112F0, 0x11450, 0x114D0, 0x11650,
   0x116C0, 0x11730, 0x118E0, 0x11950, 0x11C50, 0x11D50, 0x11DA0, 0x16A60, 0x16AC0, 0x16B50,
   0x1D7CE, 0x1D7D8, 0x1D7E2, 0x1D7EC, 0x1D7F6, 0x1E140, 0x1E2F0, 0x1E950, 0x1FBF0]

/-- The value of a decimal digit of any script. -/
def digitValue? (c : Char) : Option Nat :=
  (digitZeros.find? fun z => z ≤ c.toNat && c.toNat < z + 10).map (c.toNat - ·)

/-! ## Numerals -/

/-- The most digits a written integer may have. -/
def maxDigits : Nat := 4300

/-- The digits of a numeral; an underscore may stand between two of them. -/
def readDigits : List Char → Option (List Nat)
  | [] => none
  | c :: rest => do
    let d ← digitValue? c
    match rest with
    | [] => some [d]
    | '_' :: more => (d :: ·) <$> readDigits more
    | more => (d :: ·) <$> readDigits more

/-- The number written by decimal digits, most significant first. -/
def ofDigits (ds : List Nat) : Nat := ds.foldl (fun n d => 10 * n + d) 0

def readNatural (cs : List Char) : Option Nat := do
  let ds ← readDigits cs
  if ds.length ≤ maxDigits then some (ofDigits ds) else none

def readSigned : List Char → Option Int
  | '+' :: cs => Int.ofNat <$> readNatural cs
  | '-' :: cs => (fun n => -Int.ofNat n) <$> readNatural cs
  | cs => Int.ofNat <$> readNatural cs

/-- The integer that a text writes, white space around it set aside. -/
def readInteger (s : String) : Option Int := readSigned (trim s.toList)

end RecordStore.Text
