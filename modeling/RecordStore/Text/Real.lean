/-! # Written reals

A double is written with the fewest digits that read back as it, and of those with the nearest.
The search runs over exact fractions: a double is a whole multiple of a power of two, and the
reals that round to it form an interval around it.
-/

namespace RecordStore.Text

/-- A finite double apart from its sign, `mantissa * 2 ^ exponent`. -/
structure Magnitude where
  mantissa : Nat
  exponent : Int
deriving DecidableEq

namespace Magnitude

def ofFloat? (x : Float) : Option Magnitude :=
  let bits : Nat := x.toBits.toNat
  let fraction := bits % Nat.pow 2 52
  let biased := bits / Nat.pow 2 52 % 2048
  if biased = 2047 then none
  else if biased = 0 then some ⟨fraction, -1074⟩
  else some ⟨Nat.pow 2 52 + fraction, Int.ofNat biased - 1075⟩

/-- How `a * 10 ^ e` compares with `b * 2 ^ q`, decided over whole numbers. -/
def order (a : Nat) (e : Int) (b : Nat) (q : Int) : Ordering :=
  compare (a * Nat.pow 10 e.toNat * Nat.pow 2 (-q).toNat)
    (b * Nat.pow 2 q.toNat * Nat.pow 10 (-e).toNat)

def leading (x : Magnitude) : Int :=
  let whole := x.mantissa * Nat.pow 2 x.exponent.toNat / Nat.pow 2 (-x.exponent).toNat
  if whole = 0 then
    -Int.ofNat (((List.range 400).find? fun (j : Nat) =>
      (order 1 (-Int.ofNat j) x.mantissa x.exponent).isLE).getD 0)
  else Int.ofNat (Nat.toDigits 10 whole).length - 1

/-- A quarter of the last place: how far the interval reaches down. Just above a power of two the
doubles below lie half as far apart. -/
def lowerGap (x : Magnitude) : Nat :=
  if x.mantissa = Nat.pow 2 52 ∧ -1074 < x.exponent then 1 else 2

/-- Whether `a * 10 ^ e` rounds to the magnitude. The borders do when the mantissa is even. -/
def readsBack (x : Magnitude) (a : Nat) (e : Int) : Bool :=
  let low := order a e (4 * x.mantissa - x.lowerGap) (x.exponent - 2)
  let high := order a e (4 * x.mantissa + 2) (x.exponent - 2)
  if x.mantissa % 2 = 0 then low.isGE && high.isLE else low.isGT && high.isLT

/-- The multiple of `10 ^ e` that reads back: of two the nearer, of two equally near the even. -/
def onGrid? (x : Magnitude) (e : Int) : Option Nat :=
  let below := x.mantissa * Nat.pow 2 x.exponent.toNat * Nat.pow 10 (-e).toNat /
    (Nat.pow 2 (-x.exponent).toNat * Nat.pow 10 e.toNat)
  match x.readsBack below e, x.readsBack (below + 1) e with
  | true, true =>
    match order (2 * below + 1) e (2 * x.mantissa) x.exponent with
    | .lt => some (below + 1)
    | .gt => some below
    | .eq => some (below + below % 2)
  | true, false => some below
  | false, true => some (below + 1)
  | false, false => none

/-- The fewest digits that read back and the power of ten of the last one. -/
def shortest (x : Magnitude) : Nat × Int :=
  let lead := x.leading
  ((List.range 17).findSome? fun (n : Nat) =>
    let e := lead - n
    (x.onGrid? e).map fun a => (a, e)).getD (x.mantissa, 0)

/-- Positional from `10 ^ -4` up to `10 ^ 16`, with a mark and an exponent of two digits outside. -/
def written (x : Magnitude) : String :=
  if x.mantissa = 0 then "0.0" else
  let (a, e) := x.shortest
  let digits := (Nat.toDigits 10 a).reverse.dropWhile (· = '0') |>.reverse
  let point : Int := (Nat.toDigits 10 a).length + e
  String.ofList <|
    if -4 < point ∧ point ≤ 16 then
      if point ≤ 0 then '0' :: '.' :: (List.replicate (-point).toNat '0' ++ digits)
      else
        let n := point.toNat
        let whole := digits.take n ++ List.replicate (n - digits.length) '0'
        let rest := digits.drop n
        whole ++ '.' :: (if rest.isEmpty then ['0'] else rest)
    else
      let power := point - 1
      let powerDigits := Nat.toDigits 10 power.natAbs
      digits.take 1 ++ (if digits.length ≤ 1 then [] else '.' :: digits.drop 1) ++
        'e' :: (if power < 0 then '-' else '+') ::
          (List.replicate (2 - powerDigits.length) '0' ++ powerDigits)

end Magnitude

def writtenReal (x : Float) : String :=
  match Magnitude.ofFloat? x with
  | some m => (if x.toBits.toNat < Nat.pow 2 63 then "" else "-") ++ m.written
  | none => if x.toBits.toNat % Nat.pow 2 52 ≠ 0 then "nan" else if 0 < x then "inf" else "-inf"

end RecordStore.Text
