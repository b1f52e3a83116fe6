/-!
# Decimal text of numbers

`readDecimal` gives the binary32 number nearest to a decimal text. `decimalText` writes a number
with the fewest digits that read back, always positionally.
-/

namespace Flipbook.Number

/-! ### Reading -/

/-- The number that a row of ASCII digits denotes. -/
def digitsValue (digits : List Char) : Nat :=
  digits.foldl (fun n c => 10 * n + (c.toNat - '0'.toNat)) 0

/-- Whether a number is negative, and its text without the sign. -/
def cutSign : List Char → Bool × List Char
  | '-' :: cs => (true, cs)
  | '+' :: cs => (false, cs)
  | cs => (false, cs)

/-- The power of ten that stands behind the digits of a number, as in `e-12`. Nothing there is the
power 0. -/
def readExponent : List Char → Option Int
  | [] => some 0
  | mark :: cs =>
    let (negative, digits) := cutSign cs
    if mark.toLower ≠ 'e' || digits.isEmpty || !digits.all Char.isDigit then none
    else if negative then some (-digitsValue digits)
    else some (digitsValue digits)

/-- The nearest number to `digits * 10 ^ exponent`. -/
def nearestDecimal (digits : Nat) (exponent : Int) : Float32 :=
  .ofScientific digits (exponent < 0) exponent.natAbs

/-- The digits behind the point of a number, and the text behind them. -/
def cutFraction : List Char → List Char × List Char
  | '.' :: cs => (cs.takeWhile Char.isDigit, cs.dropWhile Char.isDigit)
  | cs => ([], cs)

/-- The nearest number to an unsigned text of ASCII digits, with at least one digit and at most
one point, and maybe an exponent. -/
def readDigits (cs : List Char) : Option Float32 :=
  let whole := cs.takeWhile Char.isDigit
  let (fraction, rest) := cutFraction (cs.dropWhile Char.isDigit)
  if (whole ++ fraction).isEmpty then none
  else
    (readExponent rest).map fun exponent =>
      nearestDecimal (digitsValue (whole ++ fraction)) (exponent - fraction.length)

/-- The number that an unsigned text denotes. The special numbers have names, in capitals or not. -/
def readMagnitude (cs : List Char) : Option Float32 :=
  let word := cs.map Char.toLower
  if word = "inf".toList ∨ word = "infinity".toList then some (1 / 0)
  else if word = "nan".toList then some (0 / 0)
  else readDigits cs

/-- The number that a text `-12.5e3` denotes: sign, digits with a point, which may stand first or
last, and exponent. All but a digit can be left out. -/
def readDecimal (text : String) : Option Float32 :=
  let (negative, cs) := cutSign text.toList
  (readMagnitude cs).map fun x => if negative then -x else x

/-! ### Writing -/

/-- A positive number `4 * m * 2 ^ (q - 2)` between the two ends of the interval of reals that
round to it, in quarters of its last place. -/
structure Rounding where
  low : Nat
  value : Nat
  high : Nat
  /-- The exponent of the quarter. -/
  exponent : Int
  /-- Whether the ends round to the number too. -/
  closed : Bool

/-- The interval around `m * 2 ^ q`. Below a power of two the numbers lie closer. -/
def Rounding.of (m : Nat) (q : Int) : Rounding where
  low := if m = 0x800000 ∧ -149 < q then 4 * m - 1 else 4 * m - 2
  value := 4 * m
  high := 4 * m + 2
  exponent := q - 2
  closed := m % 2 = 0

/-- `a * base ^ e` for a possibly negative `e`, as numerator and denominator. -/
def scaled (a base : Nat) (e : Int) : Nat × Nat :=
  (a * base.pow e.toNat, base.pow (-e).toNat)

/-- The multiple of `10 ^ k` that is nearest to the number among those that round to it. Of two at
the same distance the greater is taken. -/
def Rounding.onGrid (r : Rounding) (k : Int) : Option Nat :=
  -- All four numbers are brought to one denominator.
  let (tens, tensDen) := scaled 1 10 k
  let place (quarters : Nat) : Nat := (scaled quarters 2 r.exponent).1 * tensDen
  let step := tens * (scaled 1 2 r.exponent).2
  let below := place r.value / step
  let inside (n : Nat) : Bool :=
    if r.closed then place r.low ≤ n * step && n * step ≤ place r.high
    else place r.low < n * step && n * step < place r.high
  let nearerBelow := 2 * place r.value < (2 * below + 1) * step
  if inside below && (nearerBelow || !inside (below + 1)) then some below
  else if inside (below + 1) then some (below + 1)
  else none

/-- The grids `10 ^ 38` to `10 ^ (-54)`, coarsest first. The last hits every binary32 number. -/
def grids : List Int :=
  (List.range 93).map fun (i : Nat) => 38 - (i : Int)

/-- The shortest decimal `(d, k)`, meaning `d * 10 ^ k`, that reads back as `m * 2 ^ q`. -/
def shortest (m : Nat) (q : Int) : Nat × Int :=
  (grids.findSome? fun k => ((Rounding.of m q).onGrid k).map (·, k)).getD (0, 0)

/-- `d * 10 ^ k` written out, without an exponent. -/
def positional (d : Nat) (k : Int) : String :=
  let digits := Nat.toDigits 10 d
  if 0 ≤ k then .ofList (digits ++ List.replicate k.toNat '0')
  else
    let places := (-k).toNat
    let padded := List.replicate (places + 1 - digits.length) '0' ++ digits
    let whole := padded.length - places
    .ofList (padded.take whole ++ '.' :: padded.drop whole)

def decimalText (x : Float32) : String :=
  match x.toModel.unpack with
  | .notANumber => "NaN"
  | .infinity .positive => "inf"
  | .infinity .negative => "-inf"
  | .zero .positive => "0"
  | .zero .negative => "-0"
  | .finite sign m q _ =>
    let text := positional (shortest m q).1 (shortest m q).2
    match sign with
    | .positive => text
    | .negative => "-" ++ text

end Flipbook.Number
