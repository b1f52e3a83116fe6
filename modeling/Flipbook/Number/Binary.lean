/-!
# Binary floating-point numbers

Conversions of binary32 and binary64 numbers, defined on their logical model: dropping the
fraction, the integer of a machine word, and passing from one format to the other.
-/

namespace Flipbook.Number

open Float.Model (Format UnpackedFloat)

/-- The integral part of `mantissa * 2 ^ exponent`. -/
def wholePart (mantissa : Nat) (exponent : Int) : Nat :=
  (mantissa <<< exponent.toNat) >>> (-exponent).toNat

def wordMin : Int := -0x8000000000000000

def wordMax : Int := 0x7FFFFFFFFFFFFFFF

/-- The 64-bit word that is left of a whole number. Only what does not fit is changed. -/
def wrap (n : Int) : Int :=
  n.bmod 0x10000000000000000

/-- Truncation to a 64-bit word. What does not fit becomes the nearest end, and NaN becomes 0. -/
def word : UnpackedFloat → Int
  | .notANumber => 0
  | .infinity .positive => wordMax
  | .infinity .negative => wordMin
  | .zero _ => 0
  | .finite sign mantissa exponent _ =>
    max wordMin (min wordMax (sign.apply (wholePart mantissa exponent)))

/-- The number without its fraction. The sign stays, also that of a zero. -/
def truncated (format : Format) : UnpackedFloat → UnpackedFloat
  | .finite sign mantissa exponent _ =>
    if wholePart mantissa exponent = 0 then .zero sign
    else .round format sign (wholePart mantissa exponent) 0
  | special => special

/-- The nearest number of a format, ties to even. -/
def refit (format : Format) : UnpackedFloat → UnpackedFloat
  | .finite sign mantissa exponent _ => .round format sign mantissa exponent
  | special => special

/-- A binary32 number as a binary64 number. No value is lost. -/
def widen (x : Float32) : Float :=
  .ofModel (.pack (refit .binary64 x.toModel.unpack))

/-- The binary32 number nearest to a binary64 number. -/
def narrow (x : Float) : Float32 :=
  .ofModel (.pack (refit .binary32 x.toModel.unpack))

end Flipbook.Number
