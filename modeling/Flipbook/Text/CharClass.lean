/-!
# Character classes

The characters that separate lexemes, the decimal digits of all scripts, and the ASCII classes
that names and paths are made of.
-/

namespace Flipbook.Text

/-- The characters of the Unicode property `White_Space`. -/
def isBlank (c : Char) : Bool :=
  let n := c.toNat
  (0x09 ≤ n && n ≤ 0x0D) || n == 0x20 || n == 0x85 || n == 0xA0 || n == 0x1680 ||
    (0x2000 ≤ n && n ≤ 0x200A) || n == 0x2028 || n == 0x2029 || n == 0x202F || n == 0x205F ||
    n == 0x3000

/-- The digit zero of each run of decimal digits (Unicode general category `Nd`) and the length
of the run. -/
def digitRuns : List (Nat × Nat) :=
  [0x0030, 0x0660, 0x06F0, 0x07C0, 0x0966, 0x09E6, 0x0A66, 0x0AE6, 0x0B66, 0x0BE6, 0x0C66, 0x0CE6,
    0x0D66, 0x0DE6, 0x0E50, 0x0ED0, 0x0F20, 0x1040, 0x1090, 0x17E0, 0x1810, 0x1946, 0x19D0, 0x1A80,
    0x1A90, 0x1B50, 0x1BB0, 0x1C40, 0x1C50, 0xA620, 0xA8D0, 0xA900, 0xA9D0, 0xA9F0, 0xAA50, 0xABF0,
    0xFF10, 0x104A0, 0x10D30, 0x10D40, 0x11066, 0x110F0, 0x11136, 0x111D0, 0x112F0, 0x11450,
    0x114D0, 0x11650, 0x116C0, 0x116D0, 0x116DA, 0x11730, 0x118E0, 0x11950, 0x11BF0, 0x11C50,
    0x11D50, 0x11DA0, 0x11F50, 0x16130, 0x16A60, 0x16AC0, 0x16B50, 0x16D70, 0x1CCF0, 0x1E140,
    0x1E2F0, 0x1E4F0, 0x1E5F1, 0x1E950, 0x1FBF0].map (·, 10) ++ [(0x1D7CE, 50)]

/-- The decimal digits of all scripts. -/
def isDigit (c : Char) : Bool :=
  digitRuns.any fun (first, length) => first ≤ c.toNat && c.toNat < first + length

/-- ASCII letters and digits. -/
def isAlphanumeric (c : Char) : Bool :=
  c.isAlphanum

/-- The characters of the names of files and directories: letters, digits, `_` and `-`. -/
def isFileChar (c : Char) : Bool :=
  c.isAlphanum || c == '_' || c == '-'

/-- The first character of a name: a letter or `_`. -/
def isNameStart (c : Char) : Bool :=
  c.isAlpha || c == '_'

/-- The other characters of a name: letters, digits and `_`. -/
def isNameChar (c : Char) : Bool :=
  c.isAlphanum || c == '_'

end Flipbook.Text
