import TableSchema.Unicode.Ranges

/-!
# White space

The property `White_Space`: the characters that may surround the digits of a length clause.
-/

namespace TableSchema.Unicode

/-- The code points with the property `White_Space`. -/
def blankRanges : Ranges := [
  (0x9, 0xD), (0x20, 0x20), (0x85, 0x85), (0xA0, 0xA0), (0x1680, 0x1680), (0x2000, 0x200A),
  (0x2028, 0x2029), (0x202F, 0x202F), (0x205F, 0x205F), (0x3000, 0x3000)]

/-- `c` is white space. -/
def isBlank (c : Char) : Bool :=
  blankRanges.contains c.toNat

end TableSchema.Unicode
