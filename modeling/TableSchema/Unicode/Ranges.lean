/-!
# Sets of code points

The character properties of this library are those of the Unicode Character Database, version
17.0. Each is stored as a list of closed intervals of code points in increasing order.
-/

namespace TableSchema.Unicode

/-- A set of code points, as closed intervals in increasing order. -/
abbrev Ranges := List (Nat × Nat)

/-- The code point `n` lies in one of the intervals. -/
def Ranges.contains (ranges : Ranges) (n : Nat) : Bool :=
  ranges.any fun range => range.1 ≤ n && n ≤ range.2

end TableSchema.Unicode
