/-!
# Positions

A position in a text is a line and a column, both counted from 1. A newline ends its line; every
other character, a carriage return too, takes one column.
-/

namespace TableSchema

/-- A line and a column of a text. -/
structure Position where
  /-- The line, from 1. -/
  line : Nat
  /-- The column in its line, from 1. -/
  column : Nat
deriving DecidableEq, Repr

namespace Position

/-- Where a text begins. -/
def start : Position := ⟨1, 1⟩

/-- The position after one more character. -/
def next (p : Position) (c : Char) : Position :=
  if c = '\n' then ⟨p.line + 1, 1⟩ else ⟨p.line, p.column + 1⟩

/-- The position after a run of characters. -/
def after (p : Position) (cs : List Char) : Position :=
  cs.foldl next p

end Position

end TableSchema
