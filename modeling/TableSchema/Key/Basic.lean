/-!
# Keys

A constraint of the schema: the names of the columns of a key, in order. At most one of the three
lists is not empty in what a declaration gives.
-/

namespace TableSchema

/-- The columns of a key of a table. -/
structure KeyColumns where
  /-- The columns of a primary key. -/
  primary : List String := []
  /-- The columns of a unique key. -/
  unique : List String := []
  /-- The columns of a foreign key. -/
  foreign : List String := []
deriving DecidableEq, Repr

end TableSchema
