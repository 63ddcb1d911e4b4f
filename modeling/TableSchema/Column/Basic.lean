import TableSchema.DataType.Basic

/-!
# Columns

A column of the schema: its name, its data type and what its clauses say.
-/

namespace TableSchema

/-- The mark of a key that a column carries. -/
inductive KeyKind
  | none
  /-- The column is declared `KEY`. -/
  | key
  /-- The column is declared `PRIMARY KEY`. -/
  | primary
deriving DecidableEq, Repr

/-- A default value. -/
structure DefaultValue where
  /-- The text of the value, empty when it is `NULL`. -/
  value : String := ""
  /-- The value is something else than `NULL`. -/
  isValue : Bool := false
deriving DecidableEq, Repr

/-- What the clauses of a column say. -/
structure ColumnConstraint where
  /-- The column is declared `NOT NULL`. -/
  notNull : Bool := false
  /-- The default value, if one is declared. -/
  defaultValue : Option DefaultValue := none
  /-- The column numbers its rows. -/
  autoIncrement : Bool := false
  /-- The column is declared `PRIMARY KEY`. -/
  primary : Bool := false
  /-- The column is declared `KEY`. -/
  key : Bool := false
  /-- The values of the column differ. -/
  unique : Bool := false
  /-- The comment on the column. -/
  comment : String := ""
deriving DecidableEq, Repr

namespace ColumnConstraint

/-- Mark the column with a kind of key. -/
def setKeyKind (c : ColumnConstraint) : KeyKind → ColumnConstraint
  | .none => c
  | .key => { c with key := true }
  | .primary => { c with primary := true }

/-- The strongest mark of a key on the column. -/
def keyKind (c : ColumnConstraint) : KeyKind :=
  if c.primary then .primary else if c.key then .key else .none

end ColumnConstraint

/-- A column of the schema. -/
structure Column where
  /-- The name. -/
  name : String
  /-- The data type, unless it has no name. -/
  dataType : Option DataType
  /-- What the clauses say. -/
  constraint : ColumnConstraint
deriving DecidableEq, Repr

end TableSchema
