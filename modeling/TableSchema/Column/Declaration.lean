import TableSchema.DataType.Declaration
import TableSchema.Key.Declaration

/-!
# Declared columns

A column as it is declared: its data type and the clauses after it, in the order in which they are
written. The texts of expressions are those of their tokens, without white space.
-/

namespace TableSchema

/-- A clause of a column. -/
inductive ColumnClause
  /-- `NOT NULL` or `NULL`. -/
  | nullability (notNull : Bool)
  /-- `DEFAULT` with its expression. -/
  | default (text : String)
  /-- `AUTO_INCREMENT` -/
  | autoIncrement
  /-- `ON UPDATE` with its function. -/
  | onUpdate (text : String)
  /-- `PRIMARY KEY` or `KEY`. -/
  | key (primary : Bool)
  /-- `UNIQUE KEY` or `UNIQUE`. -/
  | unique (key : Bool)
  /-- `COMMENT` with its literal. -/
  | comment (literal : String)
  /-- `COLUMN_FORMAT` with its value. -/
  | columnFormat (value : String)
  /-- `STORAGE` with its value. -/
  | storage (value : String)
  /-- `REFERENCES` with what is referred to. -/
  | reference (reference : Reference)
  /-- `COLLATE` with its name. -/
  | collation (name : String)
  /-- A computed column with its whole clause. -/
  | generated (text : String)
  /-- `SERIAL DEFAULT VALUE` -/
  | serialDefault
  /-- `VISIBLE` -/
  | visible
  /-- `INVISIBLE` -/
  | invisible
  /-- `CHECK` with its expression. -/
  | check (name : Option String) (expression : String)
deriving DecidableEq, Repr

/-- The declaration of a column, without its name. -/
structure ColumnDecl where
  /-- The data type. -/
  type : TypeDecl
  /-- The clauses, in order. -/
  clauses : List ColumnClause
deriving DecidableEq, Repr

end TableSchema
