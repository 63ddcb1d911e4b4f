/-!
# Declared keys

Keys, references and indexes as they are declared. Names keep their quotes and expressions their
parentheses.
-/

namespace TableSchema

/-- The order in which a key part is sorted. -/
inductive SortOrder
  | ascending
  | descending
deriving DecidableEq, Repr

/-- What a key part refers to. -/
inductive KeyTarget
  /-- A column. -/
  | column (name : String)
  /-- A column whose name is written as a string. -/
  | literal (text : String)
  /-- A computed value. -/
  | expression (text : String)
deriving DecidableEq, Repr

/-- One part of a key. -/
structure KeyPart where
  /-- What the part refers to. -/
  target : KeyTarget
  /-- How many characters of the column belong to the key. -/
  length : Option String
  /-- The order in which the part is sorted. -/
  order : Option SortOrder
deriving DecidableEq, Repr

/-- A reference to the rows of a table. -/
structure Reference where
  /-- The table. -/
  table : String
  /-- The columns referred to. -/
  parts : Option (List KeyPart)
  /-- The way of matching. -/
  matching : Option String
  /-- What happens when the row referred to is deleted. -/
  onDelete : Option String
  /-- What happens when the row referred to is updated. -/
  onUpdate : Option String
deriving DecidableEq, Repr

/-- A declared constraint of a table. -/
inductive ConstraintDecl
  /-- `PRIMARY KEY` with its index and the type of the index. -/
  | primaryKey (name index indexType : Option String) (parts : List KeyPart)
  /-- `UNIQUE`, perhaps followed by `INDEX` or `KEY`, with its index. -/
  | uniqueKey (name indexWord index : Option String) (parts : List KeyPart)
  /-- `FOREIGN KEY` with its index and the columns it refers to. -/
  | foreignKey (name index : Option String) (parts : List KeyPart) (reference : Reference)
  /-- `CHECK` with its expression. -/
  | check (name : Option String) (expression : String)
deriving DecidableEq, Repr

/-- A declared index. -/
inductive IndexDecl
  /-- An index that is declared by `INDEX` or `KEY`. -/
  | plain (word : String) (name : Option String) (parts : List KeyPart)
  /-- An index of the kind `FULLTEXT` or `SPATIAL`. -/
  | special (kind : String) (name : Option String) (parts : List KeyPart)
deriving DecidableEq, Repr

/-- The name of the index, if it has one. -/
def IndexDecl.name : IndexDecl → Option String
  | plain _ name _ => name
  | special _ name _ => name

end TableSchema
