import TableSchema.Column.Declaration

/-!
# Declared tables

A table as it is declared: column by column, like another table, or from a query. Options and
partitions of a table are not kept.
-/

namespace TableSchema

/-- The name of a declared column: its first word, and the words after points. -/
structure ColumnName where
  /-- The first word. -/
  head : String
  /-- The words after points, at most two. -/
  dotted : List String
deriving DecidableEq, Repr

/-- An entry of the list that declares a table. -/
inductive TableItem
  | column (name : ColumnName) (decl : ColumnDecl)
  | constraint (decl : ConstraintDecl)
  | index (decl : IndexDecl)
deriving DecidableEq, Repr

/-- A declared table. -/
inductive TableDecl
  /-- A table declared like another one. -/
  | like (table model : String)
  /-- A table declared from a query, perhaps with a list of its own. -/
  | query (table : String) (items : Option (List TableItem)) (query : String)
  /-- A table declared by a list. -/
  | columns (table : String) (items : List TableItem)
deriving DecidableEq, Repr

end TableSchema
