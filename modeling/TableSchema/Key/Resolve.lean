import TableSchema.Diagnostics
import TableSchema.Key.Basic
import TableSchema.Key.Declaration
import TableSchema.Text.Strip

/-!
# Resolving keys

A key is resolved to the names of its columns. A computed part has no name; it is left out and
noted. So is a check of a table.
-/

namespace TableSchema

/-- The name of the column that a key part refers to. -/
def KeyPart.columnName? (part : KeyPart) : Resolve (Option String) :=
  match part.target with
  | .column name => return some (Text.cleanIdentifier name)
  | .literal text => return some (Text.cleanIdentifier text)
  | .expression text => do
    note (.keyExpression text)
    return none

/-- The names of the columns that key parts refer to, in order. -/
def KeyPart.columnNames (parts : List KeyPart) : Resolve (List String) :=
  parts.filterMapM KeyPart.columnName?

/-- The key that a declared constraint gives, if it gives one. -/
def ConstraintDecl.resolve : ConstraintDecl → Resolve (Option KeyColumns)
  | primaryKey _ _ _ parts => return some { primary := ← KeyPart.columnNames parts }
  | uniqueKey _ _ _ parts => return some { unique := ← KeyPart.columnNames parts }
  | foreignKey _ _ parts _ => return some { foreign := ← KeyPart.columnNames parts }
  | check _ expression => do
    note (.tableCheck expression)
    return none

end TableSchema
