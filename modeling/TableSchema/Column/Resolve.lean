import TableSchema.Column.Basic
import TableSchema.Column.Declaration
import TableSchema.DataType.Resolve

/-!
# Resolving columns

The clauses of a column are folded into one record, from the first to the last. Clauses that the
schema does not represent are noted in the same order, after what is noted about the data type.
-/

namespace TableSchema

/-- The default value that an expression gives: the text without the quotes at its ends and without
control characters. A text that begins with `NULL` in any case counts as `NULL`. -/
def DefaultValue.ofText (text : String) : DefaultValue :=
  let value := Text.cleanIdentifier text
  if "NULL".toList.isPrefixOf (Unicode.upper value).toList then {}
  else { value := value, isValue := true }

/-- The comment that a literal gives: the text without the quotes at its ends and without line
breaks. -/
def commentOfLiteral (literal : String) : String :=
  Text.replaceAll (Text.stripQuotes literal) Text.lineBreakRemovals

namespace ColumnConstraint

/-- Note a clause that is not represented. -/
def leaveOut (c : ColumnConstraint) (clause : UnsupportedClause) : Resolve ColumnConstraint := do
  note (.columnClause clause)
  return c

/-- What the clauses say, one more clause included. -/
def addClause (c : ColumnConstraint) : ColumnClause → Resolve ColumnConstraint
  | .nullability notNull => return { c with notNull := notNull }
  | .default text => return { c with defaultValue := some (.ofText text) }
  | .autoIncrement => return { c with autoIncrement := true }
  | .key primary => return c.setKeyKind (if primary then .primary else .key)
  | .unique _ => return { c with unique := true }
  | .comment literal => return { c with comment := commentOfLiteral literal }
  | .onUpdate text => c.leaveOut (.onUpdate text)
  | .reference r => c.leaveOut (.references r.table)
  | .storage _ => c.leaveOut .storage
  | .visible => c.leaveOut .visible
  | .invisible => c.leaveOut .invisible
  | .serialDefault => c.leaveOut .serialDefault
  | .generated _ => c.leaveOut .generated
  | .columnFormat _ => c.leaveOut .columnFormat
  | .collation _ => c.leaveOut .collation
  | .check _ _ => c.leaveOut .check

/-- What the clauses of a column say. -/
def ofClauses (clauses : List ColumnClause) : Resolve ColumnConstraint :=
  clauses.foldlM addClause {}

end ColumnConstraint

/-- The data type of a declared column, and what its clauses say. -/
def ColumnDecl.resolve (decl : ColumnDecl) : Resolve (DataType × ColumnConstraint) := do
  let dataType ← decl.type.resolve
  let constraint ← ColumnConstraint.ofClauses decl.clauses
  return (dataType, constraint)

end TableSchema
