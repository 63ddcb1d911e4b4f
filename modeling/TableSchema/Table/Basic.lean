import TableSchema.Column.Basic
import TableSchema.Key.Basic
import TableSchema.Text.Replace

/-!
# Tables

A table of the schema: its columns and its keys in the order in which they are declared. While a
declaration is resolved the name may still carry the name of its database; `Table.exported` takes
that away.

`Table.render` shows a table line by line: one line for the table, one for each column, and one for
each list of key columns that is not empty.
-/

namespace TableSchema

/-- A table of the schema. -/
structure Table where
  /-- The name. -/
  name : String
  /-- The columns, in order. -/
  columns : List Column
  /-- The keys, in order. -/
  constraints : List KeyColumns
deriving DecidableEq, Repr

/-- What stands between the name of a database and that of a table once the quotes at the ends are
gone. -/
def qualifierMark : String :=
  "\x60.\x60"

/-- The name of a table without the name of its database. Only names in backticks are divided. -/
def unqualifiedName (name : String) : String :=
  Text.afterLast qualifierMark name

/-- The column without a data type that has no name. -/
def Column.exported (c : Column) : Column :=
  { c with dataType := c.dataType.filter (·.name ≠ "") }

/-- The table as it is exported: its name is not qualified, and no data type is nameless. -/
def Table.exported (t : Table) : Table :=
  { t with name := unqualifiedName t.name, columns := t.columns.map Column.exported }

/-- The line that shows a column. -/
def Column.render (c : Column) : String :=
  "col " ++ c.name ++ "\t\t" ++ (c.dataType.map DataType.source).getD "" ++ "\t\t" ++
    (if c.constraint.comment = "" then "" else "comment " ++ c.constraint.comment) ++ "\n"

/-- The line that shows the columns of a key; nothing if there are none. -/
def renderKey (title : String) (names : List String) : String :=
  if names = [] then "" else title ++ ": " ++ ", ".intercalate names ++ "\n"

/-- The lines that show the columns of keys. -/
def KeyColumns.render (k : KeyColumns) : String :=
  renderKey "primary key" k.primary ++ renderKey "unique key" k.unique ++
    renderKey "foreign key" k.foreign

/-- The lines that show a table. -/
def Table.render (t : Table) : String :=
  "table name: " ++ t.name ++ "\n" ++ String.join (t.columns.map Column.render) ++
    String.join (t.constraints.map KeyColumns.render)

end TableSchema
