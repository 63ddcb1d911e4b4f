import TableSchema.Column.Resolve
import TableSchema.Key.Resolve
import TableSchema.Table.Basic
import TableSchema.Table.Declaration

/-!
# Resolving tables

A table that is declared by a list gives a table of the schema: its columns and its keys, each in
their order. Indexes are left out and noted. A table that is declared like another one or from a
query gives nothing but a note.
-/

namespace TableSchema

/-- What the list of a table declares. -/
structure TableContents where
  /-- The columns, in order. -/
  columns : List Column := []
  /-- The keys, in order. -/
  constraints : List KeyColumns := []
deriving DecidableEq, Repr

namespace TableContents

/-- What the list declares, one more entry included. -/
def addItem (contents : TableContents) : TableItem → Resolve TableContents
  | .column name decl => do
    let (dataType, constraint) ← decl.resolve
    let column := ⟨Text.cleanIdentifier name.head, some dataType, constraint⟩
    return { contents with columns := contents.columns ++ [column] }
  | .constraint decl => do
    match ← decl.resolve with
    | some keys => return { contents with constraints := contents.constraints ++ [keys] }
    | none => return contents
  | .index decl => do
    note (.index decl.name)
    return contents

/-- What the list of a table declares. -/
def ofItems (items : List TableItem) : Resolve TableContents :=
  items.foldlM addItem {}

end TableContents

/-- The table that a declaration gives, if it gives one. -/
def TableDecl.resolve : TableDecl → Resolve (Option Table)
  | like table model => do
    note (.tableLike table model)
    return none
  | query table _ _ => do
    note (.tableFromQuery table)
    return none
  | columns table items => do
    let contents ← TableContents.ofItems items
    return some ⟨Text.cleanIdentifier table, contents.columns, contents.constraints⟩

end TableSchema
