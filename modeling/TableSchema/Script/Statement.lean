import TableSchema.Script.Category
import TableSchema.Table.Declaration

/-!
# Statements

A script is a list of statements. Only declarations of tables are read in full; of any other
statement the opening word and the text are kept.
-/

namespace TableSchema

/-- A statement of a script. -/
inductive Statement
  /-- The declaration of a table. -/
  | createTable (decl : TableDecl)
  /-- Any other statement, with its opening word in upper case and the texts of its tokens, single
  spaces between them. -/
  | other (category : Category) (keyword text : String)
deriving DecidableEq, Repr

/-- The statements of a text, in order. -/
abbrev Script := List Statement

end TableSchema
