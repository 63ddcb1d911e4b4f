import TableSchema.Error
import TableSchema.Script.Statement
import TableSchema.Table.Grammar

/-!
# The grammar of scripts

Statements are divided by semicolons, or follow each other directly when the next one opens with a
word that only a statement can begin with. A change of the delimiter ends with its line, since the
delimiter itself would end it otherwise.

Each part of the language that can be read on its own has a reader here: `Script.parse`,
`TableDecl.parse`, `ConstraintDecl.parse`, `ColumnDecl.parse` and `TypeDecl.parse`.
-/

namespace TableSchema

namespace Grammar

open TableSchema.Parser

/-- The opening word of a statement in upper case; a quoted word or another token as it is. -/
def openingWord : List Lexeme → String
  | [] => ""
  | l :: _ => (l.token.bareWord?.map Unicode.upper).getD l.token.text

/-- The lexemes after those that begin on the line of the first one. -/
def dropLine : List Lexeme → List Lexeme
  | [] => []
  | l :: rest => rest.dropWhile (·.start.line = l.start.line)

/-- Leave out the rest of the line. -/
def skipLine : Parser Unit :=
  fun ls => .ok ((), dropLine ls)

/-- A statement that is not read in full. -/
def otherStatement (category : Category) : Parser Statement := do
  let keyword := openingWord (← get)
  let text ← spaced (if keyword = "DELIMITER" then skipLine else skipStatement)
  return .other category keyword text

/-- The declaration of a table, as a statement. -/
def tableStatement : Parser Statement := do
  return .createTable (← createTable)

/-- A statement. -/
def statement : Parser Statement := do
  match Category.of? (← get) with
  | none => fail .statement
  | some category =>
    match ← choose? [
      ⟨[.keyword "CREATE", .keyword "TABLE"], tableStatement⟩,
      ⟨[.keyword "CREATE", .keyword "TEMPORARY", .keyword "TABLE"], tableStatement⟩] with
    | some statement => return statement
    | none => otherStatement category

/-- What stands between two statements: a semicolon, the end of the text, or nothing before a word
that opens a statement. -/
def separator : Parser Unit := do
  unless ← atEnd do
    unless ← eat (.symbol .semicolon) do
      unless ← asks Category.startsStatement do fail (.terminal (.symbol .semicolon))

/-- The next statement, if there is one; empty statements are passed over. -/
def statement? : Parser (Option Statement) := do
  discard (tokenRun (Option.guard (· == .symbol .semicolon)))
  if ← atEnd then return none
  let statement ← statement
  separator
  return some statement

/-- A whole script. -/
def script : Parser Script :=
  many statement?

/-- The declaration of a table, perhaps followed by a semicolon. -/
def singleTable : Parser TableDecl := do
  let decl ← createTable
  discard (eat (.symbol .semicolon))
  return decl

end Grammar

/-- Read a script. -/
def Script.parse (text : String) : Except Error Script :=
  Grammar.script.readString text

/-- Read the declaration of a table; a semicolon may follow it. -/
def TableDecl.parse (text : String) : Except Error TableDecl :=
  Grammar.singleTable.readString text

/-- Read a constraint of a table. -/
def ConstraintDecl.parse (text : String) : Except Error ConstraintDecl :=
  Grammar.tableConstraint.readString text

/-- Read a data type and the clauses of a column. -/
def ColumnDecl.parse (text : String) : Except Error ColumnDecl :=
  Grammar.columnDefinition.readString text

/-- Read a data type. -/
def TypeDecl.parse (text : String) : Except Error TypeDecl :=
  Grammar.dataType.readString text

end TableSchema
