import TableSchema.Column.Grammar
import TableSchema.Script.Category
import TableSchema.Table.Declaration
import TableSchema.Table.Option

/-!
# The grammar of tables

`CREATE TABLE` in its three forms. The list that declares a table is read in full; options and
partitions after it are passed over. The declaration ends at a semicolon, at the end of the text, or
before a word that opens the next statement.
-/

namespace TableSchema.Grammar

open TableSchema.Parser

/-- The name of a column, perhaps after the names of its table and its database. -/
def columnName : Parser ColumnName := do
  let head ← identifier
  match ← after [.symbol .period] identifier with
  | some first =>
    match ← after [.symbol .period] identifier with
    | some second => return ⟨head, [first, second]⟩
    | none => return ⟨head, [first]⟩
  | none => return ⟨head, []⟩

/-- A column with its name. -/
def namedColumn : Parser TableItem := do
  let name ← columnName
  return .column name (← columnDefinition)

/-- The words that open a constraint of a table. -/
def constraintOpeners : List (List Terminal) :=
  [[.keyword "CONSTRAINT"], [.keyword "PRIMARY"], [.keyword "UNIQUE"], [.keyword "FOREIGN"],
    [.keyword "CHECK"]]

/-- The words that open an index. -/
def indexOpeners : List (List Terminal) :=
  [[.keyword "INDEX"], [.keyword "KEY"], [.word "FULLTEXT"], [.word "SPATIAL"]]

/-- An entry of the list that declares a table. -/
def tableItem : Parser TableItem := do
  if ← aheadAny constraintOpeners then return .constraint (← tableConstraint)
  else if ← aheadAny indexOpeners then return .index (← indexDeclaration)
  else namedColumn

/-- The list that declares a table. -/
def tableItems : Parser (List TableItem) :=
  list tableItem

/-- A query comes next: `SELECT`, perhaps after a parenthesis. -/
def startsQuery (ls : List Lexeme) : Bool :=
  Terminal.opensAny [[.keyword "SELECT"], [.symbol .openParen, .keyword "SELECT"]] ls

/-- How many words `[IGNORE | REPLACE] [AS]` stand before the query that comes next, if one does. -/
def queryLead? (ls : List Lexeme) : Option Nat :=
  let choice := if Terminal.opensAny [[.keyword "IGNORE"], [.keyword "REPLACE"]] ls then 1 else 0
  let lead := if Terminal.opens [.keyword "AS"] (ls.drop choice) then choice + 1 else choice
  if startsQuery (ls.drop lead) then some lead else none

/-- A query with the words before it comes next. -/
def queryAhead (ls : List Lexeme) : Bool :=
  (queryLead? ls).isSome

/-- The rest of the statement, as the text of a query, if a query comes next. -/
def trailingQuery : Parser (Option String) := do
  match queryLead? (← get) with
  | some lead => do
    skip lead
    return some (← spaced skipStatement)
  | none => return none

/-- The clause on partitions ends here. -/
def isPartitionEnd (ls : List Lexeme) : Bool :=
  Terminal.opens [.symbol .semicolon] ls || queryAhead ls || Category.startsStatement ls

/-- The options of a table and its partitions. -/
def tableClauses : List (Branch Unit) :=
  .behind [.keyword "PARTITION", .keyword "BY"] (skipUntil isPartitionEnd) :: tableOptions

/-- Options and partitions, with a comma after some of them. -/
def tableClause? : Parser (Option Unit) := do
  match ← choose? tableClauses with
  | some () => do
    discard (eat (.symbol .comma))
    return some ()
  | none => return none

/-- The declaration ends here. -/
def isTableEnd (ls : List Lexeme) : Bool :=
  ls.isEmpty || Terminal.opens [.symbol .semicolon] ls || Category.startsStatement ls

/-- Options and partitions, and the text of the query after them, if there is one. -/
def tableTail : Parser (Option String) := do
  discard (many tableClause?)
  match ← trailingQuery with
  | some query => return some query
  | none => if ← asks isTableEnd then return none else fail .tableOption

/-- The list, the options and the query of the table `name`; one of list and query is there. -/
def tableBody (name : String) : Parser TableDecl := do
  let opensList ← asks fun ls =>
    Terminal.opens [.symbol .openParen] ls && !startsQuery (ls.drop 1)
  let items ← if opensList then some <$> tableItems else pure none
  let tail ← get
  match items, ← tableTail with
  | items, some query => return .query name items query
  | some items, none => return .columns name items
  | none, none =>
    set tail
    fail .tableBody

/-- The table that another one is declared like, between parentheses. -/
def modelInParens : Parser String := do
  let table ← tableName
  expect (.symbol .closeParen)
  return table

/-- `CREATE [TEMPORARY] TABLE [IF NOT EXISTS] name` and its body. -/
def createTable : Parser TableDecl := do
  expect (.keyword "CREATE")
  discard (eat (.keyword "TEMPORARY"))
  expect (.keyword "TABLE")
  if ← eat (.keyword "IF") then
    expect (.keyword "NOT")
    expect (.keyword "EXISTS")
  let name ← tableName
  match ← choose? [
    .behind [.keyword "LIKE"] tableName,
    .behind [.symbol .openParen, .keyword "LIKE"] modelInParens] with
  | some table => return .like name table
  | none => tableBody name

end TableSchema.Grammar
