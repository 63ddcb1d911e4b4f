import TableSchema.Grammar.Parser
import TableSchema.Key.Declaration

/-!
# The grammar of keys

Table constraints, index declarations and references. Options of an index are checked and not
kept.
-/

namespace TableSchema.Grammar

open TableSchema.Parser

/-- The name of a table, perhaps after the name of its database and a point. -/
def tableName : Parser String :=
  glued do
    discard identifier
    if ← eat (.symbol .period) then discard identifier

/-- What a key part refers to. -/
def keyTarget : Parser KeyTarget := do
  match ← ifAhead [.symbol .openParen] (glued parenthesized) with
  | some text => return .expression text
  | none =>
    match ← token? Token.stringText? with
    | some text => return .literal text
    | none => return .column (← identifier)

/-- A number in parentheses. -/
def numberInParens : Parser String := do
  let text ← number
  expect (.symbol .closeParen)
  return text

/-- `{column [(n)] | 'column' | (expression)} [ASC | DESC]` -/
def keyPart : Parser KeyPart := do
  let target ← keyTarget
  let length ← after [.symbol .openParen] numberInParens
  let order ← choose? [
    .behind [.keyword "ASC"] (return .ascending),
    .behind [.keyword "DESC"] (return .descending)]
  return ⟨target, length, order⟩

/-- `(part, ...)` -/
def keyParts : Parser (List KeyPart) :=
  list keyPart

/-- The name of an index: the next word, unless it begins the type of the index. -/
def indexName : Parser (Option String) :=
  token? fun t => if (Terminal.keyword "USING").accepts t then none else t.wordText?

/-- `[USING {BTREE | HASH}]` -/
def indexType : Parser (Option String) :=
  after [.keyword "USING"] (oneOf ["BTREE", "HASH"])

/-- `[INDEX | KEY]` -/
def indexWord : Parser (Option String) :=
  choose? [
    .behind [.keyword "INDEX"] (return "INDEX"),
    .behind [.keyword "KEY"] (return "KEY")]

/-- `[=]` -/
def equalsSign : Parser Unit :=
  discard (eat (.symbol .equals))

/-- The options of an index. -/
def indexOptions : List (Branch Unit) := [
  .behind [.word "KEY_BLOCK_SIZE"] (do equalsSign; discard number),
  .behind [.keyword "USING"] (discard (oneOf ["BTREE", "HASH"])),
  .behind [.keyword "WITH"] (do expect (.word "PARSER"); discard identifier),
  .behind [.keyword "COMMENT"] (discard stringLiteral),
  .behind [.word "VISIBLE"] (return ()),
  .behind [.word "INVISIBLE"] (return ()),
  .behind [.word "ENGINE_ATTRIBUTE"] (do equalsSign; discard stringLiteral),
  .behind [.word "SECONDARY_ENGINE_ATTRIBUTE"] (do equalsSign; discard stringLiteral)]

/-- Key parts followed by any number of index options. -/
def optionedParts : Parser (List KeyPart) := do
  let parts ← keyParts
  discard (many (choose? indexOptions))
  return parts

/-- What a rule of a reference is about. -/
inductive ReferenceEvent
  | delete
  | update
deriving DecidableEq, Repr

/-- `SET {NULL | DEFAULT}`, `NO ACTION`, `RESTRICT` or `CASCADE` -/
def referenceAction : Parser String := do
  match ← choose? [
    .behind [.word "SET"] (return "SET " ++ (← oneOf ["NULL", "DEFAULT"])),
    .behind [.word "NO"] (do expect (.word "ACTION"); return "NO ACTION")] with
  | some action => return action
  | none => oneOf ["RESTRICT", "CASCADE"]

/-- `ON {DELETE | UPDATE} action`, where the first word of the action decides that it is one. -/
def referenceRules : List (Branch (ReferenceEvent × String)) :=
  [("DELETE", ReferenceEvent.delete), ("UPDATE", .update)].flatMap fun (spelling, event) =>
    ["RESTRICT", "CASCADE", "SET", "NO"].map fun word =>
      ⟨[.keyword "ON", .keyword spelling, .word word], do
        skip 2
        return (event, ← referenceAction)⟩

/-- The action of the last rule about an event. -/
def lastAction (event : ReferenceEvent) (rules : List (ReferenceEvent × String)) : Option String :=
  (rules.filter (·.1 = event)).getLast?.map (·.2)

/-- `REFERENCES table [(part, ...)] [MATCH way] [ON DELETE action] [ON UPDATE action]` -/
def reference : Parser Reference := do
  expect (.keyword "REFERENCES")
  let table ← tableName
  let parts ← ifAhead [.symbol .openParen] keyParts
  let matching ← after [.word "MATCH"] (oneOf ["FULL", "PARTIAL", "SIMPLE"])
  let rules ← many (choose? referenceRules)
  return ⟨table, parts, matching, lastAction .delete rules, lastAction .update rules⟩

/-- `[CONSTRAINT [name]]` -/
def constraintName : Parser (Option String) := do
  if ← eat (.keyword "CONSTRAINT") then
    if ← aheadAny [[.keyword "PRIMARY"], [.keyword "UNIQUE"], [.keyword "FOREIGN"],
        [.keyword "CHECK"]] then
      return none
    else return some (← identifier)
  else return none

/-- `KEY [index] [USING type] (part, ...) [option ...]` -/
def primaryKey (name : Option String) : Parser ConstraintDecl := do
  expect (.keyword "KEY")
  let index ← indexName
  let type ← indexType
  return .primaryKey name index type (← optionedParts)

/-- `[INDEX | KEY] [index] [USING type] (part, ...) [option ...]` -/
def uniqueKey (name : Option String) : Parser ConstraintDecl := do
  let word ← indexWord
  let index ← indexName
  discard indexType
  return .uniqueKey name word index (← optionedParts)

/-- `KEY [index] (part, ...) reference` -/
def foreignKey (name : Option String) : Parser ConstraintDecl := do
  expect (.keyword "KEY")
  let index ← indexName
  let parts ← keyParts
  return .foreignKey name index parts (← reference)

/-- `[CONSTRAINT [name]] {PRIMARY KEY | UNIQUE | FOREIGN KEY | CHECK} ...` -/
def tableConstraint : Parser ConstraintDecl := do
  let name ← constraintName
  choose .tableConstraint [
    .behind [.keyword "PRIMARY"] (primaryKey name),
    .behind [.keyword "UNIQUE"] (uniqueKey name),
    .behind [.keyword "FOREIGN"] (foreignKey name),
    .behind [.keyword "CHECK"] (return .check name (← glued parenthesized))]

/-- `[INDEX | KEY] [index] (part, ...) [option ...]` after the kind of a special index. -/
def specialIndex (kind : String) : Parser IndexDecl := do
  discard indexWord
  let name ← indexName
  return .special kind name (← optionedParts)

/-- `{INDEX | KEY} [index] [USING type] (part, ...) [option ...]` -/
def plainIndex : Parser IndexDecl := do
  match ← indexWord with
  | some word =>
    let name ← indexName
    discard indexType
    return .plain word name (← optionedParts)
  | none => fail .indexWord

/-- The declaration of an index. -/
def indexDeclaration : Parser IndexDecl := do
  match ← choose? [
    .behind [.word "FULLTEXT"] (specialIndex "FULLTEXT"),
    .behind [.word "SPATIAL"] (specialIndex "SPATIAL")] with
  | some index => return index
  | none => plainIndex

end TableSchema.Grammar
