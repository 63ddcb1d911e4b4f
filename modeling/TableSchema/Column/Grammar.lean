import TableSchema.Column.Declaration
import TableSchema.DataType.Grammar
import TableSchema.Key.Grammar

/-!
# The grammar of columns

A column is a data type and any number of clauses. It ends before a comma, a closing parenthesis or
a semicolon, and at the end of the text; anything else there has to be a clause.
-/

namespace TableSchema.Grammar

open TableSchema.Parser

/-! ## Default values -/

/-- The words that stand for the current time. -/
def timestampWords : List (List Terminal) :=
  [[.word "CURRENT_TIMESTAMP"], [.word "LOCALTIME"], [.word "LOCALTIMESTAMP"]]

/-- `([n])` -/
def precision : Parser Unit := do
  expect (.symbol .openParen)
  unless ← ahead [.symbol .closeParen] do discard number
  expect (.symbol .closeParen)

/-- `NOW([n])` or `{CURRENT_TIMESTAMP | LOCALTIME | LOCALTIMESTAMP} [([n])]` -/
def currentTimestamp : Parser Unit := do
  if ← eat (.word "NOW") then precision
  else if ← aheadAny timestampWords then
    skip 1
    discard (ifAhead [.symbol .openParen] precision)
  else fail .currentTimestamp

/-- `timestamp [ON UPDATE timestamp]` -/
def timestampDefault : Parser Unit := do
  currentTimestamp
  discard (after [.keyword "ON", .keyword "UPDATE"] currentTimestamp)

/-- An operator before a constant. -/
def isUnaryOperator (t : Token) : Bool :=
  t ∈ [Token.symbol .plus, .symbol .minus, .symbol .bang, .symbol .tilde] ||
    (Terminal.keyword "NOT").accepts t

/-- A bare word that may stand before a single quoted literal: the name of a character set after
an underscore, or the letter of a bit or hexadecimal literal. -/
def isIntroducer (t : Token) : Bool :=
  t.bareWord?.any fun value =>
    value.toList.head? = some '_' || value ∈ ["b", "B", "x", "X"]

/-- The token is a literal between single quotes. -/
def isSingleQuoted : Token → Bool
  | .literal .single _ => true
  | _ => false

/-- A constant of a single token that is not a string literal. -/
def isPlainConstant : Token → Bool
  | .number _ | .literal .hex _ | .literal .singleBits _ | .literal .doubleBits _ => true
  | t => [Terminal.keyword "TRUE", .keyword "FALSE", .keyword "NULL"].any (·.accepts t)

/-- A literal with its introducer comes next. -/
def introducerAhead : Parser Bool :=
  asks fun
    | first :: second :: _ => isIntroducer first.token && isSingleQuoted second.token
    | _ => false

/-- String literals side by side, or another constant. -/
def constant : Parser Unit := do
  if ← introducerAhead then skip 1
  match ← token? Token.stringText? with
  | some _ => discard (tokenRun Token.stringText?)
  | none => discard (token .defaultValue (Option.guard isPlainConstant))

/-- A constant, perhaps after an operator. -/
def signedConstant : Parser Unit := do
  discard (token? (Option.guard isUnaryOperator))
  constant

/-- The expressions that are no constants, and `NULL`. -/
def defaultExpressions : List (Branch Unit) := [
  .behind [.keyword "NULL"] (return ()),
  ⟨[.word "CAST", .symbol .openParen], do skip 1; parenthesized⟩,
  ⟨[.symbol .openParen], parenthesized⟩,
  ⟨[.word "CURRENT_TIMESTAMP"], timestampDefault⟩,
  ⟨[.word "LOCALTIME"], timestampDefault⟩,
  ⟨[.word "LOCALTIMESTAMP"], timestampDefault⟩,
  ⟨[.word "NOW", .symbol .openParen], timestampDefault⟩]

/-- What follows `DEFAULT`. -/
def defaultValue : Parser Unit := do
  match ← choose? defaultExpressions with
  | some () => return ()
  | none => signedConstant

/-! ## Clauses -/

/-- `[GENERATED ALWAYS] AS (expression) [VIRTUAL | STORED]` -/
def generatedColumn : Parser Unit := do
  if ← eat (.word "GENERATED") then expect (.word "ALWAYS")
  expect (.keyword "AS")
  parenthesized
  unless ← eat (.word "VIRTUAL") do discard (eat (.word "STORED"))

/-- `[CONSTRAINT [name]] CHECK (expression)` -/
def columnCheck : Parser ColumnClause := do
  let named ← eat (.keyword "CONSTRAINT")
  let name ←
    if named then
      if ← ahead [.keyword "CHECK"] then pure none else some <$> identifier
    else pure none
  expect (.keyword "CHECK")
  return .check name (← glued parenthesized)

/-- The clauses of a column. -/
def columnClauses : List (Branch ColumnClause) := [
  .behind [.keyword "NOT"] (do expect (.keyword "NULL"); return .nullability true),
  .behind [.keyword "NULL"] (return .nullability false),
  .behind [.keyword "DEFAULT"] (return .default (← glued defaultValue)),
  .behind [.word "VISIBLE"] (return .visible),
  .behind [.word "INVISIBLE"] (return .invisible),
  .behind [.word "AUTO_INCREMENT"] (return .autoIncrement),
  .behind [.keyword "ON", .keyword "UPDATE"] (return .onUpdate (← glued currentTimestamp)),
  .behind [.keyword "PRIMARY"] (do expect (.keyword "KEY"); return .key true),
  .behind [.keyword "KEY"] (return .key false),
  .behind [.keyword "UNIQUE"] (return .unique (← eat (.keyword "KEY"))),
  .behind [.keyword "COMMENT"] (return .comment (← stringLiteral)),
  .behind [.word "COLUMN_FORMAT"]
    (return .columnFormat (← oneOf ["FIXED", "DYNAMIC", "DEFAULT"])),
  .behind [.word "STORAGE"] (return .storage (← oneOf ["DISK", "MEMORY", "DEFAULT"])),
  ⟨[.keyword "REFERENCES"], return .reference (← reference)⟩,
  .behind [.keyword "COLLATE"] (return .collation (← charsetName)),
  ⟨[.word "GENERATED"], return .generated (← glued generatedColumn)⟩,
  ⟨[.keyword "AS"], return .generated (← glued generatedColumn)⟩,
  .behind [.word "SERIAL"] (do
    expect (.keyword "DEFAULT")
    expect (.word "VALUE")
    return .serialDefault),
  ⟨[.keyword "CONSTRAINT"], columnCheck⟩,
  ⟨[.keyword "CHECK"], columnCheck⟩]

/-- One clause of a column. -/
def columnClause : Parser ColumnClause :=
  choose .columnClause columnClauses

/-- The column ends here. -/
def isColumnEnd (ls : List Lexeme) : Bool :=
  ls.isEmpty || Terminal.opensAny
    [[.symbol .comma], [.symbol .closeParen], [.symbol .semicolon]] ls

/-- A data type and its clauses. -/
def columnDefinition : Parser ColumnDecl := do
  let type ← dataType
  let clauses ← many do
    if ← asks isColumnEnd then return none else return some (← columnClause)
  return ⟨type, clauses⟩

end TableSchema.Grammar
