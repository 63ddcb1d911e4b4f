import TableSchema.DataType.Declaration
import TableSchema.Grammar.Parser

/-!
# The grammar of data types

One rule for each family of types. A rule takes the longest declaration that it can: every optional
clause that comes next belongs to the type.
-/

namespace TableSchema.Grammar

open TableSchema.Parser

/-- The word that names a data type. -/
def typeName : Parser TypeName :=
  token .dataType TypeName.ofToken?

/-- A length clause whose parentheses hold what `numbers` takes, if one comes next. -/
def lengthClause (numbers : Parser Unit) : Parser (Option String) :=
  ifAhead [.symbol .openParen] <| glued do
    expect (.symbol .openParen)
    numbers
    expect (.symbol .closeParen)

/-- `[(n)]` -/
def oneLength : Parser (Option String) :=
  lengthClause (discard number)

/-- `[(p, s)]` -/
def twoLengths : Parser (Option String) :=
  lengthClause do
    discard number
    expect (.symbol .comma)
    discard number

/-- `[(p)]` or `[(p, s)]` -/
def upToTwoLengths : Parser (Option String) :=
  lengthClause do
    discard number
    if ← eat (.symbol .comma) then discard number

/-- The attribute that a token is. -/
def numericModifier? (t : Token) : Option NumericModifier :=
  if (Terminal.word "SIGNED").accepts t then some .signed
  else if (Terminal.word "UNSIGNED").accepts t then some .unsigned
  else if (Terminal.word "ZEROFILL").accepts t then some .zerofill
  else none

/-- Any number of `SIGNED`, `UNSIGNED` and `ZEROFILL`. -/
def numericModifiers : Parser (List NumericModifier) :=
  tokenRun numericModifier?

/-- The words that introduce a character set, if they come next. -/
def charsetKeyword? : Parser (Option CharsetKeyword) :=
  choose? [
    .behind [.word "CHARACTER", .word "SET"] (return .characterSet),
    .behind [.word "CHAR", .word "SET"] (return .charSet),
    .behind [.word "CHARSET"] (return .charset)]

/-- The name of a character set or a collation: a word or a string literal. -/
def charsetName : Parser String :=
  token .identifier Token.nameText?

/-- `[{CHARACTER SET | CHAR SET | CHARSET} name]` -/
def charset : Parser (Option Charset) := do
  match ← charsetKeyword? with
  | some keyword => return some ⟨keyword, ← charsetName⟩
  | none => return none

/-- `[COLLATE name]` -/
def collation : Parser (Option String) :=
  after [.keyword "COLLATE"] charsetName

/-- `[BINARY]` -/
def binary : Parser Bool :=
  eat (.word "BINARY")

/-- `[VARYING]` -/
def varying : Parser Bool :=
  eat (.word "VARYING")

/-- The type names that may follow `NATIONAL`. -/
def nationalName : Parser TypeName :=
  token .nationalType fun t =>
    (TypeName.ofToken? t).filter fun name =>
      name.keyword ∈ [TypeKeyword.char, .character, .varchar]

/-- `NATIONAL {CHAR | CHARACTER | VARCHAR} [VARYING] [(n)] [BINARY] [VARYING]`, where `VARYING`
stands at most once and never with `VARCHAR`. -/
def nationalType : Parser TypeDecl := do
  expect (.word "NATIONAL")
  let name ← nationalName
  let canVary := name.keyword != .varchar
  let early ← if canVary then varying else pure false
  let length ← oneLength
  let isBinary ← binary
  let late ← if canVary && !early then varying else pure false
  if early || late then return .nationalVarying name length isBinary
  else return .national .national name length isBinary

/-- `NCHAR VARCHAR [(n)] [BINARY]` -/
def ncharType : Parser TypeDecl := do
  skip 1
  let name ← typeName
  let length ← oneLength
  return .national .nchar name length (← binary)

/-- `type [VARYING] [(n)] [BINARY] [charset] [COLLATE name | BINARY]` -/
def stringType : Parser TypeDecl := do
  let name ← typeName
  let isVarying ← varying
  let length ← oneLength
  let early ← binary
  let charset ← charset
  let collation ← collation
  let late ← if collation.isNone then binary else pure false
  return .string name isVarying length (early || late) charset collation

/-- `LONG VARBINARY` -/
def longVarbinaryType : Parser TypeDecl := do
  let long ← typeName
  return .longVarbinary long (← typeName)

/-- `LONG [VARCHAR] [BINARY] [charset] [COLLATE name]` -/
def longVarcharType : Parser TypeDecl := do
  let name ← typeName
  let varchar ← eat (.word "VARCHAR")
  let isBinary ← binary
  let charset ← charset
  return .longVarchar name varchar isBinary charset (← collation)

/-- `LONG (n) ...`, `LONG VARBINARY` or `LONG [VARCHAR] ...` -/
def longType : Parser TypeDecl := do
  match ← choose? [
    ⟨[.word "LONG", .symbol .openParen], stringType⟩,
    ⟨[.word "LONG", .word "VARBINARY"], longVarbinaryType⟩] with
  | some type => return type
  | none => longVarcharType

/-- An integer type with its length and attributes. -/
def integerType : Parser TypeDecl := do
  let name ← typeName
  let length ← oneLength
  return .measured name (length.map .one) (← numericModifiers)

/-- `{REAL | DOUBLE [PRECISION]} [(p, s)]` with attributes. -/
def realType : Parser TypeDecl := do
  let name ← typeName
  if name.keyword = .double then discard (eat (.word "PRECISION"))
  let length ← twoLengths
  return .measured name (length.map .two) (← numericModifiers)

/-- A decimal type with one or two lengths and attributes. -/
def decimalType : Parser TypeDecl := do
  let name ← typeName
  let length ← upToTwoLengths
  return .measured name (length.map .upToTwo) (← numericModifiers)

/-- A type of times, bits or bytes with its length. -/
def temporalType : Parser TypeDecl := do
  let name ← typeName
  let length ← oneLength
  return .measured name (length.map .one) []

/-- A type that is only a word. -/
def simpleType : Parser TypeDecl := do
  return .simple (← typeName)

/-- `{ENUM | SET} ('a', 'b', ...) [BINARY] [charset]` -/
def collectionType : Parser TypeDecl := do
  let name ← typeName
  let literals ← list stringLiteral
  let isBinary ← binary
  return .collection name literals isBinary (← charset)

/-- A geometry or a document type, perhaps with `SRID n`. -/
def spatialType : Parser TypeDecl := do
  let name ← typeName
  return .spatial name (← after [.word "SRID"] number)

/-- The rule for the types of a family. -/
def familyType : TypeFamily → Parser TypeDecl
  | .string => stringType
  | .long => longType
  | .integer => integerType
  | .real => realType
  | .decimal => decimalType
  | .temporal => temporalType
  | .simple => simpleType
  | .collection => collectionType
  | .spatial => spatialType

/-- The type word that comes next, which is not taken. -/
def peekTypeKeyword? : Parser (Option TypeKeyword) :=
  fun ls => .ok ((ls.head?.bind (TypeName.ofToken? ·.token)).map TypeName.keyword, ls)

/-- A data type. -/
def dataType : Parser TypeDecl := do
  match ← choose? [
    ⟨[.word "NATIONAL"], nationalType⟩,
    ⟨[.word "NCHAR", .word "VARCHAR"], ncharType⟩] with
  | some type => return type
  | none =>
    match ← peekTypeKeyword? with
    | some keyword => familyType keyword.family
    | none => fail .dataType

end TableSchema.Grammar
