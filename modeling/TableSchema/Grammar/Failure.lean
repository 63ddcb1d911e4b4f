import TableSchema.Grammar.Terminal

/-!
# Failures

What the grammar reports when a text is not in its language: what could have come next, and where.
Reading fails at the token that does not fit, or at the end of the text when a token is missing.
-/

namespace TableSchema

/-- What could have come next. -/
inductive Expected
  | terminal (t : Terminal)
  | oneOf (words : List String)
  | number
  | stringLiteral
  | identifier
  | dataType
  | nationalType
  | columnClause
  | currentTimestamp
  | defaultValue
  | tableConstraint
  | indexWord
  | tableBody
  | tableOption
  | optionValue
  | charsetOrCollation
  | statement
  | endOfInput
deriving DecidableEq, Repr

/-- What could have come next, in words. -/
def Expected.description : Expected → String
  | .terminal t => t.description
  | .oneOf words => ", ".intercalate words
  | .number => "number"
  | .stringLiteral => "string literal"
  | .identifier => "identifier"
  | .dataType => "data type"
  | .nationalType => "CHAR, CHARACTER or VARCHAR"
  | .columnClause => "column constraint"
  | .currentTimestamp => "CURRENT_TIMESTAMP"
  | .defaultValue => "default value"
  | .tableConstraint => "PRIMARY KEY, UNIQUE, FOREIGN KEY or CHECK"
  | .indexWord => "INDEX or KEY"
  | .tableBody => "'(', LIKE or SELECT"
  | .tableOption => "table option"
  | .optionValue => "table option value"
  | .charsetOrCollation => "CHARACTER SET or COLLATE"
  | .statement => "SQL statement"
  | .endOfInput => "end of input"

/-- Where reading stopped, as the lexemes left, and what could have come there. -/
structure Failure where
  /-- What could have come next. -/
  expected : Expected
  /-- The lexemes from the offending one on. -/
  rest : List Lexeme
deriving DecidableEq, Repr

/-- A text outside the grammar. -/
structure GrammarError where
  /-- What could have come next. -/
  expected : Expected
  /-- The token that came instead; `none` at the end of the text. -/
  found : Option Token
  /-- The start of that token, or the end of the last one. -/
  position : Position
deriving DecidableEq, Repr

/-- The wording of the error, without its position. -/
def GrammarError.message (e : GrammarError) : String :=
  match e.found with
  | some token => "expected " ++ e.expected.description ++ ", found '" ++ token.text ++ "'"
  | none => "expected " ++ e.expected.description ++ ", found end of input"

/-- The place of a failure in the text whose lexemes are `all`. -/
def Failure.locate (f : Failure) (all : List Lexeme) : GrammarError :=
  match f.rest with
  | l :: _ => ⟨f.expected, some l.token, l.start⟩
  | [] => ⟨f.expected, none, (all.getLast?.map Lexeme.stop).getD .start⟩

end TableSchema
