import TableSchema.Grammar.Parser

/-!
# Errors

What keeps a whole text from being analysed. A fault of the grammar in a file names the file; a
fault of the tokens does not.
-/

namespace TableSchema

/-- Why a text cannot be analysed. -/
inductive Error
  /-- A file cannot be read. -/
  | unreadable (path : String)
  /-- A file is not text in a known encoding. -/
  | encoding (path : String)
  /-- A text cannot be divided into tokens. -/
  | lexical (e : LexicalError)
  /-- A text is outside the grammar. -/
  | grammar (e : GrammarError)
  /-- The text of a file is outside the grammar. -/
  | grammarInFile (path : String) (e : GrammarError)
deriving DecidableEq, Repr

namespace Error

/-- The wording of the error. -/
def message : Error → String
  | unreadable path => "Failed to read SQL file: " ++ path
  | encoding path => "SQL file " ++ path ++ " is neither valid UTF-8 nor Windows-1252 text"
  | lexical e => "SQL tokenize error: " ++ e.message
  | grammar e => s!"SQL syntax error at line {e.position.line}, column {e.position.column}: " ++
      e.message
  | grammarInFile path e => "SQL parse error in " ++ path ++
      s!" at line {e.position.line}, column {e.position.column}: " ++ e.message

/-- The error of a text, when the text is that of the file at `path`. -/
def inFile (path : String) : Error → Error
  | grammar e => grammarInFile path e
  | e => e

end Error

/-- Read a whole text with a parser. -/
def Parser.readString {α : Type} (p : Parser α) (text : String) : Except Error α := do
  let ls ← (Lexeme.ofString text).mapError .lexical
  (p.readAll ls).mapError .grammar

end TableSchema
