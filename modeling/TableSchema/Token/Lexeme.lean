import TableSchema.Token.Piece
import TableSchema.Token.Position

/-!
# Lexemes

A lexeme is a token with the place it stands at. The lexemes of a text are its pieces in order,
placed by the characters before them, without white space and comments: all that the grammar
sees.
-/

namespace TableSchema

/-- A token with its place in the text. -/
structure Lexeme where
  /-- The token. -/
  token : Token
  /-- The position of its first character. -/
  start : Position
  /-- The position after its last character. -/
  stop : Position
deriving DecidableEq, Repr

/-- A text that cannot be divided into tokens. -/
structure LexicalError where
  /-- The form that is never closed. -/
  form : OpenForm
  /-- The place to report. -/
  position : Position
deriving DecidableEq, Repr

/-- The wording of the error. -/
def LexicalError.message (e : LexicalError) : String :=
  s!"{e.form.message} at Line: {e.position.line}, Column: {e.position.column}"

namespace Lexeme

/-- The pieces placed one after the other from position `p` on. -/
def place (p : Position) : List Piece → List Lexeme
  | [] => []
  | piece :: pieces =>
    ⟨piece.token, p, p.after piece.source⟩ :: place (p.after piece.source) pieces

/-- The lexeme is neither white space nor a comment. -/
def isSignificant (l : Lexeme) : Bool :=
  l.token != .blank

/-- The lexemes of a text that the grammar sees. -/
def ofString (text : String) : Except LexicalError (List Lexeme) :=
  match Piece.readAll text.toList with
  | .ok pieces => .ok ((place .start pieces).filter isSignificant)
  | .error e => .error ⟨e.form, Position.start.after e.before⟩

/-- The tokens of a run of lexemes. -/
def tokens (lexemes : List Lexeme) : List Token :=
  lexemes.map token

end Lexeme

end TableSchema
