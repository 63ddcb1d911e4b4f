import TableSchema.Text.Case
import TableSchema.Token.Lexeme
import TableSchema.Unicode.Upper

/-!
# Terminals

A terminal is a fixed word or symbol of the grammar. Words of the language are bare: a quoted word
is always a name. There are two kinds of them. A keyword matches every word whose full upper case
it is; any other word of the language is compared letter by letter of ASCII, so that only words of
ASCII letters match it.
-/

namespace TableSchema

/-- A fixed word or symbol of the grammar. -/
inductive Terminal
  /-- A keyword, in upper case. -/
  | keyword (spelling : String)
  /-- Another word of the language, in upper case. -/
  | word (spelling : String)
  /-- Punctuation. -/
  | symbol (s : Symbol)
deriving DecidableEq, Repr

namespace Terminal

/-- The token is an instance of the terminal. -/
def accepts : Terminal → Token → Bool
  | keyword spelling, token => token.bareWord?.any fun value => Unicode.upper value == spelling
  | word spelling, token => token.bareWord?.any fun value => Text.sameAscii value spelling
  | symbol s, token => token == .symbol s

/-- The terminal in an error message. -/
def description : Terminal → String
  | keyword spelling => spelling
  | word spelling => spelling
  | symbol s => "'" ++ s.text ++ "'"

/-- The lexemes begin with instances of the terminals, in order. -/
def opens : List Terminal → List Lexeme → Bool
  | [], _ => true
  | _ :: _, [] => false
  | t :: ts, l :: ls => t.accepts l.token && opens ts ls

/-- The lexemes begin with one of the patterns. -/
def opensAny (patterns : List (List Terminal)) (lexemes : List Lexeme) : Bool :=
  patterns.any (opens · lexemes)

end Terminal

end TableSchema
