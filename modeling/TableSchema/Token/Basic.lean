/-!
# Tokens

The units a script is read in, and the text each stands for. Names and literals keep what was
written between their quotes, escapes included, so that a token can be written down again.

Two texts are made of a run of tokens: `glue` joins them without anything in between, `spaced` with
single spaces.
-/

namespace TableSchema

/-- The forms of a literal between quotes. -/
inductive LiteralKind
  /-- `'text'` -/
  | single
  /-- `"text"` -/
  | double
  /-- `N'text'`, in the national character set. -/
  | national
  /-- `E'text'`, whose escapes have been decoded. -/
  | escaped
  /-- `X'0A'` or `0x0A`. -/
  | hex
  /-- `b'01'` -/
  | singleBits
  /-- `b"01"` -/
  | doubleBits
deriving DecidableEq, Repr

/-- The punctuation that the grammar looks at. -/
inductive Symbol
  | openParen
  | closeParen
  | comma
  | period
  | semicolon
  | equals
  | plus
  | minus
  | bang
  | tilde
deriving DecidableEq, Repr

/-- The character that a symbol is written with. -/
def Symbol.text : Symbol → String
  | .openParen => "("
  | .closeParen => ")"
  | .comma => ","
  | .period => "."
  | .semicolon => ";"
  | .equals => "="
  | .plus => "+"
  | .minus => "-"
  | .bang => "!"
  | .tilde => "~"

/-- One token of a script. -/
inductive Token
  /-- A word, bare or between the quotes that begin with `quote`. -/
  | word (quote : Option Char) (value : String)
  /-- A number in decimal notation, perhaps with an exponent. -/
  | number (digits : String)
  /-- A literal with what stands between its quotes. -/
  | literal (kind : LiteralKind) (body : String)
  /-- Punctuation that the grammar looks at. -/
  | symbol (s : Symbol)
  /-- An operator, a placeholder or a stray character. -/
  | other (spelling : String)
  /-- White space or a comment. -/
  | blank
deriving DecidableEq, Repr

namespace Token

/-- A word as it is written: a quote inside a backtick or double quoted word is doubled. -/
def wordText (quote : Option Char) (value : String) : String :=
  match quote with
  | some '\x60' => "\x60" ++ doubled '\x60' value ++ "\x60"
  | some '"' => "\"" ++ doubled '"' value ++ "\""
  | some '[' => "[" ++ value ++ "]"
  | _ => value
where
  /-- The text with every `mark` written twice. -/
  doubled (mark : Char) (s : String) : String :=
    String.ofList (s.toList.flatMap fun c => if c = mark then [mark, mark] else [c])

/-- A literal as it is written. -/
def literalText (kind : LiteralKind) (body : String) : String :=
  match kind with
  | .single => "'" ++ body ++ "'"
  | .double => "\"" ++ body ++ "\""
  | .national => "N'" ++ body ++ "'"
  | .escaped => "E'" ++ body ++ "'"
  | .hex => "X'" ++ body ++ "'"
  | .singleBits => "b'" ++ body ++ "'"
  | .doubleBits => "b\"" ++ body ++ "\""

/-- The text of a token. -/
def text : Token → String
  | word quote value => wordText quote value
  | number digits => digits
  | literal kind body => literalText kind body
  | symbol s => s.text
  | other spelling => spelling
  | blank => ""

/-- The text of a word, bare or quoted. -/
def wordText? : Token → Option String
  | word quote value => some (wordText quote value)
  | _ => none

/-- The value of a bare word. Only bare words can be words of the language. -/
def bareWord? : Token → Option String
  | word none value => some value
  | _ => none

/-- The text of a string literal: single quoted, double quoted or national. -/
def stringText? : Token → Option String
  | literal .single body => some (literalText .single body)
  | literal .double body => some (literalText .double body)
  | literal .national body => some (literalText .national body)
  | _ => none

/-- The text of a number. -/
def numberText? : Token → Option String
  | number digits => some digits
  | _ => none

/-- The text of a name that may be written as a string: a string literal or any word. -/
def nameText? (token : Token) : Option String :=
  token.stringText? <|> token.wordText?

/-- The texts of the tokens, one directly after the other. -/
def glue (tokens : List Token) : String :=
  String.join (tokens.map text)

/-- The texts of the tokens with one space between neighbours. -/
def spaced (tokens : List Token) : String :=
  " ".intercalate (tokens.map text)

end Token

end TableSchema
