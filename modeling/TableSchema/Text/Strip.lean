import TableSchema.Text.Replace

/-!
# Stripping text

Names, comments, default values and length clauses arrive with the quotes or brackets they were
written in. `strip` takes a class of characters off both ends of a text, however many there are,
and never touches the inside: stripping the quotes of a two-part name leaves the quotes around
its dot.
-/

namespace TableSchema.Text

/-- The characters without the longest runs of members of `p` at the two ends. -/
def stripChars (p : Char → Bool) (cs : List Char) : List Char :=
  ((cs.dropWhile p).reverse.dropWhile p).reverse

/-- The text without the longest runs of members of `p` at the two ends. -/
def strip (p : Char → Bool) (s : String) : String :=
  String.ofList (stripChars p s.toList)

/-- A quotation mark of the language: single, double or backtick. -/
def isQuote (c : Char) : Bool :=
  c == '\'' || c == '"' || c == '\x60'

/-- A round, square or curly bracket. -/
def isBracket (c : Char) : Bool :=
  c == '(' || c == ')' || c == '[' || c == ']' || c == '\x7b' || c == '\x7d'

/-- The replacements that take out the characters that end a line. -/
def lineBreakRemovals : List (String × String) :=
  [("\r", ""), ("\n", "")]

/-- The replacements that take out the control characters that a name cannot keep. -/
def controlRemovals : List (String × String) :=
  [("\r", ""), ("\n", ""), ("\t", "")]

/-- The text without the quotation marks at its ends. -/
def stripQuotes (s : String) : String :=
  strip isQuote s

/-- The text without the brackets at its ends. -/
def stripBrackets (s : String) : String :=
  strip isBracket s

/-- An identifier as the schema keeps it: without its quotation marks and without control
characters. -/
def cleanIdentifier (s : String) : String :=
  replaceAll (stripQuotes s) controlRemovals

end TableSchema.Text
