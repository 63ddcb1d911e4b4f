import TableSchema.Grammar.Failure

/-!
# Parsers

A parser takes lexemes off the front of a list. The grammar is built from the few parsers of this
file: tests that take nothing (`ahead`), tests that take what they find (`eat`, `token?`), demands
(`expect`, `token`), repetition (`many`), the choice between alternatives by their first words
(`choose?`), and `parenthesized` text.

The text of a rule is what the tokens it took are glued to (`glued`).
-/

namespace TableSchema

/-- A parser: the lexemes left are its state, and it may fail. -/
abbrev Parser := StateT (List Lexeme) (Except Failure)

namespace Parser

variable {α : Type}

/-- Fail at the current lexeme. -/
def fail (e : Expected) : Parser α :=
  fun ls => .error ⟨e, ls⟩

/-- A question about the lexemes left. -/
def asks (question : List Lexeme → Bool) : Parser Bool :=
  fun ls => .ok (question ls, ls)

/-- No lexeme is left. -/
def atEnd : Parser Bool :=
  asks List.isEmpty

/-- The pattern comes next. -/
def ahead (pattern : List Terminal) : Parser Bool :=
  asks (Terminal.opens pattern)

/-- One of the patterns comes next. -/
def aheadAny (patterns : List (List Terminal)) : Parser Bool :=
  asks (Terminal.opensAny patterns)

/-- Leave out `n` lexemes. -/
def skip (n : Nat) : Parser Unit :=
  fun ls => .ok ((), ls.drop n)

/-- Take the pattern if it comes next. -/
def eatAll (pattern : List Terminal) : Parser Bool :=
  fun ls =>
    if Terminal.opens pattern ls then .ok (true, ls.drop pattern.length) else .ok (false, ls)

/-- Take the terminal if it comes next. -/
def eat (t : Terminal) : Parser Bool :=
  eatAll [t]

/-- Take the terminal. -/
def expect (t : Terminal) : Parser Unit := do
  unless ← eat t do fail (.terminal t)

/-- Take the next token if it has a value. -/
def token? (value : Token → Option α) : Parser (Option α) :=
  fun ls =>
    match ls with
    | [] => .ok (none, [])
    | l :: rest =>
      match value l.token with
      | some a => .ok (some a, rest)
      | none => .ok (none, l :: rest)

/-- Take the next token, which has a value. -/
def token (e : Expected) (value : Token → Option α) : Parser α := do
  match ← token? value with
  | some a => return a
  | none => fail e

/-- The values of the longest run of tokens that have one. -/
def tokenRun (value : Token → Option α) : Parser (List α) :=
  fun ls => .ok (run ls)
where
  /-- The values of the run and the lexemes after it. -/
  run : List Lexeme → List α × List Lexeme
    | [] => ([], [])
    | l :: rest =>
      match value l.token with
      | some a => (a :: (run rest).1, (run rest).2)
      | none => ([], l :: rest)

/-- Take a number; its text. -/
def number : Parser String :=
  token .number Token.numberText?

/-- Take a string literal; its text. -/
def stringLiteral : Parser String :=
  token .stringLiteral Token.stringText?

/-- Take a word, quoted or not; its text. -/
def identifier : Parser String :=
  token .identifier Token.wordText?

/-- Take one of the keywords. -/
def oneOf (words : List String) : Parser String :=
  token (.oneOf words) fun t => words.find? fun w => (Terminal.keyword w).accepts t

/-- Repeat a step until it gives nothing. A step that takes no lexeme ends the repetition. -/
def many (step : Parser (Option α)) : Parser (List α) :=
  fun ls =>
    match step ls with
    | .error e => .error e
    | .ok (none, rest) => .ok ([], rest)
    | .ok (some a, rest) =>
      if rest.length < ls.length then
        match many step rest with
        | .error e => .error e
        | .ok (as, rest) => .ok (a :: as, rest)
      else .ok ([a], rest)
termination_by ls => ls.length

/-- One or more items with commas between them. -/
def separated (item : Parser α) : Parser (List α) := do
  let first ← item
  let others ← many do
    if ← eat (.symbol .comma) then return some (← item) else return none
  return first :: others

/-- Items between parentheses, with commas between them. -/
def list (item : Parser α) : Parser (List α) := do
  expect (.symbol .openParen)
  let items ← separated item
  expect (.symbol .closeParen)
  return items

/-- Run the parser if the pattern comes next, which it takes itself. -/
def ifAhead (pattern : List Terminal) (p : Parser α) : Parser (Option α) := do
  if ← ahead pattern then return some (← p) else return none

/-- Take the pattern and run the parser, if the pattern comes next. -/
def after (pattern : List Terminal) (p : Parser α) : Parser (Option α) := do
  if ← eatAll pattern then return some (← p) else return none

/-- An alternative of a rule: the words it begins with, and its parser. -/
structure Branch (α : Type) where
  /-- The words that the alternative begins with. -/
  opener : List Terminal
  /-- The parser of the alternative, the opener included. -/
  body : Parser α

/-- The alternative whose opener is followed by what `p` takes. -/
def Branch.behind (opener : List Terminal) (p : Parser α) : Branch α :=
  ⟨opener, do skip opener.length; p⟩

/-- The first alternative whose opener comes next, if there is one. -/
def choose? : List (Branch α) → Parser (Option α)
  | [] => return none
  | b :: bs => do
    if ← ahead b.opener then return some (← b.body) else choose? bs

/-- The first alternative whose opener comes next. -/
def choose (e : Expected) (branches : List (Branch α)) : Parser α := do
  match ← choose? branches with
  | some a => return a
  | none => fail e

/-- The tokens that a parser takes. -/
def taken (p : Parser Unit) : Parser (List Token) :=
  fun ls =>
    match p ls with
    | .error e => .error e
    | .ok (_, rest) => .ok (Lexeme.tokens (ls.take (ls.length - rest.length)), rest)

/-- The text of a rule: the tokens it takes, glued together. -/
def glued (p : Parser Unit) : Parser String := do
  return Token.glue (← taken p)

/-- The text of a rule with single spaces between its tokens. -/
def spaced (p : Parser Unit) : Parser String := do
  return Token.spaced (← taken p)

/-- The lexemes after the parenthesis that closes the innermost of `depth + 1` open ones. -/
def closeParens : Nat → List Lexeme → Option (List Lexeme)
  | _, [] => none
  | depth, l :: rest =>
    if l.token = .symbol .openParen then closeParens (depth + 1) rest
    else if l.token = .symbol .closeParen then
      match depth with
      | 0 => some rest
      | outer + 1 => closeParens outer rest
    else closeParens depth rest

/-- Take a parenthesis with everything up to the one that closes it. -/
def parenthesized : Parser Unit := do
  expect (.symbol .openParen)
  fun ls =>
    match closeParens 0 ls with
    | some rest => .ok ((), rest)
    | none => .error ⟨.terminal (.symbol .closeParen), []⟩

/-- The lexemes from the first place outside parentheses on where `stop` holds. A closing
parenthesis without an opening one is passed over. -/
def dropUntil (stop : List Lexeme → Bool) : Nat → List Lexeme → List Lexeme
  | _, [] => []
  | depth, l :: rest =>
    if depth = 0 ∧ stop (l :: rest) then l :: rest
    else if l.token = .symbol .openParen then dropUntil stop (depth + 1) rest
    else if l.token = .symbol .closeParen then dropUntil stop (depth - 1) rest
    else dropUntil stop depth rest

/-- Leave out everything up to the first place outside parentheses where `stop` holds. -/
def skipUntil (stop : List Lexeme → Bool) : Parser Unit :=
  fun ls => .ok ((), dropUntil stop 0 ls)

/-- Leave out the rest of the statement: everything up to a semicolon outside parentheses. -/
def skipStatement : Parser Unit :=
  skipUntil (Terminal.opens [.symbol .semicolon])

/-- Read all of the lexemes with a parser. -/
def readAll (p : Parser α) (ls : List Lexeme) : Except GrammarError α :=
  match (do let a ← p; if ← atEnd then return a else fail .endOfInput) ls with
  | .ok (a, _) => .ok a
  | .error f => .error (f.locate ls)

end Parser

end TableSchema
