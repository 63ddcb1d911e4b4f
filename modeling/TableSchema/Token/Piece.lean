import TableSchema.Token.Basic
import TableSchema.Token.Number
import TableSchema.Token.Quoted
import TableSchema.Unicode.Alphabetic
import TableSchema.Unicode.Blank
import TableSchema.Unicode.Numeric

/-!
# Pieces

A piece is a token together with the characters it covers. `Piece.read` takes the piece at the
front of a text and `Piece.readAll` divides a whole text into pieces, white space and comments
included, so that nothing is lost: the pieces of a text cover it from end to end.

The only texts that cannot be divided end inside a literal, a quoted word or a comment.

Main statements: `Piece.read_eq` (a piece and the rest are what was given) and
`Piece.source_ne_nil_of_read` (a piece covers at least one character).
-/

namespace TableSchema

/-- A token with the characters it covers. -/
structure Piece where
  /-- The token. -/
  token : Token
  /-- The characters it was read from. -/
  source : List Char
deriving DecidableEq, Repr

/-- A form that a text may end inside of. -/
inductive OpenForm
  | stringLiteral
  | escapedLiteral
  | quotedWord
  | comment
deriving DecidableEq, Repr

/-- The complaint about a form that is never closed. -/
def OpenForm.message : OpenForm → String
  | .stringLiteral => "Unterminated string literal"
  | .escapedLiteral => "Unterminated encoded string literal"
  | .quotedWord => "Expected close delimiter '\x60' before EOF."
  | .comment => "Unexpected EOF while in a multi-line comment"

/-- A text that ends inside a form. -/
structure Unclosed where
  /-- The form that is never closed. -/
  form : OpenForm
  /-- The characters before the place to report. -/
  before : List Char
deriving DecidableEq, Repr

/-- How a literal opens. -/
structure Opening where
  /-- The kind of literal. -/
  kind : LiteralKind
  /-- The letter before the quote, if the kind has one. -/
  lead : List Char
  /-- The quote. -/
  quote : Char
  /-- A backslash keeps the next character from closing the literal. -/
  escapes : Bool

/-- The literal opens at the front of the text. -/
def Opening.begins (o : Opening) (cs : List Char) : Bool :=
  (o.lead ++ [o.quote]).isPrefixOf cs

/-- The openings of the literals that keep what is written between their quotes. -/
def openings : List Opening := [
  ⟨.singleBits, ['b'], '\'', false⟩, ⟨.singleBits, ['B'], '\'', false⟩,
  ⟨.doubleBits, ['b'], '"', false⟩, ⟨.doubleBits, ['B'], '"', false⟩,
  ⟨.national, ['n'], '\'', true⟩, ⟨.national, ['N'], '\'', true⟩,
  ⟨.hex, ['x'], '\'', true⟩, ⟨.hex, ['X'], '\'', true⟩,
  ⟨.single, [], '\'', true⟩, ⟨.double, [], '"', true⟩]

/-- The symbols and operators, each before those that begin like it and are shorter. -/
def operators : List (String × Token) := [
  ("(", .symbol .openParen), (")", .symbol .closeParen), (",", .symbol .comma),
  (";", .symbol .semicolon), ("\\", .other "\\"), ("[", .other "["), ("]", .other "]"),
  ("\x7b", .other "\x7b"), ("\x7d", .other "\x7d"), ("+", .symbol .plus), ("*", .other "*"),
  ("->>", .other "->>"), ("->", .other "->"), ("-", .symbol .minus), ("/", .other "/"),
  ("%", .other "%"),
  ("||/", .other "||/"), ("||", .other "||"), ("|/", .other "|/"), ("|", .other "|"),
  ("=>", .other "=>"), ("==", .other "=="), ("=", .symbol .equals),
  ("!=", .other "<>"), ("!!", .other "!!"), ("!~~*", .other "!~~*"), ("!~~", .other "!~~"),
  ("!~*", .other "!~*"), ("!~", .other "!~"), ("!", .symbol .bang),
  ("<=>", .other "<=>"), ("<=", .other "<="), ("<>", .other "<>"), ("<<", .other "<<"),
  ("<@", .other "<@"), ("<", .other "<"),
  (">=", .other ">="), (">>", .other ">>"), (">", .other ">"),
  ("::", .other "::"), (":=", .other ":="), (":", .other ":"),
  ("&&", .other "&&"), ("&", .other "&"), ("^@", .other "^@"), ("^", .other "^"),
  ("~~*", .other "~~*"), ("~~", .other "~~"), ("~*", .other "~*"), ("~", .symbol .tilde),
  ("@>", .other "@>"), ("@?", .other "@?")]

/-- `c` can begin a bare word: a letter, `_`, `$`, `@`, any character from U+0080 to U+FFFF, or an
alphabetic character beyond. -/
def isWordStart (c : Char) : Bool :=
  c.isAlpha || c == '_' || c == '$' || c == '@' || (0x80 ≤ c.toNat && c.toNat ≤ 0xFFFF) ||
    Unicode.isHighAlphabetic c

/-- `c` can continue a bare word. -/
def isWordPart (c : Char) : Bool :=
  isWordStart c || c.isDigit

namespace Piece

/-- The bare word that begins with `lead` and goes on as far as it can. -/
def bareWord (lead cs : List Char) : Piece × List Char :=
  (⟨.word none (String.ofList (lead ++ cs.takeWhile isWordPart)), lead ++ cs.takeWhile isWordPart⟩,
    cs.dropWhile isWordPart)

/-- The literal whose opening quote is followed by `cs`. -/
def literal (o : Opening) (cs : List Char) : Except Unclosed (Piece × List Char) :=
  match Quoted.splitQuoted o.quote o.escapes cs with
  | some (body, rest) =>
    .ok (⟨.literal o.kind (String.ofList body), o.lead ++ o.quote :: body ++ [o.quote]⟩, rest)
  | none => .error ⟨.stringLiteral, o.lead⟩

/-- The literal with decoded escapes that begins with `mark` and a quote before `cs`. -/
def escapedLiteral (mark : Char) (cs : List Char) : Except Unclosed (Piece × List Char) :=
  match Quoted.readEscaped cs with
  | some e => .ok (⟨.literal .escaped (String.ofList e.body), mark :: '\'' :: e.source⟩, e.rest)
  | none => .error ⟨.escapedLiteral, []⟩

/-- The backtick quoted word whose opening backtick is followed by `cs`. -/
def quotedWord (cs : List Char) : Except Unclosed (Piece × List Char) :=
  match Quoted.splitQuoted '\x60' false cs with
  | some (body, rest) =>
    .ok (⟨.word (some '\x60') (String.ofList body), '\x60' :: body ++ ['\x60']⟩, rest)
  | none => .error ⟨.quotedWord, []⟩

/-- The number that `cs` begins with, the letter of a long number swallowed. Digits that continue
as a word are a word, and a lone point is punctuation. -/
def numeric (cs : List Char) : Piece × List Char :=
  let (value, rest) := Number.mantissa cs
  if value = ['.'] then (⟨.symbol .period, value⟩, rest)
  else
    match Number.exponent? rest with
    | some (power, rest) =>
      let number := value ++ power
      match rest with
      | 'L' :: rest => (⟨.number (String.ofList number), number ++ ['L']⟩, rest)
      | _ => (⟨.number (String.ofList number), number⟩, rest)
    | none =>
      let word := rest.takeWhile isWordPart
      if rest.head?.any Number.isExponentMark ∨ word = [] then
        (⟨.number (String.ofList value), value⟩, rest)
      else (⟨.word none (String.ofList (value ++ word)), value ++ word⟩, rest.dropWhile isWordPart)

/-- The hexadecimal literal whose lead `0x` is followed by `cs`; it may have no digits. -/
def hexNumber (cs : List Char) : Piece × List Char :=
  let body := cs.takeWhile Quoted.isHexDigit
  (⟨.literal .hex (String.ofList body), '0' :: 'x' :: body⟩, cs.dropWhile Quoted.isHexDigit)

/-- The comment at the front of a text that runs through the end of its line. -/
def lineComment (cs : List Char) : Piece × List Char :=
  match cs.dropWhile (· ≠ '\n') with
  | [] => (⟨.blank, cs⟩, [])
  | c :: rest => (⟨.blank, cs.takeWhile (· ≠ '\n') ++ [c]⟩, rest)

/-- Divide a text after the first end mark of a comment. -/
def splitComment : List Char → Option (List Char × List Char)
  | [] => none
  | [_] => none
  | c :: d :: cs =>
    if c = '*' ∧ d = '/' then some (['*', '/'], cs)
    else (splitComment (d :: cs)).map (Quoted.prependTo [c])

/-- The comment whose opening mark is followed by `cs`. -/
def blockComment (cs : List Char) : Except Unclosed (Piece × List Char) :=
  match splitComment cs with
  | some (body, rest) => .ok (⟨.blank, '/' :: '*' :: body⟩, rest)
  | none => .error ⟨.comment, '/' :: '*' :: cs⟩

/-- What begins with an at sign before `cs`: the sign alone, the sign doubled, or a word that takes
the next character whatever it is. -/
def atSign : List Char → Piece × List Char
  | [] => (⟨.other "@", ['@']⟩, [])
  | ['@'] => (⟨.other "@@", ['@', '@']⟩, [])
  | '@' :: c :: cs =>
    if c = ' ' then (⟨.other "@@", ['@', '@']⟩, c :: cs) else bareWord ['@', '@', c] cs
  | c :: cs =>
    if c = ' ' ∨ c = '\'' ∨ c = '"' ∨ c = '\x60' then (⟨.other "@", ['@']⟩, c :: cs)
    else bareWord ['@', c] cs

/-- The placeholder whose question mark is followed by `cs`. -/
def placeholder (cs : List Char) : Piece × List Char :=
  let source := '?' :: cs.takeWhile Unicode.isNumeric
  (⟨.other (String.ofList source), source⟩, cs.dropWhile Unicode.isNumeric)

/-- The piece at the front of `c :: cs` when no literal, number, comment or operator is there. -/
def loose (c : Char) (cs : List Char) : Piece × List Char :=
  if c = '@' then atSign cs
  else if c = '?' then placeholder cs
  else if isWordStart c then bareWord [c] cs
  else if Unicode.isBlank c then (⟨.blank, [c]⟩, cs)
  else (⟨.other (String.singleton c), [c]⟩, cs)

/-- The operator at the front of `c :: cs`, or else what else is there. -/
def operator (c : Char) (cs : List Char) : Piece × List Char :=
  match operators.find? (·.1.toList.isPrefixOf (c :: cs)) with
  | some (spelling, token) =>
    (⟨token, spelling.toList⟩, (c :: cs).drop spelling.toList.length)
  | none => loose c cs

/-- The piece at the front of `c :: cs` when nothing between quotes is there. -/
def unquoted (c : Char) (cs : List Char) : Except Unclosed (Piece × List Char) :=
  if c = '0' ∧ cs.head? = some 'x' then .ok (hexNumber cs.tail)
  else if c.isDigit ∨ c = '.' then .ok (numeric (c :: cs))
  else if c = '#' ∨ (c = '-' ∧ cs.head? = some '-') then .ok (lineComment (c :: cs))
  else if c = '/' ∧ cs.head? = some '*' then blockComment cs.tail
  else .ok (operator c cs)

/-- The piece at the front of the text `c :: cs`, and what follows it. -/
def read (c : Char) (cs : List Char) : Except Unclosed (Piece × List Char) :=
  match openings.find? (·.begins (c :: cs)) with
  | some o => literal o ((c :: cs).drop (o.lead.length + 1))
  | none =>
    if (c = 'e' ∨ c = 'E') ∧ cs.head? = some '\'' then escapedLiteral c cs.tail
    else if c = '\x60' then quotedWord cs
    else unquoted c cs

/-! ## A piece and the rest are what was given -/

/-- A bare word and the rest are its lead and what followed the lead. -/
theorem bareWord_append (lead cs : List Char) :
    (bareWord lead cs).1.source ++ (bareWord lead cs).2 = lead ++ cs := by
  simp [bareWord, List.takeWhile_append_dropWhile]

/-- A literal and the rest are its opening and what followed the opening. -/
theorem literal_append {o : Opening} {cs : List Char} {p : Piece} {rest : List Char}
    (h : literal o cs = .ok (p, rest)) : p.source ++ rest = o.lead ++ o.quote :: cs := by
  unfold literal at h
  split at h
  · rename_i body tail hsplit
    simp only [Except.ok.injEq, Prod.mk.injEq] at h
    obtain ⟨rfl, rfl⟩ := h
    simp [← Quoted.splitQuoted_eq hsplit]
  · simp at h

/-- A decoded literal and the rest are its opening and what followed the opening. -/
theorem escapedLiteral_append {mark : Char} {cs : List Char} {p : Piece} {rest : List Char}
    (h : escapedLiteral mark cs = .ok (p, rest)) : p.source ++ rest = mark :: '\'' :: cs := by
  grind [escapedLiteral, Quoted.readEscaped_eq]

/-- A quoted word and the rest are its backtick and what followed it. -/
theorem quotedWord_append {cs : List Char} {p : Piece} {rest : List Char}
    (h : quotedWord cs = .ok (p, rest)) : p.source ++ rest = '\x60' :: cs := by
  grind [quotedWord, Quoted.splitQuoted_eq]

/-- A number and the rest are what was given. -/
theorem numeric_append (cs : List Char) : (numeric cs).1.source ++ (numeric cs).2 = cs := by
  have hcs := Number.mantissa_append cs
  unfold numeric
  generalize Number.mantissa cs = m at hcs ⊢
  obtain ⟨value, rest⟩ := m
  subst hcs
  dsimp only
  split
  · rfl
  · split
    · rename_i power rest hpower
      rw [← Number.exponent?_append hpower]
      split <;> simp
    · split
      · rfl
      · simp [List.takeWhile_append_dropWhile]

/-- A hexadecimal number and the rest are its lead and what followed the lead. -/
theorem hexNumber_append (cs : List Char) :
    (hexNumber cs).1.source ++ (hexNumber cs).2 = '0' :: 'x' :: cs := by
  simp [hexNumber, List.takeWhile_append_dropWhile]

/-- A comment line and the rest are what was given. -/
theorem lineComment_append (cs : List Char) :
    (lineComment cs).1.source ++ (lineComment cs).2 = cs := by
  unfold lineComment
  split
  · simp
  · rename_i c rest h
    conv => rhs; rw [← List.takeWhile_append_dropWhile (p := (· ≠ '\n')) (l := cs), h]
    simp

/-- The body of a comment and the rest are what was given. -/
theorem splitComment_eq {cs body rest : List Char} (h : splitComment cs = some (body, rest)) :
    body ++ rest = cs := by
  fun_induction splitComment cs generalizing body rest <;>
    simp_all [Quoted.prependTo] <;> grind

/-- A comment and the rest are its opening and what followed the opening. -/
theorem blockComment_append {cs : List Char} {p : Piece} {rest : List Char}
    (h : blockComment cs = .ok (p, rest)) : p.source ++ rest = '/' :: '*' :: cs := by
  grind [blockComment, splitComment_eq]

/-- What an at sign begins and the rest are the sign and what followed it. -/
theorem atSign_append (cs : List Char) : (atSign cs).1.source ++ (atSign cs).2 = '@' :: cs := by
  unfold atSign
  split <;> try split
  all_goals simp [bareWord_append]

/-- A placeholder and the rest are its question mark and what followed it. -/
theorem placeholder_append (cs : List Char) :
    (placeholder cs).1.source ++ (placeholder cs).2 = '?' :: cs := by
  simp [placeholder, List.takeWhile_append_dropWhile]

/-- A prefix and what it leaves are the whole. -/
theorem append_drop_of_isPrefixOf {front cs : List Char} (h : front.isPrefixOf cs = true) :
    front ++ cs.drop front.length = cs := by
  obtain ⟨rest, rfl⟩ := List.isPrefixOf_iff_prefix.1 h
  simp

/-- The head and the tail of a text are the text. -/
theorem cons_tail_of_head? {d : Char} {cs : List Char} (h : cs.head? = some d) :
    d :: cs.tail = cs := by
  cases cs <;> simp_all

/-- What `loose` takes and the rest are what was given. -/
theorem loose_append (c : Char) (cs : List Char) :
    (loose c cs).1.source ++ (loose c cs).2 = c :: cs := by
  unfold loose
  split
  · subst c
    exact atSign_append cs
  · split
    · subst c
      exact placeholder_append cs
    · split
      · exact bareWord_append [c] cs
      · split <;> rfl

/-- What `operator` takes and the rest are what was given. -/
theorem operator_append (c : Char) (cs : List Char) :
    (operator c cs).1.source ++ (operator c cs).2 = c :: cs := by
  unfold operator
  split
  · rename_i spelling token hop
    exact append_drop_of_isPrefixOf (by simpa using List.find?_some hop)
  · exact loose_append c cs

/-- What `unquoted` takes and the rest are what was given. -/
theorem unquoted_append {c : Char} {cs : List Char} {p : Piece} {rest : List Char}
    (h : unquoted c cs = .ok (p, rest)) : p.source ++ rest = c :: cs := by
  unfold unquoted at h
  split at h
  · rename_i hx
    simp only [Except.ok.injEq] at h
    simpa [h, hx.1, cons_tail_of_head? hx.2] using hexNumber_append cs.tail
  · split at h
    · simp only [Except.ok.injEq] at h
      simpa [h] using numeric_append (c :: cs)
    · split at h
      · simp only [Except.ok.injEq] at h
        simpa [h] using lineComment_append (c :: cs)
      · split at h
        · rename_i hq
          rw [blockComment_append h, cons_tail_of_head? hq.2, hq.1]
        · simp only [Except.ok.injEq] at h
          simpa [h] using operator_append c cs

/-- A piece and what follows it are the text that was given. -/
theorem read_eq {c : Char} {cs : List Char} {p : Piece} {rest : List Char}
    (h : read c cs = .ok (p, rest)) : p.source ++ rest = c :: cs := by
  unfold read at h
  split at h
  · rename_i o ho
    have hbegins : (o.lead ++ [o.quote]).isPrefixOf (c :: cs) = true := by
      simpa [Opening.begins] using List.find?_some ho
    rw [literal_append h]
    simpa using append_drop_of_isPrefixOf hbegins
  · split at h
    · rename_i hq
      rw [escapedLiteral_append h, cons_tail_of_head? hq.2]
    · split at h
      · rename_i hq
        rw [quotedWord_append h, hq]
      · exact unquoted_append h

/-! ## A piece covers at least one character -/

/-- A literal covers at least one character. -/
theorem literal_source_ne_nil {o : Opening} {cs : List Char} {p : Piece}
    {rest : List Char} (h : literal o cs = .ok (p, rest)) : p.source ≠ [] := by
  unfold literal at h
  split at h
  · simp only [Except.ok.injEq, Prod.mk.injEq] at h
    simp [← h.1]
  · simp at h

/-- A decoded literal covers at least one character. -/
theorem escapedLiteral_source_ne_nil {mark : Char} {cs : List Char} {p : Piece}
    {rest : List Char} (h : escapedLiteral mark cs = .ok (p, rest)) : p.source ≠ [] := by
  grind [escapedLiteral]

/-- A quoted word covers at least one character. -/
theorem quotedWord_source_ne_nil {cs : List Char} {p : Piece}
    {rest : List Char} (h : quotedWord cs = .ok (p, rest)) : p.source ≠ [] := by
  grind [quotedWord]

/-- A comment covers at least one character. -/
theorem blockComment_source_ne_nil {cs : List Char} {p : Piece}
    {rest : List Char} (h : blockComment cs = .ok (p, rest)) : p.source ≠ [] := by
  grind [blockComment]

/-- A number covers at least one character. -/
theorem numeric_source_ne_nil {c : Char} (cs : List Char) (h : c.isDigit ∨ c = '.') :
    (numeric (c :: cs)).1.source ≠ [] := by
  have hvalue := Number.mantissa_ne_nil cs h
  unfold numeric
  generalize Number.mantissa (c :: cs) = m at hvalue ⊢
  obtain ⟨value, rest⟩ := m
  dsimp only at hvalue ⊢
  split
  · exact hvalue
  · split
    · split <;> simp [hvalue]
    · split <;> simp [hvalue]

/-- A comment line covers at least one character. -/
theorem lineComment_source_ne_nil (c : Char) (cs : List Char) :
    (lineComment (c :: cs)).1.source ≠ [] := by
  unfold lineComment
  split <;> simp

/-- What an at sign begins covers at least the sign. -/
theorem atSign_source_ne_nil (cs : List Char) : (atSign cs).1.source ≠ [] := by
  unfold atSign
  split <;> try split
  all_goals simp [bareWord]

/-- Every operator is written with at least one character. -/
theorem operators_ne_nil : ∀ op ∈ operators, op.1.toList ≠ [] := by
  simp [operators]

/-- What `loose` takes is at least one character. -/
theorem loose_source_ne_nil (c : Char) (cs : List Char) : (loose c cs).1.source ≠ [] := by
  unfold loose
  split
  · exact atSign_source_ne_nil cs
  · split
    · simp [placeholder]
    · split
      · simp [bareWord]
      · split <;> simp

/-- What `operator` takes is at least one character. -/
theorem operator_source_ne_nil (c : Char) (cs : List Char) : (operator c cs).1.source ≠ [] := by
  unfold operator
  split
  · rename_i spelling token hop
    exact operators_ne_nil _ (List.mem_of_find?_eq_some hop)
  · exact loose_source_ne_nil c cs

/-- What `unquoted` takes is at least one character. -/
theorem unquoted_source_ne_nil {c : Char} {cs : List Char} {p : Piece} {rest : List Char}
    (h : unquoted c cs = .ok (p, rest)) : p.source ≠ [] := by
  unfold unquoted at h
  split at h
  · simp only [hexNumber, Except.ok.injEq, Prod.mk.injEq] at h
    simp [← h.1]
  · split at h
    · rename_i hc
      simp only [Except.ok.injEq] at h
      simpa [h] using numeric_source_ne_nil cs hc
    · split at h
      · simp only [Except.ok.injEq] at h
        simpa [h] using lineComment_source_ne_nil c cs
      · split at h
        · exact blockComment_source_ne_nil h
        · simp only [Except.ok.injEq] at h
          simpa [h] using operator_source_ne_nil c cs

/-- A piece covers at least one character. -/
theorem source_ne_nil_of_read {c : Char} {cs : List Char} {p : Piece} {rest : List Char}
    (h : read c cs = .ok (p, rest)) : p.source ≠ [] := by
  unfold read at h
  split at h
  · exact literal_source_ne_nil h
  · split at h
    · exact escapedLiteral_source_ne_nil h
    · split at h
      · exact quotedWord_source_ne_nil h
      · exact unquoted_source_ne_nil h

/-- Divide a text into pieces. -/
def readAll : List Char → Except Unclosed (List Piece)
  | [] => .ok []
  | c :: cs =>
    match _hread : read c cs with
    | .error e => .error e
    | .ok (p, rest) =>
      match readAll rest with
      | .error e => .error { e with before := p.source ++ e.before }
      | .ok pieces => .ok (p :: pieces)
termination_by cs => cs.length
decreasing_by
  rw [← read_eq _hread, List.length_append]
  have := List.length_pos_iff.2 (source_ne_nil_of_read _hread)
  omega

end Piece

end TableSchema
