/-!
# Quoted bodies

What stands between two quotes. A plain body is kept as it is written, and a quote written twice
belongs to it (`splitQuoted`). A body with escapes is decoded while it is read (`readEscaped`).
Both give the characters after the closing quote, or nothing when the closing quote is missing.
-/

namespace TableSchema.Quoted

/-- A character before a body. -/
def prependTo (cs : List Char) : List Char × List Char → List Char × List Char :=
  fun (body, rest) => (cs ++ body, rest)

/-- Divide what follows an opening `quote` into the body and what follows the closing quote. With
`escapes`, a backslash keeps the character after it from closing the body. -/
def splitQuoted (quote : Char) (escapes : Bool) : List Char → Option (List Char × List Char)
  | [] => none
  | [c] => if c = quote then some ([], []) else none
  | c :: d :: cs =>
    if c = quote then
      if d = quote then (splitQuoted quote escapes cs).map (prependTo [c, d])
      else some ([], d :: cs)
    else if escapes && c == '\\' then (splitQuoted quote escapes cs).map (prependTo [c, d])
    else (splitQuoted quote escapes (d :: cs)).map (prependTo [c])

/-- The value of a hexadecimal digit. -/
def hexValue? (c : Char) : Option Nat :=
  if '0' ≤ c ∧ c ≤ '9' then some (c.toNat - '0'.toNat)
  else if 'a' ≤ c ∧ c ≤ 'f' then some (c.toNat - 'a'.toNat + 10)
  else if 'A' ≤ c ∧ c ≤ 'F' then some (c.toNat - 'A'.toNat + 10)
  else none

/-- `c` is a hexadecimal digit. -/
def isHexDigit (c : Char) : Bool :=
  (hexValue? c).isSome

/-- `c` is an octal digit. -/
def isOctalDigit (c : Char) : Bool :=
  '0' ≤ c && c ≤ '7'

/-- The number that digits denote in a base of at most 16. -/
def ofDigits (base : Nat) (digits : List Char) : Nat :=
  digits.foldl (fun value c => base * value + (hexValue? c).getD 0) 0

/-- The character with a code point, if there is one and it is not the null character. -/
def charOfCode? (code : Nat) : Option Char :=
  if code ≠ 0 ∧ code.isValidChar then some (Char.ofNat code) else none

/-- The ASCII character that a number denotes modulo 256. -/
def charOfByte? (value : Nat) : Option Char :=
  if value % 256 ≤ 127 then charOfCode? (value % 256) else none

/-- The character with a code point written in hexadecimal digits, perhaps after a plus sign. -/
def charOfHex? (digits : List Char) : Option Char :=
  let digits := match digits with
    | '+' :: tail => tail
    | _ => digits
  if digits.all isHexDigit then charOfCode? (ofDigits 16 digits) else none

/-- Decode an escape whose backslash is followed by `c` and then `cs`: the character it denotes,
and how many characters of `cs` belong to it. -/
def escape? (c : Char) (cs : List Char) : Option (Char × Nat) :=
  if c = 'b' then some ('\x08', 0)
  else if c = 'f' then some ('\x0c', 0)
  else if c = 'n' then some ('\n', 0)
  else if c = 'r' then some ('\r', 0)
  else if c = 't' then some ('\t', 0)
  else if c = 'u' then codePoint? 4
  else if c = 'U' then codePoint? 8
  else if c = 'x' then
    let digits := (cs.take 2).takeWhile isHexDigit
    if digits = [] then some ('x', 0)
    else (charOfByte? (ofDigits 16 digits)).map (·, digits.length)
  else if isOctalDigit c then
    let digits := (cs.take 2).takeWhile isOctalDigit
    (charOfByte? (ofDigits 8 (c :: digits))).map (·, digits.length)
  else (charOfCode? c.toNat).map (·, 0)
where
  /-- A code point in exactly `width` characters. -/
  codePoint? (width : Nat) : Option (Char × Nat) :=
    if width ≤ cs.length then (charOfHex? (cs.take width)).map (·, width) else none

/-- A decoded body: its characters, the characters it was written with up to the closing quote
and with it, and what follows. -/
structure Escaped where
  /-- The characters that the body denotes. -/
  body : List Char
  /-- The characters read. -/
  source : List Char
  /-- What follows the closing quote. -/
  rest : List Char

/-- A decoded character, written as `source`, before a body. -/
def Escaped.cons (c : Char) (source : List Char) (e : Escaped) : Escaped :=
  { e with body := c :: e.body, source := source ++ e.source }

/-- Decode what follows an opening single quote. A null character, a code that is no character and
a missing closing quote are all refused. -/
def readEscaped : List Char → Option Escaped
  | [] => none
  | ['\''] => some ⟨[], ['\''], []⟩
  | '\'' :: '\'' :: cs => (readEscaped cs).map (·.cons '\'' ['\'', '\''])
  | '\'' :: cs => some ⟨[], ['\''], cs⟩
  | ['\\'] => none
  | '\\' :: c :: cs =>
    match escape? c cs with
    | none => none
    | some (d, n) => (readEscaped (cs.drop n)).map (·.cons d ('\\' :: c :: cs.take n))
  | c :: cs => (readEscaped cs).map (·.cons c [c])
termination_by cs => cs.length
decreasing_by
  all_goals simp only [List.length_cons, List.length_drop]; omega

/-- A body and what follows its closing quote are what was read. -/
theorem splitQuoted_eq {quote : Char} {escapes : Bool} {cs body rest : List Char}
    (h : splitQuoted quote escapes cs = some (body, rest)) : body ++ quote :: rest = cs := by
  fun_induction splitQuoted quote escapes cs generalizing body rest <;>
    simp_all [prependTo, Option.map_eq_some_iff] <;> grind

/-- The characters read and the rest are what was given. -/
theorem readEscaped_eq {cs : List Char} {e : Escaped} (h : readEscaped cs = some e) :
    e.source ++ e.rest = cs := by
  fun_induction readEscaped cs generalizing e <;>
    simp_all [Escaped.cons, Option.map_eq_some_iff] <;>
    grind [List.take_append_drop]

end TableSchema.Quoted
