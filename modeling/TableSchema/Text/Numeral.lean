import TableSchema.Text.Strip
import TableSchema.Unicode.Blank

/-!
# Bounded decimal numerals

A length is a decimal numeral of at most 32 bits. White space around it and one leading plus sign
are accepted, leading zeros too; a minus sign is not. The characters are read from the left, and
the first fault met decides the error.
-/

namespace TableSchema.Text

/-- Why a text is no numeral in range. -/
inductive NumeralError
  /-- There is nothing to read. -/
  | empty
  /-- A character is not a digit, or a sign stands alone. -/
  | invalidDigit
  /-- The value is out of range. -/
  | tooLarge
deriving DecidableEq, Repr

/-- The wording of the error. -/
def NumeralError.message : NumeralError → String
  | .empty => "cannot parse integer from empty string"
  | .invalidDigit => "invalid digit found in string"
  | .tooLarge => "number too large to fit in target type"

/-- The value of a digit of the base, if `c` is one. -/
def digitValue? (c : Char) : Option Nat :=
  if c.isDigit then some (c.toNat - '0'.toNat) else none

/-- Continue a numeral whose value so far is `value`. -/
def readDigits (limit value : Nat) : List Char → Except NumeralError Nat
  | [] => .ok value
  | c :: cs =>
    match digitValue? c with
    | none => .error .invalidDigit
    | some digit =>
      if 10 * value + digit ≤ limit then readDigits limit (10 * value + digit) cs
      else .error .tooLarge

/-- The value of an unsigned decimal numeral of at most `limit`. -/
def readNumeralChars (limit : Nat) : List Char → Except NumeralError Nat
  | [] => .error .empty
  | [c] => if c = '+' then .error .invalidDigit else readDigits limit 0 [c]
  | c :: cs => if c = '+' then readDigits limit 0 cs else readDigits limit 0 (c :: cs)

/-- The largest length that a data type can carry. -/
def lengthLimit : Nat := 4294967295

/-- The length that a text denotes, white space around it ignored. -/
def readLength (s : String) : Except NumeralError Nat :=
  readNumeralChars lengthLimit (stripChars Unicode.isBlank s.toList)

end TableSchema.Text
