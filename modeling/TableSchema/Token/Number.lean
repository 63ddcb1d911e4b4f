/-!
# Numbers

The longest decimal number at the front of a text: digits with at most one point among them, and
an exponent if a digit follows its letter and sign. The letter `E` that begins no exponent stays
behind. Numbers such as `0x1F` have no point and no exponent.
-/

namespace TableSchema.Number

/-- A run of digits with the rest of the text. -/
def digits (cs : List Char) : List Char × List Char :=
  (cs.takeWhile Char.isDigit, cs.dropWhile Char.isDigit)

/-- A point, if the text begins with one. -/
def point : List Char → List Char × List Char
  | '.' :: cs => (['.'], cs)
  | cs => ([], cs)

/-- Digits with at most one point before, after or among them. -/
def mantissa (cs : List Char) : List Char × List Char :=
  let (whole, rest) := digits cs
  let (dot, rest) := point rest
  let (fraction, rest) := digits rest
  (whole ++ dot ++ fraction, rest)

/-- `c` announces an exponent. -/
def isExponentMark (c : Char) : Bool :=
  c == 'e' || c == 'E'

/-- A sign, if the text begins with one. -/
def sign : List Char → List Char × List Char
  | [] => ([], [])
  | c :: cs => if c = '+' ∨ c = '-' then ([c], cs) else ([], c :: cs)

/-- The exponent at the front of a text: its letter, perhaps a sign, and at least one digit. -/
def exponent? : List Char → Option (List Char × List Char)
  | [] => none
  | e :: cs =>
    let (mark, rest) := sign cs
    let (power, rest) := digits rest
    if isExponentMark e ∧ power ≠ [] then some (e :: mark ++ power, rest) else none

/-- Taking digits loses nothing. -/
theorem digits_append (cs : List Char) : (digits cs).1 ++ (digits cs).2 = cs :=
  List.takeWhile_append_dropWhile

/-- Taking a point loses nothing. -/
theorem point_append (cs : List Char) : (point cs).1 ++ (point cs).2 = cs := by
  unfold point
  split <;> simp

/-- Taking a sign loses nothing. -/
theorem sign_append (cs : List Char) : (sign cs).1 ++ (sign cs).2 = cs := by
  unfold sign
  split
  · simp
  · split <;> simp

/-- Taking a mantissa loses nothing. -/
theorem mantissa_append (cs : List Char) : (mantissa cs).1 ++ (mantissa cs).2 = cs := by
  simp only [mantissa, List.append_assoc, digits_append, point_append]

/-- What begins with a digit or a point has a mantissa. -/
theorem mantissa_ne_nil {c : Char} (cs : List Char) (h : c.isDigit ∨ c = '.') :
    (mantissa (c :: cs)).1 ≠ [] := by
  rcases h with h | rfl
  · simp [mantissa, digits, h]
  · simp [mantissa, digits, point, show Char.isDigit '.' = false from rfl]

/-- Taking an exponent loses nothing. -/
theorem exponent?_append {cs power rest : List Char} (h : exponent? cs = some (power, rest)) :
    power ++ rest = cs := by
  cases cs with
  | nil => simp [exponent?] at h
  | cons e cs =>
    simp only [exponent?, Option.ite_none_right_eq_some, Option.some.injEq, Prod.mk.injEq] at h
    obtain ⟨-, rfl, rfl⟩ := h
    simp [digits_append, sign_append]

end TableSchema.Number
