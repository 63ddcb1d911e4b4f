/-!
# Comparison without regard to case

Words of the language that are not keywords are compared letter by letter of ASCII; characters
outside ASCII match only themselves.
-/

namespace TableSchema.Text

/-- Two texts are equal up to the case of ASCII letters. -/
def sameAscii (s t : String) : Bool :=
  s.toList.map Char.toLower == t.toList.map Char.toLower

end TableSchema.Text
