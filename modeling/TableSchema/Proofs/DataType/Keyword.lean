import TableSchema.DataType.Declaration
import TableSchema.Proofs.Text.Case
import TableSchema.Proofs.Token.Reading

/-!
# Type words

The type word that a word is. The spellings of the type words are plain words in upper case, and
each of them is its own type word; a word is a type word exactly if it equals the spelling up to the
case of ASCII letters, and then the spelling is its upper case.

## Main results

* `TypeKeyword.ofWord?_eq_some_iff`: when a word is a type word;
* `TypeKeyword.upper_eq_spelling`: the upper case of such a word.
-/

namespace TableSchema.TypeKeyword

/-- Type words are spelled in upper case. -/
theorem isSpelling_spelling (k : TypeKeyword) : Text.IsSpelling k.spelling := by
  cases k <;> decide +kernel

/-- Type words are spelled with letters and digits. -/
theorem isPlainWord_spelling (k : TypeKeyword) : Piece.IsPlainWord k.spelling := by
  cases k <;> decide +kernel

/-- There are no other type words than those of the list. -/
theorem mem_all (k : TypeKeyword) : k ∈ all := by
  cases k <;> decide

/-- The spelling of a type word is that type word. -/
@[simp]
theorem ofWord?_spelling (k : TypeKeyword) : ofWord? k.spelling = some k := by
  have hall : ∀ k ∈ all, ofWord? k.spelling = some k := by decide +kernel
  exact hall k k.mem_all

/-- A word is a type word exactly if it equals its spelling up to the case of ASCII letters. -/
theorem ofWord?_eq_some_iff {word : String} {k : TypeKeyword} :
    ofWord? word = some k ↔ Text.sameAscii word k.spelling = true := by
  have hlower : ∀ s, Text.sameAscii s word = true ↔
      word.toList.map Char.toLower = s.toList.map Char.toLower := by
    intro s
    rw [Text.sameAscii, beq_iff_eq, eq_comm]
  rw [Text.sameAscii, beq_iff_eq]
  constructor
  · intro h
    rw [ofWord?] at h
    have hfound := List.find?_some h
    exact (hlower _).1 hfound
  · intro h
    -- The search looks only at the lower case, which the word shares with the spelling.
    have hsame : ∀ s, Text.sameAscii s word = Text.sameAscii s k.spelling := by
      intro s
      rw [Text.sameAscii, Text.sameAscii, h]
    have hword : ofWord? word = ofWord? k.spelling := by
      simp only [ofWord?, hsame]
    rw [hword, ofWord?_spelling]

/-- The upper case of a word that is a type word is the spelling of that type word. -/
theorem upper_eq_spelling {word : String} {k : TypeKeyword} (h : ofWord? word = some k) :
    Unicode.upper word = k.spelling :=
  Text.upper_eq_of_sameAscii (ofWord?_eq_some_iff.1 h) k.isSpelling_spelling

end TableSchema.TypeKeyword
