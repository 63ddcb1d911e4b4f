import TableSchema.Text.Strip

/-!
# Characters that are taken out

A replacement of a single character by nothing takes this character out, so the replacements that
clean a text, made one after the other, leave the text without a class of characters.

## Main definitions

* `Text.without`: a text without the characters of a class;
* `Text.isLineBreak`, `Text.isControl`: the classes that are taken out.

## Main results

* `Text.replace_singleton`: a character is taken out;
* `Text.cleanIdentifier_eq_without`, `Text.replaceAll_lineBreakRemovals`: what is left of a text.
-/

namespace TableSchema.Text

/-- The text without any member of `p`. -/
def without (p : Char → Bool) (s : String) : String :=
  String.ofList (s.toList.filter fun c => !p c)

/-- A character that ends a line. -/
def isLineBreak (c : Char) : Bool :=
  c == '\r' || c == '\n'

/-- A control character that a name cannot keep: a line break or a tab. -/
def isControl (c : Char) : Bool :=
  isLineBreak c || c == '\t'

/-- What is left when each occurrence of a character is replaced by nothing. -/
theorem replaceChars_singleton (c : Char) (cs : List Char) :
    replaceChars [c] [] 0 cs = cs.filter fun d => !(d == c) := by
  induction cs with
  | nil => rfl
  | cons d cs ih =>
    -- An occurrence is the character itself, so nothing behind it is passed over.
    by_cases h : c = d
    · subst h
      simpa [replaceChars] using ih
    · have hdc : (d == c) = false := beq_false_of_ne (Ne.symm h)
      simpa [replaceChars, h, hdc] using ih

/-- A character that is replaced by nothing is taken out. -/
theorem replace_singleton (c : Char) (s : String) :
    replace s (String.singleton c) "" = without (· == c) s := by
  have hc : (String.singleton c).toList = [c] := by simp
  rw [replace, hc, if_neg (List.cons_ne_nil c []), String.toList_empty, replaceChars_singleton]
  rfl

/-- Two classes that are taken out one after the other. -/
theorem without_without (p q : Char → Bool) (s : String) :
    without q (without p s) = without (fun c => p c || q c) s := by
  simp only [without, String.toList_ofList, List.filter_filter, Bool.not_or, Bool.and_comm]

/-- What is left without the characters that end a line. -/
theorem replaceAll_lineBreakRemovals (s : String) :
    replaceAll s lineBreakRemovals = without isLineBreak s :=
  calc replaceAll s lineBreakRemovals
    _ = replace (replace s (String.singleton '\r') "") (String.singleton '\n') "" := rfl
    _ = without (· == '\n') (without (· == '\r') s) := by
      rw [replace_singleton, replace_singleton]
    _ = without isLineBreak s := without_without _ _ s

/-- An identifier is cleaned by taking the quotation marks off its ends and the control characters
out. -/
theorem cleanIdentifier_eq_without (s : String) :
    cleanIdentifier s = without isControl (stripQuotes s) :=
  calc cleanIdentifier s
    _ = replace (replaceAll (stripQuotes s) lineBreakRemovals) (String.singleton '\t') "" := rfl
    _ = without (· == '\t') (without isLineBreak (stripQuotes s)) := by
      rw [replaceAll_lineBreakRemovals, replace_singleton]
    _ = without isControl (stripQuotes s) := without_without _ _ _

/-- The characters of a cleaned identifier. -/
theorem toList_cleanIdentifier (s : String) :
    (cleanIdentifier s).toList = (stripQuotes s).toList.filter fun c => !isControl c := by
  rw [cleanIdentifier_eq_without, without, String.toList_ofList]

end TableSchema.Text
