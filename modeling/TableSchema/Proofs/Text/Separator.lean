import Mathlib.Data.List.Infix
import TableSchema.Text.Replace

/-!
# Behind the last separator

What stands behind the last occurrence of a separator is an end of the text in which the separator
does not occur again. Occurrences may share characters, so it is the place of the last one that
counts, not how the text would be divided from the left.

## Main results

* `Text.afterLastChars?_eq_none_iff`: nothing is found exactly if the separator does not occur;
* `Text.afterLastChars?_append`: what is found in a text that is put together;
* `Text.afterLast_suffix`, `Text.not_infix_afterLast`, `Text.afterLast_of_not_infix`: what is left
  of any text.
-/

namespace TableSchema.Text

variable {separator cs tail : List Char}

/-- What follows the last occurrence of a separator is the end of the text. -/
theorem afterLastChars?_suffix (h : afterLastChars? separator cs = some tail) : tail <:+ cs := by
  induction cs with
  | nil => exact nomatch h
  | cons c cs ih =>
    unfold afterLastChars? at h
    split at h
    · rename_i other hother
      obtain rfl := Option.some.inj h
      exact (ih hother).trans (List.suffix_cons c cs)
    · split at h
      · obtain rfl := Option.some.inj h
        exact List.drop_suffix _ _
      · exact nomatch h

/-- Nothing follows a separator exactly if it does not occur. -/
theorem afterLastChars?_eq_none_iff (hne : separator ≠ []) :
    afterLastChars? separator cs = none ↔ ¬ separator <:+: cs := by
  induction cs with
  | nil => simpa [afterLastChars?] using hne
  | cons c cs ih =>
    -- An occurrence begins at the first character or behind it.
    rw [List.infix_cons_iff, not_or, ← ih, ← List.isPrefixOf_iff_prefix, afterLastChars?]
    cases hcs : afterLastChars? separator cs with
    | some tail => simp
    | none => simp

/-- The separator does not occur behind its last occurrence. -/
theorem not_infix_of_afterLastChars? (hne : separator ≠ [])
    (h : afterLastChars? separator cs = some tail) : ¬ separator <:+: tail := by
  induction cs with
  | nil => exact nomatch h
  | cons c cs ih =>
    unfold afterLastChars? at h
    split at h
    · rename_i other hother
      exact ih (hother.trans h)
    · rename_i hnone
      split at h
      · -- What follows the first character has no occurrence, and the tail is an end of it.
        obtain rfl := Option.some.inj h
        obtain ⟨d, separator, rfl⟩ := List.exists_cons_of_ne_nil hne
        rw [List.length_cons, List.drop_succ_cons]
        intro hinfix
        refine (afterLastChars?_eq_none_iff hne).1 hnone ?_
        exact hinfix.trans (List.drop_suffix _ cs).isInfix
      · exact nomatch h

/-- The last occurrence of a separator is found, whatever stands in front of it. -/
theorem afterLastChars?_append (front : List Char) (hne : separator ≠ [])
    (h : ¬ separator <:+: separator.tail ++ tail) :
    afterLastChars? separator (front ++ (separator ++ tail)) = some tail := by
  induction front with
  | nil =>
    obtain ⟨d, rest, rfl⟩ := List.exists_cons_of_ne_nil hne
    have hnone : afterLastChars? (d :: rest) (rest ++ tail) = none :=
      (afterLastChars?_eq_none_iff hne).2 h
    have hfront : (d :: rest).isPrefixOf (d :: (rest ++ tail)) = true :=
      List.isPrefixOf_iff_prefix.2 (List.prefix_append (d :: rest) tail)
    rw [List.nil_append, List.cons_append, afterLastChars?, hnone]
    simp [hfront]
  | cons c front ih => rw [List.cons_append, afterLastChars?, ih]

/-- What follows the last separator is an end of the text. -/
theorem afterLast_suffix (separator s : String) : (afterLast separator s).toList <:+ s.toList := by
  unfold afterLast
  split
  · rename_i tail htail
    rw [String.toList_ofList]
    exact afterLastChars?_suffix htail
  · exact List.suffix_refl _

/-- The separator does not occur in what follows its last occurrence, nor in a text in which it does
not occur at all. -/
theorem not_infix_afterLast {separator : String} (hne : separator ≠ "") (s : String) :
    ¬ separator.toList <:+: (afterLast separator s).toList := by
  have hchars : separator.toList ≠ [] := mt String.toList_eq_nil_iff.1 hne
  unfold afterLast
  split
  · rename_i tail htail
    rw [String.toList_ofList]
    exact not_infix_of_afterLastChars? hchars htail
  · rename_i hnone
    exact (afterLastChars?_eq_none_iff hchars).1 hnone

/-- A text in which the separator does not occur is left as it is. -/
theorem afterLast_of_not_infix {separator s : String} (hne : separator ≠ "")
    (h : ¬ separator.toList <:+: s.toList) : afterLast separator s = s := by
  rw [afterLast, (afterLastChars?_eq_none_iff (mt String.toList_eq_nil_iff.1 hne)).2 h]

end TableSchema.Text
