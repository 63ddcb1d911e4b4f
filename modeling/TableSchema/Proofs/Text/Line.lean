import Mathlib.Algebra.Ring.Nat
import TableSchema.Column.Resolve
import TableSchema.Proofs.Text.Separator
import TableSchema.Proofs.Text.Strip
import TableSchema.Table.Basic

/-!
# The ends of lines

How many lines a text ends. Texts that are joined end the lines that each of them ends. Names and
comments are kept without line breaks, and the name of a table without the name of its database ends
no line if the whole name ends none.

## Main definitions

* `Text.lineEnds`: how many lines a text ends;
* `Text.EndsLines`: every line of a text is ended.
-/

namespace TableSchema.Text

/-- How many lines a text ends. -/
def lineEnds (s : String) : Nat :=
  s.toList.count '\n'

@[simp]
theorem lineEnds_empty : lineEnds "" = 0 := rfl

@[simp]
theorem lineEnds_append (s t : String) : lineEnds (s ++ t) = lineEnds s + lineEnds t := by
  simp [lineEnds, List.count_append]

/-- A separator that ends no line adds none. -/
theorem lineEnds_intercalate {separator : String} (h : lineEnds separator = 0)
    (texts : List String) :
    lineEnds (separator.intercalate texts) = (texts.map lineEnds).sum := by
  induction texts with
  | nil => rfl
  | cons text texts ih =>
    cases texts with
    | nil => simp
    | cons other texts =>
      rw [String.intercalate_cons_cons, lineEnds_append, lineEnds_append, h, ih, Nat.add_zero]
      rfl

/-- Every line of the text is ended: if anything stands at its end, then the end of a line. -/
def EndsLines (s : String) : Prop :=
  ∀ c ∈ s.toList.getLast?, c = '\n'

namespace EndsLines

theorem empty : EndsLines "" :=
  nofun

/-- The end of a line ends the last line, whatever stands before it. -/
theorem append_newline (s : String) : EndsLines (s ++ "\n") := by
  simp [EndsLines]

/-- Texts that end their lines may be joined. -/
theorem append {s t : String} (hs : EndsLines s) (ht : EndsLines t) : EndsLines (s ++ t) := by
  intro c hc
  rw [String.toList_append, List.getLast?_append] at hc
  cases hlast : t.toList.getLast? with
  | none => exact hs c (by rwa [hlast, Option.none_or] at hc)
  | some d => exact ht c (by rwa [hlast, Option.some_or, ← hlast] at hc)

/-- Any number of texts that end their lines may be joined. -/
theorem join {texts : List String} (h : ∀ text ∈ texts, EndsLines text) :
    EndsLines (String.join texts) := by
  induction texts with
  | nil => exact .empty
  | cons text texts ih =>
    obtain ⟨htext, htexts⟩ := List.forall_mem_cons.1 h
    rw [String.join_cons]
    exact htext.append (ih htexts)

end EndsLines

/-- Quotation marks end no line, so stripping them changes nothing. -/
theorem lineEnds_stripQuotes (s : String) : lineEnds (stripQuotes s) = lineEnds s := by
  unfold lineEnds stripQuotes strip
  rw [String.toList_ofList, count_stripChars (by decide)]

/-- A text without line breaks ends no line. -/
theorem lineEnds_without {p : Char → Bool} (h : p '\n' = true) (s : String) :
    lineEnds (without p s) = 0 := by
  unfold lineEnds
  rw [List.count_eq_zero]
  intro hmem
  simpa [h] using of_mem_without hmem

@[simp]
theorem lineEnds_cleanIdentifier (s : String) : lineEnds (cleanIdentifier s) = 0 := by
  rw [cleanIdentifier_eq_without, lineEnds_without rfl]

/-- What follows the last occurrence of a separator ends no more lines than the text. -/
theorem lineEnds_afterLast_le (separator s : String) :
    lineEnds (afterLast separator s) ≤ lineEnds s :=
  (afterLast_suffix separator s).sublist.count_le '\n'

end TableSchema.Text

namespace TableSchema

open Text

/-- A comment ends no line. -/
@[simp]
theorem lineEnds_commentOfLiteral (literal : String) : lineEnds (commentOfLiteral literal) = 0 := by
  rw [commentOfLiteral, replaceAll_lineBreakRemovals, lineEnds_without rfl]

/-- The name of a table without that of its database ends no line if the whole name does not. -/
theorem lineEnds_unqualifiedName {name : String} (h : lineEnds name = 0) :
    lineEnds (unqualifiedName name) = 0 := by
  have hle := lineEnds_afterLast_le qualifierMark name
  unfold unqualifiedName
  omega

end TableSchema
