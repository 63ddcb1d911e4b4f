import Mathlib.Data.List.Infix
import TableSchema.Proofs.Token.Written

/-!
# What stands between tokens

White space and comments may stand in front of every text, in any number and any order: the tokens
are those of the text. A comment that ends with its line needs the end of that line, and a comment
between marks ends at the first mark of its end.

## Main definitions

* `Token.Gap`: white space and comments.

## Main results

* `Token.Gap.reads`: a gap in front of a text adds no token.
-/

namespace TableSchema

namespace Piece

variable {body cs rest : List Char}

/-- A comment ends at the first mark of its end. -/
theorem splitComment_append (h : ¬ ['*', '/'] <:+: body) :
    splitComment (body ++ '*' :: '/' :: rest) = some (body ++ ['*', '/'], rest) := by
  induction body with
  | nil => simp [splitComment]
  | cons c body ih =>
    rw [List.infix_cons_iff, not_or] at h
    -- The mark does not begin at `c`, whether the body goes on behind it or not.
    obtain ⟨d, tail, htail, hmark⟩ : ∃ d tail, body ++ '*' :: '/' :: rest = d :: tail ∧
        ¬ (c = '*' ∧ d = '/') := by
      cases body with
      | nil => exact ⟨'*', '/' :: rest, rfl, by simp⟩
      | cons d body =>
        refine ⟨d, body ++ '*' :: '/' :: rest, rfl, ?_⟩
        rintro ⟨rfl, rfl⟩
        exact h.1 (List.prefix_append ['*', '/'] body)
    rw [List.cons_append, htail, splitComment, if_neg hmark, ← htail, ih h.2]
    rfl

/-- A comment between marks is read as a whole, whatever follows it. -/
theorem read_blockComment (h : ¬ ['*', '/'] <:+: body) (rest : List Char) :
    read '/' ('*' :: (body ++ '*' :: '/' :: rest)) =
      .ok (⟨.blank, '/' :: '*' :: (body ++ ['*', '/'])⟩, rest) := by
  have hquotes : Unquoted '/' ('*' :: (body ++ '*' :: '/' :: rest)) :=
    .of_head (by decide) fun h => absurd h (by decide)
  rw [hquotes.read_eq, unquoted, if_neg (by simp), if_neg (by decide), if_neg (by simp),
    if_pos ⟨rfl, rfl⟩, List.tail_cons, blockComment, splitComment_append h]

/-- A comment that ends with its line is taken with the end of the line. -/
theorem lineComment_eq (h : '\n' ∉ body) (rest : List Char) :
    lineComment (body ++ '\n' :: rest) = (⟨.blank, body ++ ['\n']⟩, rest) := by
  have hbody : ∀ c ∈ body, decide (c ≠ '\n') = true := by
    intro c hc
    rw [decide_eq_true_iff]
    rintro rfl
    exact h hc
  have hend : ∀ c ∈ ('\n' :: rest).head?, decide (c ≠ '\n') = false := by simp
  have htake := Number.takeWhile_append_of_ends hbody hend
  have hdrop := Number.dropWhile_append_of_ends hbody hend
  rw [lineComment, hdrop, htake]

/-- The marks that begin a comment that ends with its line. -/
def lineMarks : List (List Char) :=
  [['#'], ['-', '-']]

/-- A comment that ends with its line is read as a whole, whatever follows that line. -/
theorem read_lineComment {mark : List Char} (hmark : mark ∈ lineMarks) (h : '\n' ∉ body)
    (rest : List Char) : ∃ c cs, mark ++ (body ++ '\n' :: rest) = c :: cs ∧
      read c cs = .ok (⟨.blank, mark ++ body ++ ['\n']⟩, rest) := by
  have hnotMem : '\n' ∉ mark ++ body := by
    have hmarks : ∀ mark ∈ lineMarks, '\n' ∉ mark := by decide
    exact List.not_mem_append (hmarks mark hmark) h
  have hcomment := lineComment_eq hnotMem rest
  rw [List.append_assoc] at hcomment
  simp only [lineMarks, List.mem_cons, List.not_mem_nil, or_false] at hmark
  -- Both marks are told before the rest of the line is looked at.
  obtain rfl | rfl := hmark
  · have hquotes : Unquoted '#' (body ++ '\n' :: rest) :=
      .of_head (by decide) fun h => absurd h (by decide)
    refine ⟨'#', body ++ '\n' :: rest, rfl, ?_⟩
    rw [hquotes.read_eq, unquoted, if_neg (by simp), if_neg (by decide), if_pos (.inl rfl)]
    exact congrArg Except.ok hcomment
  · have hquotes : Unquoted '-' ('-' :: (body ++ '\n' :: rest)) :=
      .of_head (by decide) fun h => absurd h (by decide)
    refine ⟨'-', '-' :: (body ++ '\n' :: rest), rfl, ?_⟩
    rw [hquotes.read_eq, unquoted, if_neg (by simp), if_neg (by decide),
      if_pos (.inr ⟨rfl, rfl⟩)]
    exact congrArg Except.ok hcomment

end Piece

namespace Token

variable {g cs : List Char}

/-- White space and comments, one after the other. White space is what begins no word: beyond ASCII
the characters with the property of white space are letters of the language. -/
inductive Gap : List Char → Prop
  | nil : Gap []
  /-- A character of white space. -/
  | white {c : Char} {g : List Char} (hblank : Unicode.isBlank c = true)
      (hword : isWordStart c = false) (h : Gap g) : Gap (c :: g)
  /-- A comment that ends with its line. -/
  | line {mark body g : List Char} (hmark : mark ∈ Piece.lineMarks) (hbody : '\n' ∉ body)
      (h : Gap g) : Gap (mark ++ (body ++ '\n' :: g))
  /-- A comment between marks. -/
  | block {body g : List Char} (hbody : ¬ ['*', '/'] <:+: body) (h : Gap g) :
      Gap ('/' :: '*' :: (body ++ '*' :: '/' :: g))

namespace Gap

/-- A gap in front of a text adds no token. -/
theorem reads {ts : List Token} (hg : Gap g) (h : Reads cs ts) : Reads (g ++ cs) ts := by
  -- The induction is on the pieces of the gap, of which each is read as a blank.
  induction hg with
  | nil => exact h
  | white hblank hword _ ih => exact ih.skip (Piece.read_white hblank hword _) rfl
  | @line mark body g hmark hbody _ ih =>
    obtain ⟨c, cs', hchars, hread⟩ := Piece.read_lineComment hmark hbody (g ++ cs)
    have hline : mark ++ (body ++ '\n' :: g) ++ cs = c :: cs' := by
      rw [← hchars]
      simp
    exact hline ▸ ih.skip hread rfl
  | @block body g hbody _ ih =>
    have hblock : '/' :: '*' :: (body ++ '*' :: '/' :: g) ++ cs =
        '/' :: '*' :: (body ++ '*' :: '/' :: (g ++ cs)) := by
      simp
    exact hblock ▸ ih.skip (Piece.read_blockComment hbody _) rfl

/-- The characters that a gap begins with. -/
def heads : List Char :=
  '#' :: '-' :: '/' :: Piece.blanks

/-- A text behind a gap begins with a first character of gaps, or as it does without the gap. -/
theorem head_append {P : Char → Prop} (hg : Gap g) (hP : ∀ c ∈ heads, P c)
    (hcs : ∀ c ∈ cs.head?, P c) : ∀ c ∈ (g ++ cs).head?, P c := by
  cases hg with
  | nil => exact hcs
  | white hblank hword _ =>
    have hmem := Piece.mem_of_isBlank hblank hword
    rintro _ ⟨⟩
    exact hP _ (by simp [heads, hmem])
  | line hmark hbody _ =>
    simp only [Piece.lineMarks, List.mem_cons, List.not_mem_nil, or_false] at hmark
    obtain rfl | rfl := hmark
    · rintro _ ⟨⟩
      exact hP _ (by decide)
    · rintro _ ⟨⟩
      exact hP _ (by decide)
  | block hbody _ =>
    rintro _ ⟨⟩
    exact hP _ (by decide)

end Gap

end Token

end TableSchema
