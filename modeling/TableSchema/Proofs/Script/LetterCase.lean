import TableSchema.Export
import TableSchema.Proofs.Script.Contents
import TableSchema.Proofs.Table.LetterCase

/-!
# Letter case and layout do not change the schema

Scripts that differ in the case of bare words and in white space are divided into the same
statements and declare the same tables, up to the case of the names in them, or they fail at the
same token. A change of the delimiter is left out, since it ends with its line.

## Main definitions

* `Token.foldCase`: a token, a bare word in lower case.

## Main results

* `script_letterCase`: scripts whose tokens are equal up to the case of bare words declare tables
  that are equal up to the case of names.
-/

namespace TableSchema

open Resolve

/-! ## Resolving -/

/-- A statement gives the same table in lower case. -/
theorem Statement.alike_mapTexts_lower (statement : Statement) :
    Alike (Option.map Table.foldCase) (statement.mapTexts Text.lower id).resolve
      statement.resolve := by
  cases statement with
  | createTable decl => exact decl.alike_mapTexts_lower
  | other category keyword text =>
    cases category with
    | definition => exact .pure rfl
    | manipulation | transaction | replication | prepared | administration | utility =>
      exact (Alike.pure rfl).note_then _ _

/-- A script gives the same exported tables in lower case. -/
theorem Script.exported_mapTexts_lower (script : Script) :
    (Export.ofScript (script.map (.mapTexts Text.lower id))).tables.map Table.foldCase =
      (Export.ofScript script).tables.map Table.foldCase := by
  have htables : Alike (List.map Table.foldCase)
      (Script.resolve (script.map (.mapTexts Text.lower id))) (Script.resolve script) :=
    .filterMapM Statement.alike_mapTexts_lower script
  have hexported : Table.foldCase ∘ Table.exported = Table.exported ∘ Table.foldCase :=
    funext Table.foldCase_exported
  have hof : ∀ script, (Export.ofScript script).tables =
      ((Script.resolve script).run .empty).1.map Table.exported := fun _ => rfl
  rw [hof, hof, List.map_map, List.map_map, hexported, ← List.map_map, ← List.map_map,
    htables .empty .empty]

/-! ## Tokens -/

namespace Token

/-- The token, a bare word in lower case. -/
def foldCase : Token → Token
  | word none value => .word none (Text.lower value)
  | t => t

theorem shape_foldCase (t : Token) : t.foldCase.shape = t.shape := by
  unfold foldCase
  split <;> rfl

theorem bareWord?_foldCase (t : Token) : t.foldCase.bareWord? = t.bareWord?.map Text.lower := by
  unfold foldCase
  split
  · rfl
  · rename_i hbare
    unfold bareWord?
    split
    · rename_i value
      exact absurd rfl (hbare value)
    · rfl

theorem lower_text_foldCase (t : Token) : Text.lower t.foldCase.text = Text.lower t.text := by
  unfold foldCase
  split
  · exact Text.lower_lower _
  · rfl

theorem foldCase_of_bareWord? {t : Token} (h : t.bareWord? = none) : t.foldCase = t := by
  unfold foldCase
  split
  · cases h
  · rfl

end Token

/-- Lexemes are alike if their tokens are equal up to the case of bare words, wherever they stand,
as long as none of them changes the delimiter. -/
def Likeness.ofLetters : Likeness where
  alike l l' := (Terminal.keyword "DELIMITER").accepts l.token = false ∧
    l.token.foldCase = l'.token.foldCase
  name := Text.lower
  content := id
  shape_eq := fun ⟨_, h⟩ => by rw [← Token.shape_foldCase, h, Token.shape_foldCase]
  bareWord_eq := fun ⟨_, h⟩ => by rw [← Token.bareWord?_foldCase, h, Token.bareWord?_foldCase]
  name_text := fun ⟨_, h⟩ => by rw [← Token.lower_text_foldCase, h, Token.lower_text_foldCase]
  content_text := fun {l l'} ⟨_, h⟩ hbare => by
    have hbare' : l'.token.bareWord? = none := by
      rw [← Option.map_eq_none_iff, ← Token.bareWord?_foldCase, ← h, Token.bareWord?_foldCase,
        hbare, Option.map_none]
    rw [Token.foldCase_of_bareWord? hbare, Token.foldCase_of_bareWord? hbare'] at h
    rw [h]
  name_append := fun h h' => by rw [Text.lower_append, Text.lower_append, h, h']
  content_append := fun h h' => congrArg₂ (· ++ ·) h h'
  line_iff := fun ⟨hl, _⟩ _ hdelimiter => absurd hdelimiter (by rw [hl]; exact Bool.false_ne_true)

namespace Grammar

open TableSchema.Parser

/-- Letter case and layout do not change the schema. Two scripts without a change of the delimiter,
whose tokens are equal up to the case of bare words and stand anywhere, are both accepted, and their
exported tables are equal up to the case of names and default values, or both fail, expecting the
same at the same token. -/
theorem script_letterCase {ls ls' : List Lexeme}
    (htokens : (Lexeme.tokens ls).map Token.foldCase = (Lexeme.tokens ls').map Token.foldCase)
    (hdelimiter : ∀ l ∈ ls, (Terminal.keyword "DELIMITER").accepts l.token = false) :
    (∃ statements statements', script.readAll ls = .ok statements ∧
        script.readAll ls' = .ok statements' ∧
          (Export.ofScript statements).tables.map Table.foldCase =
            (Export.ofScript statements').tables.map Table.foldCase) ∨
      ∃ n e, script.readAll ls = .error (Failure.locate ⟨e, ls.drop n⟩ ls) ∧
        script.readAll ls' = .error (Failure.locate ⟨e, ls'.drop n⟩ ls') := by
  -- Lexemes are alike one by one: their tokens are equal up to case, and none is the bare word.
  have hall : Likeness.ofLetters.All ls ls' := by
    have hfold : List.Forall₂ Eq (ls.map (·.token.foldCase)) (ls'.map (·.token.foldCase)) := by
      rw [List.forall₂_eq_eq_eq]
      simpa [Lexeme.tokens, Function.comp_def] using htokens
    rw [List.forall₂_map_left_iff, List.forall₂_map_right_iff] at hfold
    exact (List.forall₂_and_left ls ls').2 ⟨hdelimiter, hfold⟩
  have hagree := script_agree (k := .ofLetters)
  rcases hagree.readAll hall with ⟨statements, statements', hview, hok, hok'⟩ | herror
  · refine .inl ⟨statements, statements', hok, hok', ?_⟩
    rw [← Script.exported_mapTexts_lower statements, ← Script.exported_mapTexts_lower statements']
    exact congrArg (fun script => (Export.ofScript script).tables.map Table.foldCase) hview
  · exact .inr herror

/-- A table in lower case, each word on its own line, is the table in upper case. -/
theorem script_letterCase_of_lines :
    ∃ statements, script.readAll [⟨.word none "create", ⟨1, 1⟩, ⟨1, 7⟩⟩,
        ⟨.word none "Table", ⟨2, 1⟩, ⟨2, 6⟩⟩, ⟨.word (some '\x60') "t", ⟨3, 1⟩, ⟨3, 4⟩⟩,
        ⟨.symbol .openParen, ⟨3, 4⟩, ⟨3, 5⟩⟩, ⟨.word (some '\x60') "a", ⟨4, 1⟩, ⟨4, 4⟩⟩,
        ⟨.word none "int", ⟨5, 1⟩, ⟨5, 4⟩⟩, ⟨.symbol .closeParen, ⟨6, 1⟩, ⟨6, 2⟩⟩] = .ok statements ∧
      (Export.ofScript statements).tables.map Table.foldCase =
        [⟨"t", [⟨"a", some { name := "INT", number := 14, source := "INT" }, {}⟩], []⟩] := by
  have htokens : (Lexeme.tokens (Lexeme.ofTokens [.word none "CREATE", .word none "TABLE",
      .word (some '\x60') "t", .symbol .openParen, .word (some '\x60') "a", .word none "INT",
      .symbol .closeParen])).map Token.foldCase =
        (Lexeme.tokens [⟨.word none "create", ⟨1, 1⟩, ⟨1, 7⟩⟩, ⟨.word none "Table", ⟨2, 1⟩, ⟨2, 6⟩⟩,
          ⟨.word (some '\x60') "t", ⟨3, 1⟩, ⟨3, 4⟩⟩, ⟨.symbol .openParen, ⟨3, 4⟩, ⟨3, 5⟩⟩,
          ⟨.word (some '\x60') "a", ⟨4, 1⟩, ⟨4, 4⟩⟩, ⟨.word none "int", ⟨5, 1⟩, ⟨5, 4⟩⟩,
          ⟨.symbol .closeParen, ⟨6, 1⟩, ⟨6, 2⟩⟩]).map Token.foldCase := by decide
  -- The upper case script is accepted, so both of them are.
  rcases script_letterCase htokens (by decide) with
    ⟨statements, others, hok, hok', htables⟩ | ⟨n, e, herror, -⟩
  · obtain rfl : _ = statements := Except.ok.inj (script_table.symm.trans hok)
    exact ⟨others, hok', htables.symm.trans (by decide)⟩
  · exact nomatch script_table.symm.trans herror

end Grammar

end TableSchema
