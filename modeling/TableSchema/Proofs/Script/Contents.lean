import TableSchema.Proofs.Script.Agreement
import TableSchema.Proofs.Table.Composition

/-!
# Contents do not change the structure

What stands between quotes and the digits of a number do not tell the grammar anything: with other
names between the same quotes, other literals of the same kinds and other numbers at the same
places, a script is divided into the same statements and declares the same tables, up to these
texts, or it fails at the same place.

## Main definitions

* `Token.SameForm`: tokens that differ at most in such a text;
* `Statement.blank`: a statement without its texts.

## Main results

* `script_contents`: scripts whose tokens have the same forms have the same structure.
-/

namespace TableSchema

/-- The tokens are the same, or both are words between the same quotes, literals of the same kind,
or numbers. -/
inductive Token.SameForm : Token → Token → Prop
  | refl (t : Token) : SameForm t t
  | word (quote : Char) (value value' : String) :
    SameForm (.word (some quote) value) (.word (some quote) value')
  | literal (kind : LiteralKind) (body body' : String) :
    SameForm (.literal kind body) (.literal kind body')
  | number (digits digits' : String) : SameForm (.number digits) (.number digits')

/-- The lexemes stand at the same place, with tokens of the same form. -/
structure Lexeme.SameForm (l l' : Lexeme) : Prop where
  /-- The tokens have the same form. -/
  token : Token.SameForm l.token l'.token
  /-- They begin at the same place. -/
  start_eq : l.start = l'.start
  /-- They end at the same place. -/
  stop_eq : l.stop = l'.stop

/-- The statement without its texts. -/
def Statement.blank : Statement → Statement :=
  Statement.mapTexts (fun _ => "") (fun _ => "")

namespace Token

/-- Tokens of the same form have the same shape. -/
theorem SameForm.shape_eq {t t' : Token} (h : SameForm t t') : t.shape = t'.shape := by
  cases h <;> rfl

/-- A bare word has the form of itself only. -/
theorem SameForm.bareWord_eq {t t' : Token} (h : SameForm t t') :
    t.bareWord? = t'.bareWord? := by
  cases h <;> rfl

end Token

/-- Lexemes at the same places that differ in contents are alike, if no text is kept. -/
def Likeness.ofForms : Likeness where
  alike := Lexeme.SameForm
  name := fun _ => ""
  content := fun _ => ""
  shape_eq := fun h => h.token.shape_eq
  bareWord_eq := fun h => by rw [h.token.bareWord_eq]
  name_text := fun _ => rfl
  content_text := fun _ _ => rfl
  name_append := fun _ _ => rfl
  content_append := fun _ _ => rfl
  line_iff := fun hl hm _ => by rw [hl.start_eq, hm.start_eq]

namespace Grammar

open TableSchema.Parser

variable {ls ls' : List Lexeme}

/-- The place behind the last lexeme is the same if the lexemes stand at the same places. -/
theorem stop_getLast?_eq (h : List.Forall₂ Lexeme.SameForm ls ls') :
    ls.getLast?.map Lexeme.stop = ls'.getLast?.map Lexeme.stop := by
  induction h with
  | nil => rfl
  | cons hl hls ih =>
    cases hls with
    | nil => exact congrArg some hl.stop_eq
    | cons hm hms => simpa using ih

/-- A failure in front of the same lexeme is reported at the same place. -/
theorem position_locate_eq (h : List.Forall₂ Lexeme.SameForm ls ls') (e : Expected) (n : Nat) :
    (Failure.locate ⟨e, ls.drop n⟩ ls).position = (Failure.locate ⟨e, ls'.drop n⟩ ls').position := by
  have hrest := List.forall₂_drop n h
  unfold Failure.locate
  -- At the end of the text the place is the one behind its last lexeme.
  cases hleft : ls.drop n with
  | nil =>
    rw [hleft, List.forall₂_nil_left_iff] at hrest
    simp only [hrest, stop_getLast?_eq h]
  | cons l rest =>
    rw [hleft] at hrest
    obtain ⟨l', rest', hl, -, hright⟩ := List.forall₂_cons_left_iff.1 hrest
    simp only [hright, hl.start_eq]

/-- Contents do not change the structure of a script. Two scripts whose tokens have the same forms,
at the same places, are both accepted, with the same statements but for their texts, or both fail,
expecting the same at the same place. -/
theorem script_contents (h : List.Forall₂ Lexeme.SameForm ls ls') :
    (∃ statements statements', script.readAll ls = .ok statements ∧
        script.readAll ls' = .ok statements' ∧
          statements.map Statement.blank = statements'.map Statement.blank) ∨
      ∃ e e', script.readAll ls = .error e ∧ script.readAll ls' = .error e' ∧
        e.expected = e'.expected ∧ e.position = e'.position := by
  -- Both texts are read or given up at the same place; what is found there may differ.
  have hagree := script_agree (k := .ofForms)
  rcases hagree.readAll h with ⟨statements, statements', hview, hok, hok'⟩ | ⟨n, e, he, he'⟩
  · exact .inl ⟨statements, statements', hok, hok', hview⟩
  · refine .inr ⟨_, _, he, he', ?_, position_locate_eq h e n⟩
    unfold Failure.locate
    split <;> split <;> rfl

/-- A text that is the declaration of a table is a script of one statement. -/
theorem readAll_script_of_createTable {decl : TableDecl}
    (hopens : Terminal.opens [.keyword "CREATE", .keyword "TABLE"] ls = true)
    (hdecl : createTable ls = .ok (decl, [])) : script.readAll ls = .ok [.createTable decl] := by
  obtain ⟨l, rest, rfl, hcreate, -⟩ := Terminal.opens_cons.1 hopens
  have hsemicolon : l.token ≠ .symbol .semicolon := by
    intro h
    rw [h] at hcreate
    cases hcreate
  have hstatement : statement (l :: rest) = .ok (.createTable decl, []) :=
    statement_of_createTable ⟨_, List.mem_cons_self, hopens⟩ hdecl
  have hstep : statement? (l :: rest) = .ok (some (.createTable decl), []) := by
    rw [statement?_cons hsemicolon]
    refine map_eq_ok.2 ⟨.createTable decl, ?_, rfl⟩
    rw [separatedStatement, bind_of_ok hstatement, bind_of_ok separator_nil]
    rfl
  exact readAll_eq_ok.2 (many_of_some hstep (Nat.succ_pos _) (many_of_none statement?_nil))

/-- A table with one column, read from its tokens. -/
theorem script_table : script.readAll (Lexeme.ofTokens [.word none "CREATE", .word none "TABLE",
    .word (some '\x60') "t", .symbol .openParen, .word (some '\x60') "a", .word none "INT",
    .symbol .closeParen]) = .ok [.createTable (.columns "\x60t\x60"
      [.column ⟨"\x60a\x60", []⟩ ⟨.measured ⟨.int, "INT"⟩ none [], []⟩])] := by
  have hcolumn : Declares [.word (some '\x60') "a", .word none "INT"]
      (.column ⟨"\x60a\x60", []⟩ ⟨.measured ⟨.int, "INT"⟩ none [], []⟩) :=
    .column columnDefinition_int
  obtain ⟨rest, hcreate, hrest⟩ : ∃ rest, createTable (Lexeme.ofTokens [.word none "CREATE",
      .word none "TABLE", .word (some '\x60') "t", .symbol .openParen, .word (some '\x60') "a",
      .word none "INT", .symbol .closeParen]) = afterList (Token.glue (quotedName none "t"))
        (some [.column ⟨"\x60a\x60", []⟩ ⟨.measured ⟨.int, "INT"⟩ none [], []⟩]) rest ∧
          Lexeme.tokens rest = [] :=
    createTable_entries spells_createTable (List.cons_ne_nil (_, _) _)
      (List.forall_mem_singleton.2 hcolumn) (Lexeme.tokens_ofTokens _)
  obtain rfl : rest = [] := by simpa [Lexeme.tokens] using hrest
  rw [afterList_nil] at hcreate
  exact readAll_script_of_createTable rfl hcreate

/-- A name between backticks is no word of the language: a column may be named like a key, and the
table is read as before. -/
theorem script_contents_of_columnName :
    ∃ statements, script.readAll (Lexeme.ofTokens [.word none "CREATE", .word none "TABLE",
        .word (some '\x60') "t", .symbol .openParen, .word (some '\x60') "key", .word none "INT",
        .symbol .closeParen]) = .ok statements ∧
      statements.map Statement.blank = [.createTable (.columns ""
        [.column ⟨"", []⟩ ⟨.measured ⟨.int, ""⟩ none [], []⟩])] := by
  have hforms : List.Forall₂ Lexeme.SameForm
      (Lexeme.ofTokens [.word none "CREATE", .word none "TABLE", .word (some '\x60') "t",
        .symbol .openParen, .word (some '\x60') "a", .word none "INT", .symbol .closeParen])
      (Lexeme.ofTokens [.word none "CREATE", .word none "TABLE", .word (some '\x60') "t",
        .symbol .openParen, .word (some '\x60') "key", .word none "INT", .symbol .closeParen]) := by
    repeat' constructor
  rcases script_contents hforms with ⟨statements, others, hok, hok', hblank⟩ | ⟨e, -, herror, -⟩
  · obtain rfl : _ = statements := Except.ok.inj (script_table.symm.trans hok)
    exact ⟨others, hok', hblank.symm⟩
  · exact nomatch script_table.symm.trans herror

end Grammar

end TableSchema
