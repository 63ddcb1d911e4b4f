import TableSchema.Export
import TableSchema.Proofs.Script.Contents
import TableSchema.Proofs.Script.Findings
import TableSchema.Proofs.Token.Written

/-!
# What a text of one table declares

An export of a text is that of its script: the tables of the declarations by a list, and what is
found about them. A text whose tokens declare a table by entries is such a declaration and nothing
else, whatever stands between its tokens.

## Main results

* `Export.ofText_eq_ok`: the export of a text is that of the script it is read as;
* `Export.ofText_of_entries`: the export of a text that declares a table by entries.
-/

namespace TableSchema.Export

open TableSchema.Grammar TableSchema.Parser

/-- What a script declares: its tables, and the diagnostics of its findings. -/
theorem ofScript_eq (script : Script) :
    ofScript script = ⟨script.tables.map Table.exported,
      Diagnostics.empty.append ⟨script.findings.map Finding.diagnostic⟩⟩ := by
  unfold ofScript
  rw [script.gives_findings .empty]

/-- The tables of a script, as they are exported. -/
@[simp]
theorem tables_ofScript (script : Script) :
    (ofScript script).tables = script.tables.map Table.exported := by
  rw [ofScript_eq]

/-- What a text declares is what the script declares that it is read as. -/
theorem ofText_eq_ok {text : String} {e : Export} :
    ofText text = .ok e ↔ ∃ script, Script.parse text = .ok script ∧ ofScript script = e := by
  unfold ofText
  cases Script.parse text <;> simp [Except.map]

/-- The words `CREATE TABLE`, with `IF NOT EXISTS` or without, open a statement on tables. -/
theorem opens_of_spells {ifNotExists : Bool} {head tail : List Token} {ls : List Lexeme}
    (hhead : Spells (tableHead false ifNotExists) head) (hls : Lexeme.tokens ls = head ++ tail) :
    Terminal.opens [.keyword "CREATE", .keyword "TABLE"] ls = true := by
  obtain ⟨create, us, rfl, hcreate, hus⟩ := spells_cons.1 hhead
  obtain ⟨table, us, rfl, htable, -⟩ := spells_cons.1 hus
  obtain ⟨l, ls, rfl, rfl, hrest⟩ := Lexeme.tokens_eq_cons.1 hls
  obtain ⟨m, ls, rfl, rfl, -⟩ := Lexeme.tokens_eq_cons.1 hrest
  simp [Terminal.opens, hcreate, htable]

/-- A text whose tokens declare a table by entries declares this table and nothing else. -/
theorem ofText_of_entries {ifNotExists : Bool} {head : List Token}
    (hhead : Spells (tableHead false ifNotExists) head) (database : Option String) (name : String)
    {entries : List (List Token × TableItem)} (hne : entries ≠ [])
    (hentries : ∀ e ∈ entries, IsEntry e.1 e.2) {text : String}
    (hreads : Token.Reads text.toList (head ++ (quotedName database name ++ .symbol .openParen ::
      (List.intercalate [.symbol .comma] (entries.map Prod.fst) ++ [.symbol .closeParen])))) :
    ofText text = .ok (ofScript [.createTable
      (.columns (Token.glue (quotedName database name)) (entries.map Prod.snd))]) := by
  obtain ⟨ls, hls, htokens⟩ := hreads.lexemes
  obtain ⟨rest, hcreate, hrest⟩ := createTable_of_entries hhead hne hentries htokens
  obtain rfl : rest = [] := by simpa [Lexeme.tokens] using hrest
  rw [afterList_nil] at hcreate
  have hscript := readAll_script_of_createTable (opens_of_spells hhead htokens) hcreate
  exact ofText_eq_ok.2 ⟨_, readString_eq_ok.2 ⟨ls, hls, readAll_eq_ok.1 hscript⟩, rfl⟩

/-- The words in front of the name of a table are read, whatever stands behind them. -/
theorem reads_createTable {cs : List Char} {ts : List Token} (h : Token.Reads cs ts) :
    Token.Reads ("CREATE TABLE ".toList ++ cs)
      (.word none "CREATE" :: .word none "TABLE" :: ts) := by
  have hcreate : Piece.IsPlainWord "CREATE" := by decide
  have htable : Piece.IsPlainWord "TABLE" := by decide
  simpa using (h.word htable).word hcreate

end TableSchema.Export
