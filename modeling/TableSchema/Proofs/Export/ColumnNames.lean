import TableSchema.Proofs.Script.Tables
import TableSchema.Proofs.Table.Names
import TableSchema.Proofs.Text.Normal
import TableSchema.Proofs.Token.Reading

/-!
# The names of exported columns

The name of a column may be written behind the names of its table and its database. What is exported
is the first word, whatever it names, so columns behind the same table all have the name of the
table. A column that is written as one word is exported under this word.

## Main results

* `Export.columnNames_ofText`: the columns of a table are named by the first words of their names,
  in their order.
-/

namespace TableSchema

open Text Token

/-- A plain word that is bare or between backticks is cleaned to the word. -/
theorem cleanIdentifier_wordText {quote : Option Char} (hquote : quote = none ∨ quote = some '\x60')
    {value : String} (h : IsPlain value) : cleanIdentifier (wordText quote value) = value := by
  obtain rfl | rfl := hquote
  · exact h.cleanIdentifier_eq
  · rw [Piece.wordText_backtick h.notMem, cleanIdentifier_backticks, h.cleanIdentifier_eq]

namespace Export

/-- A table that a text declares is that of a list that stands in the text. Its columns are those of
the list, in their order, and each of them is named by the first word of its name, cleaned: by the
column if nothing stands in front of it, and otherwise by what stands there. A plain word stays as
it is. -/
theorem columnNames_ofText {text : String} {e : Export} (h : ofText text = .ok e) :
    (∃ ls, Lexeme.ofString text = .ok ls ∧ ∀ t ∈ e.tables, ∃ name ts items,
      t = (Table.declared name items).exported ∧ ts <:+: Lexeme.tokens ls ∧
        Listed TableItem.Written ts items ∧
        t.columns.map Column.name =
          (items.filterMap TableItem.columnText?).map cleanIdentifier) ∧
    ∀ (quote : Option Char) (value : String), quote = none ∨ quote = some '\x60' → IsPlain value →
      cleanIdentifier (wordText quote value) = value := by
  refine ⟨?_, fun quote value hquote => cleanIdentifier_wordText hquote⟩
  obtain ⟨ls, hls, htables⟩ := tables_of_yields h
  refine ⟨ls, hls, fun t ht => ?_⟩
  obtain ⟨name, items, rfl, -, ts, hts, hwritten⟩ := htables (fun _ => True) _
    (.of_steady (Grammar.tableName_steady _)) (Grammar.tableItems_written ls) t ht
  refine ⟨name, ts, items, rfl, hts, hwritten, ?_⟩
  rw [Table.names_exported, (Table.names_declared name items).1]

/-! ### Two columns behind the same table -/

/-- The tokens of a table with two columns, both of them behind the name of the table. -/
theorem reads_sameTable :
    Reads "CREATE TABLE \x60t\x60 (\x60t\x60.\x60a\x60 INT, \x60t\x60.\x60b\x60 INT)".toList
      [.word none "CREATE", .word none "TABLE", .word (some '\x60') "t", .symbol .openParen,
        .word (some '\x60') "t", .symbol .period, .word (some '\x60') "a", .word none "INT",
        .symbol .comma, .word (some '\x60') "t", .symbol .period, .word (some '\x60') "b",
        .word none "INT", .symbol .closeParen] := by
  -- The text is taken apart from its end, where each token is read back in front of the next.
  have hclose : Follows [.symbol .closeParen] := .cons .closeParen Follows.nil.readsBack
  have htype : Follows (.blank :: .word none "INT" :: [.symbol .closeParen]) :=
    .cons .blank (hclose.readsBack_word (by decide))
  have hsecond : ReadsBack (.word (some '\x60') "t" :: .symbol .period ::
      .word (some '\x60') "b" :: _) :=
    ⟨⟨'\x60', _, _, rfl, rfl⟩, ⟨'.', _, _, rfl, rfl⟩, ⟨'\x60', _, _, rfl, rfl⟩, htype.readsBack⟩
  have hcomma : Follows (.symbol .comma :: .blank :: _) :=
    .cons .comma (Follows.cons .blank hsecond).readsBack
  have htype' : Follows (.blank :: .word none "INT" :: _) :=
    .cons .blank (hcomma.readsBack_word (by decide))
  have hfirst : ReadsBack (.word (some '\x60') "t" :: .symbol .period ::
      .word (some '\x60') "a" :: _) :=
    ⟨⟨'\x60', _, _, rfl, rfl⟩, ⟨'.', _, _, rfl, rfl⟩, ⟨'\x60', _, _, rfl, rfl⟩, htype'.readsBack⟩
  have hlist : Reads " (\x60t\x60.\x60a\x60 INT, \x60t\x60.\x60b\x60 INT)".toList _ :=
    (Follows.cons .blank (Follows.cons .openParen hfirst).readsBack).readsBack.reads
  have hname : Reads ('\x60' :: ("t".toList ++ '\x60' :: _)) _ :=
    hlist.quoted (by decide) (by rintro _ ⟨⟩; decide)
  exact reads_createTable hname

/-- A column `INT` behind a table is an entry of a list. -/
theorem isEntry_ofTable (table column : String) :
    Grammar.IsEntry [.word (some '\x60') table, .symbol .period, .word (some '\x60') column,
        .word none "INT"]
      (.column ⟨wordText (some '\x60') table, [wordText (some '\x60') column]⟩
        ⟨.measured ⟨.int, "INT"⟩ none [], []⟩) :=
  Grammar.isEntry_of_written (.ofTable _ _ table column) rfl Grammar.columnDefinition_int

/-- Both columns are named by the table. -/
theorem ofText_sameTable :
    ∃ e, ofText "CREATE TABLE \x60t\x60 (\x60t\x60.\x60a\x60 INT, \x60t\x60.\x60b\x60 INT)" =
        .ok e ∧
      e.tables.map (fun t => t.columns.map Column.name) = [["t", "t"]] := by
  have hentries : ∀ e ∈ [(_, _), (_, _)], Grammar.IsEntry e.1 e.2 :=
    List.forall_mem_cons.2 ⟨isEntry_ofTable "t" "a",
      List.forall_mem_singleton.2 (isEntry_ofTable "t" "b")⟩
  refine ⟨_, ofText_of_entries Grammar.spells_createTable none "t" (List.cons_ne_nil _ _) hentries
    reads_sameTable, ?_⟩
  decide

/-- The first words of two columns behind the same table are that table, while a column alone keeps
its own word. -/
theorem columnNames_of_sameTable :
    (∃ e, ofText "CREATE TABLE \x60t\x60 (\x60t\x60.\x60a\x60 INT, \x60t\x60.\x60b\x60 INT)" =
        .ok e ∧
      ∀ t ∈ e.tables, t.columns.map Column.name = ["t", "t"] ∧ ∃ name ts items,
        t = (Table.declared name items).exported ∧ Listed TableItem.Written ts items ∧
          (items.filterMap TableItem.columnText?).map cleanIdentifier = ["t", "t"]) ∧
      cleanIdentifier (wordText (some '\x60') "a") = "a" := by
  obtain ⟨e, he, hnames⟩ := ofText_sameTable
  obtain ⟨⟨ls, -, htables⟩, hplain⟩ := columnNames_ofText he
  refine ⟨⟨e, he, fun t ht => ?_⟩, hplain (some '\x60') "a" (.inr rfl) (by decide)⟩
  have hcolumns : t.columns.map Column.name = ["t", "t"] := by
    have hmem := List.mem_map_of_mem (f := fun t => t.columns.map Column.name) ht
    rw [hnames] at hmem
    exact List.mem_singleton.1 hmem
  obtain ⟨name, ts, items, htable, -, hwritten, heq⟩ := htables t ht
  exact ⟨hcolumns, name, ts, items, htable, hwritten, heq.symm.trans hcolumns⟩

/-- So it is not true that columns behind the same table are exported under their own names. -/
theorem not_forall_columnNames : ¬ ∀ table first second : String,
    IsPlain table → IsPlain first → IsPlain second → table ≠ "" → first ≠ "" → second ≠ "" →
      first ≠ second → ∃ e,
        ofText ("CREATE TABLE \x60t\x60 (\x60" ++ table ++ "\x60.\x60" ++ first ++
          "\x60 INT, \x60" ++ table ++ "\x60.\x60" ++ second ++ "\x60 INT)") = .ok e ∧
        e.tables.map (fun t => t.columns.map Column.name) = [[first, second]] := by
  intro h
  obtain ⟨e, he, hnames⟩ := ofText_sameTable
  obtain ⟨e', he', hnames'⟩ := h "t" "a" "b" (by decide) (by decide) (by decide) (by decide)
    (by decide) (by decide) (by decide)
  obtain rfl : e = e' := Except.ok.inj (he.symm.trans he')
  exact absurd (hnames.symm.trans hnames') (by decide)

end Export

end TableSchema
