import TableSchema.Proofs.Export.Entries
import TableSchema.Proofs.Text.Normal
import TableSchema.Proofs.Text.Separator
import TableSchema.Proofs.Token.Gap

/-!
# Tables with the name of their database

The name of a table may be written behind the name of its database and a point. The two names are
glued together, the quotation marks at the ends of the whole are taken off, and what stands behind
the last mark between two names is the name of the table. So a table is exported under the same name
with the name of a database and without, whatever white space and comments stand around the point.

## Main results

* `Export.ofText_qualified`: a table with one column is exported alike with the name of a database
  and without.
-/

namespace TableSchema

open Text Token

/-! ## What stands behind the last mark -/

/-- The mark between two names has characters. -/
theorem qualifierMark_ne_empty : qualifierMark ≠ "" := by
  decide

/-- A text with one backtick at most is the name of a table without a database: the mark has two. -/
theorem unqualifiedName_of_count {s : String} (h : s.toList.count '\x60' ≤ 1) :
    unqualifiedName s = s := by
  refine afterLast_of_not_infix qualifierMark_ne_empty fun hmark => ?_
  have hle : qualifierMark.toList.count '\x60' ≤ 1 := (hmark.sublist.count_le '\x60').trans h
  exact absurd hle (by decide)

theorem unqualifiedName_of_notMem {s : String} (h : '\x60' ∉ s.toList) : unqualifiedName s = s :=
  unqualifiedName_of_count (by rw [List.count_eq_zero.2 h]; exact Nat.zero_le 1)

/-- A name without backticks is what stands behind the mark, whatever stands before it. -/
theorem unqualifiedName_append (s : String) {t : String} (ht : '\x60' ∉ t.toList) :
    unqualifiedName (s ++ qualifierMark ++ t) = t := by
  -- The mark has two backticks, and there is only one behind its first character.
  have honce : ¬ qualifierMark.toList <:+: qualifierMark.toList.tail ++ t.toList := by
    intro hmark
    have hle := hmark.sublist.count_le '\x60'
    rw [List.count_append, List.count_eq_zero.2 ht] at hle
    exact absurd hle (by decide)
  have hne : qualifierMark.toList ≠ [] := by decide
  have hlast := afterLastChars?_append s.toList hne honce
  rw [unqualifiedName, afterLast, String.toList_append, String.toList_append, List.append_assoc,
    hlast]
  exact String.ofList_toList

/-! ## Names between backticks -/

/-- The name of a table between backticks is cleaned to the name. -/
theorem unqualifiedName_quotedName {database : Option String} {name : String}
    (hdatabase : ∀ d ∈ database, IsPlain d ∧ d ≠ "") (hname : IsPlain name) (hne : name ≠ "") :
    unqualifiedName (cleanIdentifier (glue (Grammar.quotedName database name))) = name := by
  have hnormal := hname.isNormal hne
  have htext : (Token.word (some '\x60') name).text = "\x60" ++ name ++ "\x60" :=
    Piece.wordText_backtick hname.notMem
  -- The backticks at the ends are quotation marks; those around the point remain and are the mark.
  cases database with
  | none =>
    have hglue : glue (Grammar.quotedName none name) = "\x60" ++ name ++ "\x60" := by
      simp [Grammar.quotedName, glue, htext]
    rw [hglue, cleanIdentifier_backticks, hnormal.cleanIdentifier_eq,
      unqualifiedName_of_notMem hname.notMem]
  | some d =>
    obtain ⟨hplain, hd⟩ := hdatabase d rfl
    have htext' : (Token.word (some '\x60') d).text = "\x60" ++ d ++ "\x60" :=
      Piece.wordText_backtick hplain.notMem
    have hglue : glue (Grammar.quotedName (some d) name) =
        "\x60" ++ (d ++ qualifierMark ++ name) ++ "\x60" := by
      have hpoint : (Token.symbol .period).text = "." := rfl
      refine String.toList_inj.1 ?_
      simp [Grammar.quotedName, glue, htext, htext', hpoint, qualifierMark]
    have hwhole : IsNormal (d ++ qualifierMark ++ name) :=
      (hplain.isNormal hd).append hnormal (by simp [qualifierMark, isControl, isLineBreak])
    rw [hglue, cleanIdentifier_backticks, hwhole.cleanIdentifier_eq,
      unqualifiedName_append d hname.notMem]

/-! ## The export -/

namespace Export

/-- Of the name of the table that a list declares only what stands behind the name of the database
matters. -/
theorem ofScript_columns (name : String) (items : List TableItem) :
    ofScript [.createTable (.columns name items)] =
      ⟨[⟨unqualifiedName (cleanIdentifier name),
          (TableContents.ofItems items).value.columns.map Column.exported,
          (TableContents.ofItems items).value.constraints⟩],
        Diagnostics.empty.append ⟨(items.flatMap TableItem.findings).map Finding.diagnostic⟩⟩ := by
  rw [ofScript_eq]
  simp [Script.tables, Script.findings, Statement.table?, Statement.findings, TableDecl.table?,
    TableDecl.findings, Table.declared, Table.exported]

/-- The list of one column, behind the name of its table. -/
theorem reads_oneColumn (column : String) (hcolumn : '\x60' ∉ column.toList) :
    Reads (" (\x60" ++ column ++ "\x60 INT)").toList [.symbol .openParen,
      .word (some '\x60') column, .word none "INT", .symbol .closeParen] := by
  have hclose : Follows [.symbol .closeParen] := .cons .closeParen Follows.nil.readsBack
  have htype : Follows [.blank, .word none "INT", .symbol .closeParen] :=
    .cons .blank (hclose.readsBack_word (by decide))
  have hreads : Reads " INT)".toList [.word none "INT", .symbol .closeParen] :=
    htype.readsBack.reads
  have hname := hreads.quoted hcolumn (by rintro _ ⟨⟩; decide)
  have hlist : Reads ('(' :: _) _ := hname.cons (IsParting.openParen.readsBefore _) (by simp)
  simpa using hlist.skip (Piece.read_white (by decide) (by decide +kernel) _) rfl

/-- The column is an entry of a list. -/
theorem isEntry_oneColumn (column : String) :
    Grammar.IsEntry [.word (some '\x60') column, .word none "INT"]
      (.column ⟨wordText (some '\x60') column, []⟩ ⟨.measured ⟨.int, "INT"⟩ none [], []⟩) :=
  (Grammar.Declares.column Grammar.columnDefinition_int).isEntry

/-- What is exported for a table whose one column is an integer. -/
def oneColumn (name column : String) : Export :=
  ⟨[⟨name, [⟨column, some { name := "INT", number := 14, source := "INT" }, {}⟩], []⟩], .empty⟩

/-- A text with the tokens of a table with one column is exported as this table, under its name
without the name of the database. -/
theorem ofText_oneColumn (database : Option String) (name column : String) {text : String}
    (hreads : Reads text.toList (.word none "CREATE" :: .word none "TABLE" ::
      (Grammar.quotedName database name ++ [.symbol .openParen, .word (some '\x60') column,
        .word none "INT", .symbol .closeParen]))) :
    ofText text = .ok
      (oneColumn (unqualifiedName (cleanIdentifier (glue (Grammar.quotedName database name))))
        (cleanIdentifier (wordText (some '\x60') column))) := by
  have hentries : ∀ e ∈ [(_, _)], Grammar.IsEntry e.1 e.2 :=
    List.forall_mem_singleton.2 (isEntry_oneColumn column)
  rw [ofText_of_entries Grammar.spells_createTable database name (List.cons_ne_nil _ _) hentries
    hreads, ofScript_columns]
  rfl

/-- The name of a database in front of the name of a table changes nothing about what is exported:
the table has its own name, and white space and comments may stand around the point. Of any text
whatever what is taken for the name of a table is an end of the text in which the mark between two
names does not occur, and all of the text if the mark does not occur in it. -/
theorem ofText_qualified :
    (∀ database name before behind : String, IsPlain database → database ≠ "" → IsPlain name →
      name ≠ "" → Gap before.toList → Gap behind.toList →
        ofText ("CREATE TABLE \x60" ++ name ++ "\x60 (\x60c\x60 INT)") =
          .ok (oneColumn name "c") ∧
        ofText ("CREATE TABLE \x60" ++ database ++ "\x60" ++ before ++ "." ++ behind ++ "\x60" ++
          name ++ "\x60 (\x60c\x60 INT)") = .ok (oneColumn name "c")) ∧
    ∀ s : String, (unqualifiedName s).toList <:+ s.toList ∧
      ¬ qualifierMark.toList <:+: (unqualifiedName s).toList ∧
      (¬ qualifierMark.toList <:+: s.toList → unqualifiedName s = s) := by
  refine ⟨fun database name before behind hdatabase hd hname hne hbefore hbehind => ?_, fun s => ?_⟩
  · have hcolumn : cleanIdentifier (wordText (some '\x60') "c") = "c" := by decide
    -- The text is read from its end: the list, the name, and the point with the gaps around it.
    have hnamed := (reads_oneColumn "c" (by decide)).quoted hname.notMem (by rintro _ ⟨⟩; decide)
    constructor
    · have hreads := reads_createTable hnamed
      have hclean := unqualifiedName_quotedName (nofun : ∀ d ∈ none, IsPlain d ∧ d ≠ "") hname hne
      rw [ofText_oneColumn none name "c" (by simpa [Grammar.quotedName] using hreads), hclean,
        hcolumn]
    · have hpoint := (hbehind.reads hnamed).period
        (hbehind.head_append (by simp [Gap.heads, Piece.blanks]) (by rintro _ ⟨⟩; decide))
      have hqualified := (hbefore.reads hpoint).quoted hdatabase.notMem
        (hbefore.head_append (by simp [Gap.heads, Piece.blanks]) (by rintro _ ⟨⟩; decide))
      have hplain : ∀ d ∈ some database, IsPlain d ∧ d ≠ "" := by
        rintro _ ⟨⟩
        exact ⟨hdatabase, hd⟩
      have hreads := reads_createTable hqualified
      have hclean := unqualifiedName_quotedName hplain hname hne
      rw [ofText_oneColumn (some database) name "c" (by simpa [Grammar.quotedName] using hreads),
        hclean, hcolumn]
  · exact ⟨afterLast_suffix _ s, not_infix_afterLast qualifierMark_ne_empty s,
      afterLast_of_not_infix qualifierMark_ne_empty⟩

/-- A point in the name itself is no mark, and comments around the point are passed over. -/
theorem ofText_qualified_of_comments :
    ofText "CREATE TABLE \x60a.b\x60 (\x60c\x60 INT)" = .ok (oneColumn "a.b" "c") ∧
      ofText "CREATE TABLE \x60d\x60 /* of */.\n# and\n\x60a.b\x60 (\x60c\x60 INT)" =
        .ok (oneColumn "a.b" "c") := by
  have hblock : Gap ('/' :: '*' :: (" of ".toList ++ '*' :: '/' :: [])) := .block (by decide) .nil
  have hbefore : Gap " /* of */".toList := .white (by decide) (by decide +kernel) hblock
  have hline : Gap (['#'] ++ (" and".toList ++ '\n' :: [])) := .line (by decide) (by decide) .nil
  have hbehind : Gap "\n# and\n".toList := .white (by decide) (by decide +kernel) hline
  have h := ofText_qualified.1 "d" "a.b" " /* of */" "\n# and\n" (by decide) (by decide) (by decide)
    (by decide) hbefore hbehind
  simpa using h

end Export

end TableSchema
