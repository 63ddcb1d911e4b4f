import TableSchema.Export
import TableSchema.Proofs.Column.Summary
import TableSchema.Proofs.Script.Tables
import TableSchema.Proofs.Script.Types
import TableSchema.Proofs.Table.Names

/-!
# The lines of a table

A table is shown by a line for itself, one for each column, and one for each key that has columns.
Names, comments and the columns of keys end no line, and the type of a column ends only the lines
that the members of an enumeration or the name of a character set end. So a table that a text
declares is shown by exactly these lines if no member and no character set ends one, and otherwise
by as many more as they end.

## Main definitions

* `Column.innerLineEnds`: the lines that the type of a column ends itself.

## Main results

* `TableContents.IsInLine.addItem`: one more entry of a list keeps names and comments in their
  lines;
* `Export.lineEnds_render_of_ofText`: the number of lines of a table that a text declares.
-/

namespace TableSchema

open Text Resolve

/-- How many lines the type of a column ends: those of its members and its character set. -/
def Column.innerLineEnds (c : Column) : Nat :=
  (c.dataType.map DataType.innerLineEnds).getD 0

/-! ## Columns and keys -/

/-- The name and the comment of a column end no line, and the source of its type ends the lines that
its texts end. -/
structure Column.IsInLine (c : Column) : Prop where
  name : lineEnds c.name = 0
  comment : lineEnds c.constraint.comment = 0
  source : ∀ t ∈ c.dataType, lineEnds t.source = t.innerLineEnds

/-- The columns of a key end no line, and the key is of one kind. -/
structure KeyColumns.IsInLine (k : KeyColumns) : Prop where
  names : ∀ name ∈ k.names, lineEnds name = 0
  kind : k.primary = [] ∧ k.unique = [] ∨ k.primary = [] ∧ k.foreign = [] ∨
    k.unique = [] ∧ k.foreign = []

/-- The comment on a column ends no line, whatever its clauses. -/
theorem ColumnConstraint.comment_ofClauses (clauses : List ColumnClause) :
    Always (fun c => lineEnds c.comment = 0) (ofClauses clauses) := by
  intro ds
  rw [gives_summary clauses ds]
  -- The last comment decides, if there is one.
  change lineEnds (Option.getD (Option.map commentOfLiteral _) "") = 0
  cases (clauses.filterMap ColumnClause.commentLiteral?).getLast? with
  | none => rfl
  | some literal => rw [Option.map_some, Option.getD_some, lineEnds_commentOfLiteral]

/-- The names of the columns that key parts refer to end no line. -/
theorem KeyPart.lineEnds_columnNames (parts : List KeyPart) :
    Always (fun names => ∀ name ∈ names, lineEnds name = 0) (columnNames parts) := by
  refine .filterMapM (fun part => ?_) parts
  unfold columnName?
  cases part.target with
  | column name => exact .pure (by simp)
  | literal text => exact .pure (by simp)
  | expression text => exact .bind_any fun _ => .pure nofun

/-- A resolved key is of one kind, and its columns end no line. -/
theorem ConstraintDecl.isInLine_resolve (decl : ConstraintDecl) :
    Always (fun k? => ∀ k ∈ k?, k.IsInLine) decl.resolve := by
  cases decl with
  | primaryKey name index type parts =>
    refine (KeyPart.lineEnds_columnNames parts).bind fun names hnames => .pure ?_
    rintro k ⟨⟩
    exact ⟨by simpa [KeyColumns.names] using hnames, .inr (.inr ⟨rfl, rfl⟩)⟩
  | uniqueKey name word index parts =>
    refine (KeyPart.lineEnds_columnNames parts).bind fun names hnames => .pure ?_
    rintro k ⟨⟩
    exact ⟨by simpa [KeyColumns.names] using hnames, .inr (.inl ⟨rfl, rfl⟩)⟩
  | foreignKey name index parts reference =>
    refine (KeyPart.lineEnds_columnNames parts).bind fun names hnames => .pure ?_
    rintro k ⟨⟩
    exact ⟨by simpa [KeyColumns.names] using hnames, .inl ⟨rfl, rfl⟩⟩
  | check name expression => exact .bind_any fun _ => .pure (by simp)

/-! ## The entries of a list -/

/-- The columns and keys of a list keep to their lines. -/
structure TableContents.IsInLine (contents : TableContents) : Prop where
  columns : ∀ c ∈ contents.columns, c.IsInLine
  constraints : ∀ k ∈ contents.constraints, k.IsInLine

/-- The source of a resolved column ends the lines that its texts end, and its comment ends none. -/
theorem ColumnDecl.isInLine_resolve {decl : ColumnDecl} {canonical : CanonicalType}
    (h : decl.type.Declared canonical) :
    Always (fun r => lineEnds r.1.source = r.1.innerLineEnds ∧ lineEnds r.2.comment = 0)
      decl.resolve :=
  h.lineEnds_source.bind fun _ htype =>
    (ColumnConstraint.comment_ofClauses decl.clauses).bind fun _ hcomment => .pure ⟨htype, hcomment⟩

theorem TableContents.IsInLine.addColumn {contents : TableContents} (h : contents.IsInLine)
    {c : Column} (hc : c.IsInLine) :
    TableContents.IsInLine { contents with columns := contents.columns ++ [c] } :=
  ⟨List.forall_mem_append.2 ⟨h.columns, List.forall_mem_singleton.2 hc⟩, h.constraints⟩

theorem TableContents.IsInLine.addConstraint {contents : TableContents} (h : contents.IsInLine)
    {k : KeyColumns} (hk : k.IsInLine) :
    TableContents.IsInLine { contents with constraints := contents.constraints ++ [k] } :=
  ⟨h.columns, List.forall_mem_append.2 ⟨h.constraints, List.forall_mem_singleton.2 hk⟩⟩

/-- One more entry keeps to its line. -/
theorem TableContents.IsInLine.addItem {contents : TableContents} (h : contents.IsInLine)
    {item : TableItem} (hitem : item.IsDeclared) :
    Always TableContents.IsInLine (contents.addItem item) := by
  -- Columns and keys keep to their lines one by one; an index adds nothing.
  cases item with
  | column name decl =>
    obtain ⟨canonical, hcanonical⟩ := hitem
    refine (ColumnDecl.isInLine_resolve hcanonical).bind ?_
    rintro ⟨dataType, constraint⟩ ⟨hsource, hcomment⟩
    have hcolumn : Column.IsInLine ⟨cleanIdentifier name.head, some dataType, constraint⟩ := by
      refine ⟨lineEnds_cleanIdentifier name.head, hcomment, ?_⟩
      rintro t ⟨⟩
      exact hsource
    exact .pure (h.addColumn hcolumn)
  | constraint decl =>
    refine decl.isInLine_resolve.bind fun keys? hkeys => ?_
    cases keys? with
    | none => exact .pure h
    | some keys => exact .pure (h.addConstraint (hkeys keys rfl))
  | index decl => exact .bind_any fun _ => .pure h

/-- All entries of a list keep to their lines. -/
theorem TableContents.isInLine_ofItems {items : List TableItem}
    (h : ∀ item ∈ items, item.IsDeclared) : Always TableContents.IsInLine (ofItems items) := by
  have hempty : TableContents.IsInLine {} := ⟨List.forall_mem_nil _, List.forall_mem_nil _⟩
  exact Always.foldlM (fun contents item hitem hcontents => hcontents.addItem (h item hitem)) hempty

/-! ## The text of a table -/

/-- A column is shown in one line and those that its type ends. -/
theorem Column.IsInLine.lineEnds_render {c : Column} (h : c.IsInLine) :
    lineEnds c.render = 1 + c.innerLineEnds := by
  have hsource : lineEnds ((c.dataType.map DataType.source).getD "") = c.innerLineEnds := by
    unfold Column.innerLineEnds
    cases htype : c.dataType with
    | none => rfl
    | some t => exact h.source t htype
  have hcomment : lineEnds (if c.constraint.comment = "" then ""
      else "comment " ++ c.constraint.comment) = 0 := by
    split
    · rfl
    · rw [lineEnds_append, h.comment]
      rfl
  -- What stands between the parts of a line has no line end but the last.
  have hfront : lineEnds "col " = 0 := by decide
  have htabs : lineEnds "\t\t" = 0 := by decide
  have hend : lineEnds "\n" = 1 := by decide
  unfold Column.render
  simp only [lineEnds_append, hfront, htabs, hend, h.name, hsource, hcomment]
  omega

/-- The columns of a key are shown in one line, if there are any. -/
theorem lineEnds_renderKey {title : String} {names : List String} (htitle : lineEnds title = 0)
    (hnames : ∀ name ∈ names, lineEnds name = 0) :
    lineEnds (renderKey title names) = if names = [] then 0 else 1 := by
  have hsum : (names.map lineEnds).sum = 0 := by
    rw [List.sum_eq_zero_iff_forall_eq_nat]
    exact List.forall_mem_map.2 hnames
  have hcolon : lineEnds ": " = 0 := by decide
  have hcomma : lineEnds ", " = 0 := by decide
  have hend : lineEnds "\n" = 1 := by decide
  unfold renderKey
  split
  · rfl
  · simp only [lineEnds_append, lineEnds_intercalate hcomma, htitle, hcolon, hend, hsum]

/-- A key is shown in one line, if it has columns. -/
theorem KeyColumns.IsInLine.lineEnds_render {k : KeyColumns} (h : k.IsInLine) :
    lineEnds k.render = if k.names = [] then 0 else 1 := by
  obtain ⟨hnames, hkind⟩ := h
  unfold KeyColumns.names at hnames ⊢
  simp only [List.forall_mem_append] at hnames
  obtain ⟨⟨hprimary, hunique⟩, hforeign⟩ := hnames
  unfold KeyColumns.render
  rw [lineEnds_append, lineEnds_append, lineEnds_renderKey (by decide) hprimary,
    lineEnds_renderKey (by decide) hunique, lineEnds_renderKey (by decide) hforeign]
  -- Two of the three lists are empty.
  rcases hkind with ⟨hone, hother⟩ | ⟨hone, hother⟩ | ⟨hone, hother⟩
  · simp [hone, hother]
  · simp [hone, hother]
  · simp [hone, hother]

/-- Each part of a table keeps to its line. -/
structure Table.IsInLine (t : Table) : Prop where
  name : lineEnds t.name = 0
  columns : ∀ c ∈ t.columns, c.IsInLine
  constraints : ∀ k ∈ t.constraints, k.IsInLine

/-- Columns are shown in one line each and those that their types end. -/
theorem lineEnds_columns {columns : List Column} (h : ∀ c ∈ columns, c.IsInLine) :
    lineEnds (String.join (columns.map Column.render)) =
      columns.length + (columns.map Column.innerLineEnds).sum := by
  induction columns with
  | nil => rfl
  | cons c columns ih =>
    obtain ⟨hc, hcolumns⟩ := List.forall_mem_cons.1 h
    rw [List.map_cons, String.join_cons, lineEnds_append, hc.lineEnds_render, ih hcolumns,
      List.map_cons, List.sum_cons, List.length_cons]
    omega

/-- Keys are shown in one line each, if they have columns. -/
theorem lineEnds_constraints {constraints : List KeyColumns} (h : ∀ k ∈ constraints, k.IsInLine) :
    lineEnds (String.join (constraints.map KeyColumns.render)) =
      constraints.countP (·.names ≠ []) := by
  induction constraints with
  | nil => rfl
  | cons k constraints ih =>
    obtain ⟨hk, hconstraints⟩ := List.forall_mem_cons.1 h
    rw [List.map_cons, String.join_cons, lineEnds_append, hk.lineEnds_render, ih hconstraints,
      List.countP_cons]
    by_cases hnames : k.names = [] <;> simp [hnames, Nat.add_comm]

/-- How many lines a table is shown in. -/
theorem Table.IsInLine.lineEnds_render {t : Table} (h : t.IsInLine) :
    lineEnds t.render = 1 + t.columns.length + t.constraints.countP (·.names ≠ []) +
      (t.columns.map Column.innerLineEnds).sum := by
  have htitle : lineEnds "table name: " = 0 := by decide
  have hend : lineEnds "\n" = 1 := by decide
  unfold Table.render
  rw [lineEnds_append, lineEnds_append, lineEnds_append, lineEnds_append, htitle, h.name, hend,
    lineEnds_columns h.columns, lineEnds_constraints h.constraints]
  omega

/-- The columns of a key are shown in lines that are ended. -/
theorem endsLines_renderKey (title : String) (names : List String) :
    EndsLines (renderKey title names) := by
  unfold renderKey
  split
  · exact .empty
  · exact .append_newline _

/-- Every line of a table is ended. -/
theorem Table.endsLines_render (t : Table) : EndsLines t.render := by
  have hcolumns : ∀ c ∈ t.columns, EndsLines c.render := fun c _ => .append_newline _
  have hconstraints : ∀ k ∈ t.constraints, EndsLines k.render := fun k _ =>
    ((endsLines_renderKey _ k.primary).append (endsLines_renderKey _ k.unique)).append
      (endsLines_renderKey _ k.foreign)
  have htitle : EndsLines ("table name: " ++ t.name ++ "\n") := .append_newline _
  exact (htitle.append (.join (List.forall_mem_map.2 hcolumns))).append
    (.join (List.forall_mem_map.2 hconstraints))

/-! ## The tables of a text -/

/-- The table that a list declares keeps to its lines. -/
theorem Table.isInLine_declared (name : String) {items : List TableItem}
    (h : ∀ item ∈ items, item.IsDeclared) : (Table.declared name items).IsInLine := by
  obtain ⟨hcolumns, hconstraints⟩ := TableContents.isInLine_ofItems h .empty
  exact ⟨lineEnds_cleanIdentifier name, hcolumns, hconstraints⟩

/-- A column without its nameless type keeps to its line. -/
theorem Column.IsInLine.exported {c : Column} (h : c.IsInLine) : c.exported.IsInLine :=
  ⟨h.name, h.comment, fun t ht => h.source t (Option.eq_some_of_filter_eq_some ht)⟩

/-- A table keeps to its lines when it is exported. -/
theorem Table.IsInLine.exported {t : Table} (h : t.IsInLine) : t.exported.IsInLine := by
  refine ⟨lineEnds_unqualifiedName h.name, ?_, h.constraints⟩
  exact List.forall_mem_map.2 fun c hc => (h.columns c hc).exported

namespace Export

/-- The tables of a text keep to their lines. -/
theorem isInLine_ofText {text : String} {e : Export} (h : ofText text = .ok e) :
    ∀ t ∈ e.tables, t.IsInLine := by
  obtain ⟨ls, hls, htables⟩ := tables_of_yields h
  have hlegible := Token.legible_of_ofString hls
  intro t ht
  obtain ⟨name, items, rfl, -, hitems⟩ := htables (fun _ => True) _
    (.of_steady (Grammar.tableName_steady _)) (Grammar.tableItems_yields hlegible) t ht
  exact (Table.isInLine_declared name hitems).exported

/-- Each table of a text is shown by a line for itself, one for each column and one for each key
with columns, and by as many more as the members and the character sets of its columns end. Its text
ends with the end of a line, and names, comments and the columns of keys end none. -/
theorem lineEnds_render_of_ofText {text : String} {e : Export} (h : ofText text = .ok e) :
    ∀ t ∈ e.tables,
      lineEnds t.render = 1 + t.columns.length + t.constraints.countP (·.names ≠ []) +
        (t.columns.map Column.innerLineEnds).sum ∧
      EndsLines t.render ∧
      lineEnds t.name = 0 ∧
      (∀ c ∈ t.columns, lineEnds c.name = 0 ∧ lineEnds c.constraint.comment = 0) ∧
      ∀ k ∈ t.constraints, ∀ name ∈ k.names, lineEnds name = 0 := by
  intro t ht
  have htable := isInLine_ofText h t ht
  refine ⟨htable.lineEnds_render, t.endsLines_render, htable.name, fun c hc => ?_, fun k hk => ?_⟩
  · exact ⟨(htable.columns c hc).name, (htable.columns c hc).comment⟩
  · exact (htable.constraints k hk).names

/-! ### A member of two lines -/

open Token

/-- The tokens of a table with one column, an enumeration whose member is two lines long. -/
theorem reads_twoLines :
    Reads "CREATE TABLE \x60t\x60 (\x60a\x60 ENUM('x\ny'))".toList
      [.word none "CREATE", .word none "TABLE", .word (some '\x60') "t", .symbol .openParen,
        .word (some '\x60') "a", .word none "ENUM", .symbol .openParen, .literal .single "x\ny",
        .symbol .closeParen, .symbol .closeParen] := by
  -- The text is taken apart from its end.
  have hclose : Follows [.symbol .closeParen, .symbol .closeParen] :=
    .cons .closeParen (Follows.cons .closeParen Follows.nil.readsBack).readsBack
  have hmember : Follows [.symbol .openParen, .literal .single "x\ny", .symbol .closeParen,
      .symbol .closeParen] :=
    .cons .openParen ⟨⟨'\'', _, _, rfl, rfl⟩, hclose.readsBack⟩
  have htype : Follows (.blank :: .word none "ENUM" :: _) :=
    .cons .blank (hmember.readsBack_word (by decide))
  have hcolumn : Follows (.symbol .openParen :: .word (some '\x60') "a" :: _) :=
    .cons .openParen ⟨⟨'\x60', _, _, rfl, rfl⟩, htype.readsBack⟩
  have hlist : Reads " (\x60a\x60 ENUM('x\ny'))".toList _ :=
    (Follows.cons .blank hcolumn.readsBack).readsBack.reads
  have hname : Reads ('\x60' :: ("t".toList ++ '\x60' :: _)) _ :=
    hlist.quoted (by decide) (by rintro _ ⟨⟩; decide)
  exact reads_createTable hname

/-- The type of that column, read from its tokens. -/
theorem columnDefinition_twoLines : Grammar.columnDefinition.readAll (Lexeme.ofTokens
    [.word none "ENUM", .symbol .openParen, .literal .single "x\ny", .symbol .closeParen]) =
      .ok ⟨.collection ⟨.enumeration, "ENUM"⟩ ["'x\ny'"] false none, []⟩ := by
  have hname : (TypeName.mk .enumeration "ENUM").Names (.word none "ENUM") := ⟨rfl, by decide⟩
  have hmember : ∀ u ∈ [Token.literal .single "x\ny"], u.IsString :=
    List.forall_mem_singleton.2 ⟨.single, by decide, "x\ny", rfl⟩
  have hform : TypeDecl.Form [.word none "ENUM", .symbol .openParen, .literal .single "x\ny",
      .symbol .closeParen] (.collection ⟨.enumeration, "ENUM"⟩ ["'x\ny'"] false none) :=
    .collection hname rfl (List.cons_ne_nil _ _) hmember .absent .absent
  rw [Parser.readAll_eq_ok, Grammar.columnDefinition,
    Parser.bind_of_ok (Grammar.dataType_of_form hform), Parser.bind_of_ok (Parser.many_of_none rfl)]
  rfl

/-- The table that is declared so. -/
theorem ofText_twoLines :
    ofText "CREATE TABLE \x60t\x60 (\x60a\x60 ENUM('x\ny'))" = .ok ⟨[⟨"t", [⟨"a",
      some { name := "ENUM", number := 47, source := "ENUM('x\ny')", members := ["x\ny"] },
      {}⟩], []⟩], .empty⟩ := by
  have hcolumn : Grammar.Declares [.word (some '\x60') "a", .word none "ENUM", .symbol .openParen,
      .literal .single "x\ny", .symbol .closeParen] (.column ⟨"\x60a\x60", []⟩
        ⟨.collection ⟨.enumeration, "ENUM"⟩ ["'x\ny'"] false none, []⟩) :=
    .column columnDefinition_twoLines
  have hentries : ∀ e ∈ [(_, _)], Grammar.IsEntry e.1 e.2 :=
    List.forall_mem_singleton.2 hcolumn.isEntry
  rw [ofText_of_entries Grammar.spells_createTable none "t" (List.cons_ne_nil _ _) hentries
    reads_twoLines]
  decide

/-- A member of two lines makes a table of one column three lines long. -/
theorem lineEnds_render_of_twoLines :
    ∃ e, ofText "CREATE TABLE \x60t\x60 (\x60a\x60 ENUM('x\ny'))" = .ok e ∧
      e.tables.map (fun t => lineEnds t.render) = [3] := by
  refine ⟨_, ofText_twoLines, ?_⟩
  have hlines := (lineEnds_render_of_ofText ofText_twoLines _ List.mem_cons_self).1
  exact congrArg (fun n => [n]) (hlines.trans (by decide))

/-- So it is not true that a table is always shown by a line for itself, one for each column and one
for each key with columns. -/
theorem not_forall_lineEnds_render : ¬ ∀ text e, ofText text = .ok e → ∀ t ∈ e.tables,
    lineEnds t.render = 1 + t.columns.length + t.constraints.countP (·.names ≠ []) := by
  intro h
  have htable := h _ _ ofText_twoLines _ List.mem_cons_self
  revert htable
  decide

end Export

end TableSchema
