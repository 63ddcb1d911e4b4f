import TableSchema.Proofs.Column.Agreement
import TableSchema.Proofs.Table.Steady
import TableSchema.Table.Grammar

/-!
# Tables of texts that are alike

Two texts that are alike declare tables with the same entries, up to their texts: no name is taken
for a word that opens a constraint, an index, an option or a query, and no literal ends a list or a
clause on partitions.

## Main definitions

* `TableItem.mapTexts`, `TableDecl.mapTexts`: declarations with their texts replaced.

## Main results

* `createTable_agree`: the grammar of tables agrees on texts that are alike.
-/

namespace TableSchema

/-- The name with the texts of its words replaced. -/
def ColumnName.mapTexts (name : String → String) (n : ColumnName) : ColumnName :=
  ⟨name n.head, n.dotted.map name⟩

/-- The entry with its texts replaced. -/
def TableItem.mapTexts (name content : String → String) : TableItem → TableItem
  | column n decl => .column (n.mapTexts name) (decl.mapTexts name content)
  | constraint decl => .constraint (decl.mapTexts name content)
  | index decl => .index (decl.mapTexts name content)

/-- The table with its texts replaced. -/
def TableDecl.mapTexts (name content : String → String) : TableDecl → TableDecl
  | like table model => .like (name table) (name model)
  | query table items text =>
    .query (name table) (items.map (List.map (.mapTexts name content))) (name text)
  | columns table items => .columns (name table) (items.map (.mapTexts name content))

namespace Grammar

open TableSchema.Parser TableSchema.Likeness

variable {k : Likeness} {l l' : Lexeme} {ls ls' : List Lexeme}

/-! ## Entries -/

/-- The parts of the name of a column are seen as names, and are equally many. -/
theorem columnName_agree : k.Agree (ColumnName.mapTexts k.name) columnName columnName := by
  refine Agree.identifier.bind fun head head' hhead => ?_
  refine (Agree.after .identifier).bind_option (fun first first' hfirst => ?_) (.pure ?_)
  · refine (Agree.after .identifier).bind_option
      (fun second second' hsecond => .pure ?_) (.pure ?_)
    · simp only [ColumnName.mapTexts, hhead, List.map_cons, hfirst, hsecond]
    · simp only [ColumnName.mapTexts, hhead, List.map_cons, hfirst]
  · simp only [ColumnName.mapTexts, hhead]

/-- A column has a name and a definition that look the same. -/
theorem namedColumn_agree :
    k.Agree (TableItem.mapTexts k.name k.content) namedColumn namedColumn := by
  refine columnName_agree.bind fun name name' hname => ?_
  refine columnDefinition_agree.bind fun decl decl' hdecl => .pure ?_
  rw [TableItem.mapTexts, TableItem.mapTexts, hname, hdecl]

/-- The first word of an entry sends it to the same rule in both texts. -/
theorem tableItem_agree : k.Agree (TableItem.mapTexts k.name k.content) tableItem tableItem := by
  refine (Agree.aheadAny _).bind_id fun _ => .ite ?_ ?_
  · exact tableConstraint_agree.bind fun _ _ h => .pure (congrArg TableItem.constraint h)
  · refine (Agree.aheadAny _).bind_id fun _ => .ite ?_ namedColumn_agree
    exact indexDeclaration_agree.bind fun _ _ h => .pure (congrArg TableItem.index h)

/-- The entries are equally many and look the same in order. -/
theorem tableItems_agree :
    k.Agree (List.map (TableItem.mapTexts k.name k.content)) tableItems tableItems :=
  .list tableItem_agree

/-! ## Options -/

/-- The value of an option is known by its shape. -/
theorem isOptionValue_eq (t : Token) : isOptionValue t = isOptionValue t.shape := by
  cases t with
  | literal kind body => cases kind <;> rfl
  | _ => rfl

/-- The value of an option is passed over in both texts. -/
theorem optionValue_agree : k.Agree id optionValue optionValue := by
  refine .discard (.token _ (shows_guard fun l l' hl => ?_))
  rw [isOptionValue_eq, k.shape_eq hl, ← isOptionValue_eq]

theorem assignment_agree : k.Agree id assignment assignment :=
  equalsSign_agree.bind_id fun _ => optionValue_agree

/-- The options for a character set begin with the same words. -/
theorem charsetOptions_agree : List.Forall₂ (k.AgreeBranch id) charsetOptions charsetOptions := by
  refine List.forall₂_same.2 ?_
  unfold charsetOptions
  simp only [List.forall_mem_cons]
  refine ⟨?_, ?_, ?_, ?_, nofun⟩
  all_goals exact .behind assignment_agree

theorem tablespace_agree : k.Agree id tablespace tablespace :=
  assignment_agree.bind_id fun _ => (Agree.eat _).bind_id fun _ =>
    .ite optionValue_agree (.pure rfl)

/-- Each option of a table begins with the same words and is passed over in both texts. -/
theorem tableOptions_agree : List.Forall₂ (k.AgreeBranch id) tableOptions tableOptions := by
  refine List.forall₂_same.2 ?_
  have hcharset := List.forall₂_same.1 (charsetOptions_agree (k := k))
  unfold tableOptions
  simp only [List.cons_append, List.append_assoc, List.forall_mem_cons, List.forall_mem_append]
  refine ⟨.behind (.choose _ charsetOptions_agree), hcharset, .behind assignment_agree,
    .behind assignment_agree, .behind tablespace_agree, ?union, .behind (.pure rfl), nofun, ?plain⟩
  case union => exact .behind (equalsSign_agree.bind_id fun _ => .parenthesized)
  case plain =>
    intro b hb
    obtain ⟨name, -, rfl⟩ := List.mem_map.1 hb
    exact .behind assignment_agree

/-! ## Statements and queries that come next -/

/-- The same statement is opened in both texts. -/
theorem ofWords?_alike (h : k.All ls ls') : Category.ofWords? ls = Category.ofWords? ls' := by
  simp only [Category.ofWords?, opens_eq h]

/-- The next statement begins at the same place in both texts. -/
theorem startsStatement_alike (h : k.All ls ls') :
    Category.startsStatement ls = Category.startsStatement ls' := by
  rw [Category.startsStatement, Category.startsStatement, ofWords?_alike h]

/-- A query begins at the same place in both texts. -/
theorem startsQuery_alike (h : k.All ls ls') : startsQuery ls = startsQuery ls' := by
  rw [startsQuery, startsQuery, opensAny_eq h]

/-- The same words lead a query in both texts. -/
theorem queryLead?_alike (h : k.All ls ls') : queryLead? ls = queryLead? ls' := by
  have hdrop : ∀ n, k.All (ls.drop n) (ls'.drop n) := fun n => List.forall₂_drop n h
  simp only [queryLead?, opensAny_eq h, opens_eq (hdrop _), startsQuery_alike (hdrop _)]

/-- The query behind a table is kept as a text that is seen as a name. -/
theorem trailingQuery_agree : k.Agree (Option.map k.name) trailingQuery trailingQuery := by
  intro ls ls' hls
  have hlead := queryLead?_alike hls
  -- Whether there is a query is seen alike in both texts, and so is what leads to it.
  cases h : queryLead? ls with
  | none =>
    rw [h] at hlead
    exact .inl ⟨0, none, none, rfl, trailingQuery_of_none h, trailingQuery_of_none hlead.symm⟩
  | some lead =>
    rw [h] at hlead
    have hquery : k.Agree (Option.map k.name) (do skip lead; some <$> spaced skipStatement)
        (do skip lead; some <$> spaced skipStatement) :=
      (Agree.skip lead).bind_id fun _ => (Agree.spaced .skipStatement).map fun _ _ htext =>
        congrArg some htext
    rcases hquery ls ls' hls with ⟨n, a, a', hview, hok, hok'⟩ | ⟨n, e, herror, herror'⟩
    · exact .inl ⟨n, a, a', hview, (trailingQuery_of_some h).trans hok,
        (trailingQuery_of_some hlead.symm).trans hok'⟩
    · exact .inr ⟨n, e, (trailingQuery_of_some h).trans herror,
        (trailingQuery_of_some hlead.symm).trans herror'⟩

/-! ## Tables -/

/-- What ends the partitions stands at the same place in both texts. -/
theorem isPartitionEnd_alike (h : k.All ls ls') : isPartitionEnd ls = isPartitionEnd ls' := by
  rw [isPartitionEnd, isPartitionEnd, queryAhead, queryAhead, opens_eq h, queryLead?_alike h,
    startsStatement_alike h]

theorem tableClauses_agree : List.Forall₂ (k.AgreeBranch id) tableClauses tableClauses :=
  .cons (.behind (.skipUntil fun _ _ hls => isPartitionEnd_alike hls)) tableOptions_agree

theorem tableClause?_agree : k.Agree (Option.map id) tableClause? tableClause? := by
  refine (Agree.choose? tableClauses_agree).bind_option (fun _ _ _ => ?_) (.pure rfl)
  exact (Agree.discard (.eat _)).bind_id fun _ => .pure rfl

/-- A table ends at the same place in both texts. -/
theorem isTableEnd_alike (h : k.All ls ls') : isTableEnd ls = isTableEnd ls' := by
  rw [isTableEnd, isTableEnd, opens_eq h, startsStatement_alike h]
  cases h <;> rfl

/-- What stands behind the entries is passed over in both texts, up to the query. -/
theorem tableTail_agree : k.Agree (Option.map k.name) tableTail tableTail := by
  refine (Agree.discard (.many tableClause?_agree)).bind_id fun _ => ?_
  refine trailingQuery_agree.bind_option (fun _ _ h => .pure (congrArg some h)) ?_
  exact (Agree.asks fun _ _ hls => isTableEnd_alike hls).bind_id fun _ => .ite (.pure rfl) (.fail _)

/-- What follows the list agrees, and where it fails for want of a list and a query, it does so at
the same place. -/
theorem afterList_agree {name name' : String} (hname : k.name name = k.name name')
    {items items' : Option (List TableItem)}
    (hitems : items.map (List.map (TableItem.mapTexts k.name k.content)) =
      items'.map (List.map (TableItem.mapTexts k.name k.content))) :
    k.Agree (TableDecl.mapTexts k.name k.content) (afterList name items)
      (afterList name' items') := by
  intro ls ls' hls
  rcases tableTail_agree ls ls' hls with ⟨n, query?, query?', hquery, hok, hok'⟩ | ⟨n, e, he, he'⟩
  · cases query? with
    | some query =>
      obtain ⟨query', rfl, hview⟩ := Option.map_eq_some_iff.1 hquery.symm
      refine .inl ⟨n, .query name items query, .query name' items' query', ?_, ?_, ?_⟩
      · rw [TableDecl.mapTexts, TableDecl.mapTexts, hname, hitems, hview]
      · rw [afterList_eq, bind_of_ok hok]
        rfl
      · rw [afterList_eq, bind_of_ok hok']
        rfl
    | none =>
      obtain rfl : query?' = none := Option.map_eq_none_iff.1 hquery.symm
      cases items with
      | some items =>
        obtain ⟨items', rfl, hview⟩ := Option.map_eq_some_iff.1 hitems.symm
        refine .inl ⟨n, .columns name items, .columns name' items', ?_, ?_, ?_⟩
        · rw [TableDecl.mapTexts, TableDecl.mapTexts, hname, hview]
        · rw [afterList_eq, bind_of_ok hok]
          rfl
        · rw [afterList_eq, bind_of_ok hok']
          rfl
      | none =>
        -- The failure is at the first lexeme behind the name, wherever the tail ends.
        obtain rfl : items' = none := Option.map_eq_none_iff.1 hitems.symm
        refine .inr ⟨0, .tableBody, ?_, ?_⟩
        · rw [afterList_eq, bind_of_ok hok]
          rfl
        · rw [afterList_eq, bind_of_ok hok']
          rfl
  · exact .inr ⟨n, e, by rw [afterList_eq, bind_of_error he],
      by rw [afterList_eq, bind_of_error he']⟩

/-- What follows the name of a table declares it in the same way in both texts. -/
theorem tableBody_agree {name name' : String} (hname : k.name name = k.name name') :
    k.Agree (TableDecl.mapTexts k.name k.content) (tableBody name) (tableBody name') := by
  rw [tableBody_eq, tableBody_eq]
  have hlist : ∀ ls ls', k.All ls ls' → listAhead ls = listAhead ls' := fun ls ls' hls => by
    rw [listAhead, listAhead, opens_eq hls, startsQuery_alike (List.forall₂_drop 1 hls)]
  refine (Agree.asks hlist).bind_id fun _ => .ite ?_ (afterList_agree hname rfl)
  have hsome : k.Agree (Option.map (List.map (TableItem.mapTexts k.name k.content)))
      (some <$> tableItems) (some <$> tableItems) :=
    tableItems_agree.map fun _ _ hitems => congrArg some hitems
  exact hsome.bind fun _ _ hitems => afterList_agree hname hitems

/-- The table that another one is declared like is seen as a name. -/
theorem modelInParens_agree : k.Agree k.name modelInParens modelInParens :=
  tableName_agree.bind fun _ _ hname => (Agree.expect _).bind_id fun _ => .pure hname

/-- Behind `TABLE` both texts declare tables that look the same. -/
theorem namedTable_agree :
    k.Agree (TableDecl.mapTexts k.name k.content) namedTable namedTable := by
  refine tableName_agree.bind fun name name' hname => ?_
  have hmodel : k.Agree (Option.map k.name)
      (choose? [.behind [.keyword "LIKE"] tableName,
        .behind [.symbol .openParen, .keyword "LIKE"] modelInParens])
      (choose? [.behind [.keyword "LIKE"] tableName,
        .behind [.symbol .openParen, .keyword "LIKE"] modelInParens]) := by
    refine .choose? (.cons ?_ (.cons ?_ .nil))
    · exact .behind tableName_agree
    · exact .behind modelInParens_agree
  refine hmodel.bind_option (fun model model' h => .pure ?_) (tableBody_agree hname)
  rw [TableDecl.mapTexts, TableDecl.mapTexts, hname, h]

/-- Texts that are alike declare tables that look the same. -/
theorem createTable_agree :
    k.Agree (TableDecl.mapTexts k.name k.content) createTable createTable := by
  rw [createTable_eq]
  refine (Agree.expect _).bind_id fun _ => (Agree.discard (.eat _)).bind_id fun _ => ?_
  refine (Agree.expect _).bind_id fun _ => (Agree.eat _).bind_id fun _ => .ite ?_ namedTable_agree
  exact (Agree.expect _).bind_id fun _ => (Agree.expect _).bind_id fun _ => namedTable_agree

end Grammar

end TableSchema
