import TableSchema.Proofs.Column.Clause
import TableSchema.Proofs.Grammar.Yield
import TableSchema.Proofs.Script.Findings
import TableSchema.Proofs.Table.Composition

/-!
# The names of a table

The names of the columns and of the columns of keys are read off the entries of the list of a table,
in their order: of the name of a column only the first word is kept, and a computed part of a key
has no name. The entries are read off the tokens of the list, one behind the other.

## Main definitions

* `TableItem.Written`: the tokens of an entry;
* `TableItem.columnText?`, `TableItem.keyTexts`: what is written for the names of an entry.

## Main results

* `tableItems_written`: the tokens of a list are those of its entries, with commas between them;
* `Table.names_declared`: the names of a table, in the order of its entries;
* `tableName_yields`, `tableItems_names`: where the names are written in a text.
-/

namespace TableSchema

open Token Resolve

/-! ## Written lists -/

/-- The tokens of an entry: of a column those of its name, of its type and of its clauses, and of a
constraint or an index those that it is read from. -/
inductive TableItem.Written : List Token → TableItem → Prop
  | column {us types : List Token} {clauses : List (List Token)} {name : ColumnName}
      {decl : ColumnDecl} (hname : name.Written us) (htype : decl.type.Form types)
      (hclauses : List.Forall₂ ColumnClause.Written clauses decl.clauses) :
      Written (us ++ (types ++ clauses.flatten)) (.column name decl)
  | constraint {ls rest : List Lexeme} {decl : ConstraintDecl}
      (h : Grammar.tableConstraint (ls ++ rest) = .ok (decl, rest)) :
      Written (Lexeme.tokens ls) (.constraint decl)
  | index {ls rest : List Lexeme} {decl : IndexDecl}
      (h : Grammar.indexDeclaration (ls ++ rest) = .ok (decl, rest)) :
      Written (Lexeme.tokens ls) (.index decl)

namespace Parser

open Lexeme

variable {α : Type} {item : Parser α} {phrase : List Token → α → Prop} {ls rest : List Lexeme}

/-- Phrases one behind the other are repeated. -/
theorem repeated_of_forall₂ {groups : List (List Token)} {as : List α}
    (h : List.Forall₂ phrase groups as) : Repeated phrase groups.flatten as := by
  induction h with
  | nil => exact .nil
  | cons hphrase _ ih => exact .cons hphrase ih

/-- The next item takes a comma and a phrase, or there is none. -/
theorem nextItem_takes (hitem : ∀ ls a rest, item ls = .ok (a, rest) →
      ∃ ts, tokens ls = ts ++ tokens rest ∧ phrase ts a) {a? : Option α}
    (h : Grammar.nextItem item ls = .ok (a?, rest)) :
    (a? = none ∧ rest = ls) ∨ ∃ a ts, a? = some a ∧ tokens ls = ts ++ tokens rest ∧
      BehindComma phrase ts a := by
  obtain ⟨comma, mid, heat, h⟩ := bind_eq_ok.1 h
  obtain ⟨hopens, rfl⟩ := eatAll_eq_ok.1 heat
  -- An item is read behind a comma only.
  cases comma with
  | false =>
    obtain ⟨rfl, rfl⟩ := pure_eq_ok.1 h
    exact .inl ⟨rfl, rfl⟩
  | true =>
    obtain ⟨a, ha, rfl⟩ := map_eq_ok.1 h
    obtain ⟨l, behind, rfl, hl, -⟩ := Terminal.opens_cons.1 hopens
    obtain ⟨ts, hts, hphrase⟩ := hitem _ _ _ ha
    have hcomma : l.token = .symbol .comma := by simpa [Terminal.accepts] using hl
    have htokens : tokens (l :: behind) = .symbol .comma :: ts ++ tokens rest := by
      rw [tokens_cons, hcomma, List.cons_append, ← hts]
      rfl
    exact .inr ⟨a, _, rfl, htokens, .mk hphrase⟩

/-- A list takes a phrase for each of its values, with commas between them and parentheses around
them. -/
theorem list_takes (hitem : ∀ ls a rest, item ls = .ok (a, rest) →
      ∃ ts, tokens ls = ts ++ tokens rest ∧ phrase ts a) {as : List α}
    (h : list item ls = .ok (as, rest)) :
    ∃ ts, tokens ls = ts ++ tokens rest ∧ Listed phrase ts as := by
  obtain ⟨_, opened, hopen, h⟩ := bind_eq_ok.1 h
  obtain ⟨bs, mid, hseparated, h⟩ := bind_eq_ok.1 h
  obtain ⟨_, closed, hclose, h⟩ := bind_eq_ok.1 h
  obtain ⟨rfl, rfl⟩ := pure_eq_ok.1 h
  obtain ⟨l, rfl, hl⟩ := expect_eq_ok.1 hopen
  obtain ⟨m, rfl, hm⟩ := expect_eq_ok.1 hclose
  rw [Grammar.separated_eq] at hseparated
  obtain ⟨first, behind, hfirst, hseparated⟩ := bind_eq_ok.1 hseparated
  obtain ⟨others, left, hmany, hseparated⟩ := bind_eq_ok.1 hseparated
  obtain ⟨rfl, rfl⟩ := pure_eq_ok.1 hseparated
  -- The first item stands behind the parenthesis, and each of the others behind a comma.
  obtain ⟨ts, hts, hphrase⟩ := hitem _ _ _ hfirst
  obtain ⟨groups, hgroups, hothers⟩ : ∃ groups,
      tokens behind = groups.flatten ++ tokens (m :: closed) ∧
        List.Forall₂ (BehindComma phrase) groups others := by
    refine many_takes (fun ls rest hstep => ?_) (fun ls a rest hstep => ?_) hmany
    · obtain ⟨-, hrest⟩ | ⟨a, us, hsome, -⟩ := nextItem_takes hitem hstep
      · exact hrest
      · exact nomatch hsome
    · obtain ⟨hnone, -⟩ | ⟨_, us, hsome, hus, hbehind⟩ := nextItem_takes hitem hstep
      · exact nomatch hnone
      · exact ⟨us, hus, Option.some.inj hsome ▸ hbehind⟩
  have hparen : l.token = .symbol .openParen := by simpa [Terminal.accepts] using hl
  have hparen' : m.token = .symbol .closeParen := by simpa [Terminal.accepts] using hm
  refine ⟨_, ?_, .mk hphrase (repeated_of_forall₂ hothers)⟩
  rw [tokens_cons, hparen, hts, hgroups, tokens_cons, hparen']
  simp

end Parser

namespace Grammar

open TableSchema.Parser TableSchema.Lexeme

variable {ls rest : List Lexeme}

/-- An identifier is a word. -/
theorem identifier_takes {text : String} (h : identifier ls = .ok (text, rest)) :
    ∃ quote value, tokens ls = .word quote value :: tokens rest ∧ text = wordText quote value := by
  obtain ⟨l, rfl, hl⟩ := token_eq_ok.1 h
  rw [tokens_cons]
  cases htoken : l.token with
  | word quote value =>
    rw [htoken] at hl
    exact ⟨quote, value, rfl, (Option.some.inj hl).symm⟩
  | _ => simp [htoken, wordText?] at hl

/-- What stands behind a point is a word. -/
theorem afterPoint_takes {text? : Option String}
    (h : after [.symbol .period] identifier ls = .ok (text?, rest)) :
    (∃ quote value, tokens ls = .symbol .period :: .word quote value :: tokens rest ∧
      text? = some (wordText quote value)) ∨ (text? = none ∧ ls = rest) := by
  obtain ⟨hopens, text, htext, rfl⟩ | ⟨-, hnone⟩ := after_eq_ok.1 h
  · obtain ⟨l, behind, rfl, hl, -⟩ := Terminal.opens_cons.1 hopens
    obtain ⟨quote, value, htokens, rfl⟩ := identifier_takes htext
    have hpoint : l.token = .symbol .period := by simpa [Terminal.accepts] using hl
    exact .inl ⟨quote, value, by rw [tokens_cons, hpoint, ← htokens]; rfl, rfl⟩
  · exact .inr hnone

/-- The name of a column takes the words that it is written with. -/
theorem columnName_takes {name : ColumnName} (h : columnName ls = .ok (name, rest)) :
    ∃ ts, tokens ls = ts ++ tokens rest ∧ name.Written ts := by
  obtain ⟨head, mid, hhead, h⟩ := bind_eq_ok.1 h
  obtain ⟨quote, value, htokens, rfl⟩ := identifier_takes hhead
  obtain ⟨first?, mid', hfirst, h⟩ := bind_eq_ok.1 h
  obtain ⟨quote', value', htokens', rfl⟩ | ⟨rfl, rfl⟩ := afterPoint_takes hfirst
  · obtain ⟨second?, mid'', hsecond, h⟩ := bind_eq_ok.1 h
    obtain ⟨quote'', value'', htokens'', rfl⟩ | ⟨rfl, rfl⟩ := afterPoint_takes hsecond
    · obtain ⟨rfl, rfl⟩ := pure_eq_ok.1 h
      exact ⟨_, by rw [htokens, htokens', htokens'']; rfl, .ofDatabase ..⟩
    · obtain ⟨rfl, rfl⟩ := pure_eq_ok.1 h
      exact ⟨_, by rw [htokens, htokens']; rfl, .ofTable ..⟩
  · obtain ⟨rfl, rfl⟩ := pure_eq_ok.1 h
    exact ⟨_, by rw [htokens]; rfl, .column ..⟩

/-- An entry takes the tokens that it is written with. -/
theorem tableItem_takes {item : TableItem} (h : tableItem ls = .ok (item, rest)) :
    ∃ ts, tokens ls = ts ++ tokens rest ∧ item.Written ts := by
  obtain ⟨constraint, mid, hasks, h⟩ := bind_eq_ok.1 h
  obtain ⟨-, rfl⟩ := asks_eq_ok.1 hasks
  -- The entry is a constraint, or else an index, or else a column.
  cases constraint with
  | true =>
    obtain ⟨decl, hdecl, rfl⟩ := map_eq_ok.1 h
    obtain ⟨front, rfl⟩ := (tableConstraint_steady .textEnd _ trivial decl rest hdecl).1
    exact ⟨tokens front, tokens_append front rest, .constraint hdecl⟩
  | false =>
    obtain ⟨index, mid', hasks, h⟩ := bind_eq_ok.1 h
    obtain ⟨-, rfl⟩ := asks_eq_ok.1 hasks
    cases index with
    | true =>
      obtain ⟨decl, hdecl, rfl⟩ := map_eq_ok.1 h
      obtain ⟨front, rfl⟩ := (indexDeclaration_steady .textEnd _ trivial decl rest hdecl).1
      exact ⟨tokens front, tokens_append front rest, .index hdecl⟩
    | false =>
      obtain ⟨name, behind, hname, h⟩ := bind_eq_ok.1 h
      obtain ⟨decl, hdecl, rfl⟩ := map_eq_ok.1 h
      obtain ⟨us, hus, hwritten⟩ := columnName_takes hname
      obtain ⟨types, clauses, htypes, htype, hclauses⟩ := columnDefinition_takes hdecl
      exact ⟨_, by rw [hus, htypes]; simp, .column hwritten htype hclauses⟩

/-- A list of a text is written in the text: its entries stand one behind the other, with commas
between them. -/
theorem tableItems_written (text : List Lexeme) :
    Yields text tableItems fun items =>
      ∃ ts, ts <:+: tokens text ∧ Listed TableItem.Written ts items := by
  intro ls hls items rest h
  obtain ⟨ts, hts, hwritten⟩ := list_takes (fun _ _ _ => tableItem_takes) h
  have hsteady : Seam.textEnd.Steady tableItems := .list (tableItem_steady _)
  refine ⟨(hsteady ls trivial items rest h).1, ts, ?_, hwritten⟩
  obtain ⟨front, rfl⟩ := hls
  exact ⟨tokens front, tokens rest, by rw [tokens_append, hts, List.append_assoc]⟩

end Grammar

/-! ## The names that a list gives -/

/-- What is written for the name of the column that an entry declares. -/
def TableItem.columnText? : TableItem → Option String
  | column name _ => some name.head
  | constraint _ => none
  | index _ => none

/-- What is written for the name of the column that a key part refers to. -/
def KeyTarget.nameText? : KeyTarget → Option String
  | column name => some name
  | literal text => some text
  | expression _ => none

/-- The parts of a key. A check has none. -/
def ConstraintDecl.parts : ConstraintDecl → List KeyPart
  | primaryKey _ _ _ parts | uniqueKey _ _ _ parts | foreignKey _ _ parts _ => parts
  | check _ _ => []

/-- What is written for the names of the columns of the key that an entry declares. -/
def TableItem.keyTexts : TableItem → List String
  | column _ _ => []
  | constraint decl => decl.parts.filterMap (·.target.nameText?)
  | index _ => []

/-- The columns of a key, whatever its kind. -/
def KeyColumns.names (k : KeyColumns) : List String :=
  k.primary ++ k.unique ++ k.foreign

/-- A key part gives the name that is written, cleaned. -/
theorem KeyPart.columnName?_value (part : KeyPart) :
    part.columnName?.value = part.target.nameText?.map Text.cleanIdentifier := by
  unfold KeyPart.columnName?
  cases part.target <;> rfl

/-- Key parts give the names that are written, cleaned, in their order. -/
theorem KeyPart.columnNames_always (parts : List KeyPart) :
    Always (· = (parts.filterMap (·.target.nameText?)).map Text.cleanIdentifier)
      (columnNames parts) := by
  intro ds
  rw [KeyPart.columnNames, Gives.filterMapM KeyPart.columnName?_gives parts ds]
  simp [KeyPart.columnName?_value, List.map_filterMap]

/-- A constraint gives the names of its parts, if it is a key. -/
theorem ConstraintDecl.names_resolve (decl : ConstraintDecl) :
    Always (fun k? => k?.toList.flatMap KeyColumns.names =
      (decl.parts.filterMap (·.target.nameText?)).map Text.cleanIdentifier) decl.resolve := by
  cases decl with
  | primaryKey name index type parts =>
    exact (KeyPart.columnNames_always parts).bind fun names hnames => .pure (by
      simpa [KeyColumns.names, ConstraintDecl.parts] using hnames)
  | uniqueKey name word index parts =>
    exact (KeyPart.columnNames_always parts).bind fun names hnames => .pure (by
      simpa [KeyColumns.names, ConstraintDecl.parts] using hnames)
  | foreignKey name index parts reference =>
    exact (KeyPart.columnNames_always parts).bind fun names hnames => .pure (by
      simpa [KeyColumns.names, ConstraintDecl.parts] using hnames)
  | check name expression => exact .bind_any fun _ => .pure rfl

namespace TableContents

/-- The names of the columns. -/
def columnNames (contents : TableContents) : List String :=
  contents.columns.map Column.name

/-- The names of the columns of keys. -/
def keyNames (contents : TableContents) : List String :=
  contents.constraints.flatMap KeyColumns.names

/-- The names are those of the first contents and then those that are written, cleaned. -/
structure Adds (contents : TableContents) (columns keys : List String) (more : TableContents) :
    Prop where
  columns : more.columnNames = contents.columnNames ++ columns.map Text.cleanIdentifier
  keys : more.keyNames = contents.keyNames ++ keys.map Text.cleanIdentifier

/-- One more entry adds its names. -/
theorem adds_addItem (contents : TableContents) (item : TableItem) :
    Always (contents.Adds item.columnText?.toList item.keyTexts) (contents.addItem item) := by
  cases item with
  | column name decl =>
    refine .bind_any fun _ => .pure ⟨?_, ?_⟩
    · simp [columnNames, TableItem.columnText?]
    · simp [keyNames, TableItem.keyTexts]
  | constraint decl =>
    refine decl.names_resolve.bind fun keys? hkeys => ?_
    cases keys? with
    | none =>
      exact .pure ⟨by simp [TableItem.columnText?], by simpa [TableItem.keyTexts] using hkeys⟩
    | some keys =>
      refine .pure ⟨by simp [columnNames, TableItem.columnText?], ?_⟩
      simpa [keyNames, TableItem.keyTexts] using hkeys
  | index decl =>
    exact .bind_any fun _ => .pure ⟨by simp [TableItem.columnText?], by simp [TableItem.keyTexts]⟩

/-- The entries of a list add their names, in their order. -/
theorem adds_foldlM (contents : TableContents) (items : List TableItem) :
    Always
      (contents.Adds (items.filterMap TableItem.columnText?) (items.flatMap TableItem.keyTexts))
      (items.foldlM addItem contents) := by
  induction items generalizing contents with
  | nil => exact .pure ⟨by simp, by simp⟩
  | cons item items ih =>
    rw [List.foldlM_cons]
    refine (adds_addItem contents item).bind fun next hnext => ?_
    intro ds
    obtain ⟨hcolumns, hkeys⟩ := ih next ds
    refine ⟨?_, ?_⟩
    · rw [hcolumns, hnext.columns]
      cases h : item.columnText? <;> simp [h]
    · rw [hkeys, hnext.keys]
      simp

end TableContents

/-- The names of a table that a list declares, in the order of its entries. -/
theorem Table.names_declared (name : String) (items : List TableItem) :
    (declared name items).columns.map Column.name =
        (items.filterMap TableItem.columnText?).map Text.cleanIdentifier ∧
      (declared name items).constraints.flatMap KeyColumns.names =
        (items.flatMap TableItem.keyTexts).map Text.cleanIdentifier := by
  obtain ⟨hcolumns, hkeys⟩ := TableContents.adds_foldlM {} items .empty
  exact ⟨hcolumns, hkeys⟩

/-- A column is exported under its name. -/
theorem Table.names_exported (t : Table) :
    t.exported.columns.map Column.name = t.columns.map Column.name := by
  simp [exported, Column.exported, Function.comp_def]

/-! ## Where names are written -/

namespace Token

/-- A string literal is a name. -/
theorem nameText?_of_stringText? {t : Token} {s : String} (h : t.stringText? = some s) :
    t.nameText? = some s := by
  simp [nameText?, h]

/-- A word is a name. -/
theorem nameText?_of_wordText? {t : Token} {s : String} (h : t.wordText? = some s) :
    t.nameText? = some s := by
  cases t with
  | word quote value => exact h
  | _ => exact nomatch h

end Token

namespace Grammar

open TableSchema.Parser TableSchema.Parser.Seam TableSchema.Lexeme

variable {N : String → Prop} {text : List Lexeme}

/-- The name of a table takes the tokens that it is written with. -/
theorem tableName_takes {name : String} {ls rest : List Lexeme}
    (h : tableName ls = .ok (name, rest)) :
    ∃ ts, tokens ls = ts ++ tokens rest ∧ TableName ts name := by
  obtain ⟨_, mid, htaken, hname⟩ := bind_eq_ok.1 h
  obtain ⟨hparts, -⟩ := taken_eq_ok.1 htaken
  obtain ⟨-, rfl⟩ := pure_eq_ok.1 hname
  -- The name is what any run of tokens in front of the rest is glued to.
  have hglued : ∀ {ts s}, tokens ls = ts ++ tokens mid → TableName ts s → TableName ts name := by
    intro ts s hts htable
    obtain ⟨rfl, -⟩ := Prod.mk.inj (Except.ok.inj (h.symm.trans (glued_of_ok hparts hts)))
    exact htable.glue_eq ▸ htable
  obtain ⟨_, behind, hfirst, hparts⟩ := bind_eq_ok.1 hparts
  obtain ⟨_, hfirst⟩ := discard_eq_ok.1 hfirst
  obtain ⟨quote, value, htokens, -⟩ := identifier_takes hfirst
  obtain ⟨dotted, behind', heat, hparts⟩ := bind_eq_ok.1 hparts
  obtain ⟨hopens, rfl⟩ := eatAll_eq_ok.1 heat
  cases dotted with
  | false =>
    obtain ⟨-, rfl⟩ := pure_eq_ok.1 hparts
    exact ⟨_, htokens, hglued htokens (.plain quote value)⟩
  | true =>
    obtain ⟨l, behind', rfl, hl, -⟩ := Terminal.opens_cons.1 hopens
    have hpoint : l.token = .symbol .period := by simpa [Terminal.accepts] using hl
    obtain ⟨_, hsecond⟩ := discard_eq_ok.1 hparts
    obtain ⟨quote', value', htokens', -⟩ := identifier_takes hsecond
    have hall : tokens ls =
        [.word quote value, .symbol .period, .word quote' value'] ++ tokens mid := by
      rw [htokens, tokens_cons, hpoint, show tokens behind' = _ from htokens']
      rfl
    exact ⟨_, hall, hglued hall (.qualified quote value quote' value')⟩

/-- The name of a table of a text is written in the text. -/
theorem tableName_yields (text : List Lexeme) :
    Yields text tableName fun name => ∃ ts, ts <:+: tokens text ∧ TableName ts name := by
  intro ls hls name rest h
  obtain ⟨ts, hts, hname⟩ := tableName_takes h
  refine ⟨(tableName_steady .textEnd ls trivial name rest h).1, ts, ?_, hname⟩
  obtain ⟨front, rfl⟩ := hls
  exact ⟨tokens front, tokens rest, by rw [tokens_append, hts, List.append_assoc]⟩

/-- A key part names a column by a word or a string literal of the text. -/
theorem keyPart_yields (hN : ∀ l ∈ text, ∀ s ∈ l.token.nameText?, N s) :
    Yields text keyPart fun part => ∀ s ∈ part.target.nameText?, N s := by
  have htarget : Yields text keyTarget fun target => ∀ s ∈ target.nameText?, N s := by
    refine (Yields.of_steady (.ifAhead rfl (.glued .parenthesized))).bind fun expression? _ => ?_
    cases expression? with
    | some expression => exact .pure nofun
    | none =>
      have hstring : ∀ l ∈ text, ∀ s ∈ l.token.stringText?, N s := fun l hl s hs =>
        hN l hl s (Token.nameText?_of_stringText? hs)
      have hword : ∀ l ∈ text, ∀ s ∈ l.token.wordText?, N s := fun l hl s hs =>
        hN l hl s (Token.nameText?_of_wordText? hs)
      refine (Yields.token? hstring).bind fun literal? hliteral => ?_
      cases literal? with
      | some literal => exact .pure hliteral
      | none =>
        exact (Yields.token hword).bind fun name hname =>
          .pure fun s hs => Option.some.inj hs ▸ hname
  -- The length and the order behind the target are no names.
  refine htarget.bind fun target htarget => ?_
  refine (Yields.of_steady (.after rfl (numberInParens_steady _))).bind fun length _ => ?_
  refine (Yields.of_steady (.choose? ?_)).bind fun order _ => .pure htarget
  simp only [List.forall_mem_cons]
  exact ⟨.behind rfl (.pure _), .behind rfl (.pure _), nofun⟩

/-- The texts of the names of key parts are those of names of the text. -/
theorem keyParts_yields (hN : ∀ l ∈ text, ∀ s ∈ l.token.nameText?, N s) :
    Yields text keyParts fun parts => ∀ s ∈ parts.filterMap (·.target.nameText?), N s := by
  refine (keyPart_yields hN).list.mono fun parts hparts s hs => ?_
  obtain ⟨part, hpart, htext⟩ := List.mem_filterMap.1 hs
  exact hparts part hpart s htext

theorem optionedParts_yields (hN : ∀ l ∈ text, ∀ s ∈ l.token.nameText?, N s) :
    Yields text optionedParts fun parts => ∀ s ∈ parts.filterMap (·.target.nameText?), N s :=
  (keyParts_yields hN).bind fun _ hparts =>
    (Yields.of_steady (.discard (.many (.choose? (indexOptions_steady _))))).bind fun _ _ =>
      .pure hparts

theorem tableConstraint_yields (hN : ∀ l ∈ text, ∀ s ∈ l.token.nameText?, N s) :
    Yields text tableConstraint
      fun decl => ∀ s ∈ decl.parts.filterMap (·.target.nameText?), N s := by
  have hindex : Yields text indexName fun _ => True := .of_steady (indexName_steady _)
  have hkey : Yields text (expect (.keyword "KEY")) fun _ => True := .of_steady (.expect _)
  refine (Yields.of_steady (constraintName_steady _)).bind fun name _ => .choose ?_
  simp only [List.forall_mem_cons]
  refine ⟨.behind ?primary, .behind ?unique, .behind ?foreign, .behind ?check, nofun⟩
  case primary =>
    exact hkey.bind fun _ _ => hindex.bind fun _ _ =>
      (Yields.of_steady (indexType_steady _)).bind fun _ _ =>
        (optionedParts_yields hN).bind fun _ hparts => .pure hparts
  case unique =>
    exact (Yields.of_steady (indexWord_steady _)).bind fun _ _ => hindex.bind fun _ _ =>
      (Yields.of_steady (.discard (indexType_steady _))).bind fun _ _ =>
        (optionedParts_yields hN).bind fun _ hparts => .pure hparts
  case foreign =>
    exact hkey.bind fun _ _ => hindex.bind fun _ _ => (keyParts_yields hN).bind fun _ hparts =>
      (Yields.of_steady (reference_steady _)).bind fun _ _ => .pure hparts
  case check =>
    exact (Yields.of_steady (.glued .parenthesized)).bind fun _ _ => .pure nofun

/-- The texts of the names that the entries of a list declare are those of names of the text. -/
theorem tableItems_names (hN : ∀ l ∈ text, ∀ s ∈ l.token.nameText?, N s) :
    Yields text tableItems fun items =>
      ∀ item ∈ items, ∀ s ∈ item.columnText?.toList ++ item.keyTexts, N s := by
  have hword : ∀ l ∈ text, ∀ s ∈ l.token.wordText?, N s := fun l hl s hs =>
    hN l hl s (Token.nameText?_of_wordText? hs)
  have hpoint : Yields text (after [.symbol .period] identifier) fun _ => True :=
    .of_steady (.after rfl .identifier)
  have hname : Yields text columnName fun name => N name.head := by
    refine (Yields.token hword).bind fun head hhead => hpoint.bind fun first? _ => ?_
    cases first? with
    | none => exact .pure hhead
    | some first =>
      refine hpoint.bind fun second? _ => ?_
      cases second? with
      | none => exact .pure hhead
      | some second => exact .pure hhead
  -- The first word of an entry decides whether it is a constraint, an index or a column.
  refine Yields.list ((Yields.asks _).bind fun constraint _ => .ite (fun _ => ?_) fun _ => ?_)
  · exact (tableConstraint_yields hN).bind fun decl hdecl => .pure hdecl
  · refine (Yields.asks _).bind fun index _ => .ite (fun _ => ?_) fun _ => ?_
    · exact (Yields.of_steady (indexDeclaration_steady _)).bind fun decl _ => .pure nofun
    · refine hname.bind fun name hname => ?_
      exact (Yields.of_steady (columnDefinition_steady _)).bind fun decl _ =>
        .pure (List.forall_mem_singleton.2 hname)

end Grammar

end TableSchema
