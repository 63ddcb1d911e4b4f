import TableSchema.Proofs.Export.Entries
import TableSchema.Proofs.Grammar.Yield
import TableSchema.Proofs.Script.Concatenation

/-!
# The tables of a script

A table of a script is one that is declared by a list. Its name is one that the grammar of names
gives, its list is one that the grammar of lists gives, and both stand in the text. So what is
yielded by these two grammars of a text holds of all tables that the text declares.

## Main definitions

* `TableDecl.ListedWith`: what is known of the name and the list of a table that has a list.

## Main results

* `script_yields`: what is known of every name and every list is known of those of a script;
* `Export.tables_of_yields`: the tables that a text declares, with what is known of them.
-/

namespace TableSchema

/-- The name and the list of a table that is declared by a list have the properties. -/
def TableDecl.ListedWith (N : String → Prop) (Q : List TableItem → Prop) : TableDecl → Prop
  | columns name items => N name ∧ Q items
  | like _ _ => True
  | query _ _ _ => True

/-- The name and the list of a table that a statement declares by a list have the properties. -/
def Statement.ListedWith (N : String → Prop) (Q : List TableItem → Prop) : Statement → Prop
  | createTable decl => decl.ListedWith N Q
  | other _ _ _ => True

variable {N : String → Prop} {Q : List TableItem → Prop}

namespace Grammar

open TableSchema.Parser TableSchema.Parser.Seam

variable {text : List Lexeme}

/-! ## Tables -/

theorem skipUntil_yields (stop : List Lexeme → Bool) :
    Yields text (skipUntil stop) fun _ => True := by
  refine .of_suffix fun ls u rest h => ?_
  obtain rfl : dropUntil stop 0 ls = rest := by simpa [skipUntil] using h
  exact dropUntil_suffix stop 0 ls

theorem trailingQuery_yields : Yields text trailingQuery fun _ => True := by
  refine Yields.get.bind fun ls _ => ?_
  cases queryLead? ls with
  | none => exact .pure trivial
  | some lead =>
    exact (Yields.skip lead).bind fun _ _ =>
      (skipUntil_yields _).spaced.bind fun _ _ => .pure trivial

theorem tableClause?_yields : Yields text tableClause? fun _ => True := by
  have hchoice : Yields text (choose? tableClauses) fun _ => True := by
    refine (Yields.choose? (Q := fun _ => True) fun b hb ls hopens hls u rest hbody => ?_).mono
      fun _ _ => trivial
    -- Partitions are passed over; the options are steady at the end of a text.
    rcases List.mem_cons.1 hb with rfl | hoption
    · exact ((Yields.skip _).bind fun _ _ => skipUntil_yields _) ls hls u rest hbody
    · exact ⟨((tableOptions_steady textEnd b hoption).2 ls trivial hopens u rest hbody).1, trivial⟩
  refine hchoice.bind fun clause? _ => ?_
  cases clause? with
  | none => exact .pure trivial
  | some clause => exact (Yields.eat _).discard.bind fun _ _ => .pure trivial

theorem tableTail_yields : Yields text tableTail fun _ => True := by
  have hclauses : Yields text (many tableClause?) fun _ => True :=
    (Yields.many (Q := fun _ => True) (tableClause?_yields.mono fun _ _ _ _ => trivial)).mono
      fun _ _ => trivial
  refine hclauses.discard.bind fun _ _ => trailingQuery_yields.bind fun query? _ => ?_
  cases query? with
  | some query => exact .pure trivial
  | none => exact (Yields.asks _).bind fun ends _ => .ite (fun _ => .pure trivial) fun _ => .fail _

/-- The list of a table is what it is declared by, or it is left out. -/
theorem afterList_yields {name : String} (hname : N name) {items : Option (List TableItem)}
    (hitems : ∀ list ∈ items, Q list) :
    Yields text (afterList name items) (TableDecl.ListedWith N Q) := by
  intro ls hls decl rest h
  obtain ⟨query?, htail, hdecl⟩ := afterList_eq_ok.1 h
  refine ⟨(tableTail_yields ls hls query? rest htail).1, ?_⟩
  rcases items with _ | list <;> rcases query? with _ | query
  · exact nomatch hdecl
  · obtain rfl := Option.some.inj hdecl
    exact trivial
  · obtain rfl := Option.some.inj hdecl
    exact ⟨hname, hitems list rfl⟩
  · obtain rfl := Option.some.inj hdecl
    exact trivial

/-- What declares a table keeps its name and its entries. -/
theorem tableBody_yields {name : String} (hname : N name) (hitems : Yields text tableItems Q) :
    Yields text (tableBody name) (TableDecl.ListedWith N Q) := by
  rw [tableBody_eq]
  refine (Yields.asks _).bind fun listed _ =>
    .ite (fun _ => ?_) fun _ => afterList_yields hname nofun
  exact hitems.map_some.bind fun items hitems => afterList_yields hname hitems

/-- A table is declared by a name and a list that the grammar gives, or in another way. -/
theorem createTable_yields (hname : Yields text tableName N) (hitems : Yields text tableItems Q) :
    Yields text createTable (TableDecl.ListedWith N Q) := by
  have hmodel : Yields text (choose? [.behind [.keyword "LIKE"] tableName,
      .behind [.symbol .openParen, .keyword "LIKE"] modelInParens]) fun _ => True := by
    refine (Yields.choose? (Q := fun _ => True) ?_).mono fun _ _ => trivial
    simp only [List.forall_mem_cons]
    exact ⟨.behind (.of_steady (tableName_steady _)), .behind (.of_steady (modelInParens_steady _)),
      nofun⟩
  have hnamed : Yields text namedTable (TableDecl.ListedWith N Q) := by
    refine hname.bind fun name hname => hmodel.bind fun model? _ => ?_
    cases model? with
    | some model => exact .pure trivial
    | none => exact tableBody_yields hname hitems
  have hexpect : ∀ t, Yields text (expect t) fun _ => True := fun t => .of_steady (.expect t)
  -- The words in front of the name are passed over.
  rw [createTable_eq]
  refine (hexpect _).bind fun _ _ => (Yields.eat _).discard.bind fun _ _ => ?_
  refine (hexpect _).bind fun _ _ => (Yields.eat _).bind fun ifNotExists _ => ?_
  refine .ite (fun _ => ?_) fun _ => hnamed
  exact (hexpect _).bind fun _ _ => (hexpect _).bind fun _ _ => hnamed

/-! ## Scripts -/

/-- A statement that declares no table has none to keep. -/
theorem otherStatement_yields (category : Category) :
    Yields text (otherStatement category) (Statement.ListedWith N Q) := by
  have hline : Yields text skipLine fun _ => True := by
    refine .of_suffix fun ls u rest h => ?_
    obtain rfl : dropLine ls = rest := by simpa [skipLine] using h
    cases ls with
    | nil => exact List.suffix_refl _
    | cons l ls => exact (List.dropWhile_suffix _).trans (List.suffix_cons l ls)
  refine Yields.get.bind fun ls _ => Yields.bind (Yields.spaced ?_) fun text _ => .pure trivial
  exact .ite (fun _ => hline) fun _ => skipUntil_yields _

/-- A statement that declares a table keeps its name and its entries. -/
theorem statement_yields (hname : Yields text tableName N) (hitems : Yields text tableItems Q) :
    Yields text statement (Statement.ListedWith N Q) := by
  have htable : Yields text tableStatement (Statement.ListedWith N Q) :=
    (createTable_yields hname hitems).bind fun decl hdecl => .pure hdecl
  have hchoice : Yields text (choose? tableStatements)
      fun statement? => ∀ statement ∈ statement?, statement.ListedWith N Q := by
    refine .choose? ?_
    unfold tableStatements
    simp only [List.forall_mem_cons]
    exact ⟨fun ls _ => htable ls, fun ls _ => htable ls, nofun⟩
  -- A statement whose first words declare no table is passed over as a text.
  intro ls
  rw [YieldsAt, statement_eq]
  cases Category.of? ls with
  | none => exact Yields.fail _ ls
  | some category =>
    refine (hchoice.bind fun statement? hstatement => ?_) ls
    cases statement? with
    | some statement => exact .pure (hstatement statement rfl)
    | none => exact otherStatement_yields category

/-- The tables of a script are declared by names and lists that the grammar gives, or in another
way. -/
theorem script_yields (hname : Yields text tableName N) (hitems : Yields text tableItems Q) :
    Yields text script fun statements => ∀ s ∈ statements, s.ListedWith N Q := by
  have hseparator : Yields text separator fun _ => True := by
    refine (Yields.asks _).bind fun ends _ => .ite (fun _ => .pure trivial) fun _ => ?_
    refine (Yields.eat _).bind fun semicolon _ => .ite (fun _ => .pure trivial) fun _ => ?_
    exact (Yields.asks _).bind fun starts _ => .ite (fun _ => .pure trivial) fun _ => .fail _
  have hseparated : Yields text separatedStatement (Statement.ListedWith N Q) :=
    (statement_yields hname hitems).bind fun statement hstatement =>
      hseparator.bind fun _ _ => .pure hstatement
  refine .many fun ls => ?_
  induction ls with
  | nil =>
    intro _ statement? rest h
    obtain ⟨rfl, rfl⟩ := Prod.mk.inj (Except.ok.inj (statement?_nil.symm.trans h))
    exact ⟨List.suffix_refl _, nofun⟩
  | cons l ls ih =>
    intro hls statement? rest h
    -- Semicolons in front are passed over one by one.
    by_cases hl : l.token = .symbol .semicolon
    · rw [statement?_semicolon hl] at h
      obtain ⟨hrest, hdeclared⟩ := ih ((List.suffix_cons l ls).trans hls) statement? rest h
      exact ⟨hrest.trans (List.suffix_cons l ls), hdeclared⟩
    · rw [statement?_cons hl] at h
      exact hseparated.map_some _ hls statement? rest h

end Grammar

/-- A table of a script is declared by a name and a list. -/
theorem Script.exists_of_mem_tables {script : Script}
    (h : ∀ statement ∈ script, statement.ListedWith N Q) {t : Table} (ht : t ∈ script.tables) :
    ∃ name items, Table.declared name items = t ∧ N name ∧ Q items := by
  obtain ⟨statement, hmem, htable⟩ := List.mem_filterMap.1 ht
  have hlisted := h statement hmem
  cases statement with
  | other category keyword text => exact nomatch htable
  | createTable decl =>
    cases decl with
    | like table model => exact nomatch htable
    | query table items query => exact nomatch htable
    | columns name items => exact ⟨name, items, Option.some.inj htable, hlisted⟩

/-- Each table that a text declares has a name and a list that the grammar gives of the text. -/
theorem Export.tables_of_yields {text : String} {e : Export} (h : ofText text = .ok e) :
    ∃ ls, Lexeme.ofString text = .ok ls ∧ ∀ (N : String → Prop) (Q : List TableItem → Prop),
      Parser.Yields ls Grammar.tableName N → Parser.Yields ls Grammar.tableItems Q →
        ∀ t ∈ e.tables, ∃ name items, (Table.declared name items).exported = t ∧
          N name ∧ Q items := by
  obtain ⟨script, hparse, rfl⟩ := ofText_eq_ok.1 h
  obtain ⟨ls, hls, hscript⟩ := Parser.readString_eq_ok.1 hparse
  refine ⟨ls, hls, fun N Q hname hitems => ?_⟩
  have hlisted := (Grammar.script_yields hname hitems ls (List.suffix_refl ls) script [] hscript).2
  rw [tables_ofScript]
  refine List.forall_mem_map.2 fun t ht => ?_
  obtain ⟨name, items, rfl, hknown⟩ := Script.exists_of_mem_tables hlisted ht
  exact ⟨name, items, rfl, hknown⟩

end TableSchema
