import TableSchema.Proofs.DataType.Source
import TableSchema.Proofs.Grammar.Yield
import TableSchema.Proofs.Table.Steady
import TableSchema.Proofs.Token.Written

/-!
# The types of a list

Every type of a column of a list that was read is one that the grammar of data types can give, so
what is known of resolved types holds of every column of every table.

## Main results

* `tableItems_yields`: the lists that the grammar gives declare such types only.
-/

namespace TableSchema

/-- The type of a column is one that the grammar can give. -/
def TableItem.IsDeclared : TableItem → Prop
  | column _ decl => ∃ c, decl.type.Declared c
  | constraint _ => True
  | index _ => True

namespace Grammar

open TableSchema.Parser TableSchema.Parser.Seam

variable {text : List Lexeme}

/-- The data types of a text that was read. -/
theorem dataType_yields (htext : ∀ l ∈ text, l.token.Legible) :
    Yields text dataType fun type => ∃ c, type.Declared c := by
  intro ls hls type rest h
  obtain ⟨ts, hts, hform⟩ := dataType_takesForm h
  refine ⟨(dataType_steady textEnd ls trivial type rest h).1, hform.declared fun t ht => ?_⟩
  have hmem : t ∈ Lexeme.tokens ls := hts ▸ List.mem_append_left _ ht
  obtain ⟨l, hl, rfl⟩ := List.mem_map.1 hmem
  exact htext l (hls.subset hl)

theorem columnDefinition_yields (htext : ∀ l ∈ text, l.token.Legible) :
    Yields text columnDefinition fun decl => ∃ c, decl.type.Declared c := by
  refine (dataType_yields htext).bind fun type htype => ?_
  have hclauses : textEnd.Steady (many do
      if ← asks isColumnEnd then return none else return some (← columnClause)) :=
    .many ((isColumnEnd_steady _).bind fun ends =>
      .ite (.pure none) ((columnClause_steady _).map some))
  exact (Yields.of_steady hclauses).bind fun clauses _ => .pure htype

theorem tableItem_yields (htext : ∀ l ∈ text, l.token.Legible) :
    Yields text tableItem TableItem.IsDeclared := by
  have hcolumn : Yields text namedColumn TableItem.IsDeclared :=
    (Yields.of_steady (columnName_steady _)).bind fun name _ =>
      (columnDefinition_yields htext).bind fun decl hdecl => .pure hdecl
  refine (Yields.asks _).bind fun constraint _ => .ite (fun _ => ?_) fun _ => ?_
  · exact (Yields.of_steady (tableConstraint_steady _)).bind fun decl _ => .pure trivial
  · refine (Yields.asks _).bind fun index _ => .ite (fun _ => ?_) fun _ => hcolumn
    exact (Yields.of_steady (indexDeclaration_steady _)).bind fun decl _ => .pure trivial

/-- The types of the columns of a list are ones that the grammar can give. -/
theorem tableItems_yields (htext : ∀ l ∈ text, l.token.Legible) :
    Yields text tableItems fun items => ∀ item ∈ items, item.IsDeclared :=
  (tableItem_yields htext).list

end Grammar

end TableSchema
