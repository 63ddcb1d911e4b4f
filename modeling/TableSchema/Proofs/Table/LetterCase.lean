import TableSchema.Proofs.DataType.Resolved
import TableSchema.Proofs.Script.Findings
import TableSchema.Proofs.Table.Agreement

/-!
# Tables up to the case of letters

Names and default values are kept as they are written, so declarations that differ in the case of
bare words give tables that differ in the case of these texts. Everything else is the same: flags,
numbers, lengths, comments and members, and data types as a whole, whose words are kept in upper
case. Only `LONG` keeps the name of a character set as it is written.

## Main definitions

* `Table.foldCase`: a table with its names and default values in lower case;
* `DataType.keepsCharset`: the data type keeps the name of a character set.

## Main results

* `TypeDecl.keepsCharset_resolve`: only `LONG` with a character set keeps its name;
* `TableDecl.alike_mapTexts_lower`: taking declared texts to lower case does not change the table
  that is declared, up to the case of letters.
-/

namespace TableSchema

open Resolve

/-! ## The schema -/

/-- The data type keeps the name of a character set. -/
def DataType.keepsCharset (t : DataType) : Bool :=
  t.isCharSet || t.isCharset || t.isCharacterSet

/-- The data type; if it keeps the name of a character set, with this name and the canonical text in
lower case. -/
def DataType.foldCase (t : DataType) : DataType :=
  if t.keepsCharset then
    { t with source := Text.lower t.source, charsetName := Text.lower t.charsetName }
  else t

/-- The default value with its text in lower case. -/
def DefaultValue.foldCase (d : DefaultValue) : DefaultValue :=
  { d with value := Text.lower d.value }

/-- What the clauses of a column say, with the default value in lower case. -/
def ColumnConstraint.foldCase (c : ColumnConstraint) : ColumnConstraint :=
  { c with defaultValue := c.defaultValue.map DefaultValue.foldCase }

/-- The column with its name and its default value in lower case. -/
def Column.foldCase (c : Column) : Column :=
  ⟨Text.lower c.name, c.dataType.map DataType.foldCase, c.constraint.foldCase⟩

/-- The key with the names of its columns in lower case. -/
def KeyColumns.foldCase (k : KeyColumns) : KeyColumns :=
  ⟨k.primary.map Text.lower, k.unique.map Text.lower, k.foreign.map Text.lower⟩

/-- What a list declares, with names and default values in lower case. -/
def TableContents.foldCase (contents : TableContents) : TableContents :=
  ⟨contents.columns.map Column.foldCase, contents.constraints.map KeyColumns.foldCase⟩

/-- The table with names and default values in lower case. -/
def Table.foldCase (t : Table) : Table :=
  ⟨Text.lower t.name, t.columns.map Column.foldCase, t.constraints.map KeyColumns.foldCase⟩

@[simp]
theorem DataType.name_foldCase (t : DataType) : t.foldCase.name = t.name := by
  unfold foldCase
  split <;> rfl

/-- A column is exported before or after its texts are taken to lower case. -/
theorem Column.foldCase_exported (c : Column) : c.exported.foldCase = c.foldCase.exported := by
  simp [foldCase, exported, Option.filter_map, Function.comp_def]

/-- A table is exported before or after its texts are taken to lower case. -/
theorem Table.foldCase_exported (t : Table) : t.exported.foldCase = t.foldCase.exported := by
  have hmark : ∀ c ∈ qualifierMark.toList, Text.IsMark c := by
    change ∀ c ∈ ['\x60', '.', '\x60'], Text.IsMark c
    simp only [List.forall_mem_cons]
    exact ⟨by decide, by decide, by decide, nofun⟩
  simp [foldCase, exported, unqualifiedName, Text.afterLast_lower hmark, Column.foldCase_exported]

/-! ## Data types -/

@[simp]
theorem TypeName.dataType_mapText_lower (n : TypeName) :
    (n.mapText Text.lower).dataType = n.dataType := by
  simp [TypeName.dataType, TypeName.mapText]

@[simp]
theorem Dimension.mapText_id : Dimension.mapText id = id := by
  funext d
  cases d <;> rfl

/-- The name of a character set may be kept in lower case. -/
theorem DataType.foldCase_withCharset_lower (t : DataType) (charset : Charset) :
    (t.withCharset (charset.mapName Text.lower)).foldCase = (t.withCharset charset).foldCase := by
  obtain ⟨keyword, name⟩ := charset
  cases keyword <;>
    simp [withCharset, Charset.mapName, foldCase, keepsCharset, addSuffix]

/-- Taking the texts of a declared type to lower case does not change the data type, up to the name
of a character set. -/
theorem TypeDecl.alike_mapTexts_lower (decl : TypeDecl) :
    Alike DataType.foldCase (decl.mapTexts Text.lower id).resolve decl.resolve := by
  obtain ⟨t, hgives⟩ := decl.gives_findings
  -- But for the character set of `LONG` not even the resolution changes.
  cases decl with
  | longVarchar name varchar binary charset collation =>
    cases charset with
    | none => exact .pure (by simp)
    | some charset =>
      exact .pure (by simpa using DataType.foldCase_withCharset_lower _ charset)
  | national lead name length binary =>
    rw [mapTexts, Option.map_id_fun, id]
    cases lead <;> simpa [resolve] using Alike.of_gives hgives
  | longVarbinary long varbinary =>
    cases long <;> cases varbinary <;> simpa [resolve, mapTexts] using Alike.of_gives hgives
  | _ => simpa [resolve, mapTexts] using Alike.of_gives hgives

/-- The declared type is `LONG` with a character set. -/
def TypeDecl.keepsCharset : TypeDecl → Bool
  | longVarchar _ _ _ charset _ => charset.isSome
  | _ => false

/-- The data types that keep the name of a character set are those declared `LONG` with one. -/
theorem TypeDecl.keepsCharset_resolve (decl : TypeDecl) :
    Always (·.keepsCharset = decl.keepsCharset) decl.resolve := by
  intro ds
  rw [decl.always_resolved ds]
  -- Only `LONG` as a character type writes its character set down.
  cases decl with
  | national lead =>
    cases lead <;>
      simp [resolved, keepsCharset, DataType.keepsCharset, DataType.withBinary_eq,
        DataType.addPrefix, TypeName.dataType]
  | longVarchar _ _ _ charset =>
    cases charset with
    | none =>
      simp [resolved, keepsCharset, DataType.keepsCharset, DataType.withBinary_eq,
        DataType.withVarchar_eq, TypeName.dataType]
    | some charset =>
      obtain ⟨keyword, text⟩ := charset
      cases keyword <;>
        simp [resolved, keepsCharset, DataType.keepsCharset, DataType.withCharset_eq]
  | longVarbinary long varbinary => cases long <;> cases varbinary <;> rfl
  | _ =>
    simp [resolved, keepsCharset, DataType.keepsCharset, DataType.withBinary_eq,
      DataType.withModifiers_eq, DataType.addPrefix, DataType.addSuffix, TypeName.dataType]

/-! ## Columns -/

/-- The text of a default value may be taken to lower case before or after it is read, and whether
it is `NULL` does not depend on its case. -/
@[simp]
theorem DefaultValue.ofText_lower (text : String) :
    (DefaultValue.ofText (Text.lower text)).foldCase = (DefaultValue.ofText text).foldCase := by
  simp only [ofText, Text.cleanIdentifier_lower, Text.upper_lower]
  split <;> simp [foldCase]

/-- A clause says the same in lower case, up to a default value. -/
theorem ColumnConstraint.alike_addClause {c c' : ColumnConstraint} (h : c.foldCase = c'.foldCase)
    (clause : ColumnClause) :
    Alike foldCase (c.addClause (clause.mapTexts Text.lower id)) (c'.addClause clause) := by
  have hfields := h
  simp only [foldCase, mk.injEq] at hfields
  -- A clause that is represented sets one field, and the others are the same by hypothesis.
  cases clause with
  | nullability | default | autoIncrement | unique | comment =>
    exact .pure (by simp [foldCase, hfields])
  | key primary => cases primary <;> exact .pure (by simp [setKeyKind, foldCase, hfields])
  | onUpdate | reference | storage | visible | invisible | serialDefault | generated | columnFormat
  | collation | check => exact (Alike.pure h).note_then _ _

/-- A column says the same in lower case, up to default values and the name of a character set. -/
theorem ColumnDecl.alike_mapTexts_lower (decl : ColumnDecl) :
    Alike (Prod.map DataType.foldCase ColumnConstraint.foldCase)
      (decl.mapTexts Text.lower id).resolve decl.resolve := by
  refine decl.type.alike_mapTexts_lower.bind fun t t' ht => ?_
  refine (Alike.foldlM (fun c c' clause h => ColumnConstraint.alike_addClause h clause)
    decl.clauses rfl).bind fun c c' hc => .pure ?_
  rw [Prod.map_apply, Prod.map_apply, ht, hc]

/-! ## Keys -/

/-- A key part names the same column in lower case. -/
theorem KeyPart.alike_mapTexts_lower (part : KeyPart) :
    Alike (Option.map Text.lower) (part.mapTexts Text.lower id).columnName? part.columnName? := by
  obtain ⟨target, length, order⟩ := part
  cases target with
  | column name => exact .pure (by simp)
  | literal text => exact .pure rfl
  | expression text => exact (Alike.pure rfl).note_then _ _

/-- A constraint gives the same key in lower case. -/
theorem ConstraintDecl.alike_mapTexts_lower (decl : ConstraintDecl) :
    Alike (Option.map KeyColumns.foldCase) (decl.mapTexts Text.lower id).resolve decl.resolve := by
  have hnames : ∀ parts : List KeyPart, Alike (List.map Text.lower)
      (KeyPart.columnNames (parts.map (.mapTexts Text.lower id))) (KeyPart.columnNames parts) :=
    Alike.filterMapM KeyPart.alike_mapTexts_lower
  cases decl with
  | primaryKey name index indexType parts =>
    exact (hnames parts).bind fun _ _ h => .pure (by simp [KeyColumns.foldCase, h])
  | uniqueKey name indexWord index parts =>
    exact (hnames parts).bind fun _ _ h => .pure (by simp [KeyColumns.foldCase, h])
  | foreignKey name index parts reference =>
    exact (hnames parts).bind fun _ _ h => .pure (by simp [KeyColumns.foldCase, h])
  | check name expression => exact (Alike.pure rfl).note_then _ _

/-! ## Tables -/

/-- An entry of a list declares the same in lower case. -/
theorem TableContents.alike_addItem {contents contents' : TableContents}
    (h : contents.foldCase = contents'.foldCase) (item : TableItem) :
    Alike foldCase (contents.addItem (item.mapTexts Text.lower id)) (contents'.addItem item) := by
  have hfields := h
  simp only [foldCase, mk.injEq] at hfields
  obtain ⟨hcolumns, hconstraints⟩ := hfields
  -- An index is noted and adds nothing, in either case.
  cases item with
  | column name decl =>
    refine decl.alike_mapTexts_lower.bind fun column column' hcolumn => .pure ?_
    obtain ⟨htype, hconstraint⟩ := Prod.mk.inj hcolumn
    simp [foldCase, Column.foldCase, ColumnName.mapTexts, hcolumns, hconstraints, htype, hconstraint]
  | constraint decl =>
    refine decl.alike_mapTexts_lower.bind fun keys? keys?' hkeys => ?_
    cases keys? with
    | none =>
      obtain rfl : keys?' = none := Option.map_eq_none_iff.1 hkeys.symm
      exact .pure h
    | some keys =>
      obtain ⟨keys', rfl, hfold⟩ := Option.map_eq_some_iff.1 hkeys.symm
      exact .pure (by simp [foldCase, hcolumns, hconstraints, hfold])
  | index decl => exact (Alike.pure h).note_then _ _

/-- A declaration gives the same table in lower case. -/
theorem TableDecl.alike_mapTexts_lower (decl : TableDecl) :
    Alike (Option.map Table.foldCase) (decl.mapTexts Text.lower id).resolve decl.resolve := by
  cases decl with
  | like table model => exact (Alike.pure rfl).note_then _ _
  | query table items query => exact (Alike.pure rfl).note_then _ _
  | columns table items =>
    refine (Alike.foldlM (fun contents contents' item h => TableContents.alike_addItem h item)
      items rfl).bind fun contents contents' h => .pure ?_
    simp only [TableContents.foldCase, TableContents.mk.injEq] at h
    simp [Table.foldCase, h]

end TableSchema
