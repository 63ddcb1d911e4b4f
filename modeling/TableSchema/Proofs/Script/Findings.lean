import TableSchema.Proofs.Diagnostics.Notes
import TableSchema.Proofs.Text.Numeral
import TableSchema.Script.Resolve

/-!
# The findings of a script

What resolving a script notes, read off its tree. The findings of a tree are those of its parts in
the order in which they are written; a column has those of its type before those of its clauses.
Resolving notes exactly these, each once, after whatever was noted before, and what was noted before
changes nothing about the tables.

## Main definitions

* `Script.findings`: the findings of a script, from those of its types, clauses, keys, list entries
  and statements;
* `Script.tables`: the tables of a script, one for each declaration by a list.

## Main results

* `TypeDecl.gives_findings`, `ColumnConstraint.gives_findings`, `ConstraintDecl.gives_findings`,
  `TableContents.gives_findings`: the same for each part of a tree;
* `Script.gives_findings`: a script gives its tables and notes its findings.
-/

namespace TableSchema

open Resolve

/-! ## Data types -/

/-- The findings about a text that is read as a length: one if it cannot be read. -/
def lengthFindings (typeName text : String) : List Finding :=
  match Text.readLength text with
  | .ok _ => []
  | .error reason => [.length text typeName reason]

/-- The parts of a length clause that are read as lengths: what stands in its brackets, and if two
lengths are asked for, what stands there before and after the first comma. -/
def Dimension.lengths : Dimension → List String
  | .one text => [Text.stripBrackets text]
  | .two text | .upToTwo text =>
    (DataType.lengthParts text).1 :: (DataType.lengthParts text).2.toList

/-- The findings about texts that are read as lengths of a type. -/
def TypeName.lengthFindings (name : TypeName) (texts : List String) : List Finding :=
  texts.flatMap (TableSchema.lengthFindings (Unicode.upper name.text))

/-- The findings of a declared type. -/
def TypeDecl.findings : TypeDecl → List Finding
  | string name _ length _ _ _ | national _ name length _ | nationalVarying name length _ =>
    name.lengthFindings (length.toList.map Text.stripBrackets)
  | measured name dimension _ => name.lengthFindings (dimension.toList.flatMap Dimension.lengths)
  | longVarbinary none none => [.namelessLongBinary]
  | simple _ | collection .. | spatial .. | longVarchar .. | longVarbinary .. => []

/-- Reading a length notes that it cannot be read. -/
theorem DataType.readLength_gives (text typeName : String) :
    ∃ n, Gives (DataType.readLength text typeName) n (lengthFindings typeName text) := by
  unfold DataType.readLength lengthFindings
  cases Text.readLength text with
  | ok n => exact ⟨n, Gives.pure n⟩
  | error reason => exact ⟨0, (Gives.pure 0).note_then _⟩

/-- Two lengths are read each for itself. -/
theorem DataType.withTwoLengths_gives (t : DataType) (text : String) :
    ∃ u, Gives (t.withTwoLengths text) u
      ((Dimension.two text).lengths.flatMap (lengthFindings t.name)) := by
  simp only [DataType.withTwoLengths, Dimension.lengths]
  -- There are one or two parts, and each is found fault with for itself.
  generalize DataType.lengthParts text = parts
  obtain ⟨first, second?⟩ := parts
  obtain ⟨precision, hprecision⟩ := DataType.readLength_gives first t.name
  refine hprecision.exists_bind ?_
  cases second? with
  | none => exact ⟨_, Gives.pure _⟩
  | some second =>
    obtain ⟨scale, hscale⟩ := DataType.readLength_gives second t.name
    change ∃ u, Gives (DataType.readLength second t.name >>= _) u
      (lengthFindings t.name second ++ [])
    exact ⟨_, hscale.bind (Gives.pure _)⟩

/-- A length clause notes what is found about its parts. -/
theorem TypeName.withDimension?_gives (name : TypeName) (dimension : Option Dimension) :
    ∃ t, Gives (name.dataType.withDimension? dimension) t
      (name.lengthFindings (dimension.toList.flatMap Dimension.lengths)) := by
  cases dimension with
  | none => exact ⟨_, Gives.pure _⟩
  | some dimension =>
    rw [Option.toList_some, List.flatMap_singleton]
    cases dimension with
    | one text =>
      rw [Dimension.lengths, TypeName.lengthFindings, List.flatMap_singleton]
      exact Gives.exists_map (DataType.readLength_gives (Text.stripBrackets text) _)
    | two text => exact name.dataType.withTwoLengths_gives text
    | upToTwo text => exact name.dataType.withTwoLengths_gives text

/-- A clause with one length notes what is found about it. -/
theorem TypeName.withLength?_gives (name : TypeName) (length : Option String) :
    ∃ t, Gives (name.dataType.withLength? length) t
      (name.lengthFindings (length.toList.map Text.stripBrackets)) := by
  cases length with
  | none => exact ⟨_, Gives.pure _⟩
  | some text => exact name.withDimension?_gives (some (.one text))

/-- A declared type gives a data type and notes its findings. -/
theorem TypeDecl.gives_findings (decl : TypeDecl) : ∃ t, Gives decl.resolve t decl.findings := by
  cases decl with
  | string name varying length binary charset collation => exact name.withLength?_gives length
  | national lead name length binary =>
    cases lead with
    | national => exact Gives.exists_map (name.withLength?_gives length)
    | nchar => exact Gives.exists_map (name.withLength?_gives length)
  | nationalVarying name length binary => exact Gives.exists_map (name.withLength?_gives length)
  | measured name dimension modifiers =>
    exact Gives.exists_map (name.withDimension?_gives dimension)
  | simple name => exact ⟨_, Gives.pure _⟩
  | collection name literals binary charset => exact ⟨_, Gives.pure _⟩
  | spatial name srid => exact ⟨_, Gives.pure _⟩
  | longVarchar name varchar binary charset collation => exact ⟨_, Gives.pure _⟩
  -- Only this form notes something that is no length: that neither of its words is known.
  | longVarbinary long varbinary =>
    cases long with
    | some name => exact ⟨_, Gives.pure _⟩
    | none =>
      cases varbinary with
      | some name => exact ⟨_, Gives.pure _⟩
      | none => exact ⟨_, (Gives.pure _).note_then _⟩

/-! ## Columns -/

/-- The findings of a column clause: one if the schema does not represent it. -/
def ColumnClause.findings : ColumnClause → List Finding
  | .onUpdate text => [.columnClause (.onUpdate text)]
  | .columnFormat _ => [.columnClause .columnFormat]
  | .storage _ => [.columnClause .storage]
  | .reference r => [.columnClause (.references r.table)]
  | .collation _ => [.columnClause .collation]
  | .generated _ => [.columnClause .generated]
  | .serialDefault => [.columnClause .serialDefault]
  | .visible => [.columnClause .visible]
  | .invisible => [.columnClause .invisible]
  | .check _ _ => [.columnClause .check]
  | .nullability _ | .default _ | .autoIncrement | .key _ | .unique _ | .comment _ => []

/-- The findings of a declared column: those of its type, then those of its clauses. -/
def ColumnDecl.findings (decl : ColumnDecl) : List Finding :=
  decl.type.findings ++ decl.clauses.flatMap ColumnClause.findings

/-- A clause notes its findings, whatever the clauses before it say. -/
theorem ColumnConstraint.addClause_gives (c : ColumnConstraint) (clause : ColumnClause) :
    ∃ c', Gives (c.addClause clause) c' clause.findings := by
  cases clause with
  | onUpdate | columnFormat | storage | reference | collation | generated | serialDefault
  | visible | invisible | check => exact ⟨_, (Gives.pure _).note_then _⟩
  | nullability | default | autoIncrement | key | unique | comment => exact ⟨_, Gives.pure _⟩

/-- A declared column notes the findings of its type before those of its clauses. -/
theorem ColumnDecl.gives_findings (decl : ColumnDecl) :
    ∃ column, Gives decl.resolve column decl.findings := by
  obtain ⟨type, htype⟩ := decl.type.gives_findings
  obtain ⟨column, hcolumn⟩ := Gives.exists_map (f := fun constraint => (type, constraint))
    (Gives.foldlM ColumnConstraint.addClause_gives decl.clauses {})
  exact ⟨column, htype.bind hcolumn⟩

/-! ## Keys -/

/-- The findings of a key part: one if it is computed. -/
def KeyPart.findings (part : KeyPart) : List Finding :=
  match part.target with
  | .expression text => [.keyExpression text]
  | .column _ | .literal _ => []

/-- The findings of a constraint of a table. The columns that a foreign key refers to do not
count. -/
def ConstraintDecl.findings : ConstraintDecl → List Finding
  | primaryKey _ _ _ parts | uniqueKey _ _ _ parts | foreignKey _ _ parts _ =>
    parts.flatMap KeyPart.findings
  | check _ expression => [.tableCheck expression]

/-- A key part notes its findings. -/
theorem KeyPart.columnName?_gives (part : KeyPart) :
    Gives part.columnName? part.columnName?.value part.findings := by
  apply Gives.of_exists
  unfold KeyPart.columnName? KeyPart.findings
  cases part.target with
  | column name => exact ⟨_, Gives.pure _⟩
  | literal text => exact ⟨_, Gives.pure _⟩
  | expression text => exact ⟨_, (Gives.pure _).note_then _⟩

/-- A constraint of a table notes its findings. -/
theorem ConstraintDecl.gives_findings (decl : ConstraintDecl) :
    ∃ keys, Gives decl.resolve keys decl.findings := by
  cases decl with
  | primaryKey name index indexType parts =>
    exact Gives.exists_map ⟨_, Gives.filterMapM KeyPart.columnName?_gives parts⟩
  | uniqueKey name indexWord index parts =>
    exact Gives.exists_map ⟨_, Gives.filterMapM KeyPart.columnName?_gives parts⟩
  | foreignKey name index parts reference =>
    exact Gives.exists_map ⟨_, Gives.filterMapM KeyPart.columnName?_gives parts⟩
  | check name expression => exact ⟨_, (Gives.pure _).note_then _⟩

/-! ## Tables -/

/-- The findings of an entry of the list that declares a table. -/
def TableItem.findings : TableItem → List Finding
  | column _ decl => decl.findings
  | constraint decl => decl.findings
  | index decl => [.index decl.name]

/-- The findings of a declared table. The list of a table that is declared from a query does not
count. -/
def TableDecl.findings : TableDecl → List Finding
  | like table model => [.tableLike table model]
  | query table _ _ => [.tableFromQuery table]
  | columns _ items => items.flatMap TableItem.findings

/-- An entry of a list notes its findings, whatever the entries before it declare. -/
theorem TableContents.addItem_gives (contents : TableContents) (item : TableItem) :
    ∃ contents', Gives (contents.addItem item) contents' item.findings := by
  cases item with
  | column name decl => exact Gives.exists_map decl.gives_findings
  | constraint decl =>
    obtain ⟨keys, hkeys⟩ := decl.gives_findings
    rw [TableItem.findings, ← List.append_nil decl.findings]
    refine hkeys.exists_bind ?_
    cases keys with
    | some keys => exact ⟨_, Gives.pure _⟩
    | none => exact ⟨_, Gives.pure _⟩
  | index decl => exact ⟨_, (Gives.pure _).note_then _⟩

/-- The list of a table notes the findings of its entries, in order. -/
theorem TableContents.ofItems_gives (items : List TableItem) :
    Gives (ofItems items) (ofItems items).value (items.flatMap TableItem.findings) :=
  Gives.of_exists (Gives.foldlM TableContents.addItem_gives items {})

/-- The table that a list declares under a name. -/
def Table.declared (name : String) (items : List TableItem) : Table :=
  let contents := (TableContents.ofItems items).value
  ⟨Text.cleanIdentifier name, contents.columns, contents.constraints⟩

/-- The table that a declaration gives: one if it is a declaration by a list. -/
def TableDecl.table? : TableDecl → Option Table
  | like _ _ | query _ _ _ => none
  | columns name items => some (.declared name items)

/-- A declared table notes its findings. -/
theorem TableDecl.gives_findings (decl : TableDecl) :
    Gives decl.resolve decl.table? decl.findings := by
  cases decl with
  | like table model => exact (Gives.pure _).note_then _
  | query table items query => exact (Gives.pure _).note_then _
  | columns table items =>
    exact (TableContents.ofItems_gives items).map fun contents =>
      some (Table.mk (Text.cleanIdentifier table) contents.columns contents.constraints)

/-! ## Scripts -/

/-- The findings of a statement. A statement that defines something else than a table has none. -/
def Statement.findings : Statement → List Finding
  | createTable decl => decl.findings
  | other .definition _ _ => []
  | other category _ text => [.statement category.description text]

/-- The table of a statement: one if it declares a table by a list. -/
def Statement.table? : Statement → Option Table
  | createTable decl => decl.table?
  | other _ _ _ => none

/-- The findings of a script, in the order of its statements. -/
def Script.findings (script : Script) : List Finding :=
  script.flatMap Statement.findings

/-- The tables of a script, in the order of its statements. -/
def Script.tables (script : Script) : List Table :=
  script.filterMap Statement.table?

/-- A statement notes its findings. -/
theorem Statement.gives_findings (statement : Statement) :
    Gives statement.resolve statement.table? statement.findings := by
  cases statement with
  | createTable decl => exact decl.gives_findings
  | other category keyword text =>
    cases category with
    | definition => exact Gives.pure _
    | manipulation | transaction | replication | prepared | administration | utility =>
      exact (Gives.pure _).note_then _

/-- A script gives its tables and notes its findings, whatever was noted before. -/
theorem Script.gives_findings (script : Script) :
    Gives script.resolve script.tables script.findings :=
  Gives.filterMapM Statement.gives_findings script

end TableSchema
