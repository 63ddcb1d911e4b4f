import TableSchema.Proofs.Script.Findings
import TableSchema.Proofs.Text.Strip

/-!
# The account of a script

What resolving a script is to note, told from its tree alone: one entry for each thing that the
schema does not represent, one for each length that is no number of 32 bits, and one for each long
binary type without a word. An entry is told by its kind. The parts of a length clause are told by
how the clause is put together.

## Main definitions

* `Dimension.HasParts`: a length clause is put together from parts that are lengths;
* `Script.entryKinds`: the kinds of the entries that a script is to make, from those of its parts.

## Main results

* `Dimension.hasParts_iff`: a length clause has just the parts that are read;
* `Script.run_resolve`: a script gives its tables, and the entries that it makes are those of the
  account.
-/

namespace TableSchema

/-! ## Length clauses -/

/-- The round, square and curly brackets. -/
def Text.brackets : List Char :=
  ['(', ')', '[', ']', '\x7b', '\x7d']

/-- The text stands between the brackets at the two ends of a length clause. -/
def Text.IsInside (inner clause : String) : Prop :=
  IsBetween (fun c => decide (c ∈ brackets)) inner.toList clause.toList

/-- What stands between the brackets is what is left when they are taken off. -/
theorem Text.isInside_iff {inner clause : String} :
    IsInside inner clause ↔ inner = stripBrackets clause := by
  have hbracket : isBracket = fun c => decide (c ∈ brackets) := by
    funext c
    rw [Bool.eq_iff_iff]
    simp [isBracket, brackets, or_assoc]
  rw [IsInside, ← stripChars_eq_iff, ← hbracket, stripBrackets, strip, ← String.toList_inj,
    String.toList_ofList, eq_comm]

/-- A length clause is put together from parts: between its brackets there is one length, or there
are two with a comma between them. -/
inductive Dimension.HasParts : Dimension → List String → Prop
  /-- A clause of one length is one part, whatever it is. -/
  | one {clause n : String} (hinside : Text.IsInside n clause) : HasParts (.one clause) [n]
  /-- A clause of two lengths without a comma is one part. -/
  | precision {clause p : String} (hinside : Text.IsInside p clause) (hcomma : ',' ∉ p.toList) :
    HasParts (.two clause) [p]
  /-- The first comma stands between two parts. -/
  | two {clause p s : String} (hinside : Text.IsInside (p ++ "," ++ s) clause)
    (hcomma : ',' ∉ p.toList) : HasParts (.two clause) [p, s]
  /-- A clause of up to two lengths has the same parts. -/
  | upToTwo {clause : String} {parts : List String} (h : HasParts (.two clause) parts) :
    HasParts (.upToTwo clause) parts

/-- The parts before and after the first comma. -/
theorem DataType.lengthParts_eq_two {clause p s : String}
    (hinside : Text.IsInside (p ++ "," ++ s) clause) (hcomma : ',' ∉ p.toList) :
    lengthParts clause = (p, some s) := by
  have hfront : ∀ c ∈ p.toList, decide (c ≠ ',') = true := fun c hc =>
    decide_eq_true fun heq => hcomma (heq ▸ hc)
  have hinner : (p ++ "," ++ s).toList = p.toList ++ ',' :: s.toList := by simp
  rw [lengthParts, ← Text.isInside_iff.1 hinside, hinner]
  simp only [List.takeWhile_append_of_pos hfront, List.dropWhile_append_of_pos hfront,
    List.takeWhile_cons, List.dropWhile_cons, ne_eq, not_true_eq_false, decide_false,
    Bool.false_eq_true, if_false, List.append_nil, String.ofList_toList]

/-- There is only one part if there is no comma. -/
theorem DataType.lengthParts_eq_one {clause p : String} (hinside : Text.IsInside p clause)
    (hcomma : ',' ∉ p.toList) : lengthParts clause = (p, none) := by
  have hall : ∀ c ∈ p.toList, decide (c ≠ ',') = true := fun c hc =>
    decide_eq_true fun heq => hcomma (heq ▸ hc)
  rw [lengthParts, ← Text.isInside_iff.1 hinside]
  simp only [List.takeWhile_eq_self_iff.2 hall, List.dropWhile_eq_nil_iff.2 hall,
    String.ofList_toList]

/-- A clause of two lengths has the parts that are read. -/
theorem Dimension.hasParts_two (clause : String) : (two clause).HasParts (two clause).lengths := by
  obtain ⟨inner, hinside⟩ : ∃ inner, Text.IsInside inner clause := ⟨_, Text.isInside_iff.2 rfl⟩
  by_cases hcomma : ',' ∈ inner.toList
  · obtain ⟨front, back, heq, hfront⟩ := List.eq_append_cons_of_mem hcomma
    have hparts : inner = String.ofList front ++ "," ++ String.ofList back := by
      rw [← String.toList_inj, heq]
      simp
    have hfront : ',' ∉ (String.ofList front).toList := by rwa [String.toList_ofList]
    rw [hparts] at hinside
    rw [lengths, DataType.lengthParts_eq_two hinside hfront]
    exact .two hinside hfront
  · rw [lengths, DataType.lengthParts_eq_one hinside hcomma]
    exact .precision hinside hcomma

/-- A length clause has the parts that are read, and no others. -/
theorem Dimension.hasParts_iff {d : Dimension} {parts : List String} :
    d.HasParts parts ↔ parts = d.lengths := by
  constructor
  · intro h
    induction h with
    | one hinside => rw [lengths, Text.isInside_iff.1 hinside]
    | precision hinside hcomma =>
      rw [lengths, DataType.lengthParts_eq_one hinside hcomma]
      rfl
    | two hinside hcomma =>
      rw [lengths, DataType.lengthParts_eq_two hinside hcomma]
      rfl
    | upToTwo _ ih => exact ih
  · rintro rfl
    -- Every clause has parts, and they are those that are read.
    cases d with
    | one clause => exact .one (Text.isInside_iff.2 rfl)
    | two clause => exact hasParts_two clause
    | upToTwo clause => exact .upToTwo (hasParts_two clause)

/-! ## The kinds of entries -/

/-- A text that is read as a length makes one entry if it is none. -/
def lengthEntryKinds (text : String) : List DiagnosticKind :=
  if Text.IsLength text then [] else [.conversion]

/-- A length clause makes the entries of its parts. -/
def Dimension.entryKinds (d : Dimension) : List DiagnosticKind :=
  d.lengths.flatMap lengthEntryKinds

/-- A declared type makes the entries of its length clause, and one if it is a long binary type
without a word. -/
def TypeDecl.entryKinds : TypeDecl → List DiagnosticKind
  | string _ _ length _ _ _ | national _ _ length _ | nationalVarying _ length _ =>
    length.toList.flatMap fun clause => (Dimension.one clause).entryKinds
  | measured _ dimension _ => dimension.toList.flatMap Dimension.entryKinds
  | longVarbinary none none => [.internal]
  | simple _ | collection .. | spatial .. | longVarchar .. | longVarbinary .. => []

/-- A column clause makes one entry if the schema does not represent it. -/
def ColumnClause.entryKinds : ColumnClause → List DiagnosticKind
  | .onUpdate _ | .columnFormat _ | .storage _ | .reference _ | .collation _ | .generated _
  | .serialDefault | .visible | .invisible | .check _ _ => [.unsupported]
  | .nullability _ | .default _ | .autoIncrement | .key _ | .unique _ | .comment _ => []

/-- A declared column makes the entries of its type before those of its clauses. -/
def ColumnDecl.entryKinds (decl : ColumnDecl) : List DiagnosticKind :=
  decl.type.entryKinds ++ decl.clauses.flatMap ColumnClause.entryKinds

/-- A key part makes one entry if it is computed. -/
def KeyPart.entryKinds (part : KeyPart) : List DiagnosticKind :=
  match part.target with
  | .expression _ => [.unsupported]
  | .column _ | .literal _ => []

/-- A key makes the entries of its parts, and a check of a table makes one. -/
def ConstraintDecl.entryKinds : ConstraintDecl → List DiagnosticKind
  | primaryKey _ _ _ parts | uniqueKey _ _ _ parts | foreignKey _ _ parts _ =>
    parts.flatMap KeyPart.entryKinds
  | check _ _ => [.unsupported]

/-- An entry of the list of a table; an index makes one entry. -/
def TableItem.entryKinds : TableItem → List DiagnosticKind
  | column _ decl => decl.entryKinds
  | constraint decl => decl.entryKinds
  | index _ => [.unsupported]

/-- A table that is declared otherwise than by a list makes one entry. -/
def TableDecl.entryKinds : TableDecl → List DiagnosticKind
  | like _ _ | query _ _ _ => [.unsupported]
  | columns _ items => items.flatMap TableItem.entryKinds

/-- A statement that defines nothing makes one entry, one that defines something else than a table
makes none. -/
def Statement.entryKinds : Statement → List DiagnosticKind
  | createTable decl => decl.entryKinds
  | other .definition _ _ => []
  | other _ _ _ => [.unsupported]

/-- The entries that a script is to make, by their kinds and in the order of its parts. -/
def Script.entryKinds (script : Script) : List DiagnosticKind :=
  script.flatMap Statement.entryKinds

/-! ## The entries that are made -/

/-- The kind of the entry that is made for a finding. -/
def Finding.entryKind (f : Finding) : DiagnosticKind :=
  f.diagnostic.kind

/-- One entry is made for a text that is read as a length if it is none. -/
theorem lengthFindings_entryKind (typeName text : String) :
    (lengthFindings typeName text).map Finding.entryKind = lengthEntryKinds text := by
  have hread := Text.readLength_eq_ok_iff_isLength text
  unfold lengthFindings lengthEntryKinds
  cases h : Text.readLength text with
  | ok value => rw [if_pos (hread.1 ⟨value, h⟩), List.map_nil]
  | error reason =>
    have hnot : ¬ Text.IsLength text := by simp [← hread, h]
    rw [if_neg hnot]
    rfl

/-- The entries for texts that are read as lengths are those for each of them, in order. -/
theorem TypeName.lengthFindings_entryKind (name : TypeName) (texts : List String) :
    (name.lengthFindings texts).map Finding.entryKind = texts.flatMap lengthEntryKinds := by
  rw [TypeName.lengthFindings, List.map_flatMap]
  simp only [TableSchema.lengthFindings_entryKind]

/-- A declared type makes the entries of its account. -/
theorem TypeDecl.findings_entryKind (decl : TypeDecl) :
    decl.findings.map Finding.entryKind = decl.entryKinds := by
  cases decl with
  | string name _ length | national _ name length | nationalVarying name length =>
    rw [findings, entryKinds, name.lengthFindings_entryKind, List.flatMap_map]
    simp only [Dimension.entryKinds, Dimension.lengths, List.flatMap_singleton]
  | measured name dimension =>
    rw [findings, entryKinds, name.lengthFindings_entryKind, List.flatMap_assoc]
    rfl
  | simple | collection | spatial | longVarchar => rfl
  | longVarbinary long varbinary =>
    cases long with
    | some name => rfl
    | none => cases varbinary <;> rfl

/-- A column clause makes the entries of its account. -/
theorem ColumnClause.findings_entryKind (clause : ColumnClause) :
    clause.findings.map Finding.entryKind = clause.entryKinds := by
  cases clause <;> rfl

/-- A declared column makes the entries of its account. -/
theorem ColumnDecl.findings_entryKind (decl : ColumnDecl) :
    decl.findings.map Finding.entryKind = decl.entryKinds := by
  rw [findings, entryKinds, List.map_append, decl.type.findings_entryKind, List.map_flatMap]
  simp only [ColumnClause.findings_entryKind]

/-- A key part makes the entries of its account. -/
theorem KeyPart.findings_entryKind (part : KeyPart) :
    part.findings.map Finding.entryKind = part.entryKinds := by
  unfold findings entryKinds
  cases part.target <;> rfl

/-- A constraint of a table makes the entries of its account. -/
theorem ConstraintDecl.findings_entryKind (decl : ConstraintDecl) :
    decl.findings.map Finding.entryKind = decl.entryKinds := by
  cases decl with
  | primaryKey | uniqueKey | foreignKey =>
    rw [findings, entryKinds, List.map_flatMap]
    simp only [KeyPart.findings_entryKind]
  | check => rfl

/-- An entry of the list of a table makes the entries of its account. -/
theorem TableItem.findings_entryKind (item : TableItem) :
    item.findings.map Finding.entryKind = item.entryKinds := by
  cases item with
  | column name decl => exact decl.findings_entryKind
  | constraint decl => exact decl.findings_entryKind
  | index decl => rfl

/-- A declared table makes the entries of its account. -/
theorem TableDecl.findings_entryKind (decl : TableDecl) :
    decl.findings.map Finding.entryKind = decl.entryKinds := by
  cases decl with
  | like | query => rfl
  | columns name items =>
    rw [findings, entryKinds, List.map_flatMap]
    simp only [TableItem.findings_entryKind]

/-- A statement makes the entries of its account. -/
theorem Statement.findings_entryKind (statement : Statement) :
    statement.findings.map Finding.entryKind = statement.entryKinds := by
  cases statement with
  | createTable decl => exact decl.findings_entryKind
  | other category keyword text => cases category <;> rfl

/-- A script makes the entries of its account. -/
theorem Script.findings_entryKind (script : Script) :
    script.findings.map Finding.entryKind = script.entryKinds := by
  rw [findings, entryKinds, List.map_flatMap]
  simp only [Statement.findings_entryKind]

/-- Resolving a script gives one table for each declaration by a list, in order. Behind the entries
that are there before, and whatever they are, it makes those of its findings, in order; they have
the kinds of the account. A length clause counts with the parts that it is put together from. -/
theorem Script.run_resolve (script : Script) (ds : Diagnostics) :
    (∃ entries, (Script.resolve script).run ds = (script.tables, ⟨ds.entries ++ entries⟩) ∧
      entries = script.findings.map Finding.diagnostic ∧
      entries.map Diagnostic.kind = script.entryKinds) ∧
    ∀ (d : Dimension) (parts : List String), d.HasParts parts ↔ parts = d.lengths :=
  ⟨⟨_, script.gives_findings ds, rfl, (List.map_map ..).trans script.findings_entryKind⟩,
    fun _ _ => Dimension.hasParts_iff⟩

/-- A script with statements that declare nothing, a table like another one, and a table by a list:
a column with a scale that is no number and two clauses that are not represented, a key with a part
that is computed, a check and an index. -/
def Script.mixed : Script :=
  let amount : ColumnDecl := ⟨.measured ⟨.decimal, "decimal"⟩ (some (.upToTwo "(8,1e2)")) [],
    [.onUpdate "NOW()", .nullability true, .check none "(a>0)"]⟩
  let parts : List KeyPart := [⟨.column "a", none, none⟩, ⟨.expression "(a+1)", none, none⟩]
  [.other .manipulation "SELECT" "SELECT 1", .other .definition "DROP" "DROP TABLE t",
    .createTable (.like "u" "t"),
    .createTable (.columns "t" [.column ⟨"a", []⟩ amount,
      .constraint (.primaryKey none none none parts), .constraint (.check none "(a<9)"),
      .index (.plain "KEY" (some "k") [])])]

/-- Behind an entry that is there before, eight entries are made for the script, and one table is given. -/
theorem Script.run_resolve_mixed :
    ∃ table, ∃ entries : List Diagnostic,
      (Script.resolve mixed).run ⟨[⟨.internal, "before"⟩]⟩ =
        ([table], ⟨⟨.internal, "before"⟩ :: entries⟩) ∧
      entries.map Diagnostic.kind = [.unsupported, .unsupported, .conversion, .unsupported,
        .unsupported, .unsupported, .unsupported, .unsupported] ∧
      (Dimension.upToTwo "(8,1e2)").HasParts ["8", "1e2"] := by
  have hkinds : mixed.entryKinds = [.unsupported, .unsupported, .conversion, .unsupported,
      .unsupported, .unsupported, .unsupported, .unsupported] := by decide +kernel
  have hparts : ["8", "1e2"] = (Dimension.upToTwo "(8,1e2)").lengths := by decide +kernel
  obtain ⟨⟨entries, hrun, -, hentries⟩, hiff⟩ := run_resolve mixed ⟨[⟨.internal, "before"⟩]⟩
  exact ⟨_, entries, hrun, hentries.trans hkinds, (hiff _ _).2 hparts⟩

end TableSchema
