import TableSchema.Text.Numeral

/-!
# Diagnostics

What resolving a declaration leaves out or cannot read is noted and does not stop it. A `Finding` is
a cause; a `Diagnostic` is its kind with its wording, as it is shown. `Diagnostics` collects them in
the order in which they are found.
-/

namespace TableSchema

/-- What a diagnostic is about. -/
inductive DiagnosticKind
  /-- A construct that the schema does not represent. -/
  | unsupported
  /-- A number that could not be read and counts as zero. -/
  | conversion
  /-- A declaration that no text gives rise to. -/
  | internal
deriving DecidableEq, Repr

/-- A note on something that was left out or could not be read. -/
structure Diagnostic where
  /-- What it is about. -/
  kind : DiagnosticKind
  /-- Its wording. -/
  message : String
deriving DecidableEq, Repr

/-- Diagnostics in the order in which they were found. -/
structure Diagnostics where
  /-- The entries, oldest first. -/
  entries : List Diagnostic
deriving DecidableEq, Repr

namespace Diagnostics

/-- No diagnostics. -/
def empty : Diagnostics :=
  ⟨[]⟩

/-- One more entry at the end. -/
def push (ds : Diagnostics) (d : Diagnostic) : Diagnostics :=
  ⟨ds.entries ++ [d]⟩

/-- The entries of another collection at the end. -/
def append (ds others : Diagnostics) : Diagnostics :=
  ⟨ds.entries ++ others.entries⟩

/-- The entries of one kind, in order. -/
def ofKind (ds : Diagnostics) (kind : DiagnosticKind) : List Diagnostic :=
  ds.entries.filter (·.kind == kind)

/-- How many entries there are. -/
def size (ds : Diagnostics) : Nat :=
  ds.entries.length

/-- There is no entry. -/
def isEmpty (ds : Diagnostics) : Bool :=
  ds.entries.isEmpty

end Diagnostics

/-- A column clause that the schema does not represent. -/
inductive UnsupportedClause
  | onUpdate (text : String)
  | references (table : String)
  | storage
  | visible
  | invisible
  | serialDefault
  | generated
  | columnFormat
  | collation
  | check
deriving DecidableEq, Repr

/-- The clause in words. -/
def UnsupportedClause.description : UnsupportedClause → String
  | .onUpdate text => "ON UPDATE " ++ text
  | .references table => "REFERENCES " ++ table
  | .storage => "STORAGE"
  | .visible => "VISIBLE"
  | .invisible => "INVISIBLE"
  | .serialDefault => "SERIAL DEFAULT VALUE"
  | .generated => "generated"
  | .columnFormat => "COLUMN_FORMAT"
  | .collation => "COLLATE"
  | .check => "CHECK"

/-- Why a diagnostic is noted. -/
inductive Finding
  /-- A column clause is not represented. -/
  | columnClause (clause : UnsupportedClause)
  /-- A check of a table is not represented. -/
  | tableCheck (expression : String)
  /-- A part of a key is computed and names no column. -/
  | keyExpression (expression : String)
  /-- An index is not represented. -/
  | index (name : Option String)
  /-- A table is declared like another one. -/
  | tableLike (table model : String)
  /-- A table is declared from a query. -/
  | tableFromQuery (table : String)
  /-- A statement declares nothing. -/
  | statement (category text : String)
  /-- A length cannot be read. -/
  | length (text typeName : String) (reason : Text.NumeralError)
  /-- A long binary type has no words. -/
  | namelessLongBinary
deriving DecidableEq, Repr

namespace Finding

/-- What the diagnostic is about. -/
def kind : Finding → DiagnosticKind
  | length .. => .conversion
  | namelessLongBinary => .internal
  | _ => .unsupported

/-- The wording of the diagnostic. -/
def message : Finding → String
  | columnClause clause => "unsupported " ++ clause.description ++ " column constraint"
  | tableCheck expression => "unsupported CHECK " ++ expression ++ " table constraint"
  | keyExpression expression => "unsupported expression key part " ++ expression
  | index name => "unsupported index declaration " ++ name.getD ""
  | tableLike table model => "unsupported CREATE TABLE " ++ table ++ " LIKE " ++ model
  | tableFromQuery table => "unsupported CREATE TABLE " ++ table ++ " from a query"
  | statement category text => "unsupported " ++ category ++ " statement: " ++ text
  | length text typeName reason =>
    "failed to parse length '" ++ text ++ "' of " ++ typeName ++ ": " ++ reason.message
  | namelessLongBinary => "LONG VARBINARY data type without a type keyword"

/-- The diagnostic as it is shown. -/
def diagnostic (f : Finding) : Diagnostic :=
  ⟨f.kind, f.message⟩

end Finding

/-- A computation that may note diagnostics. -/
abbrev Resolve := StateM Diagnostics

/-- Note a finding. -/
def note (f : Finding) : Resolve Unit :=
  modify (·.push f.diagnostic)

end TableSchema
