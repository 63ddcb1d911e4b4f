import TableSchema.DataType.Resolve
import TableSchema.Proofs.DataType.Declared
import TableSchema.Proofs.Diagnostics.Notes

/-!
# The steps of resolving a data type

A data type is resolved step by step from its type word: first its length clause, then the words
around it. Each step is one update of the fields that it is about, and leaves the others alone.

## Main definitions

* `DataType.measured`: the data type with what its length clause says;
* `TypeDecl.typeName?`: the name of a declared type;
* `TypeDecl.resolved`: the data type of a declaration, where nothing is noted.

## Main results

* `TypeDecl.always_resolved`: resolving a declaration gives its data type, whatever was noted
  before;
* `TypeDecl.resolved_named`: the data type has the name that is declared;
* `DataType.measured_eq`, `DataType.withBinary_eq`, `DataType.withVarchar_eq`,
  `DataType.withModifiers_eq`, `DataType.withCharset_eq`: what each of the steps changes.
-/

namespace TableSchema

open Resolve

/-- The length that a text denotes, or zero if it denotes none. -/
def Text.lengthOrZero (s : String) : Nat :=
  (Text.readLength s).toOption.getD 0

/-- The text of a length clause. -/
def Dimension.text : Dimension → String
  | one text | two text | upToTwo text => text

namespace DataType

variable (t : DataType)

/-- The data type with the numbers of a length clause, where a number that cannot be read counts as
zero. -/
def measured : Option Dimension → DataType
  | none => t
  | some (.one text) =>
    { t.addSuffix text with
      hasLength := true
      length := Text.lengthOrZero (Text.stripBrackets text) }
  | some (.two text) | some (.upToTwo text) =>
    { t.addSuffix text with
      hasTwoLengths := true
      precision := Text.lengthOrZero (lengthParts text).1
      scale := ((lengthParts text).2.map Text.lengthOrZero).getD 0 }

/-- A length clause is about lengths only. -/
theorem measured_eq (dimension : Option Dimension) : t.measured dimension =
    { t with
      source := (t.measured dimension).source
      hasLength := (t.measured dimension).hasLength
      length := (t.measured dimension).length
      hasTwoLengths := (t.measured dimension).hasTwoLengths
      precision := (t.measured dimension).precision
      scale := (t.measured dimension).scale } := by
  rcases dimension with _ | (text | text | text) <;> simp only [measured, addSuffix]

/-- A length clause is written behind what is there. -/
theorem measured_source (dimension : Option Dimension) :
    (t.measured dimension).source = t.source ++ (dimension.map Dimension.text).getD "" := by
  rcases dimension with _ | (text | text | text) <;> simp [measured, addSuffix, Dimension.text]

section Frame

variable (dimension : Option Dimension)

@[simp]
theorem measured_name : (t.measured dimension).name = t.name := by
  rw [measured_eq]

@[simp]
theorem measured_number : (t.measured dimension).number = t.number := by
  rw [measured_eq]

@[simp]
theorem measured_isNational : (t.measured dimension).isNational = t.isNational := by
  rw [measured_eq]

@[simp]
theorem measured_isNchar : (t.measured dimension).isNchar = t.isNchar := by
  rw [measured_eq]

@[simp]
theorem measured_isVarying : (t.measured dimension).isVarying = t.isVarying := by
  rw [measured_eq]

@[simp]
theorem measured_isBinary : (t.measured dimension).isBinary = t.isBinary := by
  rw [measured_eq]

@[simp]
theorem measured_isCharSet : (t.measured dimension).isCharSet = t.isCharSet := by
  rw [measured_eq]

@[simp]
theorem measured_isCharset : (t.measured dimension).isCharset = t.isCharset := by
  rw [measured_eq]

@[simp]
theorem measured_isCharacterSet :
    (t.measured dimension).isCharacterSet = t.isCharacterSet := by
  rw [measured_eq]

@[simp]
theorem measured_charsetName : (t.measured dimension).charsetName = t.charsetName := by
  rw [measured_eq]

@[simp]
theorem measured_members : (t.measured dimension).members = t.members := by
  rw [measured_eq]

end Frame

/-! ## Length clauses -/

/-- A text that is no length counts as zero. -/
theorem readLength_lengthOrZero (text typeName : String) :
    Always (· = Text.lengthOrZero text) (readLength text typeName) := by
  unfold readLength Text.lengthOrZero
  cases Text.readLength text with
  | ok value => exact .pure rfl
  | error reason => exact .bind_any fun _ => .pure rfl

/-- Resolving one length sets what is measured of it. -/
theorem withLength_measured (text : String) :
    Always (· = t.measured (some (.one text))) (t.withLength text) := by
  refine (readLength_lengthOrZero _ t.name).bind fun length hlength => .pure ?_
  rw [hlength, measured]

/-- Resolving two lengths sets what is measured of them. -/
theorem withTwoLengths_measured (text : String) :
    Always (· = t.measured (some (.two text))) (t.withTwoLengths text) := by
  unfold withTwoLengths
  rcases hparts : lengthParts text with ⟨first, second?⟩
  refine (readLength_lengthOrZero first t.name).bind fun precision hprecision => ?_
  -- Without a second part nothing is read for the scale.
  cases second? with
  | none =>
    exact .pure (by simp only [measured, hparts, hprecision, Option.map_none, Option.getD_none])
  | some second =>
    refine (readLength_lengthOrZero second t.name).bind fun scale hscale => .pure ?_
    simp only [measured, hparts, hprecision, hscale, Option.map_some, Option.getD_some]

/-- Reading a length clause gives the measured type. -/
theorem withDimension?_measured (dimension : Option Dimension) :
    Always (· = t.measured dimension) (t.withDimension? dimension) := by
  rcases dimension with _ | (text | text | text)
  · exact .pure rfl
  · exact t.withLength_measured text
  · exact t.withTwoLengths_measured text
  · exact t.withTwoLengths_measured text

/-- A length that may be left out is a length clause of one number. -/
theorem withLength?_eq (length : Option String) :
    t.withLength? length = t.withDimension? (length.map .one) := by
  cases length <;> rfl

/-- Resolving a length that may be left out sets what is measured of it. -/
theorem withLength?_measured (length : Option String) :
    Always (· = t.measured (length.map .one)) (t.withLength? length) := by
  rw [withLength?_eq]
  exact t.withDimension?_measured _

/-! ## Words around the type word -/

/-- `BINARY` is written at the end and sets its flag, and nothing else. -/
theorem withBinary_eq (binary : Bool) : t.withBinary binary =
    { t with
      source := t.source ++ setOff (flagged binary "BINARY")
      isBinary := t.isBinary || binary } := by
  cases binary <;> simp [withBinary, addSuffix, flagged]

/-- `VARCHAR` is written at the end and sets its flag, and nothing else. -/
theorem withVarchar_eq (varchar : Bool) : t.withVarchar varchar =
    { t with
      source := t.source ++ setOff (flagged varchar "VARCHAR")
      isVarchar := t.isVarchar || varchar } := by
  cases varchar <;> simp [withVarchar, addSuffix, flagged]

/-- The modifiers are written at the end and set their flags, and nothing else. -/
theorem withModifiers_eq (modifiers : List NumericModifier) : t.withModifiers modifiers =
    { t with
      source := t.source ++
        setOff ((NumericModifier.ordered modifiers).map NumericModifier.spelling)
      isSigned := t.isSigned || decide (.signed ∈ modifiers)
      isUnsigned := t.isUnsigned || decide (.unsigned ∈ modifiers)
      isZerofill := t.isZerofill || decide (.zerofill ∈ modifiers) } := by
  by_cases hsigned : .signed ∈ modifiers <;> by_cases hunsigned : .unsigned ∈ modifiers <;>
    by_cases hzerofill : .zerofill ∈ modifiers <;>
    simp [withModifiers, addSuffix, NumericModifier.ordered, NumericModifier.spelling, hsigned,
      hunsigned, hzerofill, String.append_assoc]

/-- A character set is written at the end with its name and sets the flag of its keyword. -/
theorem withCharset_eq (charset : Charset) : t.withCharset charset =
    { t with
      source := t.source ++ setOff charset.keyword.words ++ (" " ++ charset.name)
      charsetName := Text.stripQuotes charset.name
      isCharSet := t.isCharSet || charset.keyword = .charSet
      isCharacterSet := t.isCharacterSet || charset.keyword = .characterSet
      isCharset := t.isCharset || charset.keyword = .charset } := by
  -- The space in front of the name belongs to the words in one text and to the name in the other.
  have hspace (words : String) : t.source ++ (words ++ " " ++ charset.name) =
      t.source ++ words ++ (" " ++ charset.name) := by
    simp only [String.append_assoc]
  obtain ⟨keyword, name⟩ := charset
  cases keyword with
  | charSet => simpa [withCharset, addSuffix, CharsetKeyword.words] using hspace " CHAR SET"
  | characterSet =>
    simpa [withCharset, addSuffix, CharsetKeyword.words] using hspace " CHARACTER SET"
  | charset => simpa [withCharset, addSuffix, CharsetKeyword.words] using hspace " CHARSET"

end DataType

namespace TypeDecl

/-- The name of a declared type; only a long binary type may be without one. -/
def typeName? : TypeDecl → Option TypeName
  | string name _ _ _ _ _ | national _ name _ _ | nationalVarying name _ _ | measured name _ _
  | simple name | collection name _ _ _ | spatial name _ | longVarchar name _ _ _ _ => some name
  | longVarbinary long varbinary => long <|> varbinary

/-- The data type of a declaration, where a number that cannot be read is not noted. -/
def resolved : TypeDecl → DataType
  | string name _ length _ _ _ => name.dataType.measured (length.map .one)
  | national .national name length binary =>
    { ((name.dataType.measured (length.map .one)).addPrefix "NATIONAL ").withBinary binary with
      isNational := true }
  | national .nchar name length binary =>
    { ((name.dataType.measured (length.map .one)).withBinary binary).addPrefix "NCHAR " with
      isNchar := true }
  | nationalVarying name length binary =>
    { (((name.dataType.measured (length.map .one)).addPrefix "NATIONAL ").withBinary
        binary).addSuffix " VARYING" with
      isNational := true
      isVarying := true }
  | measured name dimension modifiers =>
    (name.dataType.measured dimension).withModifiers modifiers
  | simple name | spatial name _ => name.dataType
  | collection name literals binary _ =>
    ({ name.dataType.addSuffix ("(" ++ ",".intercalate literals ++ ")") with
      members := literals.map Text.stripQuotes } : DataType).withBinary binary
  | longVarchar name varchar binary charset _ =>
    charset.elim ((name.dataType.withVarchar varchar).withBinary binary)
      ((name.dataType.withVarchar varchar).withBinary binary).withCharset
  | longVarbinary long varbinary => ((long <|> varbinary).map TypeName.dataType).getD {}

/-- Resolving a declaration gives its data type, whatever was noted before. -/
theorem always_resolved (decl : TypeDecl) : Always (· = decl.resolved) decl.resolve := by
  cases decl with
  | string name varying length binary charset collation =>
    exact name.dataType.withLength?_measured length
  | national lead name length binary =>
    cases lead with
    | national | nchar =>
      exact (name.dataType.withLength?_measured length).bind fun t ht => .pure (by rw [ht, resolved])
  | nationalVarying name length binary =>
    exact (name.dataType.withLength?_measured length).bind fun t ht => .pure (by rw [ht, resolved])
  | measured name dimension modifiers =>
    exact (name.dataType.withDimension?_measured dimension).bind fun t ht =>
      .pure (by rw [ht, resolved])
  | simple name | spatial name srid | collection name literals binary charset => exact .pure rfl
  | longVarchar name varchar binary charset collation => cases charset <;> exact .pure rfl
  -- Without its words the type is noted and resolved to an empty one.
  | longVarbinary long varbinary =>
    rcases long with _ | name
    · rcases varbinary with _ | name
      · exact .bind_any fun _ => .pure rfl
      · exact .pure rfl
    · exact .pure rfl

/-- A data type keeps its name and its number, whatever else is declared. -/
theorem resolved_named {decl : TypeDecl} {name : TypeName} (h : decl.typeName? = some name) :
    decl.resolved.name = Unicode.upper name.text ∧ decl.resolved.number = name.keyword.number := by
  cases decl with
  | national lead name length binary =>
    obtain rfl := Option.some.inj h
    cases lead <;> simp [resolved, DataType.withBinary_eq, DataType.addPrefix, TypeName.dataType]
  | longVarchar name varchar binary charset collation =>
    obtain rfl := Option.some.inj h
    cases charset <;>
      simp [resolved, DataType.withVarchar_eq, DataType.withBinary_eq, DataType.withCharset_eq,
        TypeName.dataType]
  | longVarbinary long varbinary =>
    rw [resolved, show (long <|> varbinary) = some name from h]
    exact ⟨rfl, rfl⟩
  | _ =>
    obtain rfl := Option.some.inj h
    simp [resolved, DataType.withBinary_eq, DataType.withModifiers_eq,
      DataType.addPrefix, DataType.addSuffix, TypeName.dataType]

end TypeDecl

end TableSchema
