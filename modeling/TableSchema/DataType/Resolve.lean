import TableSchema.DataType.Basic
import TableSchema.DataType.Declaration
import TableSchema.Diagnostics
import TableSchema.Text.Strip
import TableSchema.Unicode.Upper

/-!
# Resolving data types

A declared type becomes a `DataType` with a canonical text: words in upper case and in a fixed
order, lengths and literals as they are written. Resolving never fails; a length that cannot be
read counts as zero and is noted.

A character set is part of the canonical text only for `LONG`; other types leave it out together
with their collation.
-/

namespace TableSchema

/-- The type that is only a word. -/
def TypeName.dataType (name : TypeName) : DataType :=
  { name := Unicode.upper name.text
    number := name.keyword.number
    source := Unicode.upper name.text }

namespace DataType

/-- Words at the end of the canonical text. -/
def addSuffix (t : DataType) (words : String) : DataType :=
  { t with source := t.source ++ words }

/-- Words at the front of the canonical text. -/
def addPrefix (t : DataType) (words : String) : DataType :=
  { t with source := words ++ t.source }

/-- Declared `BINARY`, if `binary`. -/
def withBinary (t : DataType) (binary : Bool) : DataType :=
  if binary then { t.addSuffix " BINARY" with isBinary := true } else t

/-- Declared `VARCHAR` after `LONG`, if `varchar`. -/
def withVarchar (t : DataType) (varchar : Bool) : DataType :=
  if varchar then { t.addSuffix " VARCHAR" with isVarchar := true } else t

/-- Declared with the attributes of a number, each once and in a fixed order. -/
def withModifiers (t : DataType) (modifiers : List NumericModifier) : DataType :=
  let t := if .signed ∈ modifiers then { t.addSuffix " SIGNED" with isSigned := true } else t
  let t := if .unsigned ∈ modifiers then { t.addSuffix " UNSIGNED" with isUnsigned := true } else t
  if .zerofill ∈ modifiers then { t.addSuffix " ZEROFILL" with isZerofill := true } else t

/-- Declared with a character set that the canonical text keeps. -/
def withCharset (t : DataType) (charset : Charset) : DataType :=
  let t := { t with charsetName := Text.stripQuotes charset.name }
  match charset.keyword with
  | .charSet => { t.addSuffix (" CHAR SET " ++ charset.name) with isCharSet := true }
  | .characterSet =>
    { t.addSuffix (" CHARACTER SET " ++ charset.name) with isCharacterSet := true }
  | .charset => { t.addSuffix (" CHARSET " ++ charset.name) with isCharset := true }

/-- The number that a part of a length clause denotes; if it cannot be read, zero and a note. -/
def readLength (text typeName : String) : Resolve Nat := do
  match Text.readLength text with
  | .ok value => return value
  | .error reason =>
    note (.length text typeName reason)
    return 0

/-- Declared with one length. -/
def withLength (t : DataType) (text : String) : Resolve DataType := do
  let length ← readLength (Text.stripBrackets text) t.name
  return { t.addSuffix text with hasLength := true, length := length }

/-- The parts of a length clause before and after its first comma. -/
def lengthParts (text : String) : String × Option String :=
  let inner := (Text.stripBrackets text).toList
  (String.ofList (inner.takeWhile (· ≠ ',')),
    match inner.dropWhile (· ≠ ',') with
    | [] => none
    | _ :: rest => some (String.ofList rest))

/-- Declared with a precision and perhaps a scale, each read for itself. -/
def withTwoLengths (t : DataType) (text : String) : Resolve DataType := do
  let (first, second?) := lengthParts text
  let precision ← readLength first t.name
  let scale ← match second? with
    | some second => readLength second t.name
    | none => pure 0
  return { t.addSuffix text with hasTwoLengths := true, precision := precision, scale := scale }

/-- Declared with one length, if `text?` holds one. -/
def withLength? (t : DataType) (text? : Option String) : Resolve DataType :=
  match text? with
  | some text => t.withLength text
  | none => return t

/-- Declared with a length clause, if there is one. -/
def withDimension? (t : DataType) : Option Dimension → Resolve DataType
  | some (.one text) => t.withLength text
  | some (.two text) => t.withTwoLengths text
  | some (.upToTwo text) => t.withTwoLengths text
  | none => return t

end DataType

/-- The data type that a declaration gives. -/
def TypeDecl.resolve : TypeDecl → Resolve DataType
  | string name _ length _ _ _ => name.dataType.withLength? length
  | national .national name length binary => do
    let t ← name.dataType.withLength? length
    return { (t.addPrefix "NATIONAL ").withBinary binary with isNational := true }
  | national .nchar name length binary => do
    let t ← name.dataType.withLength? length
    return { (t.withBinary binary).addPrefix "NCHAR " with isNchar := true }
  | nationalVarying name length binary => do
    let t ← name.dataType.withLength? length
    return { ((t.addPrefix "NATIONAL ").withBinary binary).addSuffix " VARYING" with
      isNational := true, isVarying := true }
  | measured name dimension modifiers => do
    let t ← name.dataType.withDimension? dimension
    return t.withModifiers modifiers
  | simple name => return name.dataType
  | collection name literals binary _ =>
    let t := name.dataType.addSuffix ("(" ++ ",".intercalate literals ++ ")")
    return { t with members := literals.map Text.stripQuotes }.withBinary binary
  | spatial name _ => return name.dataType
  | longVarchar name varchar binary charset _ =>
    let t := (name.dataType.withVarchar varchar).withBinary binary
    return match charset with
      | some charset => t.withCharset charset
      | none => t
  | longVarbinary long varbinary =>
    match long <|> varbinary with
    | some name => return name.dataType
    | none => do
      note .namelessLongBinary
      return {}

end TableSchema
