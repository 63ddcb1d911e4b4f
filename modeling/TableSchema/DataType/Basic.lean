/-!
# Data types

A data type of the schema: the word that names it, its number, its canonical text, and what its
declaration says, one field for each clause that some type can have.
-/

namespace TableSchema

/-- A data type of the schema. -/
structure DataType where
  /-- The type word in upper case. -/
  name : String := ""
  /-- The number of the type word; 0 stands for no word. -/
  number : Int := 0
  /-- The canonical text of the type. -/
  source : String := ""
  /-- A length is declared. -/
  hasLength : Bool := false
  /-- The length, or 0. -/
  length : Nat := 0
  /-- The national character set is asked for by `NATIONAL`. -/
  isNational : Bool := false
  /-- `BINARY` is declared. -/
  isBinary : Bool := false
  /-- The national character set is asked for by `NCHAR`. -/
  isNchar : Bool := false
  /-- `VARYING` is declared. -/
  isVarying : Bool := false
  /-- `SIGNED` is declared. -/
  isSigned : Bool := false
  /-- `UNSIGNED` is declared. -/
  isUnsigned : Bool := false
  /-- `ZEROFILL` is declared. -/
  isZerofill : Bool := false
  /-- A precision, and perhaps a scale, is declared. -/
  hasTwoLengths : Bool := false
  /-- The precision, or 0. -/
  precision : Nat := 0
  /-- The scale, or 0. -/
  scale : Nat := 0
  /-- `VARCHAR` is declared after `LONG`. -/
  isVarchar : Bool := false
  /-- A character set is declared by `CHAR SET`. -/
  isCharSet : Bool := false
  /-- A character set is declared by `CHARSET`. -/
  isCharset : Bool := false
  /-- A character set is declared by `CHARACTER SET`. -/
  isCharacterSet : Bool := false
  /-- The name of the character set, without quotes. -/
  charsetName : String := ""
  /-- The members of an enumeration or a set, without quotes. -/
  members : List String := []
deriving DecidableEq, Repr

end TableSchema
