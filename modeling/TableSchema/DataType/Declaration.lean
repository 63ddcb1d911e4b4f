import TableSchema.DataType.Keyword
import TableSchema.Token.Basic

/-!
# Declared data types

A data type as it is declared, clause by clause. Words keep their spelling and lengths their
parentheses, so that the type can be written down again.
-/

namespace TableSchema

/-- The word that names a data type. -/
structure TypeName where
  /-- The type word. -/
  keyword : TypeKeyword
  /-- The word as it is spelled. -/
  text : String
deriving DecidableEq, Repr

/-- A length clause in parentheses, told apart by the numbers that it may hold. -/
inductive Dimension
  /-- Exactly one number. -/
  | one (text : String)
  /-- Exactly two numbers. -/
  | two (text : String)
  /-- One number or two. -/
  | upToTwo (text : String)
deriving DecidableEq, Repr

/-- An attribute of a number. -/
inductive NumericModifier
  | signed
  | unsigned
  | zerofill
deriving DecidableEq, Repr

/-- The words that introduce a character set. -/
inductive CharsetKeyword
  /-- `CHAR SET` -/
  | charSet
  /-- `CHARACTER SET` -/
  | characterSet
  /-- `CHARSET` -/
  | charset
deriving DecidableEq, Repr

/-- A character set clause. -/
structure Charset where
  /-- The words that introduce it. -/
  keyword : CharsetKeyword
  /-- The name of the character set as it is written. -/
  name : String
deriving DecidableEq, Repr

/-- The word before a type of the national character set. -/
inductive NationalLead
  | national
  | nchar
deriving DecidableEq, Repr

/-- A declared data type. -/
inductive TypeDecl
  /-- A character type: `VARCHAR(255) CHARACTER SET utf8 COLLATE utf8_bin`. -/
  | string (name : TypeName) (varying : Bool) (length : Option String) (binary : Bool)
      (charset : Option Charset) (collation : Option String)
  /-- A type of the national character set: `NATIONAL CHAR(10) BINARY`, `NCHAR VARCHAR(10)`. -/
  | national (lead : NationalLead) (name : TypeName) (length : Option String) (binary : Bool)
  /-- A varying type of the national character set: `NATIONAL CHAR VARYING(10) BINARY`. -/
  | nationalVarying (name : TypeName) (length : Option String) (binary : Bool)
  /-- A number or a time with its lengths and attributes. -/
  | measured (name : TypeName) (dimension : Option Dimension) (modifiers : List NumericModifier)
  /-- A type that is only a word. -/
  | simple (name : TypeName)
  /-- A type that lists its members: `ENUM('a','b')`. The literals keep their quotes. -/
  | collection (name : TypeName) (literals : List String) (binary : Bool)
      (charset : Option Charset)
  /-- A geometry or a document, perhaps with the number of a reference system. -/
  | spatial (name : TypeName) (srid : Option String)
  /-- `LONG [VARCHAR] [BINARY]` with a character set and a collation. -/
  | longVarchar (name : TypeName) (varchar : Bool) (binary : Bool) (charset : Option Charset)
      (collation : Option String)
  /-- `LONG VARBINARY`. -/
  | longVarbinary (long varbinary : Option TypeName)
deriving DecidableEq, Repr

/-- The type name that a token is. -/
def TypeName.ofToken? (token : Token) : Option TypeName := do
  let text ← token.bareWord?
  return ⟨← TypeKeyword.ofWord? text, text⟩

end TableSchema
