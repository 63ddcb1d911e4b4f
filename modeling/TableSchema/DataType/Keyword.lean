import TableSchema.Text.Case

/-!
# Type words

The words that name data types, in the order of their numbers, and the family of each: the types
of a family are declared in the same way. Synonyms such as `INT` and `INTEGER` are told apart.
-/

namespace TableSchema

/-- How types are declared. -/
inductive TypeFamily
  /-- Character types: one length, a character set and a collation. -/
  | string
  /-- `LONG`, with its own forms for characters and bytes. -/
  | long
  /-- Integers: one length and sign attributes. -/
  | integer
  /-- Floating point numbers: two lengths and sign attributes. -/
  | real
  /-- Decimal numbers: one or two lengths and sign attributes. -/
  | decimal
  /-- Times, bits and bytes: one length. -/
  | temporal
  /-- Types that are only a word. -/
  | simple
  /-- Types that list their members. -/
  | collection
  /-- Geometries and documents: perhaps a reference system. -/
  | spatial
deriving DecidableEq, Repr

/-- A word that names a data type. -/
inductive TypeKeyword
  | char
  | character
  | varchar
  | tinyText
  | text
  | mediumText
  | longText
  | nchar
  | nvarchar
  | long
  | tinyInt
  | smallInt
  | mediumInt
  | int
  | integer
  | bigInt
  | middleInt
  | int1
  | int2
  | int3
  | int4
  | int8
  | real
  | double
  | decimal
  | dec
  | fixed
  | numeric
  | float
  | float4
  | float8
  | date
  | tinyBlob
  | mediumBlob
  | longBlob
  | bool
  | boolean
  | serial
  | bit
  | time
  | timestamp
  | datetime
  | binary
  | varbinary
  | blob
  | year
  | enumeration
  | set
  | geometryCollection
  | geomCollection
  | lineString
  | multiLineString
  | multiPoint
  | multiPolygon
  | point
  | polygon
  | json
  | geometry
deriving DecidableEq, Repr

namespace TypeKeyword

/-- All type words, in the order of their numbers. -/
def all : List TypeKeyword := [
  .char, .character, .varchar, .tinyText, .text, .mediumText, .longText, .nchar, .nvarchar, .long,
  .tinyInt, .smallInt, .mediumInt, .int, .integer, .bigInt, .middleInt, .int1, .int2, .int3, .int4,
  .int8, .real, .double, .decimal, .dec, .fixed, .numeric, .float, .float4, .float8, .date,
  .tinyBlob, .mediumBlob, .longBlob, .bool, .boolean, .serial, .bit, .time, .timestamp, .datetime,
  .binary, .varbinary, .blob, .year, .enumeration, .set, .geometryCollection, .geomCollection,
  .lineString, .multiLineString, .multiPoint, .multiPolygon, .point, .polygon, .json, .geometry]

/-- The word in upper case. -/
def spelling : TypeKeyword → String
  | char => "CHAR"
  | character => "CHARACTER"
  | varchar => "VARCHAR"
  | tinyText => "TINYTEXT"
  | text => "TEXT"
  | mediumText => "MEDIUMTEXT"
  | longText => "LONGTEXT"
  | nchar => "NCHAR"
  | nvarchar => "NVARCHAR"
  | long => "LONG"
  | tinyInt => "TINYINT"
  | smallInt => "SMALLINT"
  | mediumInt => "MEDIUMINT"
  | int => "INT"
  | integer => "INTEGER"
  | bigInt => "BIGINT"
  | middleInt => "MIDDLEINT"
  | int1 => "INT1"
  | int2 => "INT2"
  | int3 => "INT3"
  | int4 => "INT4"
  | int8 => "INT8"
  | real => "REAL"
  | double => "DOUBLE"
  | decimal => "DECIMAL"
  | dec => "DEC"
  | fixed => "FIXED"
  | numeric => "NUMERIC"
  | float => "FLOAT"
  | float4 => "FLOAT4"
  | float8 => "FLOAT8"
  | date => "DATE"
  | tinyBlob => "TINYBLOB"
  | mediumBlob => "MEDIUMBLOB"
  | longBlob => "LONGBLOB"
  | bool => "BOOL"
  | boolean => "BOOLEAN"
  | serial => "SERIAL"
  | bit => "BIT"
  | time => "TIME"
  | timestamp => "TIMESTAMP"
  | datetime => "DATETIME"
  | binary => "BINARY"
  | varbinary => "VARBINARY"
  | blob => "BLOB"
  | year => "YEAR"
  | enumeration => "ENUM"
  | set => "SET"
  | geometryCollection => "GEOMETRYCOLLECTION"
  | geomCollection => "GEOMCOLLECTION"
  | lineString => "LINESTRING"
  | multiLineString => "MULTILINESTRING"
  | multiPoint => "MULTIPOINT"
  | multiPolygon => "MULTIPOLYGON"
  | point => "POINT"
  | polygon => "POLYGON"
  | json => "JSON"
  | geometry => "GEOMETRY"

/-- How the type is declared. -/
def family : TypeKeyword → TypeFamily
  | char | character | varchar | tinyText | text | mediumText | longText | nchar | nvarchar =>
    .string
  | long => .long
  | tinyInt | smallInt | mediumInt | int | integer | bigInt | middleInt | int1 | int2 | int3 | int4
  | int8 => .integer
  | real | double => .real
  | decimal | dec | fixed | numeric | float | float4 | float8 => .decimal
  | date | tinyBlob | mediumBlob | longBlob | bool | boolean | serial => .simple
  | bit | time | timestamp | datetime | binary | varbinary | blob | year => .temporal
  | enumeration | set => .collection
  | geometryCollection | geomCollection | lineString | multiLineString | multiPoint | multiPolygon
  | point | polygon | json | geometry => .spatial

/-- The number of the word, from 1; 0 stands for no word. -/
def number (k : TypeKeyword) : Nat :=
  all.idxOf k + 1

/-- The type word that a word is, compared letter by letter of ASCII. -/
def ofWord? (word : String) : Option TypeKeyword :=
  all.find? fun k => Text.sameAscii k.spelling word

end TypeKeyword

end TableSchema
