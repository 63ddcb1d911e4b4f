import TableSchema.Key.Grammar

/-!
# Table options

The options after the list of a table. Each is checked and none is kept.
-/

namespace TableSchema.Grammar

open TableSchema.Parser

/-- The value of an option: a word, a number, or a literal between single or double quotes. -/
def isOptionValue : Token → Bool
  | .word _ _ | .number _ | .literal .single _ | .literal .double _ => true
  | _ => false

/-- The value of an option. -/
def optionValue : Parser Unit :=
  discard (token .optionValue (Option.guard isOptionValue))

/-- `[=] value` -/
def assignment : Parser Unit := do
  equalsSign
  optionValue

/-- The options that set the character set and the collation of a table. -/
def charsetOptions : List (Branch Unit) := [
  .behind [.word "CHARACTER", .word "SET"] assignment,
  .behind [.word "CHAR", .word "SET"] assignment,
  .behind [.word "CHARSET"] assignment,
  .behind [.keyword "COLLATE"] assignment]

/-- The options that are a single word and a value. -/
def plainOptions : List String := [
  "AUTOEXTEND_SIZE", "AUTO_INCREMENT", "AVG_ROW_LENGTH", "CHECKSUM", "PAGE_CHECKSUM", "COMMENT",
  "COMPRESSION", "CONNECTION", "DELAY_KEY_WRITE", "ENCRYPTION", "ENCRYPTION_KEY_ID", "ENGINE",
  "ENGINE_ATTRIBUTE", "INSERT_METHOD", "KEY_BLOCK_SIZE", "MAX_ROWS", "MIN_ROWS", "PACK_KEYS",
  "PAGE_COMPRESSED", "PAGE_COMPRESSION_LEVEL", "PASSWORD", "ROW_FORMAT", "SECONDARY_ENGINE",
  "SECONDARY_ENGINE_ATTRIBUTE", "STATS_AUTO_RECALC", "STATS_PERSISTENT", "STATS_SAMPLE_PAGES",
  "TABLE_TYPE", "TRANSACTIONAL", "TYPE"]

/-- `[=] value [STORAGE value]` after `TABLESPACE`. -/
def tablespace : Parser Unit := do
  assignment
  if ← eat (.word "STORAGE") then optionValue

/-- The options of a table. -/
def tableOptions : List (Branch Unit) :=
  .behind [.keyword "DEFAULT"] (choose .charsetOrCollation charsetOptions) ::
  charsetOptions ++ [
    .behind [.word "DATA", .word "DIRECTORY"] assignment,
    .behind [.keyword "INDEX", .word "DIRECTORY"] assignment,
    .behind [.word "TABLESPACE"] tablespace,
    .behind [.word "UNION"] (do equalsSign; parenthesized),
    .behind [.word "START", .word "TRANSACTION"] (return ())] ++
  plainOptions.map fun name => .behind [.keyword name] assignment

end TableSchema.Grammar
