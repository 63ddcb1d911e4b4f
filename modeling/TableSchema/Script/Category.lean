import TableSchema.Grammar.Terminal

/-!
# Categories of statements

Statements are told apart by their first words. A word that opens a statement also ends the one
before it, if no semicolon stands between them.
-/

namespace TableSchema

/-- What a statement is for. -/
inductive Category
  /-- It declares, alters or drops something. -/
  | definition
  /-- It reads or changes rows. -/
  | manipulation
  | transaction
  | replication
  | prepared
  | administration
  | utility
deriving DecidableEq, Repr

namespace Category

/-- The single words that open a statement of a category. -/
def openingWords : List (Category × List String) := [
  (.definition, ["CREATE", "ALTER", "RENAME", "TRUNCATE", "DROP"]),
  (.manipulation, ["SELECT", "INSERT", "UPDATE", "DELETE", "REPLACE", "CALL", "DO", "HANDLER",
    "LOAD", "VALUES", "WITH", "TABLE", "IMPORT"]),
  (.transaction, ["BEGIN", "COMMIT", "ROLLBACK", "SAVEPOINT", "RELEASE", "LOCK", "UNLOCK", "XA"]),
  (.replication, ["CHANGE", "PURGE", "STOP"]),
  (.prepared, ["PREPARE", "EXECUTE", "DEALLOCATE"]),
  (.administration, ["GRANT", "REVOKE", "SHOW", "FLUSH", "KILL", "INSTALL", "UNINSTALL", "ANALYZE",
    "CHECK", "CHECKSUM", "OPTIMIZE", "REPAIR", "BINLOG", "CACHE", "SHUTDOWN", "SET", "RESET"]),
  (.utility, ["USE", "DESCRIBE", "DESC", "EXPLAIN", "HELP", "SIGNAL", "RESIGNAL", "GET",
    "DELIMITER"])]

/-- The pairs of words that open a statement; they go before the single words. -/
def openingPairs : List (Category × String × List String) := [
  (.prepared, "DROP", ["PREPARE"]),
  (.transaction, "START", ["TRANSACTION"]),
  (.replication, "START", ["SLAVE", "REPLICA", "GROUP_REPLICATION"]),
  (.transaction, "SET", ["TRANSACTION", "AUTOCOMMIT"]),
  (.replication, "RESET", ["MASTER", "SLAVE", "REPLICA"])]

/-- The word patterns that open a statement, with its category; the first that fits decides. -/
def openings : List (List Terminal × Category) :=
  (openingPairs.flatMap fun (category, first, seconds) =>
    seconds.map fun second => ([.keyword first, .keyword second], category)) ++
  openingWords.flatMap fun (category, words) =>
    words.map fun word => ([.keyword word], category)

/-- The category of the statement that the first words open. -/
def ofWords? (ls : List Lexeme) : Option Category :=
  (openings.find? fun opening => Terminal.opens opening.1 ls).map (·.2)

/-- A word that opens a statement comes next. -/
def startsStatement (ls : List Lexeme) : Bool :=
  (ofWords? ls).isSome

/-- The category of the statement that comes next. A parenthesis opens a query. -/
def of? (ls : List Lexeme) : Option Category :=
  if Terminal.opens [.symbol .openParen] ls then some .manipulation else ofWords? ls

end Category

end TableSchema
