import TableSchema.Script.Statement
import TableSchema.Table.Resolve

/-!
# Resolving scripts

The tables of a script are those of its statements, in order. A statement that neither declares a
table nor defines anything else is noted.
-/

namespace TableSchema

/-- The category in a note. -/
def Category.description : Category → String
  | definition => "DDL"
  | manipulation => "DML"
  | transaction => "transaction"
  | replication => "replication"
  | prepared => "prepared"
  | administration => "administration"
  | utility => "utility"

/-- The table that a statement declares, if it declares one. -/
def Statement.resolve : Statement → Resolve (Option Table)
  | createTable decl => decl.resolve
  | other .definition _ _ => return none
  | other category _ text => do
    note (.statement category.description text)
    return none

/-- The tables that a script declares, in order. -/
def Script.resolve (script : Script) : Resolve (List Table) :=
  script.filterMapM Statement.resolve

end TableSchema
