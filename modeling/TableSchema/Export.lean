import TableSchema.Batch
import TableSchema.Files
import TableSchema.Script.Grammar
import TableSchema.Script.Resolve

/-!
# Exporting tables

The tables of a text, of a file, or of several files, with the diagnostics noted on the way. A text
that is outside the language fails as a whole; of several files the first that fails decides. Many
files are analysed as a batch, whose workers finish them in any order.

A file is exported like its text, apart from an error of the grammar, which then names the file. An
input is taken as a path when it leads to a file, and as a text otherwise.
-/

namespace TableSchema

/-- What an analysis finds. -/
structure Export where
  /-- The tables, in order. -/
  tables : List Table
  /-- What was left out or could not be read. -/
  diagnostics : Diagnostics
deriving DecidableEq, Repr

/-- Where a text comes from. -/
inductive Input
  | path (path : String)
  | text (text : String)
deriving DecidableEq, Repr

/-- The name of a file is a path; anything else is a text. -/
def Input.detect (files : Files) (input : String) : Input :=
  if files.isFile input then .path input else .text input

namespace Export

/-- Nothing found. -/
def empty : Export :=
  ⟨[], .empty⟩

/-- What two analyses find, one after the other. -/
def append (e f : Export) : Export :=
  ⟨e.tables ++ f.tables, e.diagnostics.append f.diagnostics⟩

/-- What a script declares. -/
def ofScript (script : Script) : Export :=
  let (tables, diagnostics) := (Script.resolve script).run .empty
  ⟨tables.map Table.exported, diagnostics⟩

/-- What a text declares. -/
def ofText (text : String) : Except Error Export :=
  (Script.parse text).map ofScript

/-- The text of a file. -/
def readText (files : Files) (path : String) : Except Error String :=
  match files.read? path with
  | none => .error (.unreadable path)
  | some bytes =>
    match Text.ofBytes? bytes with
    | none => .error (.encoding path)
    | some text => .ok text

/-- What a file declares. -/
def ofFile (files : Files) (path : String) : Except Error Export := do
  let text ← readText files path
  (ofText text).mapError (·.inFile path)

/-- The number of files from which on they are analysed as a batch. -/
def parallelThreshold : Nat :=
  8

/-- What each of several files declares. -/
def resultsOfFiles (files : Files) (paths : List String) (schedule : Schedule paths.length) :
    List (Except Error Export) :=
  if parallelThreshold ≤ paths.length then Batch.collect (ofFile files) paths schedule
  else paths.map (ofFile files)

/-- What one more analysis adds to what is found so far. -/
def addResult (found : Export) (result : Except Error Export) : Except Error Export :=
  result.map found.append

/-- What several analyses find, one after the other; the first that fails decides. -/
def combine (results : List (Except Error Export)) : Except Error Export :=
  results.foldlM addResult empty

/-- What files declare, one after the other, if the workers finish them as in `schedule`. -/
def ofFiles (files : Files) (paths : List String)
    (schedule : Schedule paths.length := .inOrder paths.length) : Except Error Export :=
  combine (resultsOfFiles files paths schedule)

/-- What a file declares, if the input names one, or else what the input declares as a text. -/
def ofInput (files : Files) (input : String) : Except Error Export :=
  match Input.detect files input with
  | .path path => ofFile files path
  | .text text => ofText text

end Export

end TableSchema
