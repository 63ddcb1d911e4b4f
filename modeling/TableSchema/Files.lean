import TableSchema.Text.Encoding

/-!
# Files

The files of a system are a map from paths to bytes. Which paths lead to the same file, and how a
path is resolved, is left to the system: nothing is assumed of the map.
-/

namespace TableSchema

/-- What the paths of a system lead to. -/
structure Files where
  /-- The bytes of the file that a path leads to, if it leads to one. -/
  read? : String → Option (List UInt8)

/-- A path leads to a file. -/
def Files.isFile (files : Files) (path : String) : Bool :=
  (files.read? path).isSome

end TableSchema
