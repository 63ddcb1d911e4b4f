import TableSchema.Files

/-!
# Scratch directories

A store is one example of a system of files: a scratch directory, outside of which there is no file.
It holds files and directories under the names that lead to them, and it can be written to. Paths
are texts whose names are divided by slashes; they start at the scratch directory unless they begin
with a slash. `.` stands for the directory itself, `..` for the one above it, and a slash at the end
asks for a directory.
-/

namespace TableSchema

/-- What a path can lead to. -/
inductive Entry
  | file (bytes : List UInt8)
  | directory
deriving DecidableEq, Repr

/-- Files and directories under the names that lead to them. -/
structure Store where
  /-- The entries, each with the names that lead to it. -/
  entries : List (List String × Entry)
deriving DecidableEq, Repr

namespace Store

/-- A store that holds nothing. -/
def empty : Store :=
  ⟨[]⟩

/-- The names of a path, with empty names where slashes stand at an end or side by side. -/
def pathNames (path : String) : List String :=
  split [] path.toList
where
  /-- The names of a path of which the characters `name` are read, the last one first. -/
  split (name : List Char) : List Char → List String
    | [] => [String.ofList name.reverse]
    | c :: cs =>
      if c = '/' then String.ofList name.reverse :: split [] cs else split (c :: name) cs

/-- The entry at a place. -/
def entryAt? (s : Store) (place : List String) : Option Entry :=
  if place = [] then some .directory else s.entries.lookup place

/-- Follow names from a place that leads to a directory. -/
def follow? (s : Store) (place : List String) : List String → Option (List String)
  | [] => some place
  | name :: names =>
    if s.entryAt? place ≠ some .directory then none
    else if name = "" ∨ name = "." then follow? s place names
    else if name = ".." then
      if place = [] then none else follow? s place.dropLast names
    else if (s.entryAt? (place ++ [name])).isSome then follow? s (place ++ [name]) names
    else none

/-- The entry that a path leads to. A path that begins with a slash starts outside. -/
def find? (s : Store) (path : String) : Option Entry :=
  if path = "" ∨ path.toList.head? = some '/' then none
  else (s.follow? [] (pathNames path)).bind s.entryAt?

/-- The bytes of the file that a path leads to. -/
def read? (s : Store) (path : String) : Option (List UInt8) :=
  match s.find? path with
  | some (.file bytes) => some bytes
  | _ => none

/-- The files of a store. -/
instance : Coe Store Files :=
  ⟨fun s => ⟨s.read?⟩⟩

/-- The place that a path names, whether or not something is there. -/
def place (path : String) : List String :=
  (pathNames path).foldl (fun place name =>
    if name = "" ∨ name = "." then place
    else if name = ".." then place.dropLast
    else place ++ [name]) []

/-- Put an entry at a place, with the directories above it. -/
def put (s : Store) (place : List String) (entry : Entry) : Store :=
  let above := (List.range place.length).map fun n => (place.take n, Entry.directory)
  let missing := above.filter fun (place, _) => (s.entryAt? place).isNone
  ⟨(place, entry) :: missing ++ s.entries.filter (·.1 ≠ place)⟩

/-- Write a file. -/
def write (s : Store) (path : String) (bytes : List UInt8) : Store :=
  s.put (place path) (.file bytes)

/-- Make a directory. -/
def makeDirectory (s : Store) (path : String) : Store :=
  s.put (place path) .directory

/-- Remove what a path names, with everything below it. -/
def remove (s : Store) (path : String) : Store :=
  ⟨s.entries.filter fun entry => !(place path).isPrefixOf entry.1⟩

end Store

end TableSchema
