/-!
# Replacing and cutting at a substring

Occurrences are found from the left and do not overlap when they are replaced; a text is cut at
its last occurrence of a separator.
-/

namespace TableSchema.Text

/-- Each occurrence of `old`, which is not empty, replaced by `new`, in what follows the next `skip`
characters, which belong to an occurrence that is replaced already. -/
def replaceChars (old new : List Char) : Nat → List Char → List Char
  | _, [] => []
  | skip + 1, _ :: cs => replaceChars old new skip cs
  | 0, c :: cs =>
    if old.isPrefixOf (c :: cs) then new ++ replaceChars old new (old.length - 1) cs
    else c :: replaceChars old new 0 cs

/-- Each occurrence of `old` in `s` replaced by `new`; nothing is replaced for an empty `old`. -/
def replace (s old new : String) : String :=
  if old.toList = [] then s else String.ofList (replaceChars old.toList new.toList 0 s.toList)

/-- The replacements `(old, new)` made one after the other. -/
def replaceAll (s : String) (pairs : List (String × String)) : String :=
  pairs.foldl (fun text pair => replace text pair.1 pair.2) s

/-- What follows the last occurrence of `separator`, if it occurs. -/
def afterLastChars? (separator : List Char) : List Char → Option (List Char)
  | [] => none
  | c :: cs =>
    match afterLastChars? separator cs with
    | some tail => some tail
    | none =>
      if separator.isPrefixOf (c :: cs) then some ((c :: cs).drop separator.length) else none

/-- What follows the last occurrence of `separator` in `s`, or all of `s`. -/
def afterLast (separator s : String) : String :=
  match afterLastChars? separator.toList s.toList with
  | some tail => String.ofList tail
  | none => s

end TableSchema.Text
