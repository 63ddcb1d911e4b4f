/-!
# Bytes to text

The text of a file is in UTF-8 if its bytes are valid UTF-8, after one byte order mark at most.
Otherwise a byte order mark decides between the two forms of UTF-16; without one, each byte is a
character of the code page Windows-1252.

A text is malformed when a byte order mark announces an encoding that the bytes then break.
-/

namespace TableSchema.Text

/-- The byte order mark of UTF-8. -/
def utf8Mark : List UInt8 :=
  [0xEF, 0xBB, 0xBF]

/-- The bytes of a text in UTF-8. -/
def toUtf8 (text : String) : List UInt8 :=
  text.toUTF8.data.toList

/-- The text whose bytes in UTF-8 are given. -/
def ofUtf8? (bytes : List UInt8) : Option String :=
  String.fromUTF8? ⟨bytes.toArray⟩

/-- The characters of Windows-1252 for the bytes from 0x80 to 0x9F. -/
def windowsSpecials : List Nat := [
  0x20AC, 0x81, 0x201A, 0x192, 0x201E, 0x2026, 0x2020, 0x2021, 0x2C6, 0x2030, 0x160, 0x2039, 0x152,
  0x8D, 0x17D, 0x8F, 0x90, 0x2018, 0x2019, 0x201C, 0x201D, 0x2022, 0x2013, 0x2014, 0x2DC, 0x2122,
  0x161, 0x203A, 0x153, 0x9D, 0x17E, 0x178]

/-- The character of Windows-1252 for a byte. The other bytes are the code points of their
characters. -/
def windowsChar (byte : UInt8) : Char :=
  if 0x80 ≤ byte then Char.ofNat (windowsSpecials.getD (byte.toNat - 0x80) byte.toNat)
  else Char.ofNat byte.toNat

/-- The text of bytes in Windows-1252. -/
def ofWindows (bytes : List UInt8) : String :=
  String.ofList (bytes.map windowsChar)

/-- The 16-bit units of a text, each made by `unit` of two bytes; none if a byte is left over. -/
def units16? (unit : Nat → Nat → Nat) : List UInt8 → Option (List Nat)
  | [] => some []
  | [_] => none
  | a :: b :: rest => (units16? unit rest).map (unit a.toNat b.toNat :: ·)

/-- The characters of 16-bit units; none if a surrogate stands alone. -/
def ofUnits16? : List Nat → Option (List Char)
  | [] => some []
  | u :: rest =>
    if 0xD800 ≤ u ∧ u < 0xDC00 then
      match rest with
      | [] => none
      | v :: rest =>
        if 0xDC00 ≤ v ∧ v < 0xE000 then
          (ofUnits16? rest).map (Char.ofNat (0x10000 + (u - 0xD800) * 0x400 + (v - 0xDC00)) :: ·)
        else none
    else if 0xDC00 ≤ u ∧ u < 0xE000 then none
    else (ofUnits16? rest).map (Char.ofNat u :: ·)

/-- The text of bytes in UTF-16, whose units `unit` makes of two bytes. -/
def ofUtf16? (unit : Nat → Nat → Nat) (bytes : List UInt8) : Option String := do
  let units ← units16? unit bytes
  return String.ofList (← ofUnits16? units)

/-- The text of bytes that are not valid UTF-8. -/
def ofOtherEncoding? : List UInt8 → Option String
  | 0xFF :: 0xFE :: bytes => ofUtf16? (fun low high => low + 0x100 * high) bytes
  | 0xFE :: 0xFF :: bytes => ofUtf16? (fun high low => 0x100 * high + low) bytes
  | 0xEF :: 0xBB :: 0xBF :: _ => none
  | bytes => some (ofWindows bytes)

/-- The bytes without a byte order mark of UTF-8 at their front. -/
def dropMark (bytes : List UInt8) : List UInt8 :=
  if utf8Mark.isPrefixOf bytes then bytes.drop utf8Mark.length else bytes

/-- The text of the bytes of a file, unless it is malformed. -/
def ofBytes? (bytes : List UInt8) : Option String :=
  ofUtf8? (dropMark bytes) <|> ofOtherEncoding? (dropMark bytes)

end TableSchema.Text
