import TableSchema.Text.Encoding

/-!
# Texts in UTF-8

The bytes of a text in UTF-8 are read back as that text, whether or not a byte order mark stands
before them. Only a text whose first character is the byte order mark itself must not stand alone:
its own mark is then taken for the mark of the file.
-/

namespace TableSchema.Text

/-- The bytes of a text are read back as the text. -/
theorem ofUtf8?_toUtf8 (text : String) : ofUtf8? (toUtf8 text) = some text := by
  unfold ofUtf8? toUtf8 String.fromUTF8?
  rw [Array.toArray_toList, String.toUTF8_eq_toByteArray]
  exact dif_pos text.isValidUTF8

/-- A text whose bytes begin with the byte order mark begins with the character of the mark. -/
theorem head?_of_utf8Mark_append {text : String} {bytes : List UInt8}
    (h : utf8Mark ++ bytes = toUtf8 text) : text.toList.head? = some '\uFEFF' := by
  have hbytes : List.utf8Encode ['\uFEFF'] ++ ⟨bytes.toArray⟩ = List.utf8Encode text.toList := by
    rw [String.utf8Encode_toList]
    apply ByteArray.ext
    apply Array.toList_inj.1
    exact h
  obtain ⟨rest, hrest⟩ := List.isPrefix_of_utf8Encode_append_eq_utf8Encode _ hbytes
  rw [← hrest]
  rfl

/-- A byte order mark is taken off, and only once. -/
theorem dropMark_append (bytes : List UInt8) : dropMark (utf8Mark ++ bytes) = bytes := by
  unfold dropMark
  rw [if_pos (List.isPrefixOf_iff_prefix.2 (List.prefix_append utf8Mark bytes)), List.drop_left]

/-- Nothing is taken off the bytes of a text that does not begin with the character of the mark. -/
theorem dropMark_toUtf8 {text : String} (h : text.toList.head? ≠ some '\uFEFF') :
    dropMark (toUtf8 text) = toUtf8 text := by
  unfold dropMark
  refine if_neg fun hmark => ?_
  obtain ⟨bytes, hbytes⟩ := List.isPrefixOf_iff_prefix.1 hmark
  exact h (head?_of_utf8Mark_append hbytes)

/-- Bytes hold a text: they are its bytes in UTF-8, perhaps after a byte order mark. -/
def Holds (bytes : List UInt8) (text : String) : Prop :=
  bytes = toUtf8 text ∨ bytes = utf8Mark ++ toUtf8 text

/-- The bytes that hold a text are read as that text, if it does not begin with the character of the
mark. -/
theorem Holds.ofBytes? {bytes : List UInt8} {text : String} (h : Holds bytes text)
    (hmark : text.toList.head? ≠ some '\uFEFF') : Text.ofBytes? bytes = some text := by
  have hdrop : dropMark bytes = toUtf8 text := by
    obtain rfl | rfl := h
    · exact dropMark_toUtf8 hmark
    · exact dropMark_append _
  unfold Text.ofBytes?
  rw [hdrop, ofUtf8?_toUtf8]
  rfl

end TableSchema.Text
