import TableSchema.Proofs.DataType.RoundTrip
import TableSchema.Proofs.Text.Line
import TableSchema.Proofs.Token.Characters

/-!
# Line breaks in the source of a data type

The source of a data type that was read ends only the lines that its members and the name of its
character set end: words and lengths hold no line breaks, whatever stands between them in the text.

## Main results

* `TypeDecl.Declared.lineEnds_source`: the lines that the source of a resolved declaration ends.
-/

namespace TableSchema

open Text

/-- How many lines the members and the name of the character set of a data type end. -/
def DataType.innerLineEnds (t : DataType) : Nat :=
  lineEnds t.charsetName + (t.members.map lineEnds).sum

/-! ## Canonical texts -/

/-- A plain word ends no line. -/
theorem lineEnds_of_isPlainWord {w : String} (h : Piece.IsPlainWord w) : lineEnds w = 0 := by
  unfold lineEnds
  rw [List.count_eq_zero]
  intro hmem
  have halpha := List.all_eq_true.1 h.2 '\n' hmem
  revert halpha
  decide

/-- A number that was read ends no line. -/
theorem lineEnds_number {digits : String} (h : (Token.number digits).Legible) :
    lineEnds digits = 0 := by
  unfold lineEnds
  rw [List.count_eq_zero]
  intro hmem
  have hpart := h.number_isPart '\n' hmem
  revert hpart
  decide

/-- Words that are set off end no line. -/
theorem lineEnds_setOff {words : List String} (h : ∀ w ∈ words, Piece.IsPlainWord w) :
    lineEnds (setOff words) = 0 := by
  induction words with
  | nil => rfl
  | cons w words ih =>
    obtain ⟨hw, hwords⟩ := List.forall_mem_cons.1 h
    have hspace : lineEnds " " = 0 := by decide
    rw [setOff_cons, lineEnds_append, lineEnds_append, ih hwords, lineEnds_of_isPlainWord hw, hspace]

/-- Items in parentheses end the lines that they end themselves. -/
theorem lineEnds_bracketed (items : List Token) :
    lineEnds (Token.glue (Token.bracketed items)) = (items.map fun t => lineEnds t.text).sum := by
  by_cases hitems : items = []
  · subst hitems
    rfl
  · have hopen : lineEnds "(" = 0 := by decide
    have hclose : lineEnds ")" = 0 := by decide
    have hcomma : lineEnds "," = 0 := by decide
    rw [Token.glue_bracketed hitems, lineEnds_append, lineEnds_append, hopen, hclose,
      lineEnds_intercalate hcomma, List.map_map, Nat.zero_add, Nat.add_zero]
    rfl

/-- A canonical text ends the lines that its items and its name end. -/
theorem CanonicalType.lineEnds_text {c : CanonicalType} (hlead : ∀ w ∈ c.lead, Piece.IsPlainWord w)
    (hwords : ∀ w ∈ c.words, Piece.IsPlainWord w) :
    lineEnds c.text = (c.items.map fun t => lineEnds t.text).sum +
      (c.name.map fun t => lineEnds t.text).getD 0 := by
  have hspace : lineEnds " " = 0 := by decide
  have hkeyword := lineEnds_of_isPlainWord c.keyword.isPlainWord_spelling
  have hitems := lineEnds_bracketed c.items
  have hbehind := lineEnds_setOff hwords
  unfold CanonicalType.text
  simp only [lineEnds_append, hkeyword, hitems, hbehind]
  cases hc : c.lead with
  | none => cases c.name <;> simp [hspace]
  | some w =>
    have hw := lineEnds_of_isPlainWord (hlead w hc)
    cases c.name <;> simp [hspace, hw]

/-! ## Resolved declarations -/

/-- The texts that a data type takes over: its members and the name of its character set. -/
def DataType.texts (t : DataType) : List String :=
  t.charsetName :: t.members

theorem DataType.innerLineEnds_eq (t : DataType) :
    t.innerLineEnds = (t.texts.map lineEnds).sum :=
  rfl

/-- The numbers of a length clause end no line. -/
theorem LengthClause.lineEnds_eq {counts : List Nat} {length : Option String} {numbers : List Token}
    (h : LengthClause counts length numbers) : (numbers.map fun t => lineEnds t.text).sum = 0 := by
  cases h with
  | none => rfl
  | some hcount hnumbers =>
    rw [List.sum_eq_zero_iff_forall_eq_nat]
    intro n hn
    obtain ⟨t, ht, rfl⟩ := List.mem_map.1 hn
    obtain ⟨hlegible, hnumber⟩ := hnumbers t ht
    cases t with
    | number digits => exact lineEnds_number hlegible
    | _ => exact nomatch hnumber

namespace TypeDecl

open Resolve DataType

/-- The texts that a resolved declaration takes over end the lines that the items and the name of
its canonical text end. -/
theorem Declared.innerLineEnds {decl : TypeDecl} {c : CanonicalType} (h : decl.Declared c) :
    Always (fun t => t.innerLineEnds = (c.items.map fun t => lineEnds t.text).sum +
      (c.name.map fun t => lineEnds t.text).getD 0) decl.resolve := by
  intro ds
  rw [decl.always_resolved ds, innerLineEnds_eq]
  -- But for members and a character set nothing is taken over.
  cases h with
  | string _ _ hlength =>
    rw [hlength.lineEnds_eq]
    simp [resolved, texts, TypeName.dataType]
  | national _ _ hlength | nchar _ _ hlength | nationalVarying _ _ hlength =>
    rw [hlength.lineEnds_eq]
    simp [resolved, texts, withBinary_eq, addPrefix, addSuffix, TypeName.dataType]
  | measured _ _ hlength _ =>
    rw [hlength.lineEnds_eq]
    simp [resolved, texts, withModifiers_eq, TypeName.dataType]
  | simple | spatial | longVarbinary => rfl
  | collection =>
    simp [resolved, texts, withBinary_eq, addSuffix, TypeName.dataType, lineEnds_stripQuotes,
      Function.comp_def]
  | longVarchar =>
    simp [resolved, texts, withBinary_eq, withVarchar_eq, TypeName.dataType]
  | @longVarcharCharset _ _ _ charset _ t _ _ _ htext =>
    have hname : lineEnds t.text = lineEnds charset.name := by
      rw [Token.text_of_nameText? htext]
    simp [resolved, texts, withBinary_eq, withVarchar_eq, withCharset_eq, TypeName.dataType, hname,
      lineEnds_stripQuotes]

/-- The source of a resolved declaration ends the lines that its members and the name of its
character set end. -/
theorem Declared.lineEnds_source {decl : TypeDecl} {c : CanonicalType} (h : decl.Declared c) :
    Always (fun t => lineEnds t.source = t.innerLineEnds) decl.resolve := by
  intro ds
  obtain ⟨hlead, hwords⟩ := h.isPlain
  have hsource : (decl.resolve.run ds).1.source = c.text := h.source_eq ds
  rw [hsource, c.lineEnds_text hlead hwords, h.innerLineEnds ds]

end TypeDecl

end TableSchema
