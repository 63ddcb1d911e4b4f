import TableSchema.Proofs.DataType.Rereading
import TableSchema.Proofs.DataType.Resolved
import TableSchema.Script.Grammar

/-!
# Data types and their canonical texts

A data type that was read from a text has a canonical text, and reading that gives the same data
type again and notes the same. The declaration that is read the second time may be another one.

The canonical text of a name between backticks that holds a backtick has more backticks than the
name that was read, so `LONG` with a character set of such a name is left out.

## Main results

* `TypeDecl.Declared.source_eq`: the source of a resolved declaration is its canonical text;
* `TypeDecl.Declared.isLegible`: the parts of a canonical text are read where they stand;
* `TypeDecl.parse_source`: reading the source of a data type gives the data type.
-/

namespace TableSchema

/-! ## The source of a data type -/

/-- The text of a length clause is that of its numbers in parentheses. -/
theorem LengthClause.getD_eq {counts : List Nat} {length : Option String} {numbers : List Token}
    (h : LengthClause counts length numbers) :
    length.getD "" = Token.glue (Token.bracketed numbers) := by
  cases h with
  | none => rfl
  | some hcount hnumbers => rfl

/-- The length clauses of a family differ in how their text is read only. -/
theorem TypeFamily.text_of_dimension? {family : TypeFamily} {dimension : String → Dimension}
    {counts : List Nat} (h : family.dimension? = some (dimension, counts)) (text : String) :
    (dimension text).text = text := by
  cases family with
  | integer | temporal | real | decimal =>
    obtain ⟨rfl, rfl⟩ := Prod.mk.inj (Option.some.inj h)
    rfl
  | _ => exact nomatch h

/-- The source of a type that is only a word is the word. -/
theorem TypeName.IsWord.source_eq {name : TypeName} (h : name.IsWord) :
    name.dataType.source = name.keyword.spelling :=
  TypeKeyword.upper_eq_spelling h

/-- The numbers of a length clause are written behind the type word. -/
theorem TypeName.IsWord.measured_source {name : TypeName} (h : name.IsWord)
    {counts : List Nat} {length : Option String} {numbers : List Token}
    (hlength : LengthClause counts length numbers) {dimension : String → Dimension}
    (hdimension : ∀ text, (dimension text).text = text) :
    (name.dataType.measured (length.map dimension)).source =
      name.keyword.spelling ++ Token.glue (Token.bracketed numbers) := by
  have htext : (length.map dimension).map Dimension.text = length := by
    cases length with
    | none => rfl
    | some text => exact congrArg some (hdimension text)
  rw [DataType.measured_source, htext, h.source_eq, hlength.getD_eq]

/-- The source of a resolved declaration is its canonical text. -/
theorem TypeDecl.Declared.source_eq {decl : TypeDecl} {c : CanonicalType} (h : decl.Declared c) :
    Resolve.Always (·.source = c.text) decl.resolve := by
  intro ds
  have hone : ∀ text, (Dimension.one text).text = text := fun _ => rfl
  rw [decl.always_resolved ds]
  -- Both texts are put together from the same clauses; only the length is computed in between.
  cases h with
  | string hname hfamily hlength =>
    simp [CanonicalType.text, resolved, hname.measured_source hlength hone]
  | national hname hkeyword hlength | nchar hname hkeyword hlength =>
    simp [CanonicalType.text, resolved, DataType.withBinary_eq, DataType.addPrefix,
      hname.measured_source hlength hone, String.append_assoc]
  | nationalVarying hname hkeyword hlength =>
    simp [CanonicalType.text, resolved, DataType.withBinary_eq, DataType.addPrefix,
      DataType.addSuffix, hname.measured_source hlength hone, String.append_assoc]
  | measured hname hfamily hlength htemporal =>
    have hdimension := TypeFamily.text_of_dimension? hfamily
    simp [CanonicalType.text, resolved, DataType.withModifiers_eq,
      hname.measured_source hlength hdimension, String.append_assoc]
  | simple hname hfamily | spatial hname hfamily =>
    simp [CanonicalType.text, resolved, hname.source_eq]
  | collection hname hfamily hne hliterals =>
    simp [CanonicalType.text, resolved, DataType.withBinary_eq, DataType.addSuffix, hname.source_eq,
      Token.glue_bracketed hne, String.append_assoc]
  | longVarchar hname hkeyword =>
    simp [CanonicalType.text, resolved, DataType.withBinary_eq, DataType.withVarchar_eq,
      hname.source_eq, String.append_assoc]
  | @longVarcharCharset _ _ _ charset _ t hname hkeyword ht htext =>
    simp [CanonicalType.text, resolved, DataType.withBinary_eq, DataType.withVarchar_eq,
      DataType.withCharset_eq, hname.source_eq, Token.text_of_nameText? htext, String.append_assoc]
  | longVarbinary hname hkeyword =>
    simp [CanonicalType.text, resolved, hname.source_eq]

/-! ## The parts of a canonical text -/

/-- The name of the character set stands between backticks and holds one. -/
def Charset.HasInnerBacktick (c : Charset) : Prop :=
  ∃ value, c.name = Token.wordText (some '\x60') value ∧ '\x60' ∈ value.toList

/-- The type is `LONG` with a character set of which the name stands between backticks and holds
one. -/
def TypeDecl.HasInnerBacktick : TypeDecl → Prop
  | longVarchar _ _ _ (some charset) _ => charset.HasInnerBacktick
  | _ => False

/-- The numbers of a length clause are items. -/
theorem LengthClause.isItem {counts : List Nat} {length : Option String} {numbers : List Token}
    (h : LengthClause counts length numbers) : ∀ t ∈ numbers, t.IsItem := by
  cases h with
  | none => exact nofun
  | some hcount hnumbers =>
    intro t ht
    obtain ⟨hlegible, hnumber⟩ := hnumbers t ht
    exact Token.isItem_of_numberText? hlegible hnumber

/-- A word that is asked for is plain if it is plain. -/
theorem isPlainWord_flagged {flag : Bool} {w : String} (h : Piece.IsPlainWord w) :
    ∀ v ∈ flagged flag w, Piece.IsPlainWord v := by
  cases flag with
  | false => exact nofun
  | true => exact List.forall_mem_singleton.2 h

theorem isPlainWord_binary {binary : Bool} :
    ∀ w ∈ flagged binary "BINARY", Piece.IsPlainWord w :=
  isPlainWord_flagged (by decide +kernel)

theorem isPlainWord_varchar {varchar : Bool} :
    ∀ w ∈ flagged varchar "VARCHAR", Piece.IsPlainWord w :=
  isPlainWord_flagged (by decide +kernel)

theorem CharsetKeyword.isPlainWord_words (keyword : CharsetKeyword) :
    ∀ w ∈ keyword.words, Piece.IsPlainWord w := by
  cases keyword <;> decide +kernel

theorem NumericModifier.isPlainWord_spelling (m : NumericModifier) :
    Piece.IsPlainWord m.spelling := by
  cases m <;> decide +kernel

/-- The words of a canonical text are plain words. -/
theorem TypeDecl.Declared.isPlain {decl : TypeDecl} {c : CanonicalType} (h : decl.Declared c) :
    (∀ w ∈ c.lead, Piece.IsPlainWord w) ∧ ∀ w ∈ c.words, Piece.IsPlainWord w := by
  have hnational : ∀ w ∈ some "NATIONAL", Piece.IsPlainWord w := by decide +kernel
  have hnchar : ∀ w ∈ some "NCHAR", Piece.IsPlainWord w := by decide +kernel
  cases h with
  | string => exact ⟨nofun, nofun⟩
  | national => exact ⟨hnational, isPlainWord_binary⟩
  | nchar => exact ⟨hnchar, isPlainWord_binary⟩
  | nationalVarying =>
    have hvarying : ∀ w ∈ ["VARYING"], Piece.IsPlainWord w := by decide +kernel
    exact ⟨hnational, List.forall_mem_append.2 ⟨isPlainWord_binary, hvarying⟩⟩
  | measured => exact ⟨nofun, List.forall_mem_map.2 fun m _ => m.isPlainWord_spelling⟩
  | simple => exact ⟨nofun, nofun⟩
  | collection => exact ⟨nofun, isPlainWord_binary⟩
  | spatial => exact ⟨nofun, nofun⟩
  | longVarchar =>
    exact ⟨nofun, List.forall_mem_append.2 ⟨isPlainWord_varchar, isPlainWord_binary⟩⟩
  | @longVarcharCharset _ _ _ charset =>
    exact ⟨nofun, List.forall_mem_append.2 ⟨isPlainWord_varchar,
      List.forall_mem_append.2 ⟨isPlainWord_binary, charset.keyword.isPlainWord_words⟩⟩⟩
  | longVarbinary => exact ⟨nofun, nofun⟩

/-- The parts of a canonical text are read where they stand. -/
theorem TypeDecl.Declared.isLegible {decl : TypeDecl} {c : CanonicalType} (h : decl.Declared c)
    (hname : ¬ decl.HasInnerBacktick) : c.IsLegible := by
  obtain ⟨hlead, hwords⟩ := h.isPlain
  cases h with
  | string _ _ hlength | national _ _ hlength | nchar _ _ hlength | nationalVarying _ _ hlength
    | measured _ _ hlength _ => exact ⟨hlead, hlength.isItem, hwords, nofun⟩
  | simple | spatial | longVarchar | longVarbinary => exact ⟨hlead, nofun, hwords, nofun⟩
  | collection _ _ _ hliterals =>
    refine ⟨hlead, fun t ht => ?_, hwords, nofun⟩
    obtain ⟨hlegible, hstring⟩ := hliterals t ht
    exact Token.isItem_of_stringText? hlegible hstring
  | @longVarcharCharset _ _ _ charset _ t _ _ ht htext =>
    refine ⟨hlead, nofun, hwords, ?_⟩
    intro u hu
    obtain rfl : t = u := Option.some.inj hu
    have hsome : t.nameText?.isSome = true := by rw [htext]; rfl
    refine ⟨?_, Piece.readsBefore_name ht hsome fun value heq hmem => hname ⟨value, ?_, hmem⟩⟩
    · rintro rfl
      exact nomatch htext
    · -- The text of the token is the name that was declared.
      rw [← Token.text_of_nameText? htext, heq]
      rfl

/-! ## The round trip -/

namespace TypeDecl

variable {decl : TypeDecl} {text : String}

/-- A data type is read from a text if the grammar takes the tokens of the text. -/
theorem parse_of_tokens {ls : List Lexeme} (htext : Lexeme.ofString text = .ok ls)
    (h : Grammar.dataType (Lexeme.ofTokens (Lexeme.tokens ls)) = .ok (decl, [])) :
    TypeDecl.parse text = .ok decl :=
  Parser.readString_eq_ok.2 ⟨ls, htext, Grammar.dataType_of_tokens h⟩

/-- A data type is read from a text exactly if the tokens of the text are a form of it. -/
theorem parse_eq_ok_iff_form : TypeDecl.parse text = .ok decl ↔
    ∃ ls, Lexeme.ofString text = .ok ls ∧ Form (Lexeme.tokens ls) decl := by
  unfold TypeDecl.parse
  simp only [Parser.readString_eq_ok, Grammar.dataType_eq_ok_iff_form]

/-- What is read from a text has a canonical text. -/
theorem exists_declared (h : TypeDecl.parse text = .ok decl) : ∃ c, decl.Declared c := by
  obtain ⟨ls, hls, hform⟩ := parse_eq_ok_iff_form.1 h
  exact hform.declared (List.forall_mem_map.2 (Token.legible_of_ofString hls))

/-- The canonical text of a declaration is read as one that resolves to the same. -/
theorem Declared.parse_text {c : CanonicalType} (h : decl.Declared c)
    (hname : ¬ decl.HasInnerBacktick) :
    ∃ again, TypeDecl.parse c.text = .ok again ∧ again.resolve = decl.resolve := by
  obtain ⟨ls, hls, htokens⟩ := (h.isLegible hname).lexemes
  have hform := Grammar.form_canonicalDecl h
  rw [← htokens] at hform
  exact ⟨_, parse_eq_ok_iff_form.2 ⟨ls, hls, hform⟩, Grammar.resolve_canonicalDecl h⟩

/-- Reading the source of a data type that was read from a text gives a declaration that resolves
to the same data type and notes the same, whatever was noted before. -/
theorem parse_source (h : TypeDecl.parse text = .ok decl) (hname : ¬ decl.HasInnerBacktick) :
    ∃ again, again.resolve = decl.resolve ∧
      ∀ ds, TypeDecl.parse (decl.resolve.run ds).1.source = .ok again := by
  obtain ⟨c, hc⟩ := exists_declared h
  obtain ⟨again, hparse, hresolve⟩ := hc.parse_text hname
  refine ⟨again, hresolve, fun ds => ?_⟩
  rw [hc.source_eq ds]
  exact hparse

/-- `long varbinary` is read and comes back as another declaration of the same data type. -/
theorem parse_source_longVarbinary :
    TypeDecl.parse "long varbinary" =
        .ok (.longVarbinary (some ⟨.long, "long"⟩) (some ⟨.varbinary, "varbinary"⟩)) ∧
      ∃ again, again.resolve =
          (longVarbinary (some ⟨.long, "long"⟩) (some ⟨.varbinary, "varbinary"⟩)).resolve ∧
        ∀ ds, TypeDecl.parse ((longVarbinary (some ⟨.long, "long"⟩)
          (some ⟨.varbinary, "varbinary"⟩)).resolve.run ds).1.source = .ok again := by
  -- The text is a run of two words and the white space between them.
  have hlast : Token.ReadsBack [.word none "varbinary"] :=
    ⟨Piece.readsBefore_plainWord (by decide) nofun, trivial⟩
  have hblank := Token.Follows.cons .blank hlast
  have hwords : Token.ReadsBack [.word none "long", .blank, .word none "varbinary"] :=
    ⟨Piece.readsBefore_plainWord (by decide) hblank.parted, hblank.readsBack⟩
  have htext : "long varbinary".toList =
      Token.chars [.word none "long", .blank, .word none "varbinary"] := rfl
  obtain ⟨ls, hls, htokens⟩ := hwords.lexemes htext
  have hparse : TypeDecl.parse "long varbinary" =
      .ok (.longVarbinary (some ⟨.long, "long"⟩) (some ⟨.varbinary, "varbinary"⟩)) := by
    refine parse_of_tokens hls ?_
    rw [htokens]
    rfl
  exact ⟨hparse, parse_source hparse id⟩

end TypeDecl

end TableSchema
