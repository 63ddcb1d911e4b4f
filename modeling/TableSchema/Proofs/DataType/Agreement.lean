import TableSchema.DataType.Grammar
import TableSchema.Proofs.Grammar.Agreement

/-!
# Data types of texts that are alike

Two texts that are alike declare data types of the same form: the same rule reads both, the same
optional clauses are there, and only texts differ. Words and the name of a character set are seen as
names; lengths and literals are seen as contents.

## Main definitions

* `TypeDecl.mapTexts`: a declared type with its texts replaced.

## Main results

* `dataType_agree`: the grammar of data types agrees on texts that are alike, up to the two views of
  a text.
-/

namespace TableSchema

/-- The name with its spelling replaced. -/
def TypeName.mapText (name : String → String) (n : TypeName) : TypeName :=
  { n with text := name n.text }

/-- The length clause with its text replaced. -/
def Dimension.mapText (content : String → String) : Dimension → Dimension
  | one text => .one (content text)
  | two text => .two (content text)
  | upToTwo text => .upToTwo (content text)

/-- The character set with its name replaced. -/
def Charset.mapName (name : String → String) (c : Charset) : Charset :=
  { c with name := name c.name }

/-- The declaration with its names replaced in one way, and its lengths and literals in another. -/
def TypeDecl.mapTexts (name content : String → String) : TypeDecl → TypeDecl
  | string n varying length binary charset collation =>
    .string (n.mapText name) varying (length.map content) binary (charset.map (.mapName name))
      (collation.map name)
  | national lead n length binary => .national lead (n.mapText name) (length.map content) binary
  | nationalVarying n length binary =>
    .nationalVarying (n.mapText name) (length.map content) binary
  | measured n dimension modifiers =>
    .measured (n.mapText name) (dimension.map (.mapText content)) modifiers
  | simple n => .simple (n.mapText name)
  | collection n literals binary charset =>
    .collection (n.mapText name) (literals.map content) binary (charset.map (.mapName name))
  | spatial n srid => .spatial (n.mapText name) (srid.map content)
  | longVarchar n varchar binary charset collation =>
    .longVarchar (n.mapText name) varchar binary (charset.map (.mapName name))
      (collation.map name)
  | longVarbinary long varbinary =>
    .longVarbinary (long.map (.mapText name)) (varbinary.map (.mapText name))

/-- Names that look the same name the same type word. -/
theorem TypeName.keyword_eq {name : String → String} {n n' : TypeName}
    (h : n.mapText name = n'.mapText name) : n.keyword = n'.keyword := by
  rw [mapText, mapText, TypeName.mk.injEq] at h
  exact h.1

/-- The type word that a word is does not depend on its case. -/
theorem TypeKeyword.ofWord?_lower (word : String) :
    TypeKeyword.ofWord? (Text.lower word) = TypeKeyword.ofWord? word := by
  simp only [TypeKeyword.ofWord?, Text.sameAscii_lower_right]

namespace Grammar

open TableSchema.Parser TableSchema.Likeness

variable {k : Likeness}

/-- The type name that a token is has its keyword from the lower case of a bare word, and its text
from the token. -/
theorem ofToken?_eq_map (t : Token) : TypeName.ofToken? t =
    ((t.bareWord?.map Text.lower).bind TypeKeyword.ofWord?).map (⟨·, t.text⟩) := by
  cases t with
  | word quote value =>
    cases quote with
    | none =>
      cases hk : TypeKeyword.ofWord? value with
      | none => simp [TypeName.ofToken?, Token.bareWord?, TypeKeyword.ofWord?_lower, hk]
      | some keyword =>
        simp [TypeName.ofToken?, Token.bareWord?, TypeKeyword.ofWord?_lower, hk, Token.text,
          Token.wordText]
    | some quote => rfl
  | _ => rfl

/-- Tokens that are alike name the same type. -/
theorem shows_ofToken? : k.Shows (TypeName.mapText k.name) TypeName.ofToken? := by
  intro l l' hl
  rw [ofToken?_eq_map, ofToken?_eq_map, k.bareWord_eq hl, Option.map_map, Option.map_map]
  simp only [Function.comp_def, TypeName.mapText, k.name_text hl]

/-- The same type word is read, and its spelling is seen as a name. -/
theorem typeName_agree : k.Agree (TypeName.mapText k.name) typeName typeName :=
  .token _ shows_ofToken?

/-- The name behind `NATIONAL` is one of the same words in both texts. -/
theorem nationalName_agree : k.Agree (TypeName.mapText k.name) nationalName nationalName := by
  refine .token _ fun l l' hl => ?_
  rcases Shows.cases shows_ofToken? hl with ⟨hnone, hnone'⟩ | ⟨n, n', hn, hn', hview⟩
  · rw [hnone, hnone']
  · rw [hn, hn']
    simp only [Option.filter_some, TypeName.keyword_eq hview]
    split
    · exact congrArg some hview
    · rfl

/-! ## Clauses -/

/-- A length clause agrees if its numbers do. -/
theorem lengthClause_agree {numbers : Parser Unit} (h : k.Agree id numbers numbers)
    (hbare : TakesNoWord numbers) :
    k.Agree (Option.map k.content) (lengthClause numbers) (lengthClause numbers) := by
  refine .ifAhead (.glued_content ?_ ?_)
  · exact (Agree.expect _).bind_id fun _ => h.bind_id fun _ => .expect _
  · exact (TakesNoWord.expect_symbol _).bind fun _ => hbare.bind fun _ => .expect_symbol _

/-- A length clause takes no word, so its text is seen as a content. -/
theorem oneLength_agree : k.Agree (Option.map k.content) oneLength oneLength :=
  lengthClause_agree (.discard .number) (.discard .number)

/-- Two lengths are there in both texts or in none, with their text seen as a content. -/
theorem twoLengths_agree : k.Agree (Option.map k.content) twoLengths twoLengths := by
  refine lengthClause_agree ?_ ?_
  · refine (Agree.discard .number).bind_id fun _ => ?_
    exact (Agree.expect _).bind_id fun _ => .discard .number
  · refine (TakesNoWord.discard .number).bind fun _ => ?_
    exact (TakesNoWord.expect_symbol _).bind fun _ => .discard .number

/-- Whether a second length is there is the same in both texts. -/
theorem upToTwoLengths_agree : k.Agree (Option.map k.content) upToTwoLengths upToTwoLengths := by
  refine lengthClause_agree ?_ ?_
  · refine (Agree.discard .number).bind_id fun _ => ?_
    exact (Agree.eat _).bind_id fun _ => .ite (.discard .number) (.pure rfl)
  · refine (TakesNoWord.discard .number).bind fun _ => ?_
    refine (TakesNoWord.eat_symbol _).bind fun comma => ?_
    cases comma with
    | false => exact .pure ()
    | true => exact .discard .number

/-- The same modifiers are read in the same order. -/
theorem numericModifiers_agree : k.Agree (List.map id) numericModifiers numericModifiers := by
  refine .tokenRun fun l l' hl => ?_
  simp only [numericModifier?, accepts_eq hl]

/-- The keyword of a character set is the same in both texts. -/
theorem charsetKeyword?_agree : k.Agree (Option.map id) charsetKeyword? charsetKeyword? := by
  refine .choose? (List.forall₂_same.2 ?_)
  simp only [List.forall_mem_cons]
  exact ⟨.behind (.pure rfl), .behind (.pure rfl), .behind (.pure rfl), nofun⟩

/-- The name of a character set is seen as a name, also where it is a literal. -/
theorem charsetName_agree : k.Agree k.name charsetName charsetName :=
  .token _ fun _ _ hl => map_name Token.readsText_name hl

/-- A character set is there in both texts or in none, and only its name may differ. -/
theorem charset_agree : k.Agree (Option.map (Charset.mapName k.name)) charset charset := by
  refine charsetKeyword?_agree.bind_option (fun keyword keyword' hkeyword => ?_) (.pure rfl)
  obtain rfl : keyword = keyword' := hkeyword
  refine charsetName_agree.bind fun name name' hname => .pure ?_
  rw [Option.map_some, Option.map_some, Charset.mapName, Charset.mapName, hname]

/-- A collation is there in both texts or in none. -/
theorem collation_agree : k.Agree (Option.map k.name) collation collation :=
  .after charsetName_agree

theorem binary_agree : k.Agree id binary binary :=
  .eat _

theorem varying_agree : k.Agree id varying varying :=
  .eat _

/-! ## Rules -/

/-- `VARYING` stands at the same place in both texts, so both declare the same form. -/
theorem nationalType_agree :
    k.Agree (TypeDecl.mapTexts k.name k.content) nationalType nationalType := by
  refine (Agree.expect _).bind_id fun _ => nationalName_agree.bind fun name name' hname => ?_
  rw [← TypeName.keyword_eq hname]
  -- The clauses behind the name are the same ones whether or not `VARYING` was read before them.
  have hend : ∀ early : Bool, k.Agree (TypeDecl.mapTexts k.name k.content) (do
      let length ← oneLength
      let isBinary ← binary
      let late ← if (name.keyword != .varchar) && !early then varying else pure false
      if early || late then return TypeDecl.nationalVarying name length isBinary
      else return .national .national name length isBinary) (do
      let length ← oneLength
      let isBinary ← binary
      let late ← if (name.keyword != .varchar) && !early then varying else pure false
      if early || late then return TypeDecl.nationalVarying name' length isBinary
      else return .national .national name' length isBinary) := by
    intro early
    refine oneLength_agree.bind fun length length' hlength => ?_
    refine binary_agree.bind_id fun isBinary => ?_
    have hdecl : ∀ late : Bool, k.Agree (TypeDecl.mapTexts k.name k.content)
        (if early || late then return TypeDecl.nationalVarying name length isBinary
          else return .national .national name length isBinary)
        (if early || late then return TypeDecl.nationalVarying name' length' isBinary
          else return .national .national name' length' isBinary) := fun late =>
      .ite (.pure (by rw [TypeDecl.mapTexts, TypeDecl.mapTexts, hname, hlength]))
        (.pure (by rw [TypeDecl.mapTexts, TypeDecl.mapTexts, hname, hlength]))
    exact .ite (varying_agree.bind_id hdecl) ((Agree.pure rfl).bind_id hdecl)
  exact .ite (varying_agree.bind_id hend) ((Agree.pure rfl).bind_id hend)

/-- Behind `NCHAR` the same clauses are there in both texts. -/
theorem ncharType_agree : k.Agree (TypeDecl.mapTexts k.name k.content) ncharType ncharType := by
  refine (Agree.skip 1).bind_id fun _ => typeName_agree.bind fun name name' hname => ?_
  refine oneLength_agree.bind fun length length' hlength => binary_agree.bind_id fun _ => .pure ?_
  rw [TypeDecl.mapTexts, TypeDecl.mapTexts, hname, hlength]

/-- Character types have the same clauses in both texts. -/
theorem stringType_agree : k.Agree (TypeDecl.mapTexts k.name k.content) stringType stringType := by
  refine typeName_agree.bind fun name name' hname => varying_agree.bind_id fun isVarying => ?_
  refine oneLength_agree.bind fun length length' hlength => binary_agree.bind_id fun early => ?_
  refine charset_agree.bind fun charset charset' hcharset => ?_
  refine collation_agree.bind fun collation collation' hcollation => ?_
  have hdecl : ∀ late, k.Agree (TypeDecl.mapTexts k.name k.content)
      (return .string name isVarying length (early || late) charset collation)
      (return .string name' isVarying length' (early || late) charset' collation') := fun late =>
    .pure (by rw [TypeDecl.mapTexts, TypeDecl.mapTexts, hname, hlength, hcharset, hcollation])
  -- Whether `BINARY` may stand at the end is decided by the collation, which is in both texts.
  have hnone : collation.isNone = collation'.isNone := by
    rw [← Option.isNone_map (f := k.name), hcollation, Option.isNone_map]
  rw [hnone]
  exact .ite (binary_agree.bind_id hdecl) ((Agree.pure rfl).bind_id hdecl)

/-- The two words of `LONG VARBINARY` are read in both texts. -/
theorem longVarbinaryType_agree :
    k.Agree (TypeDecl.mapTexts k.name k.content) longVarbinaryType longVarbinaryType := by
  refine typeName_agree.bind fun long long' hlong => ?_
  refine typeName_agree.bind fun varbinary varbinary' hvarbinary => .pure ?_
  simp only [TypeDecl.mapTexts, Option.map_some, hlong, hvarbinary]

/-- `LONG` as a character type has the same clauses in both texts. -/
theorem longVarcharType_agree :
    k.Agree (TypeDecl.mapTexts k.name k.content) longVarcharType longVarcharType := by
  refine typeName_agree.bind fun name name' hname => (Agree.eat _).bind_id fun varchar => ?_
  refine binary_agree.bind_id fun isBinary => charset_agree.bind fun charset charset' hcharset => ?_
  refine collation_agree.bind fun collation collation' hcollation => .pure ?_
  rw [TypeDecl.mapTexts, TypeDecl.mapTexts, hname, hcharset, hcollation]

/-- What follows `LONG` tells the same form in both texts. -/
theorem longType_agree : k.Agree (TypeDecl.mapTexts k.name k.content) longType longType := by
  refine Agree.bind_option (.choose? (List.forall₂_same.2 ?_)) (fun _ _ h => .pure h)
    longVarcharType_agree
  simp only [List.forall_mem_cons]
  exact ⟨⟨rfl, stringType_agree⟩, ⟨rfl, longVarbinaryType_agree⟩, nofun⟩

/-- A type of a length clause and attributes looks the same. -/
theorem measured_view {name name' : TypeName} {length length' : Option String}
    {dimension : String → Dimension} (modifiers : List NumericModifier)
    (hdimension : ∀ text, (dimension text).mapText k.content = dimension (k.content text))
    (hname : name.mapText k.name = name'.mapText k.name)
    (hlength : length.map k.content = length'.map k.content) :
    (TypeDecl.measured name (length.map dimension) modifiers).mapTexts k.name k.content =
      (TypeDecl.measured name' (length'.map dimension) modifiers).mapTexts k.name k.content := by
  have hcomp : Dimension.mapText k.content ∘ dimension = dimension ∘ k.content := funext hdimension
  rw [TypeDecl.mapTexts, TypeDecl.mapTexts, hname, Option.map_map, Option.map_map, hcomp,
    ← Option.map_map, ← Option.map_map, hlength]

/-- Integer types have the same modifiers, and lengths that look the same. -/
theorem integerType_agree :
    k.Agree (TypeDecl.mapTexts k.name k.content) integerType integerType := by
  refine typeName_agree.bind fun name name' hname => ?_
  refine oneLength_agree.bind fun length length' hlength => ?_
  refine numericModifiers_agree.bind fun modifiers modifiers' hmodifiers => ?_
  obtain rfl : modifiers = modifiers' := by simpa using hmodifiers
  exact .pure (measured_view modifiers (fun _ => rfl) hname hlength)

/-- `PRECISION` is skipped in both texts or in none. -/
theorem realType_agree : k.Agree (TypeDecl.mapTexts k.name k.content) realType realType := by
  refine typeName_agree.bind fun name name' hname => ?_
  -- `PRECISION` is taken or not, and what stands behind it is the same.
  have hend : k.Agree (TypeDecl.mapTexts k.name k.content) (do
        let length ← twoLengths
        return TypeDecl.measured name (length.map .two) (← numericModifiers)) (do
        let length ← twoLengths
        return TypeDecl.measured name' (length.map .two) (← numericModifiers)) := by
    refine twoLengths_agree.bind fun length length' hlength => ?_
    refine numericModifiers_agree.bind fun modifiers modifiers' hmodifiers => ?_
    obtain rfl : modifiers = modifiers' := by simpa using hmodifiers
    exact .pure (measured_view modifiers (fun _ => rfl) hname hlength)
  rw [← TypeName.keyword_eq hname]
  exact .ite ((Agree.discard (.eat _)).bind_id fun _ => hend) hend

/-- Types with one or two lengths have lengths that look the same. -/
theorem decimalType_agree :
    k.Agree (TypeDecl.mapTexts k.name k.content) decimalType decimalType := by
  refine typeName_agree.bind fun name name' hname => ?_
  refine upToTwoLengths_agree.bind fun length length' hlength => ?_
  refine numericModifiers_agree.bind fun modifiers modifiers' hmodifiers => ?_
  obtain rfl : modifiers = modifiers' := by simpa using hmodifiers
  exact .pure (measured_view modifiers (fun _ => rfl) hname hlength)

/-- Types of time have lengths that look the same. -/
theorem temporalType_agree :
    k.Agree (TypeDecl.mapTexts k.name k.content) temporalType temporalType := by
  refine typeName_agree.bind fun name name' hname => ?_
  refine oneLength_agree.bind fun length length' hlength => ?_
  exact .pure (measured_view [] (fun _ => rfl) hname hlength)

theorem simpleType_agree : k.Agree (TypeDecl.mapTexts k.name k.content) simpleType simpleType :=
  typeName_agree.bind fun name name' hname => .pure (by
    rw [TypeDecl.mapTexts, TypeDecl.mapTexts, hname])

/-- The members are equally many, and each is seen as a content. -/
theorem collectionType_agree :
    k.Agree (TypeDecl.mapTexts k.name k.content) collectionType collectionType := by
  refine typeName_agree.bind fun name name' hname => ?_
  refine (Agree.list .stringLiteral).bind fun literals literals' hliterals => ?_
  refine binary_agree.bind_id fun isBinary => charset_agree.bind fun charset charset' hcharset =>
    .pure ?_
  rw [TypeDecl.mapTexts, TypeDecl.mapTexts, hname, hliterals, hcharset]

/-- The number behind `SRID` is seen as a content. -/
theorem spatialType_agree :
    k.Agree (TypeDecl.mapTexts k.name k.content) spatialType spatialType := by
  refine typeName_agree.bind fun name name' hname => ?_
  refine (Agree.after .number).bind fun srid srid' hsrid => .pure ?_
  rw [TypeDecl.mapTexts, TypeDecl.mapTexts, hname, hsrid]

/-- The rule of every family agrees. -/
theorem familyType_agree (family : TypeFamily) :
    k.Agree (TypeDecl.mapTexts k.name k.content) (familyType family) (familyType family) := by
  cases family with
  | string => exact stringType_agree
  | long => exact longType_agree
  | integer => exact integerType_agree
  | real => exact realType_agree
  | decimal => exact decimalType_agree
  | temporal => exact temporalType_agree
  | simple => exact simpleType_agree
  | collection => exact collectionType_agree
  | spatial => exact spatialType_agree

/-- The type word that comes next is the same in both texts. -/
theorem peekTypeKeyword?_agree : k.Agree (Option.map id) peekTypeKeyword? peekTypeKeyword? := by
  intro ls ls' hls
  refine .inl ⟨0, _, _, ?_, rfl, rfl⟩
  cases hls with
  | nil => rfl
  | cons hl hls =>
    rcases Shows.cases shows_ofToken? hl with ⟨hnone, hnone'⟩ | ⟨n, n', hn, hn', hview⟩
    · simp [hnone, hnone']
    · simp [hn, hn', TypeName.keyword_eq hview]

/-- Texts that are alike declare data types that look the same. -/
theorem dataType_agree : k.Agree (TypeDecl.mapTexts k.name k.content) dataType dataType := by
  refine Agree.bind_option (.choose? (List.forall₂_same.2 ?_)) (fun _ _ h => .pure h) ?_
  · simp only [List.forall_mem_cons]
    exact ⟨⟨rfl, nationalType_agree⟩, ⟨rfl, ncharType_agree⟩, nofun⟩
  · refine peekTypeKeyword?_agree.bind_option (fun keyword keyword' hkeyword => ?_) (.fail _)
    obtain rfl : keyword = keyword' := hkeyword
    exact familyType_agree keyword.family

end Grammar

end TableSchema
