import TableSchema.DataType.Resolve
import TableSchema.Proofs.DataType.Declared

/-!
# Reading canonical tokens

The tokens of a canonical text are a form of a data type. What is read off them need not be the
declaration that the text was made from: clauses that the text leaves out are missing, the type word
is in upper case, and `LONG VARBINARY` comes back as `LONG`. It resolves to the same data type.

## Main definitions

* `canonicalDecl`: the declaration that is read off the canonical tokens of a declaration.

## Main results

* `form_canonicalDecl`: the canonical tokens are a form of it;
* `resolve_canonicalDecl`: it resolves to the same data type.
-/

namespace TableSchema.Grammar

open TableSchema.Token TableSchema.TypeDecl

/-- The bare words of a run of words. -/
def bareWords (words : List String) : List Token :=
  words.map (Token.word none)

/-- The name that is written as its type word. -/
def canonicalName (k : TypeKeyword) : TypeName :=
  ⟨k, k.spelling⟩

/-- The declaration with its type word in upper case, without the clauses that its canonical text
leaves out. -/
def canonicalDecl : TypeDecl → TypeDecl
  | .string name _ length _ _ _ => .string (canonicalName name.keyword) false length false none none
  | .national lead name length binary =>
    .national lead (canonicalName name.keyword) length binary
  | .nationalVarying name length binary =>
    .nationalVarying (canonicalName name.keyword) length binary
  | .measured name dimension modifiers =>
    .measured (canonicalName name.keyword) dimension (NumericModifier.ordered modifiers)
  | .simple name => .simple (canonicalName name.keyword)
  | .collection name literals binary _ =>
    .collection (canonicalName name.keyword) literals binary none
  | .spatial name _ => .spatial (canonicalName name.keyword) none
  | .longVarchar name varchar binary charset _ =>
    .longVarchar (canonicalName name.keyword) varchar binary charset none
  -- The second word is left out of the text, so the type comes back as `LONG` alone.
  | .longVarbinary (some name) _ =>
    .longVarchar (canonicalName name.keyword) false false none none
  | .longVarbinary none varbinary => .longVarbinary none varbinary

/-- A name and its type word name the same data type. -/
theorem dataType_canonicalName {name : TypeName} (h : name.IsWord) :
    (canonicalName name.keyword).dataType = name.dataType := by
  have hword : (canonicalName name.keyword).IsWord := name.keyword.ofWord?_spelling
  rw [TypeName.dataType, TypeName.dataType, TypeKeyword.upper_eq_spelling h,
    TypeKeyword.upper_eq_spelling hword]
  rfl

/-- The type word of a canonical text names its type. -/
theorem canonicalName_names (k : TypeKeyword) :
    (canonicalName k).Names (.word none k.spelling) :=
  ⟨rfl, Text.sameAscii_iff.2 rfl⟩

/-! ## Clauses -/

/-- A word is spelled as itself. -/
theorem isWord_self (w : String) : (Token.word none w).IsWord w :=
  ⟨w, rfl, Text.sameAscii_iff.2 rfl⟩

/-- Words are spelled as themselves. -/
theorem forall₂_bareWords (words : List String) : List.Forall₂ IsWord words (bareWords words) :=
  List.forall₂_map_right_iff.2 (List.forall₂_same.2 fun w _ => isWord_self w)

theorem bareWords_append (words others : List String) :
    bareWords (words ++ others) = bareWords words ++ bareWords others :=
  List.map_append

/-- A word stands there if it is asked for. -/
theorem marked_flagged (flag : Bool) (w : String) : Marked w (bareWords (flagged flag w)) flag := by
  cases flag with
  | false => exact .absent
  | true => exact .present (isWord_self w)

/-- The words for attributes are attributes. -/
theorem modifiers_bareWords (modifiers : List NumericModifier) :
    Modifiers (bareWords (modifiers.map NumericModifier.spelling)) modifiers := by
  rw [bareWords, List.map_map]
  exact List.forall₂_map_left_iff.2 (List.forall₂_same.2 fun m _ => isWord_self m.spelling)

/-- What has the text of a number is a number. -/
theorem exists_number {t : Token} (h : t.numberText?.isSome = true) : ∃ n, t = .number n := by
  obtain ⟨n, hn⟩ := Option.isSome_iff_exists.1 h
  exact ⟨n, numberText?_eq_some_iff.1 hn⟩

/-- A number in parentheses is a length. -/
theorem oneLength_bracketed (numbers : List Token) (hcount : numbers.length ∈ [1])
    (hnumbers : ∀ t ∈ numbers, t.numberText?.isSome = true) :
    OneLength (bracketed numbers) (glue (bracketed numbers)) := by
  obtain ⟨t, rfl⟩ := List.length_eq_one_iff.1 (List.mem_singleton.1 hcount)
  obtain ⟨n, rfl⟩ := exists_number (hnumbers t (by simp))
  exact oneLength_iff.2 ⟨_, ⟨n, rfl⟩, rfl, rfl⟩

/-- Two numbers in parentheses are two lengths. -/
theorem twoLengths_bracketed (numbers : List Token) (hcount : numbers.length ∈ [2])
    (hnumbers : ∀ t ∈ numbers, t.numberText?.isSome = true) :
    TwoLengths (bracketed numbers) (glue (bracketed numbers)) := by
  obtain ⟨t, u, rfl⟩ := List.length_eq_two.1 (List.mem_singleton.1 hcount)
  obtain ⟨p, rfl⟩ := exists_number (hnumbers t (by simp))
  obtain ⟨s, rfl⟩ := exists_number (hnumbers u (by simp))
  exact twoLengths_iff.2 ⟨_, ⟨p, s, rfl⟩, rfl, rfl⟩

theorem upToTwoLengths_bracketed (numbers : List Token) (hcount : numbers.length ∈ [1, 2])
    (hnumbers : ∀ t ∈ numbers, t.numberText?.isSome = true) :
    UpToTwoLengths (bracketed numbers) (glue (bracketed numbers)) := by
  obtain hone | htwo := List.mem_cons.1 hcount
  · exact .inl (oneLength_bracketed numbers (List.mem_singleton.2 hone) hnumbers)
  · exact .inr (twoLengths_bracketed numbers htwo hnumbers)

/-- A length clause stands in parentheses with its numbers, if it is there. -/
theorem optional_bracketed {phrase : List Token → String → Prop} {counts : List Nat}
    {length : Option String} {numbers : List Token}
    (hphrase : ∀ numbers : List Token, numbers.length ∈ counts →
      (∀ t ∈ numbers, t.numberText?.isSome = true) →
        phrase (bracketed numbers) (glue (bracketed numbers)))
    (h : LengthClause counts length numbers) : Optional phrase (bracketed numbers) length := by
  cases h with
  | none => exact .absent
  | some hcount hnumbers =>
    exact .present (hphrase numbers hcount fun t ht => (hnumbers t ht).2)

/-! ## Forms -/

section Forms

variable {k : TypeKeyword} {length : Option String} {items : List Token}

/-- A character type, or `LONG` with a length, without clauses behind the length. -/
theorem form_string (hfamily : k.family = .string ∨ k = .long ∧ items ≠ [])
    (hlength : LengthClause [1] length items) :
    Form (.word none k.spelling :: bracketed items)
      (.string (canonicalName k) false length false none none) := by
  have htail : StringTail [] false none none := .plain .absent .absent .absent
  rw [← List.append_nil (bracketed items)]
  obtain hstring | ⟨hlong, hne⟩ := hfamily
  · have hform : Form (.word none k.spelling :: ([] ++ (bracketed items ++ [])))
        (.string (canonicalName k) false length false none none) :=
      .string (canonicalName_names k) hstring .absent
        (optional_bracketed oneLength_bracketed hlength) htail
    exact hform
  · cases hlength with
    | none => exact absurd rfl hne
    | some hcount hnumbers =>
      have hone := oneLength_bracketed items hcount fun t ht => (hnumbers t ht).2
      exact .longLength (canonicalName_names k) hlong hone htail

/-- A type with lengths and attributes. -/
theorem form_measured {dimension : String → Dimension} {counts : List Nat}
    (hfamily : k.family.dimension? = some (dimension, counts))
    (hlength : LengthClause counts length items) {modifiers : List NumericModifier}
    (htemporal : k.family = .temporal → modifiers = []) :
    Form (.word none k.spelling ::
        (bracketed items ++ bareWords (modifiers.map NumericModifier.spelling)))
      (.measured (canonicalName k) (length.map dimension) modifiers) := by
  have hname := canonicalName_names k
  have hmodifiers := modifiers_bareWords modifiers
  -- The families differ in their numbers of lengths, and times have no attributes.
  cases hk : k.family with
  | integer =>
    rw [hk] at hfamily
    obtain ⟨rfl, rfl⟩ := Prod.mk.inj (Option.some.inj hfamily)
    exact .integer hname hk (optional_bracketed oneLength_bracketed hlength) hmodifiers
  | real =>
    rw [hk] at hfamily
    obtain ⟨rfl, rfl⟩ := Prod.mk.inj (Option.some.inj hfamily)
    have htwo := optional_bracketed twoLengths_bracketed hlength
    exact .real hname hk .absent nofun htwo hmodifiers
  | decimal =>
    rw [hk] at hfamily
    obtain ⟨rfl, rfl⟩ := Prod.mk.inj (Option.some.inj hfamily)
    exact .decimal hname hk (optional_bracketed upToTwoLengths_bracketed hlength) hmodifiers
  | temporal =>
    rw [hk] at hfamily
    obtain ⟨rfl, rfl⟩ := Prod.mk.inj (Option.some.inj hfamily)
    obtain rfl := htemporal hk
    rw [List.map_nil, bareWords, List.map_nil, List.append_nil]
    exact .temporal hname hk (optional_bracketed oneLength_bracketed hlength)
  | _ => simp [hk, TypeFamily.dimension?] at hfamily

/-- `LONG` without a length, with a character set or without one. -/
theorem form_longVarchar (hk : k = .long) (varchar binary : Bool) {cs : List Token}
    {charset : Option Charset} (hcharset : Optional CharsetClause cs charset) :
    Form (.word none k.spelling ::
        (bareWords (flagged varchar "VARCHAR" ++ flagged binary "BINARY") ++ cs))
      (.longVarchar (canonicalName k) varchar binary charset none) := by
  rw [bareWords_append, List.append_assoc, ← List.append_nil cs]
  exact .longVarchar (canonicalName_names k) hk (marked_flagged _ _) (marked_flagged _ _) hcharset
    .absent

end Forms

/-! ## Canonical tokens -/

/-- The tokens of a canonical text without a name at its end. -/
theorem tokens_eq {c : CanonicalType} (h : c.name = none) : c.tokens =
    bareWords c.lead.toList ++ .word none c.keyword.spelling ::
      (Token.bracketed c.items ++ bareWords c.words) := by
  simp [CanonicalType.tokens, h, bareWords]

/-- Attributes in order are the same attributes. -/
theorem withModifiers_ordered (t : DataType) (modifiers : List NumericModifier) :
    t.withModifiers (NumericModifier.ordered modifiers) = t.withModifiers modifiers := by
  have hmem : ∀ m, m ∈ NumericModifier.ordered modifiers ↔ m ∈ modifiers := by
    intro m
    cases m <;> simp [NumericModifier.ordered]
  simp only [DataType.withModifiers, hmem]

variable {decl : TypeDecl} {c : CanonicalType}

/-- The canonical tokens of a declaration are a form of its canonical declaration. -/
theorem form_canonicalDecl (h : decl.Declared c) : Form c.tokens (canonicalDecl decl) := by
  -- A canonical text has its clauses in the places where the form of its alternative has them.
  cases h with
  | string hname hfamily hlength =>
    rw [tokens_eq rfl, bareWords, bareWords, List.map_nil, List.append_nil]
    exact form_string hfamily hlength
  | national hname hkeyword hlength =>
    rw [tokens_eq rfl]
    exact .national (isWord_self _) (canonicalName_names _) hkeyword
      (optional_bracketed oneLength_bracketed hlength) (marked_flagged _ _)
  | nchar hname hkeyword hlength =>
    rw [tokens_eq rfl]
    exact .nchar (isWord_self _) (canonicalName_names _) hkeyword
      (optional_bracketed oneLength_bracketed hlength) (marked_flagged _ _)
  | nationalVarying hname hkeyword hlength =>
    rw [tokens_eq rfl]
    dsimp only
    rw [bareWords_append]
    exact .nationalVaryingLast (isWord_self _) (canonicalName_names _) hkeyword
      (optional_bracketed oneLength_bracketed hlength) (marked_flagged _ _) (isWord_self _)
  | measured hname hfamily hlength htemporal =>
    rw [tokens_eq rfl]
    refine form_measured hfamily hlength fun hk => ?_
    rw [htemporal hk]
    rfl
  | simple hname hfamily => exact .simple (canonicalName_names _) hfamily
  | @collection _ items _ _ hname hfamily hne hitems =>
    have hstrings : ∀ t ∈ items, t.IsString := by
      intro t ht
      obtain ⟨text, htext⟩ := Option.isSome_iff_exists.1 (hitems t ht).2
      exact (stringText?_eq_some_iff.1 htext).1
    exact .collection (canonicalName_names _) hfamily hne hstrings (marked_flagged _ _) .absent
  | spatial hname hfamily => exact .spatial (canonicalName_names _) hfamily .absent
  | longVarchar hname hkeyword => exact form_longVarchar hkeyword _ _ .absent
  | @longVarcharCharset _ varchar binary charset _ t hname hkeyword ht htext =>
    obtain ⟨hcharsetName, htext⟩ := nameText?_eq_some_iff.1 htext
    have hcharset : CharsetClause (bareWords charset.keyword.words ++ [t]) charset := by
      have hclause := CharsetClause.mk (forall₂_bareWords charset.keyword.words) hcharsetName
      rwa [htext] at hclause
    have hform := form_longVarchar hkeyword varchar binary (.present hcharset)
    simpa [CanonicalType.tokens, bareWords, bracketed, canonicalDecl] using hform
  | longVarbinary hname hkeyword => exact form_longVarchar hkeyword false false .absent

/-- The canonical declaration resolves to the same data type. -/
theorem resolve_canonicalDecl (h : decl.Declared c) : (canonicalDecl decl).resolve = decl.resolve := by
  cases h with
  | measured hname =>
    simp only [canonicalDecl, TypeDecl.resolve, dataType_canonicalName hname, withModifiers_ordered]
  | longVarbinary hname =>
    rw [canonicalDecl, TypeDecl.resolve, dataType_canonicalName hname]
    rfl
  | string hname | national hname | nchar hname | nationalVarying hname | simple hname
  | collection hname | spatial hname | longVarchar hname | longVarcharCharset hname =>
    simp only [canonicalDecl, TypeDecl.resolve, dataType_canonicalName hname]

end TableSchema.Grammar
