import TableSchema.Proofs.DataType.Resolved
import TableSchema.Proofs.DataType.RoundTrip

/-!
# Consistent data types

One record stands for all forms of data types, so most of its fields say nothing about a given type.
What they say fits together: no two forms are mixed, a length that is not declared is zero, and the
source begins with the words that the marks and the name tell. This holds for every declaration,
also for one that is not written in any text.

## Main definitions

* `DataType.Consistent`: the fields of a data type fit together.

## Main results

* `TypeDecl.consistent_resolve`: every declaration gives a consistent data type, and one that was
  read from a text gives one that is named by a type word.
-/

namespace TableSchema

open Resolve

namespace DataType

/-- The word in front of the name in the source. -/
def lead (t : DataType) : String :=
  if t.isNational then "NATIONAL " else if t.isNchar then "NCHAR " else ""

/-- The marks of the words that introduce a character set. -/
def charsetMarks (t : DataType) : List Bool :=
  [t.isCharSet, t.isCharacterSet, t.isCharset]

/-- The marks of lengths, attributes of numbers, the national character set and other character
sets. -/
def marks (t : DataType) : List Bool :=
  [t.hasLength, t.hasTwoLengths, t.isSigned, t.isUnsigned, t.isZerofill, t.isNational, t.isNchar,
    t.isVarying, t.isVarchar] ++ t.charsetMarks

/-- The fields of a data type fit together. -/
structure Consistent (t : DataType) : Prop where
  /-- There is one length, or there are two. -/
  one_or_two : ¬ (t.hasLength = true ∧ t.hasTwoLengths = true)
  /-- Without one length there is no number of it. -/
  length_eq_zero : t.hasLength = false → t.length = 0
  /-- Without two lengths there are no numbers of them. -/
  precision_eq_zero : t.hasTwoLengths = false → t.precision = 0 ∧ t.scale = 0
  /-- The national character set is asked for by one word. -/
  national_or_nchar : ¬ (t.isNational = true ∧ t.isNchar = true)
  /-- Only national types vary. -/
  national_of_varying : t.isVarying = true → t.isNational = true
  /-- Another character set is introduced in one way. -/
  charset_once : t.charsetMarks.count true ≤ 1
  /-- The name of a character set is introduced. -/
  charset_introduced : t.charsetName ≠ "" → t.charsetMarks.count true = 1
  /-- A type with members has nothing else. -/
  members_alone : t.members ≠ [] → true ∉ t.marks
  /-- The source begins with the name, perhaps behind a word for the national character set. -/
  source_begins : ∃ behind, t.source = t.lead ++ t.name ++ behind

namespace Consistent

variable {t : DataType}

/-- A type without a name is consistent. -/
theorem default : ({} : DataType).Consistent where
  one_or_two := nofun
  length_eq_zero _ := rfl
  precision_eq_zero _ := ⟨rfl, rfl⟩
  national_or_nchar := nofun
  national_of_varying := nofun
  charset_once := Nat.zero_le 1
  charset_introduced h := absurd rfl h
  members_alone h := absurd rfl h
  source_begins := ⟨"", rfl⟩

/-- A type word alone is consistent. -/
theorem ofName (name : TypeName) : name.dataType.Consistent :=
  { default with source_begins := ⟨"", by simp [TypeName.dataType, lead]⟩ }

/-- Words may be added at the end. -/
theorem addSuffix (h : t.Consistent) (words : String) : (t.addSuffix words).Consistent := by
  obtain ⟨behind, hsource⟩ := h.source_begins
  have hwords : t.source ++ words = t.lead ++ t.name ++ (behind ++ words) := by
    rw [hsource, String.append_assoc]
  exact { h with source_begins := ⟨behind ++ words, hwords⟩ }

/-- A length clause may be added where there is none. -/
theorem measured (h : t.Consistent) (hone : t.hasLength = false) (htwo : t.hasTwoLengths = false)
    (hmembers : t.members = []) (dimension : Option Dimension) :
    (t.measured dimension).Consistent := by
  rcases dimension with _ | (text | text | text)
  · exact h
  · exact { h.addSuffix text with
      one_or_two := fun hboth => Bool.false_ne_true (htwo.symm.trans hboth.2)
      length_eq_zero := nofun
      members_alone := absurd hmembers }
  all_goals
    exact { h.addSuffix text with
      one_or_two := fun hboth => Bool.false_ne_true (hone.symm.trans hboth.1)
      precision_eq_zero := nofun
      members_alone := absurd hmembers }

/-- `BINARY` may be added. -/
theorem withBinary (h : t.Consistent) (binary : Bool) : (t.withBinary binary).Consistent := by
  rw [withBinary_eq]
  exact { h.addSuffix _ with }

/-- `VARCHAR` may be added where there are no members. -/
theorem withVarchar (h : t.Consistent) (hmembers : t.members = []) (varchar : Bool) :
    (t.withVarchar varchar).Consistent := by
  rw [withVarchar_eq]
  exact { h.addSuffix _ with members_alone := absurd hmembers }

/-- Attributes of a number may be added where there are no members. -/
theorem withModifiers (h : t.Consistent) (hmembers : t.members = [])
    (modifiers : List NumericModifier) : (t.withModifiers modifiers).Consistent := by
  rw [withModifiers_eq]
  exact { h.addSuffix _ with members_alone := absurd hmembers }

/-- A character set may be added where there is none. -/
theorem withCharset (h : t.Consistent) (hmembers : t.members = [])
    (hmarks : t.isCharSet = false ∧ t.isCharacterSet = false ∧ t.isCharset = false)
    (charset : Charset) : (t.withCharset charset).Consistent := by
  obtain ⟨hcharSet, hcharacterSet, hcharset⟩ := hmarks
  have honce : (t.withCharset charset).charsetMarks.count true = 1 := by
    rw [withCharset_eq]
    cases charset.keyword <;> simp [charsetMarks, hcharSet, hcharacterSet, hcharset]
  rw [withCharset_eq] at honce ⊢
  exact { (h.addSuffix _).addSuffix _ with
    charset_once := Nat.le_of_eq honce
    charset_introduced := fun _ => honce
    members_alone := absurd hmembers }

/-- The national character set may be asked for where it is not. -/
theorem national (h : t.Consistent) (hlead : t.isNational = false ∧ t.isNchar = false)
    (hmembers : t.members = []) :
    ({ t.addPrefix "NATIONAL " with isNational := true } : DataType).Consistent := by
  obtain ⟨hnational, hnchar⟩ := hlead
  obtain ⟨behind, hsource⟩ := h.source_begins
  exact { h with
    national_or_nchar := fun hboth => Bool.false_ne_true (hnchar.symm.trans hboth.2)
    national_of_varying := fun _ => rfl
    members_alone := absurd hmembers
    source_begins := ⟨behind, by
      simp [addPrefix, lead, hsource, hnational, hnchar, String.append_assoc]⟩ }

theorem nchar (h : t.Consistent) (hlead : t.isNational = false ∧ t.isNchar = false)
    (hmembers : t.members = []) :
    ({ t.addPrefix "NCHAR " with isNchar := true } : DataType).Consistent := by
  obtain ⟨hnational, hnchar⟩ := hlead
  obtain ⟨behind, hsource⟩ := h.source_begins
  exact { h with
    national_or_nchar := fun hboth => Bool.false_ne_true (hnational.symm.trans hboth.1)
    members_alone := absurd hmembers
    source_begins := ⟨behind, by
      simp [addPrefix, lead, hsource, hnational, hnchar, String.append_assoc]⟩ }

/-- A national type may vary. -/
theorem varying (h : t.Consistent) (hnational : t.isNational = true) (hmembers : t.members = []) :
    ({ t.addSuffix " VARYING" with isVarying := true } : DataType).Consistent :=
  { h.addSuffix " VARYING" with
    national_of_varying := fun _ => hnational
    members_alone := absurd hmembers }

/-- A type that has nothing else may have members. -/
theorem members (h : t.Consistent) (hmarks : true ∉ t.marks) (literals : List String) :
    ({ t with members := literals } : DataType).Consistent :=
  { h with members_alone := fun _ => hmarks }

end Consistent

end DataType

namespace TypeDecl

open DataType

/-- Every declaration has a consistent data type. -/
theorem consistent_resolved (decl : TypeDecl) : decl.resolved.Consistent := by
  have hmeasured (name : TypeName) (dimension : Option Dimension) :=
    (Consistent.ofName name).measured rfl rfl rfl dimension
  -- A length clause asks for no national character set and lists no members.
  have hlead (name : TypeName) (dimension : Option Dimension) :
      (name.dataType.measured dimension).isNational = false ∧
        (name.dataType.measured dimension).isNchar = false :=
    ⟨measured_isNational _ _, measured_isNchar _ _⟩
  have hmembers (name : TypeName) (dimension : Option Dimension) :
      (name.dataType.measured dimension).members = [] := measured_members _ _
  have hnational (name : TypeName) (dimension : Option Dimension) :=
    (hmeasured name dimension).national (hlead _ _) (hmembers _ _)
  cases decl with
  | string name varying length binary charset collation => exact hmeasured name _
  | national lead name length binary =>
    cases lead with
    | national =>
      have h := (hnational name (length.map .one)).withBinary binary
      cases binary <;> exact h
    | nchar =>
      have h := (hmeasured name (length.map .one)).withBinary binary
      cases binary <;> exact h.nchar (hlead _ _) (hmembers _ _)
  | nationalVarying name length binary =>
    have h := (hnational name (length.map .one)).withBinary binary
    cases binary <;> exact h.varying rfl (hmembers _ _)
  | measured name dimension modifiers =>
    exact (hmeasured name dimension).withModifiers (hmembers _ _) modifiers
  | simple name | spatial name srid => exact .ofName name
  | collection name literals binary charset =>
    refine .withBinary (.members ((Consistent.ofName name).addSuffix _) ?_ _) binary
    simp [marks, charsetMarks, DataType.addSuffix, TypeName.dataType]
  | longVarchar name varchar binary charset collation =>
    have h := ((Consistent.ofName name).withVarchar rfl varchar).withBinary binary
    cases charset with
    | none => exact h
    | some charset =>
      refine h.withCharset ?_ ?_ charset <;> simp [withVarchar_eq, withBinary_eq, TypeName.dataType]
  | longVarbinary long varbinary =>
    rcases long with _ | name
    · rcases varbinary with _ | name
      · exact .default
      · exact .ofName name
    · exact .ofName name

/-- What was read from a text is named by a type word. -/
theorem Declared.exists_isWord {decl : TypeDecl} {c : CanonicalType} (h : decl.Declared c) :
    ∃ name, decl.typeName? = some name ∧ name.IsWord := by
  cases h with
  | string hname | national hname | nchar hname | nationalVarying hname | measured hname
    | simple hname | collection hname | spatial hname | longVarchar hname
    | longVarcharCharset hname | longVarbinary hname => exact ⟨_, rfl, hname⟩

/-- Every declaration gives a consistent data type, whatever was noted before. If it was read from a
text, the data type has the spelling and the number of a type word. -/
theorem consistent_resolve (decl : TypeDecl) :
    Always DataType.Consistent decl.resolve ∧
      ∀ text, TypeDecl.parse text = .ok decl → ∃ k : TypeKeyword,
        Always (fun t => t.name = k.spelling ∧ t.number = (k.number : Int)) decl.resolve := by
  refine ⟨fun ds => ?_, fun text htext => ?_⟩
  · rw [decl.always_resolved ds]
    exact decl.consistent_resolved
  · obtain ⟨c, hc⟩ := exists_declared htext
    obtain ⟨name, hname, hword⟩ := hc.exists_isWord
    obtain ⟨hspelling, hnumber⟩ := resolved_named hname
    refine ⟨name.keyword, fun ds => ?_⟩
    rw [decl.always_resolved ds, ← TypeKeyword.upper_eq_spelling hword]
    exact ⟨hspelling, hnumber⟩

/-- A type with a word in front of its name and one behind. -/
theorem consistent_resolve_varying :
    TypeDecl.parse "national char varying(3)" =
        .ok (.nationalVarying ⟨.char, "char"⟩ (some "(3)") false) ∧
      ∃ k : TypeKeyword, Always (fun t => t.name = k.spelling ∧ t.number = (k.number : Int))
        (nationalVarying ⟨.char, "char"⟩ (some "(3)") false).resolve :=
  have hparse : TypeDecl.parse "national char varying(3)" =
      .ok (.nationalVarying ⟨.char, "char"⟩ (some "(3)") false) := by decide +kernel
  ⟨hparse, (consistent_resolve _).2 _ hparse⟩

end TypeDecl

end TableSchema
