import TableSchema.Proofs.DataType.Resolved
import TableSchema.Proofs.DataType.RoundTrip

/-!
# Attributes of types

`VARYING` and `BINARY` may stand in several places behind a type word. Wherever they stand, they are
declared. A character type drops them when it is resolved, so that it is the same type with and
without them; every other type keeps them.

Whether an attribute is written is told from the tokens alone: its word stands behind the first word
of the type, and not as the name of a character set or a collation.

## Main definitions

* `Attribute`: the attributes, with their words;
* `Attribute.writtenIn`: the attribute is written among the tokens of a type.

## Main results

* `TypeDecl.Form.writtenIn_eq`: an attribute is written exactly if it is declared;
* `TypeDecl.resolve_has`: a data type has the attributes that are written, unless it is a character
  type, which has none.
-/

namespace TableSchema

open Token Resolve

/-- A word that says more about a type. -/
inductive Attribute
  | varying
  | binary
deriving DecidableEq, Repr

/-- The word for the attribute. -/
def Attribute.spelling : Attribute → String
  | varying => "VARYING"
  | binary => "BINARY"

/-- The data type has the attribute. -/
def DataType.has (t : DataType) : Attribute → Bool
  | .varying => t.isVarying
  | .binary => t.isBinary

namespace TypeDecl

/-- The declaration is one of a character type without a word for the national character set, or of
`LONG` with a length. -/
def isString : TypeDecl → Bool
  | string .. => true
  | _ => false

/-- The attribute is declared. -/
def declares : TypeDecl → Attribute → Bool
  | string _ varying _ _ _ _, .varying => varying
  | nationalVarying .., .varying => true
  | national .., .varying | measured .., .varying | simple _, .varying | collection .., .varying
  | spatial .., .varying | longVarchar .., .varying | longVarbinary .., .varying => false
  | string _ _ _ binary _ _, .binary | national _ _ _ binary, .binary
  | nationalVarying _ _ binary, .binary | collection _ _ binary _, .binary
  | longVarchar _ _ binary _ _, .binary => binary
  | measured .., .binary | simple _, .binary | spatial .., .binary | longVarbinary .., .binary =>
    false

end TypeDecl

/-! ## Written attributes -/

/-- The name of a character set or a collation stands behind the token. -/
def Token.introducesName (t : Token) : Bool :=
  [Terminal.word "SET", .word "CHARSET", .word "COLLATE"].any (·.accepts t)

/-- Whether a word introduces a name does not depend on its case. -/
theorem Token.IsWord.introducesName_eq {t : Token} {spelling : String} (h : t.IsWord spelling) :
    t.introducesName = (Token.word none spelling).introducesName := by
  simp only [introducesName, List.any_cons, h.accepts_eq]

namespace Attribute

/-- The word for the attribute stands among the tokens, and not as a name. The flag tells that the
first of them is a name. -/
def standsIn (a : Attribute) : Bool → List Token → Bool
  | _, [] => false
  | true, _ :: ts => a.standsIn false ts
  | false, t :: ts => (Terminal.word a.spelling).accepts t || a.standsIn t.introducesName ts

/-- The attribute is written among the tokens of a type, of which the first is no attribute. -/
def writtenIn (a : Attribute) (ts : List Token) : Bool :=
  a.standsIn false ts.tail

/-- The phrase has the word for the attribute exactly if the flag is set, and no name stands behind
it. -/
def AddedBy (a : Attribute) (ts : List Token) (flag : Bool) : Prop :=
  ∀ us, a.standsIn false (ts ++ us) = (flag || a.standsIn false us)

namespace AddedBy

variable {a : Attribute} {ts us : List Token} {t : Token} {flag other : Bool} {spelling : String}

theorem nil : a.AddedBy [] false :=
  fun _ => rfl

/-- Phrases one after the other. -/
theorem append (hts : a.AddedBy ts flag) (hus : a.AddedBy us other) :
    a.AddedBy (ts ++ us) (flag || other) := by
  intro vs
  rw [List.append_assoc, hts, hus, Bool.or_assoc]

/-- A token with no name behind it. -/
theorem token (h : t.introducesName = false) :
    a.AddedBy [t] ((Terminal.word a.spelling).accepts t) := by
  intro us
  rw [List.singleton_append, standsIn, h]

/-- A token with a name behind it, which does not count. -/
theorem named (h : t.introducesName = true) (name : Token) :
    a.AddedBy [t, name] ((Terminal.word a.spelling).accepts t) := by
  intro us
  rw [List.cons_append, standsIn, h]
  rfl

/-- Tokens that are no words. -/
theorem of_bareWord? (h : ∀ t ∈ ts, t.bareWord? = none) : a.AddedBy ts false := by
  induction ts with
  | nil => exact nil
  | cons t ts ih =>
    obtain ⟨ht, hts⟩ := List.forall_mem_cons.1 h
    have hword (word : String) : (Terminal.word word).accepts t = false := by
      rw [Terminal.accepts, ht]
      rfl
    have hname : t.introducesName = false := by simp [introducesName, hword]
    have htoken := token (a := a) hname
    rw [hword] at htoken
    exact htoken.append (ih hts)

/-- A word of the language with no name behind it. -/
theorem word (h : t.IsWord spelling)
    (hname : (Token.word none spelling).introducesName = false) :
    a.AddedBy [t] ((Terminal.word a.spelling).accepts (.word none spelling)) := by
  rw [← h.introducesName_eq] at hname
  rw [← h.accepts_eq]
  exact token hname

/-- A word of the language and the name that it introduces. -/
theorem introducer (h : t.IsWord spelling)
    (hname : (Token.word none spelling).introducesName = true) (name : Token) :
    a.AddedBy [t, name] ((Terminal.word a.spelling).accepts (.word none spelling)) := by
  rw [← h.introducesName_eq] at hname
  rw [← h.accepts_eq]
  exact named hname name

/-- A word that may be left out. -/
theorem marked (h : Marked spelling ts flag)
    (hname : (Token.word none spelling).introducesName = false) :
    a.AddedBy ts (flag && (Terminal.word a.spelling).accepts (.word none spelling)) := by
  cases h with
  | absent => exact nil
  | present hword => exact word hword hname

/-- A phrase that may be left out and has no word for the attribute. -/
theorem optional {α : Type} {phrase : List Token → α → Prop} {value : Option α}
    (h : Optional phrase ts value) (hphrase : ∀ ts value, phrase ts value → a.AddedBy ts false) :
    a.AddedBy ts false := by
  cases h with
  | absent => exact nil
  | present h => exact hphrase _ _ h

/-- `BINARY` adds the attribute of that name, where it is written. -/
theorem binary (h : Marked "BINARY" ts flag) : a.AddedBy ts (flag && a = .binary) := by
  have hadded := marked (a := a) h (by decide)
  cases a <;> exact hadded

/-- `VARYING` adds the attribute of that name, where it is written. -/
theorem varying (h : Marked "VARYING" ts flag) : a.AddedBy ts (flag && a = .varying) := by
  have hadded := marked (a := a) h (by decide)
  cases a <;> exact hadded

/-- Another word that may be left out. -/
theorem otherWord (h : Marked spelling ts flag)
    (hname : (Token.word none spelling).introducesName = false)
    (hother : (Terminal.word a.spelling).accepts (.word none spelling) = false) :
    a.AddedBy ts false := by
  have hadded := marked (a := a) h hname
  rwa [hother, Bool.and_false] at hadded

theorem oneLength {text : String} (h : TypeDecl.OneLength ts text) : a.AddedBy ts false := by
  cases h
  exact of_bareWord? (by simp [bareWord?])

theorem twoLengths {text : String} (h : TypeDecl.TwoLengths ts text) : a.AddedBy ts false := by
  cases h
  exact of_bareWord? (by simp [bareWord?])

theorem upToTwoLengths {text : String} (h : TypeDecl.UpToTwoLengths ts text) :
    a.AddedBy ts false :=
  h.elim oneLength twoLengths

/-- Literals in parentheses have no attribute. -/
theorem members {items : List Token} (h : ∀ t ∈ items, t.IsString) :
    a.AddedBy (bracketed items) false := by
  refine of_bareWord? fun t ht => ?_
  obtain ht | ⟨s, rfl⟩ := mem_or_symbol_of_mem_bracketed ht
  · obtain ⟨kind, -, body, rfl⟩ := h t ht
    rfl
  · rfl

theorem srid {text : String} (h : TypeDecl.SridClause ts text) : a.AddedBy ts false := by
  cases h with
  | mk hword =>
    have hadded := (word (a := a) hword (by decide)).append (token (t := .number text) rfl)
    cases a <;> exact hadded

/-- A character set clause has no attribute, whatever the name is. -/
theorem charset {c : Charset} (h : TypeDecl.CharsetClause ts c) : a.AddedBy ts false := by
  cases h with
  | @mk keyword words name hwords hname =>
    cases keyword with
    | charSet | characterSet =>
      obtain ⟨t, _, ht, hset, rfl⟩ := List.forall₂_cons_left_iff.1 hwords
      obtain ⟨u, _, hu, ⟨⟩, rfl⟩ := List.forall₂_cons_left_iff.1 hset
      have hadded := (word (a := a) ht (by decide)).append (introducer hu (by decide) name)
      cases a <;> exact hadded
    | charset =>
      obtain ⟨t, _, ht, ⟨⟩, rfl⟩ := List.forall₂_cons_left_iff.1 hwords
      have hadded := introducer (a := a) ht (by decide) name
      cases a <;> exact hadded

/-- The name of a collation is no attribute, whatever its spelling. -/
theorem collation {name : String} (h : TypeDecl.CollationClause ts name) :
    a.AddedBy ts false := by
  cases h with
  | @mk t name hword hname =>
    have hadded := introducer (a := a) hword (by decide) name
    cases a <;> exact hadded

theorem modifiers {ms : List NumericModifier} (h : TypeDecl.Modifiers ts ms) :
    a.AddedBy ts false := by
  induction h with
  | nil => exact nil
  | @cons t modifier ts ms hword _ ih =>
    have hadded := (word (a := a) hword (by cases modifier <;> decide)).append ih
    cases a <;> cases modifier <;> exact hadded

/-- `BINARY` may stand in two places behind the length of a character type. -/
theorem stringTail {declared : Bool} {c : Option Charset} {name : Option String}
    (h : TypeDecl.StringTail ts declared c name) : a.AddedBy ts (declared && a = .binary) := by
  cases h with
  | collated hbinary hcharset hcollation =>
    have hadded := (binary (a := a) hbinary).append
      ((optional hcharset fun _ _ => charset).append (collation hcollation))
    simpa using hadded
  | plain hearly hcharset hlate =>
    have hadded := (binary (a := a) hearly).append
      ((optional hcharset fun _ _ => charset).append (binary hlate))
    simpa [Bool.and_or_distrib_right] using hadded

/-- A type word that stands behind the first word of a type is no attribute. -/
theorem typeName {n : TypeName} (h : n.Names t)
    (hkeyword : n.keyword ∈ [TypeKeyword.char, .character, .varchar, .varbinary]) :
    a.AddedBy [t] false := by
  have hname : ∀ k ∈ [TypeKeyword.char, .character, .varchar, .varbinary],
      (Token.word none k.spelling).introducesName = false := by decide
  have hother : ∀ k ∈ [TypeKeyword.char, .character, .varchar, .varbinary],
      (Terminal.word a.spelling).accepts (.word none k.spelling) = false := by
    cases a <;> decide
  have hadded := word (a := a) h.isWord (hname _ hkeyword)
  rwa [hother _ hkeyword] at hadded

/-- Behind the first word an attribute is written exactly if it is added. -/
theorem writtenIn_eq (h : a.AddedBy ts flag) (t : Token) : a.writtenIn (t :: ts) = flag := by
  have hend := h []
  rwa [List.append_nil, standsIn, Bool.or_false] at hend

end AddedBy

end Attribute

open Attribute.AddedBy in
/-- An attribute is written exactly if it is declared. -/
theorem TypeDecl.Form.writtenIn_eq {ts : List Token} {decl : TypeDecl} (h : Form ts decl)
    (a : Attribute) : a.writtenIn ts = decl.declares a := by
  have oneLength? {ls : List Token} {length : Option String} (h : Optional OneLength ls length) :
      a.AddedBy ls false := optional h fun _ _ => oneLength
  have charset? {cs : List Token} {c : Option Charset} (h : Optional CharsetClause cs c) :
      a.AddedBy cs false := optional h fun _ _ => charset
  -- Behind its first word each form is a row of phrases, and each phrase adds what it declares.
  cases h with
  | national _ hname hkeyword hlength hbinary =>
    have hword := typeName (a := a) hname (List.mem_append_left [TypeKeyword.varbinary] hkeyword)
    have hadded := hword.append ((oneLength? hlength).append (binary hbinary))
    refine (hadded.writtenIn_eq _).trans ?_
    cases a <;> simp [declares]
  | nationalVarying _ hname hkeyword hvarying hlength hbinary =>
    have hword :=
      typeName (a := a) hname (List.mem_append_left [TypeKeyword.varchar, .varbinary] hkeyword)
    have hadded := hword.append
      ((varying (.present hvarying)).append ((oneLength? hlength).append (binary hbinary)))
    refine (hadded.writtenIn_eq _).trans ?_
    cases a <;> simp [declares]
  | nationalVaryingLast _ hname hkeyword hlength hbinary hvarying =>
    have hword :=
      typeName (a := a) hname (List.mem_append_left [TypeKeyword.varchar, .varbinary] hkeyword)
    have hadded := hword.append
      ((oneLength? hlength).append ((binary hbinary).append (varying (.present hvarying))))
    refine (hadded.writtenIn_eq _).trans ?_
    cases a <;> simp [declares]
  | nchar _ hname hkeyword hlength hbinary =>
    have hadded := (typeName (a := a) hname (by simp [hkeyword])).append
      ((oneLength? hlength).append (binary hbinary))
    refine (hadded.writtenIn_eq _).trans ?_
    cases a <;> simp [declares]
  | string _ _ hvarying hlength htail =>
    have hadded := (varying (a := a) hvarying).append
      ((oneLength? hlength).append (stringTail htail))
    refine (hadded.writtenIn_eq _).trans ?_
    cases a <;> simp [declares]
  | longLength _ _ hlength htail =>
    have hadded := (oneLength (a := a) hlength).append (stringTail htail)
    refine (hadded.writtenIn_eq _).trans ?_
    cases a <;> simp [declares]
  | longVarbinary _ _ hother hvarbinary =>
    have hadded := typeName (a := a) hother (by simp [hvarbinary])
    refine (hadded.writtenIn_eq _).trans ?_
    cases a <;> rfl
  | longVarchar _ _ hvarchar hbinary hcharset hcollation =>
    have hword := otherWord (a := a) hvarchar (by decide) (by cases a <;> decide)
    have hadded := hword.append ((binary hbinary).append
      ((charset? hcharset).append (optional hcollation fun _ _ => collation)))
    refine (hadded.writtenIn_eq _).trans ?_
    cases a <;> simp [declares]
  | integer _ _ hlength hmodifiers =>
    have hadded := (oneLength? hlength).append (modifiers hmodifiers)
    refine (hadded.writtenIn_eq _).trans ?_
    cases a <;> rfl
  | real _ _ hprecision _ hlength hmodifiers =>
    have hadded := (otherWord (a := a) hprecision (by decide) (by cases a <;> decide)).append
      ((optional hlength fun _ _ => twoLengths).append (modifiers hmodifiers))
    refine (hadded.writtenIn_eq _).trans ?_
    cases a <;> rfl
  | decimal _ _ hlength hmodifiers =>
    have hadded := (optional (a := a) hlength fun _ _ => upToTwoLengths).append
      (modifiers hmodifiers)
    refine (hadded.writtenIn_eq _).trans ?_
    cases a <;> rfl
  | temporal _ _ hlength =>
    refine ((oneLength? hlength).writtenIn_eq _).trans ?_
    cases a <;> rfl
  | simple =>
    refine (nil.writtenIn_eq _).trans ?_
    cases a <;> rfl
  | collection _ _ _ hitems hbinary hcharset =>
    have hadded := (members (a := a) hitems).append ((binary hbinary).append (charset? hcharset))
    refine (hadded.writtenIn_eq _).trans ?_
    cases a <;> simp [declares]
  | spatial _ _ hsrid =>
    refine ((optional hsrid fun _ _ => srid).writtenIn_eq _).trans ?_
    cases a <;> rfl

namespace TypeDecl

variable {text : String} {ls : List Lexeme} {decl : TypeDecl}

/-- A data type has the attributes that are declared, unless it is a character type. -/
theorem resolved_has (decl : TypeDecl) (a : Attribute) :
    decl.resolved.has a = (!decl.isString && decl.declares a) := by
  -- A character type drops both words; each of the others keeps those that it has.
  cases decl with
  | national lead name length binary =>
    cases lead <;> cases a <;>
      simp [DataType.has, resolved, isString, declares, DataType.withBinary_eq, DataType.addPrefix,
        TypeName.dataType]
  | longVarchar name varchar binary charset collation =>
    cases charset <;> cases a <;>
      simp [DataType.has, resolved, isString, declares, DataType.withVarchar_eq,
        DataType.withBinary_eq, DataType.withCharset_eq, TypeName.dataType]
  | longVarbinary long varbinary =>
    rcases long with _ | long <;> rcases varbinary with _ | varbinary <;> cases a <;> rfl
  | _ =>
    cases a <;>
      simp [DataType.has, resolved, isString, declares, DataType.withBinary_eq,
        DataType.withModifiers_eq, DataType.addPrefix, DataType.addSuffix, TypeName.dataType]

/-- What is read from a text declares the attributes that are written in it. -/
theorem declares_eq_writtenIn (htext : Lexeme.ofString text = .ok ls)
    (hdecl : TypeDecl.parse text = .ok decl) (a : Attribute) :
    decl.declares a = a.writtenIn (Lexeme.tokens ls) := by
  obtain ⟨ls', hls, hform⟩ := parse_eq_ok_iff_form.1 hdecl
  obtain rfl := Except.ok.inj (htext.symm.trans hls)
  exact (hform.writtenIn_eq a).symm

/-- A data type that was read from a text has exactly the attributes that are written there,
whatever was noted before; only a character type has none of them. So two texts in which an
attribute is written differently never give the same data type unless one of them is of a character
type. -/
theorem resolve_has (htext : Lexeme.ofString text = .ok ls)
    (hdecl : TypeDecl.parse text = .ok decl) (a : Attribute) :
    Always (fun t => t.has a = (!decl.isString && a.writtenIn (Lexeme.tokens ls))) decl.resolve ∧
      ∀ text' ls' decl', Lexeme.ofString text' = .ok ls' → TypeDecl.parse text' = .ok decl' →
        a.writtenIn (Lexeme.tokens ls) ≠ a.writtenIn (Lexeme.tokens ls') →
        decl.isString = false → decl'.isString = false →
        ∀ ds ds', (decl.resolve.run ds).1 ≠ (decl'.resolve.run ds').1 := by
  refine ⟨fun ds => ?_, fun text' ls' decl' htext' hdecl' hdiffer hstring hstring' ds ds' heq => ?_⟩
  · rw [decl.always_resolved ds, ← declares_eq_writtenIn htext hdecl]
    exact resolved_has decl a
  · rw [decl.always_resolved ds, decl'.always_resolved ds'] at heq
    have hhas := congrArg (·.has a) heq
    simp only [resolved_has, hstring, hstring', Bool.not_false, Bool.true_and,
      declares_eq_writtenIn htext hdecl, declares_eq_writtenIn htext' hdecl'] at hhas
    exact hdiffer hhas

/-- `BINARY` behind a type of the national character set is kept, and the type without it is another
one. -/
theorem resolve_has_national :
    ∃ ls ls', Lexeme.ofString "NATIONAL CHAR BINARY" = .ok ls ∧
      Lexeme.ofString "NATIONAL CHAR" = .ok ls' ∧
      TypeDecl.parse "NATIONAL CHAR BINARY" = .ok (.national .national ⟨.char, "CHAR"⟩ none true) ∧
      TypeDecl.parse "NATIONAL CHAR" = .ok (.national .national ⟨.char, "CHAR"⟩ none false) ∧
      Always (fun t => t.isBinary = true)
        (national .national ⟨.char, "CHAR"⟩ none true).resolve ∧
      ∀ ds ds', ((national .national ⟨.char, "CHAR"⟩ none true).resolve.run ds).1 ≠
        ((national .national ⟨.char, "CHAR"⟩ none false).resolve.run ds').1 := by
  have hdecl : TypeDecl.parse "NATIONAL CHAR BINARY" =
      .ok (.national .national ⟨.char, "CHAR"⟩ none true) := by decide +kernel
  have hdecl' : TypeDecl.parse "NATIONAL CHAR" =
      .ok (.national .national ⟨.char, "CHAR"⟩ none false) := by decide +kernel
  have htext : Lexeme.ofString "NATIONAL CHAR BINARY" = .ok
      [⟨.word none "NATIONAL", ⟨1, 1⟩, ⟨1, 9⟩⟩, ⟨.word none "CHAR", ⟨1, 10⟩, ⟨1, 14⟩⟩,
        ⟨.word none "BINARY", ⟨1, 15⟩, ⟨1, 21⟩⟩] := by
    decide +kernel
  have htext' : Lexeme.ofString "NATIONAL CHAR" = .ok
      [⟨.word none "NATIONAL", ⟨1, 1⟩, ⟨1, 9⟩⟩, ⟨.word none "CHAR", ⟨1, 10⟩, ⟨1, 14⟩⟩] := by
    decide +kernel
  obtain ⟨hhas, hdiffer⟩ := resolve_has htext hdecl .binary
  exact ⟨_, _, htext, htext', hdecl, hdecl', hhas,
    hdiffer _ _ _ htext' hdecl' (by decide) rfl rfl⟩

/-- A character type does not have the attributes that are written in its text. -/
theorem not_forall_resolve_has :
    ¬ ∀ (text : String) (ls : List Lexeme) (decl : TypeDecl), Lexeme.ofString text = .ok ls →
      TypeDecl.parse text = .ok decl → ∀ a : Attribute,
        Always (fun t => t.has a = a.writtenIn (Lexeme.tokens ls)) decl.resolve := by
  intro h
  have hdecl : TypeDecl.parse "CHAR(10) BINARY" =
      .ok (.string ⟨.char, "CHAR"⟩ false (some "(10)") true none none) := by decide +kernel
  obtain ⟨ls, hls, -⟩ := parse_eq_ok_iff_form.1 hdecl
  have hhas := h _ _ _ hls hdecl .binary .empty
  rw [always_resolved, resolved_has, ← declares_eq_writtenIn hls hdecl] at hhas
  exact nomatch hhas

end TypeDecl

end TableSchema
