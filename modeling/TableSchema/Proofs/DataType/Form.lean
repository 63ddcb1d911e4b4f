import TableSchema.DataType.Grammar
import TableSchema.Proofs.DataType.Canonical
import TableSchema.Proofs.DataType.Keyword
import TableSchema.Proofs.Grammar.Phrase

/-!
# The forms of a data type

What a data type can look like, as phrases: runs of tokens with the declarations that are read off
them. The words of the language may be in any case.

Of the clauses that may be left out, none goes on with another one that can stand behind it. Only
`BINARY` stands in two places of a character type, and without a character set between them a single
`BINARY` is read in the first; the declaration is the same.

## Main definitions

* `TypeDecl.Form`: the phrases of data types;
* `TypeDecl.StringTail`: the phrases behind the length of a character type.
-/

namespace TableSchema

/-! ## Forms -/

/-- The token is the word that names the type, in any case. -/
def TypeName.Names (n : TypeName) (t : Token) : Prop :=
  t = .word none n.text ∧ Text.sameAscii n.text n.keyword.spelling = true

namespace Token

/-- The token is a literal between single or double quotes, or a national one. -/
def IsString (t : Token) : Prop :=
  ∃ kind ∈ [LiteralKind.single, .double, .national], ∃ body, t = .literal kind body

/-- The token is a name: a word, quoted or not, or a string literal. -/
def IsName (t : Token) : Prop :=
  (∃ quote value, t = .word quote value) ∨ t.IsString

end Token

/-- The word for an attribute of a number. -/
def NumericModifier.spelling : NumericModifier → String
  | .signed => "SIGNED"
  | .unsigned => "UNSIGNED"
  | .zerofill => "ZEROFILL"

/-- The words that introduce a character set. -/
def CharsetKeyword.words : CharsetKeyword → List String
  | .charSet => ["CHAR", "SET"]
  | .characterSet => ["CHARACTER", "SET"]
  | .charset => ["CHARSET"]

namespace TypeDecl

open Token

variable {α : Type}

/-- `(n)` -/
inductive OneLength : List Token → String → Prop
  | mk (n : String) :
    OneLength [.symbol .openParen, .number n, .symbol .closeParen] ("(" ++ n ++ ")")

/-- `(p, s)` -/
inductive TwoLengths : List Token → String → Prop
  | mk (p s : String) :
    TwoLengths [.symbol .openParen, .number p, .symbol .comma, .number s, .symbol .closeParen]
      ("(" ++ p ++ "," ++ s ++ ")")

/-- `(p)` or `(p, s)` -/
def UpToTwoLengths (ts : List Token) (text : String) : Prop :=
  OneLength ts text ∨ TwoLengths ts text

/-- `{CHARACTER SET | CHAR SET | CHARSET} name` -/
inductive CharsetClause : List Token → Charset → Prop
  | mk {keyword : CharsetKeyword} {words : List Token} {name : Token}
      (hwords : List.Forall₂ IsWord keyword.words words) (hname : name.IsName) :
    CharsetClause (words ++ [name]) ⟨keyword, name.text⟩

/-- `COLLATE name` -/
inductive CollationClause : List Token → String → Prop
  | mk {t name : Token} (hword : t.IsWord "COLLATE") (hname : name.IsName) :
    CollationClause [t, name] name.text

/-- `SRID n` -/
inductive SridClause : List Token → String → Prop
  | mk {t : Token} (hword : t.IsWord "SRID") (n : String) : SridClause [t, .number n] n

/-- Any number of `SIGNED`, `UNSIGNED` and `ZEROFILL`. -/
abbrev Modifiers : List Token → List NumericModifier → Prop :=
  List.Forall₂ fun t modifier => t.IsWord modifier.spelling

/-- `[BINARY] [charset] [COLLATE name | BINARY]` -/
inductive StringTail : List Token → Bool → Option Charset → Option String → Prop
  | collated {bs cs os : List Token} {binary : Bool} {charset : Option Charset}
      {collation : String} (hbinary : Marked "BINARY" bs binary)
      (hcharset : Optional CharsetClause cs charset) (hcollation : CollationClause os collation) :
    StringTail (bs ++ (cs ++ os)) binary charset (some collation)
  | plain {bs cs es : List Token} {early late : Bool} {charset : Option Charset}
      (hearly : Marked "BINARY" bs early) (hcharset : Optional CharsetClause cs charset)
      (hlate : Marked "BINARY" es late) :
    StringTail (bs ++ (cs ++ es)) (early || late) charset none

/-- The tokens are a form of a data type, and the declaration is read off it. -/
inductive Form : List Token → TypeDecl → Prop
  /-- `NATIONAL {CHAR | CHARACTER | VARCHAR} [(n)] [BINARY]` -/
  | national {lead t : Token} {n : TypeName} {ls bs : List Token} {length : Option String}
      {binary : Bool} (hlead : lead.IsWord "NATIONAL") (hname : n.Names t)
      (hkeyword : n.keyword ∈ [TypeKeyword.char, .character, .varchar])
      (hlength : Optional OneLength ls length) (hbinary : Marked "BINARY" bs binary) :
    Form (lead :: t :: (ls ++ bs)) (.national .national n length binary)
  /-- `NATIONAL {CHAR | CHARACTER} VARYING [(n)] [BINARY]` -/
  | nationalVarying {lead t v : Token} {n : TypeName} {ls bs : List Token}
      {length : Option String} {binary : Bool} (hlead : lead.IsWord "NATIONAL")
      (hname : n.Names t) (hkeyword : n.keyword ∈ [TypeKeyword.char, .character])
      (hvarying : v.IsWord "VARYING") (hlength : Optional OneLength ls length)
      (hbinary : Marked "BINARY" bs binary) :
    Form (lead :: t :: v :: (ls ++ bs)) (.nationalVarying n length binary)
  /-- `NATIONAL {CHAR | CHARACTER} [(n)] [BINARY] VARYING` -/
  | nationalVaryingLast {lead t v : Token} {n : TypeName} {ls bs : List Token}
      {length : Option String} {binary : Bool} (hlead : lead.IsWord "NATIONAL")
      (hname : n.Names t) (hkeyword : n.keyword ∈ [TypeKeyword.char, .character])
      (hlength : Optional OneLength ls length) (hbinary : Marked "BINARY" bs binary)
      (hvarying : v.IsWord "VARYING") :
    Form (lead :: t :: (ls ++ (bs ++ [v]))) (.nationalVarying n length binary)
  /-- `NCHAR VARCHAR [(n)] [BINARY]` -/
  | nchar {lead t : Token} {n : TypeName} {ls bs : List Token} {length : Option String}
      {binary : Bool} (hlead : lead.IsWord "NCHAR") (hname : n.Names t)
      (hkeyword : n.keyword = .varchar) (hlength : Optional OneLength ls length)
      (hbinary : Marked "BINARY" bs binary) :
    Form (lead :: t :: (ls ++ bs)) (.national .nchar n length binary)
  /-- `string [VARYING] [(n)] [BINARY] [charset] [COLLATE name | BINARY]` -/
  | string {t : Token} {n : TypeName} {vs ls ts : List Token} {varying binary : Bool}
      {length : Option String} {charset : Option Charset} {collation : Option String}
      (hname : n.Names t) (hfamily : n.keyword.family = .string)
      (hvarying : Marked "VARYING" vs varying) (hlength : Optional OneLength ls length)
      (htail : StringTail ts binary charset collation) :
    Form (t :: (vs ++ (ls ++ ts))) (.string n varying length binary charset collation)
  /-- `LONG (n) [BINARY] [charset] [COLLATE name | BINARY]` -/
  | longLength {t : Token} {n : TypeName} {ls ts : List Token} {length : String} {binary : Bool}
      {charset : Option Charset} {collation : Option String} (hname : n.Names t)
      (hkeyword : n.keyword = .long) (hlength : OneLength ls length)
      (htail : StringTail ts binary charset collation) :
    Form (t :: (ls ++ ts)) (.string n false (some length) binary charset collation)
  /-- `LONG VARBINARY` -/
  | longVarbinary {t u : Token} {n m : TypeName} (hname : n.Names t) (hkeyword : n.keyword = .long)
      (hother : m.Names u) (hvarbinary : m.keyword = .varbinary) :
    Form [t, u] (.longVarbinary (some n) (some m))
  /-- `LONG [VARCHAR] [BINARY] [charset] [COLLATE name]` -/
  | longVarchar {t : Token} {n : TypeName} {vs bs cs os : List Token} {varchar binary : Bool}
      {charset : Option Charset} {collation : Option String} (hname : n.Names t)
      (hkeyword : n.keyword = .long) (hvarchar : Marked "VARCHAR" vs varchar)
      (hbinary : Marked "BINARY" bs binary) (hcharset : Optional CharsetClause cs charset)
      (hcollation : Optional CollationClause os collation) :
    Form (t :: (vs ++ (bs ++ (cs ++ os)))) (.longVarchar n varchar binary charset collation)
  /-- `integer [(n)] modifier*` -/
  | integer {t : Token} {n : TypeName} {ls ms : List Token} {length : Option String}
      {modifiers : List NumericModifier} (hname : n.Names t) (hfamily : n.keyword.family = .integer)
      (hlength : Optional OneLength ls length) (hmodifiers : Modifiers ms modifiers) :
    Form (t :: (ls ++ ms)) (.measured n (length.map .one) modifiers)
  /-- `{REAL | DOUBLE [PRECISION]} [(p, s)] modifier*` -/
  | real {t : Token} {n : TypeName} {ps ls ms : List Token} {precision : Bool}
      {length : Option String} {modifiers : List NumericModifier} (hname : n.Names t)
      (hfamily : n.keyword.family = .real) (hprecision : Marked "PRECISION" ps precision)
      (hdouble : precision = true → n.keyword = .double) (hlength : Optional TwoLengths ls length)
      (hmodifiers : Modifiers ms modifiers) :
    Form (t :: (ps ++ (ls ++ ms))) (.measured n (length.map .two) modifiers)
  /-- `decimal [(p) | (p, s)] modifier*` -/
  | decimal {t : Token} {n : TypeName} {ls ms : List Token} {length : Option String}
      {modifiers : List NumericModifier} (hname : n.Names t) (hfamily : n.keyword.family = .decimal)
      (hlength : Optional UpToTwoLengths ls length) (hmodifiers : Modifiers ms modifiers) :
    Form (t :: (ls ++ ms)) (.measured n (length.map .upToTwo) modifiers)
  /-- `temporal [(n)]` -/
  | temporal {t : Token} {n : TypeName} {ls : List Token} {length : Option String}
      (hname : n.Names t) (hfamily : n.keyword.family = .temporal)
      (hlength : Optional OneLength ls length) :
    Form (t :: ls) (.measured n (length.map .one) [])
  /-- A word that names a type without clauses. -/
  | simple {t : Token} {n : TypeName} (hname : n.Names t) (hfamily : n.keyword.family = .simple) :
    Form [t] (.simple n)
  /-- `{ENUM | SET} (literal, ...) [BINARY] [charset]` -/
  | collection {t : Token} {n : TypeName} {items bs cs : List Token} {binary : Bool}
      {charset : Option Charset} (hname : n.Names t) (hfamily : n.keyword.family = .collection)
      (hne : items ≠ []) (hitems : ∀ u ∈ items, u.IsString) (hbinary : Marked "BINARY" bs binary)
      (hcharset : Optional CharsetClause cs charset) :
    Form (t :: (bracketed items ++ (bs ++ cs)))
      (.collection n (items.map Token.text) binary charset)
  /-- `spatial [SRID n]` -/
  | spatial {t : Token} {n : TypeName} {ss : List Token} {srid : Option String}
      (hname : n.Names t) (hfamily : n.keyword.family = .spatial)
      (hsrid : Optional SridClause ss srid) :
    Form (t :: ss) (.spatial n srid)

/-! ## First tokens -/

variable {ts : List Token}

theorem OneLength.begins {text : String} (h : OneLength ts text) :
    Begins [.symbol .openParen] ts := by
  cases h
  exact .token _ _

theorem OneLength.ne_nil {text : String} (h : OneLength ts text) : ts ≠ [] := by
  cases h
  exact List.cons_ne_nil _ _

theorem TwoLengths.begins {text : String} (h : TwoLengths ts text) :
    Begins [.symbol .openParen] ts := by
  cases h
  exact .token _ _

/-- The first words of the clauses that give a character set. -/
def charsetSamples : List Token :=
  [.word none "CHARACTER", .word none "CHAR", .word none "CHARSET"]

/-- A character set begins with one of its keywords. -/
theorem CharsetClause.begins {charset : Charset} (h : CharsetClause ts charset) :
    Begins charsetSamples ts := by
  cases h with
  | @mk keyword words name hwords hname =>
    -- The clause begins with the first of its words, whichever they are.
    cases keyword with
    | charSet | characterSet | charset =>
      obtain ⟨t, words, ht, -, rfl⟩ := List.forall₂_cons_left_iff.1 hwords
      exact (Begins.word ht _).mono (by simp [charsetSamples])

theorem CharsetClause.ne_nil {charset : Charset} (h : CharsetClause ts charset) : ts ≠ [] := by
  cases h
  exact List.append_ne_nil_of_right_ne_nil _ (List.cons_ne_nil _ _)

theorem CollationClause.begins {collation : String} (h : CollationClause ts collation) :
    Begins [.word none "COLLATE"] ts := by
  cases h with
  | mk hword hname => exact .word hword _

/-- A run of modifiers begins with one of them, if it is not empty. -/
theorem Modifiers.begins {modifiers : List NumericModifier} (h : Modifiers ts modifiers) :
    Begins [.word none "SIGNED", .word none "UNSIGNED", .word none "ZEROFILL"] ts := by
  cases h with
  | nil => exact .nil
  | @cons t modifier ts modifiers hword _ =>
    rintro u ⟨⟩
    refine ⟨.word none modifier.spelling, ?_, hword.accepts_eq⟩
    cases modifier <;> simp [NumericModifier.spelling]

/-- The clauses of a character type begin with one of their words, if there are any. -/
theorem StringTail.begins {binary : Bool} {charset : Option Charset} {collation : Option String}
    (h : StringTail ts binary charset collation) :
    Begins ([.word none "BINARY"] ++ (charsetSamples ++ [.word none "COLLATE", .word none "BINARY"]))
      ts := by
  cases h with
  | collated hbinary hcharset hcollation =>
    exact hbinary.begins.append ((hcharset.begins fun _ _ => CharsetClause.begins).append
      (hcollation.begins.mono (by simp)))
  | plain hearly hcharset hlate =>
    exact hearly.begins.append ((hcharset.begins fun _ _ => CharsetClause.begins).append
      (hlate.begins.mono (by simp)))

end TypeDecl

end TableSchema
