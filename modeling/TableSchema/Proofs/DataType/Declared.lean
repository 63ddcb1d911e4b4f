import TableSchema.Proofs.DataType.Acceptance

/-!
# What the grammar declares

Every declaration of a type that the grammar gives, with the parts of its canonical text. The
declaration keeps the spelling of what was read, so its words are type words, its lengths hold
numbers, and its literals and names are the texts of tokens that were read.

A declaration holds clauses that its canonical text leaves out: a character set and a collation
except after `LONG`, `PRECISION`, the number of a reference system, and the second word of `LONG
VARBINARY`.

## Main definitions

* `TypeDecl.Declared`: a declaration that the grammar can give, and the parts of its canonical text.

## Main results

* `TypeDecl.Form.declared`: what is read off a form is such a declaration.
-/

namespace TableSchema

/-- The word is the type word of the name. -/
def TypeName.IsWord (name : TypeName) : Prop :=
  TypeKeyword.ofWord? name.text = some name.keyword

/-- The word, if it is asked for. -/
def flagged (flag : Bool) (w : String) : List String :=
  if flag then [w] else []

/-- The attributes, each once and in a fixed order. -/
def NumericModifier.ordered (modifiers : List NumericModifier) : List NumericModifier :=
  [.signed, .unsigned, .zerofill].filter (· ∈ modifiers)

/-- The lengths of the measured types of a family, and how many there may be. -/
def TypeFamily.dimension? : TypeFamily → Option ((String → Dimension) × List Nat)
  | .integer | .temporal => some (.one, [1])
  | .real => some (.two, [2])
  | .decimal => some (.upToTwo, [1, 2])
  | _ => none

/-- A length clause with its numbers, of which there are as many as `counts` allows. -/
inductive LengthClause (counts : List Nat) : Option String → List Token → Prop
  /-- There is no clause. -/
  | none : LengthClause counts none []
  /-- The text of the clause is that of its numbers in parentheses. -/
  | some {numbers : List Token} (hcount : numbers.length ∈ counts)
      (hnumbers : ∀ t ∈ numbers, t.Legible ∧ t.numberText?.isSome = true) :
      LengthClause counts (some (Token.glue (Token.bracketed numbers))) numbers

namespace TypeDecl

/-- The declaration is one that the grammar can give, and its canonical text has the parts. -/
inductive Declared : TypeDecl → CanonicalType → Prop
  -- What stands behind the length is read and dropped. `LONG` with a length is a string type.
  | string {name : TypeName} {varying binary : Bool} {length : Option String}
      {charset : Option Charset} {collation : Option String} {numbers : List Token}
      (hname : name.IsWord)
      (hfamily : name.keyword.family = .string ∨ name.keyword = .long ∧ numbers ≠ [])
      (hlength : LengthClause [1] length numbers) :
      Declared (.string name varying length binary charset collation)
        { keyword := name.keyword, items := numbers }
  | national {name : TypeName} {binary : Bool} {length : Option String} {numbers : List Token}
      (hname : name.IsWord) (hkeyword : name.keyword ∈ [TypeKeyword.char, .character, .varchar])
      (hlength : LengthClause [1] length numbers) :
      Declared (.national .national name length binary)
        { lead := "NATIONAL", keyword := name.keyword, items := numbers,
          words := flagged binary "BINARY" }
  | nchar {name : TypeName} {binary : Bool} {length : Option String} {numbers : List Token}
      (hname : name.IsWord) (hkeyword : name.keyword = .varchar)
      (hlength : LengthClause [1] length numbers) :
      Declared (.national .nchar name length binary)
        { lead := "NCHAR", keyword := name.keyword, items := numbers,
          words := flagged binary "BINARY" }
  -- `VARYING` moves to the end, whether it was read before or behind the length.
  | nationalVarying {name : TypeName} {binary : Bool} {length : Option String}
      {numbers : List Token} (hname : name.IsWord)
      (hkeyword : name.keyword ∈ [TypeKeyword.char, .character])
      (hlength : LengthClause [1] length numbers) :
      Declared (.nationalVarying name length binary)
        { lead := "NATIONAL", keyword := name.keyword, items := numbers,
          words := flagged binary "BINARY" ++ ["VARYING"] }
  -- The attributes come in one order, each of them once.
  | measured {name : TypeName} {length : Option String} {modifiers : List NumericModifier}
      {dimension : String → Dimension} {counts : List Nat} {numbers : List Token}
      (hname : name.IsWord) (hfamily : name.keyword.family.dimension? = some (dimension, counts))
      (hlength : LengthClause counts length numbers)
      (htemporal : name.keyword.family = .temporal → modifiers = []) :
      Declared (.measured name (length.map dimension) modifiers)
        { keyword := name.keyword, items := numbers,
          words := (NumericModifier.ordered modifiers).map NumericModifier.spelling }
  | simple {name : TypeName} (hname : name.IsWord) (hfamily : name.keyword.family = .simple) :
      Declared (.simple name) { keyword := name.keyword }
  -- The literals keep their spelling; the character set is dropped.
  | collection {name : TypeName} {literals : List Token} {binary : Bool}
      {charset : Option Charset} (hname : name.IsWord)
      (hfamily : name.keyword.family = .collection) (hne : literals ≠ [])
      (hliterals : ∀ t ∈ literals, t.Legible ∧ t.stringText?.isSome = true) :
      Declared (.collection name (literals.map Token.text) binary charset)
        { keyword := name.keyword, items := literals, words := flagged binary "BINARY" }
  | spatial {name : TypeName} {srid : Option String} (hname : name.IsWord)
      (hfamily : name.keyword.family = .spatial) :
      Declared (.spatial name srid) { keyword := name.keyword }
  | longVarchar {name : TypeName} {varchar binary : Bool} {collation : Option String}
      (hname : name.IsWord) (hkeyword : name.keyword = .long) :
      Declared (.longVarchar name varchar binary none collation)
        { keyword := name.keyword, words := flagged varchar "VARCHAR" ++ flagged binary "BINARY" }
  | longVarcharCharset {name : TypeName} {varchar binary : Bool} {charset : Charset}
      {collation : Option String} {t : Token} (hname : name.IsWord)
      (hkeyword : name.keyword = .long) (ht : t.Legible) (htext : t.nameText? = some charset.name) :
      Declared (.longVarchar name varchar binary (some charset) collation)
        { keyword := name.keyword,
          words := flagged varchar "VARCHAR" ++ (flagged binary "BINARY" ++ charset.keyword.words),
          name := t }
  -- The second word is dropped, so what is read from the text is another declaration.
  | longVarbinary {name other : TypeName} (hname : name.IsWord) (hkeyword : name.keyword = .long) :
      Declared (.longVarbinary name other) { keyword := name.keyword }

end TypeDecl

/-- More numbers of lengths may be allowed. -/
theorem LengthClause.mono {counts others : List Nat} {length : Option String}
    {numbers : List Token} (h : LengthClause counts length numbers) (hsub : counts ⊆ others) :
    LengthClause others length numbers := by
  cases h with
  | none => exact .none
  | some hcount hnumbers => exact .some (hsub hcount) hnumbers

/-- A name that is the word of a token is its type word. -/
theorem TypeName.Names.ofWord? {n : TypeName} {t : Token} (h : n.Names t) : n.IsWord :=
  TypeKeyword.ofWord?_eq_some_iff.2 h.2

namespace TypeDecl

open Token

variable {ts : List Token} {text : String} {length : Option String}

/-- A length that was read has its number. -/
theorem OneLength.lengthClause (h : OneLength ts text) (hts : ∀ t ∈ ts, t.Legible) :
    ∃ numbers, LengthClause [1] (some text) numbers ∧ numbers ≠ [] := by
  obtain ⟨_, ⟨n, rfl⟩, rfl, rfl⟩ := Grammar.oneLength_iff.1 h
  have hn : (number n).Legible := hts _ (by simp)
  have hnumbers : ∀ t ∈ [number n], t.Legible ∧ t.numberText?.isSome = true :=
    List.forall_mem_singleton.2 ⟨hn, rfl⟩
  exact ⟨[.number n], .some (by simp) hnumbers, List.cons_ne_nil _ _⟩

/-- Two lengths that were read have their numbers. -/
theorem TwoLengths.lengthClause (h : TwoLengths ts text) (hts : ∀ t ∈ ts, t.Legible) :
    ∃ numbers, LengthClause [2] (some text) numbers := by
  obtain ⟨_, ⟨p, s, rfl⟩, rfl, rfl⟩ := Grammar.twoLengths_iff.1 h
  have hp : (number p).Legible := hts _ (by simp)
  have hs : (number s).Legible := hts _ (by simp)
  have hnumbers : ∀ t ∈ [number p, number s], t.Legible ∧ t.numberText?.isSome = true :=
    List.forall_mem_cons.2 ⟨⟨hp, rfl⟩, List.forall_mem_singleton.2 ⟨hs, rfl⟩⟩
  exact ⟨[.number p, .number s], .some (by simp) hnumbers⟩

theorem UpToTwoLengths.lengthClause (h : UpToTwoLengths ts text) (hts : ∀ t ∈ ts, t.Legible) :
    ∃ numbers, LengthClause [1, 2] (some text) numbers := by
  obtain hone | htwo := h
  · obtain ⟨numbers, hnumbers, -⟩ := hone.lengthClause hts
    exact ⟨numbers, hnumbers.mono (by decide)⟩
  · obtain ⟨numbers, hnumbers⟩ := htwo.lengthClause hts
    exact ⟨numbers, hnumbers.mono (by decide)⟩

/-- A length clause that may be left out has its numbers if it is there. -/
theorem exists_lengthClause {phrase : List Token → String → Prop} {counts : List Nat}
    (hphrase : ∀ {ts text}, phrase ts text → (∀ t ∈ ts, t.Legible) →
      ∃ numbers, LengthClause counts (some text) numbers)
    (h : Optional phrase ts length) (hts : ∀ t ∈ ts, t.Legible) :
    ∃ numbers, LengthClause counts length numbers := by
  cases h with
  | absent => exact ⟨[], .none⟩
  | present h => exact hphrase h hts

theorem exists_oneLength (h : Optional OneLength ts length) (hts : ∀ t ∈ ts, t.Legible) :
    ∃ numbers, LengthClause [1] length numbers :=
  exists_lengthClause (fun h hts => (h.lengthClause hts).imp fun _ => And.left) h hts

/-- Items in parentheses are among the tokens. -/
theorem mem_bracketed {items : List Token} {u : Token} (hu : u ∈ items) : u ∈ bracketed items := by
  cases items with
  | nil => exact nomatch hu
  | cons t items =>
    rw [bracketed, Grammar.intersperse_cons]
    obtain rfl | hu := List.mem_cons.1 hu
    · simp
    · have hbehind : u ∈ items.flatMap fun v => [symbol .comma, v] :=
        List.mem_flatMap.2 ⟨u, hu, by simp⟩
      simp only [List.mem_cons, List.mem_append, hbehind, or_true, true_or]

/-- A form of tokens that were read is declared. -/
theorem Form.declared {decl : TypeDecl} (h : Form ts decl) (hts : ∀ t ∈ ts, t.Legible) :
    ∃ c, decl.Declared c := by
  cases h with
  | national _ hname hkeyword hlength _ =>
    obtain ⟨numbers, hnumbers⟩ := exists_oneLength hlength fun t ht => hts t (by simp [ht])
    exact ⟨_, .national hname.ofWord? hkeyword hnumbers⟩
  | nationalVarying _ hname hkeyword _ hlength _ | nationalVaryingLast _ hname hkeyword hlength =>
    obtain ⟨numbers, hnumbers⟩ := exists_oneLength hlength fun t ht => hts t (by simp [ht])
    exact ⟨_, .nationalVarying hname.ofWord? hkeyword hnumbers⟩
  | nchar _ hname hkeyword hlength _ =>
    obtain ⟨numbers, hnumbers⟩ := exists_oneLength hlength fun t ht => hts t (by simp [ht])
    exact ⟨_, .nchar hname.ofWord? hkeyword hnumbers⟩
  | string hname hfamily _ hlength _ =>
    obtain ⟨numbers, hnumbers⟩ := exists_oneLength hlength fun t ht => hts t (by simp [ht])
    exact ⟨_, .string hname.ofWord? (.inl hfamily) hnumbers⟩
  | longLength hname hkeyword hlength _ =>
    obtain ⟨numbers, hnumbers, hne⟩ := hlength.lengthClause fun t ht => hts t (by simp [ht])
    exact ⟨_, .string hname.ofWord? (.inr ⟨hkeyword, hne⟩) hnumbers⟩
  | longVarbinary hname hkeyword => exact ⟨_, .longVarbinary hname.ofWord? hkeyword⟩
  | longVarchar hname hkeyword _ _ hcharset _ =>
    -- The name of a character set is all that comes back in the source besides words.
    cases hcharset with
    | absent => exact ⟨_, .longVarchar hname.ofWord? hkeyword⟩
    | present hcharset =>
      obtain ⟨-, hcharsetName⟩ := hcharset
      exact ⟨_, .longVarcharCharset hname.ofWord? hkeyword (hts _ (by simp))
        (nameText?_eq_some_iff.2 ⟨hcharsetName, rfl⟩)⟩
  | integer hname hfamily hlength _ =>
    obtain ⟨numbers, hnumbers⟩ := exists_oneLength hlength fun t ht => hts t (by simp [ht])
    exact ⟨_, .measured hname.ofWord? (by rw [hfamily]; rfl) hnumbers (by simp [hfamily])⟩
  | real hname hfamily _ _ hlength _ =>
    obtain ⟨numbers, hnumbers⟩ :=
      exists_lengthClause TwoLengths.lengthClause hlength fun t ht => hts t (by simp [ht])
    exact ⟨_, .measured hname.ofWord? (by rw [hfamily]; rfl) hnumbers (by simp [hfamily])⟩
  | decimal hname hfamily hlength _ =>
    obtain ⟨numbers, hnumbers⟩ :=
      exists_lengthClause UpToTwoLengths.lengthClause hlength fun t ht => hts t (by simp [ht])
    exact ⟨_, .measured hname.ofWord? (by rw [hfamily]; rfl) hnumbers (by simp [hfamily])⟩
  | temporal hname hfamily hlength =>
    obtain ⟨numbers, hnumbers⟩ := exists_oneLength hlength fun t ht => hts t (by simp [ht])
    exact ⟨_, .measured hname.ofWord? (by rw [hfamily]; rfl) hnumbers fun _ => rfl⟩
  | simple hname hfamily => exact ⟨_, .simple hname.ofWord? hfamily⟩
  | collection hname hfamily hne hitems _ _ =>
    refine ⟨_, .collection hname.ofWord? hfamily hne fun u hu => ⟨hts u ?_, ?_⟩⟩
    · simp [mem_bracketed hu]
    · rw [stringText?_eq_some_iff.2 ⟨hitems u hu, rfl⟩]
      rfl
  | spatial hname hfamily _ => exact ⟨_, .spatial hname.ofWord? hfamily⟩

end TypeDecl

end TableSchema
