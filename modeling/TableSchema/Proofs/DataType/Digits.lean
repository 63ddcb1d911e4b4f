import TableSchema.Proofs.DataType.Length

/-!
# The digits in the text of a type

In the text of a type there are numbers only in the length clause and behind `SRID`; all else but
punctuation is a name or a literal. So the lengths of a data type can be told from the tokens, and
where two texts differ in digits only, the same data type comes out but for the source and the
values of the lengths.

## Main definitions

* `Token.lengthNumbers`: the numbers of a length clause;
* `Token.withoutDigits`, `DataType.withoutLengths`: what is left without digits.

## Main results

* `TypeDecl.Form.holds`: the length clause of a declaration holds the numbers of its text;
* `TypeDecl.Form.withoutDigits`: a form stays one of the same kind when its numbers lose their
  digits;
* `TypeDecl.resolve_lengths`: the lengths of a data type are exact and isolated.
-/

namespace TableSchema

open Token Resolve

/-! ## Names -/

namespace Token

variable {t : Token} {ts : List Token} {spelling : String}

/-- A word may be a name. -/
theorem IsWord.isName (h : t.IsWord spelling) : t.IsName := by
  obtain ⟨value, rfl, -⟩ := h
  exact .inl ⟨none, value, rfl⟩

/-- A word that may be left out is a name where it is there. -/
theorem Marked.isName {flag : Bool} (h : Marked spelling ts flag) : ∀ t ∈ ts, t.IsName := by
  cases h with
  | absent => exact nofun
  | present hword => exact List.forall_mem_singleton.2 hword.isName

/-- A clause that may be left out is made of names if it is where it is there. -/
theorem Optional.isName {α : Type} {phrase : List Token → α → Prop} {a? : Option α}
    (h : Optional phrase ts a?) (hphrase : ∀ ts a, phrase ts a → ∀ t ∈ ts, t.IsName) :
    ∀ t ∈ ts, t.IsName := by
  cases h with
  | absent => exact nofun
  | present h => exact hphrase _ _ h

/-- Words of the language are names. -/
theorem isName_of_words {words : List String} (h : List.Forall₂ IsWord words ts) :
    ∀ t ∈ ts, t.IsName := by
  induction h with
  | nil => exact nofun
  | cons hword _ ih => exact List.forall_mem_cons.2 ⟨hword.isName, ih⟩

theorem isName_pair {u : Token} (ht : t.IsName) (hu : u.IsName) : ∀ v ∈ [t, u], v.IsName :=
  List.forall_mem_cons.2 ⟨ht, List.forall_mem_singleton.2 hu⟩

/-- A name is no number and no symbol. -/
theorem IsName.not_number (h : t.IsName) : t.numberText? = none ∧ ∀ s, t ≠ .symbol s := by
  rcases h with ⟨quote, value, rfl⟩ | ⟨kind, -, body, rfl⟩ <;> exact ⟨rfl, nofun⟩

/-- Literals in parentheses are no numbers. -/
theorem numberText?_of_mem_bracketed {items : List Token} (h : ∀ t ∈ items, t.IsString) :
    ∀ t ∈ bracketed items, t.numberText? = none := by
  intro t ht
  obtain ht | ⟨s, rfl⟩ := mem_or_symbol_of_mem_bracketed ht
  · exact (IsName.not_number (.inr (h t ht))).1
  · rfl

end Token

namespace TypeDecl

variable {t : Token} {ts : List Token}

/-- A character set is made of names: its keyword, and a word or a literal. -/
theorem CharsetClause.isName {charset : Charset} (h : CharsetClause ts charset) :
    ∀ t ∈ ts, t.IsName := by
  cases h with
  | mk hwords hname =>
    exact List.forall_mem_append.2 ⟨isName_of_words hwords, List.forall_mem_singleton.2 hname⟩

/-- A collation is made of names: `COLLATE`, and a word or a literal. -/
theorem CollationClause.isName {collation : String} (h : CollationClause ts collation) :
    ∀ t ∈ ts, t.IsName := by
  cases h with
  | mk hword hname =>
    exact List.forall_mem_cons.2 ⟨hword.isName, List.forall_mem_singleton.2 hname⟩

/-- Modifiers are words. -/
theorem Modifiers.isName {modifiers : List NumericModifier} (h : Modifiers ts modifiers) :
    ∀ t ∈ ts, t.IsName := by
  induction h with
  | nil => exact nofun
  | cons hword _ ih => exact List.forall_mem_cons.2 ⟨hword.isName, ih⟩

/-- The clauses behind the length of a character type have no number. -/
theorem StringTail.isName {binary : Bool} {charset : Option Charset} {collation : Option String}
    (h : StringTail ts binary charset collation) : ∀ t ∈ ts, t.IsName := by
  cases h with
  | collated hbinary hcharset hcollation =>
    exact List.forall_mem_append.2 ⟨hbinary.isName, List.forall_mem_append.2
      ⟨hcharset.isName fun _ _ => CharsetClause.isName, hcollation.isName⟩⟩
  | plain hearly hcharset hlate =>
    exact List.forall_mem_append.2 ⟨hearly.isName, List.forall_mem_append.2
      ⟨hcharset.isName fun _ _ => CharsetClause.isName, hlate.isName⟩⟩

end TypeDecl

/-! ## The numbers of a length clause -/

namespace Token

variable {front ts : List Token}

/-- The numbers of a length clause: those behind the first opening parenthesis. -/
def lengthNumbers (ts : List Token) : List String :=
  (ts.dropWhile (· ≠ .symbol .openParen)).filterMap numberText?

/-- Names hold no numbers. -/
theorem numbers_of_names (h : ∀ t ∈ ts, t.IsName) : ts.filterMap numberText? = [] :=
  List.filterMap_eq_nil_iff.2 fun t ht => (h t ht).not_number.1

/-- Names in front of a length clause do not matter. -/
theorem lengthNumbers_append (h : ∀ t ∈ front, t.IsName) (ts : List Token) :
    lengthNumbers (front ++ ts) = lengthNumbers ts := by
  have hfront : ∀ t ∈ front, decide (t ≠ .symbol .openParen) = true := fun t ht =>
    decide_eq_true ((h t ht).not_number.2 _)
  rw [lengthNumbers, List.dropWhile_append_of_pos hfront]
  rfl

/-- Names alone have no length clause. -/
theorem lengthNumbers_of_names (h : ∀ t ∈ ts, t.IsName) : lengthNumbers ts = [] := by
  have happend := lengthNumbers_append h []
  rwa [List.append_nil] at happend

/-- The numbers of a length clause were read. -/
theorem legible_of_mem_lengthNumbers {text : String} {ls : List Lexeme}
    (h : Lexeme.ofString text = .ok ls) :
    ∀ n ∈ lengthNumbers (Lexeme.tokens ls), (number n).Legible := by
  intro n hn
  obtain ⟨t, ht, htext⟩ := List.mem_filterMap.1 hn
  obtain rfl := numberText?_eq_some_iff.1 htext
  obtain ⟨l, hl, htoken⟩ := List.mem_map.1 ((List.dropWhile_suffix _).subset ht)
  rw [← htoken]
  exact legible_of_ofString h l hl

/-- Without numbers there are none in a length clause. -/
theorem lengthNumbers_of_numberText? (h : ∀ t ∈ ts, t.numberText? = none) :
    lengthNumbers ts = [] :=
  List.filterMap_eq_nil_iff.2 fun t ht => h t ((List.dropWhile_suffix _).subset ht)

end Token

namespace TypeDecl

open Dimension

variable {front ts back : List Token} {family : TypeFamily}

/-- The phrase is a length clause with its numbers. -/
def IsLengthClause (family : TypeFamily) (phrase : List Token → String → Prop)
    (dimension : String → Dimension) : Prop :=
  ∀ ts text, phrase ts text → ∃ us, ts = .symbol .openParen :: us ∧
    Holds family (some (dimension text)) (us.filterMap numberText?)

/-- One length holds its number. -/
theorem isLengthClause_one (h : family ≠ .decimal) : IsLengthClause family OneLength .one := by
  rintro _ _ ⟨n⟩
  exact ⟨_, rfl, .one h n⟩

/-- Two lengths hold both numbers in order. -/
theorem isLengthClause_two : IsLengthClause family TwoLengths .two := by
  rintro _ _ ⟨p, s⟩
  exact ⟨_, rfl, .two p s⟩

/-- One or two lengths hold the numbers that are there. -/
theorem isLengthClause_upToTwo (h : family = .decimal) :
    IsLengthClause family UpToTwoLengths .upToTwo := by
  intro ts text hphrase
  obtain ⟨⟨p⟩⟩ | ⟨⟨p, s⟩⟩ := hphrase
  · exact ⟨_, rfl, .precision h p⟩
  · exact ⟨_, rfl, .precisionAndScale p s⟩

/-- A length clause between names holds the numbers of all of them. -/
theorem IsLengthClause.holds {phrase : List Token → String → Prop}
    {dimension : String → Dimension} (hclause : IsLengthClause family phrase dimension)
    {length : Option String} (h : Optional phrase ts length) (hfront : ∀ t ∈ front, t.IsName)
    (hback : ∀ t ∈ back, t.IsName) :
    Holds family (length.map dimension) (lengthNumbers (front ++ (ts ++ back))) := by
  rw [lengthNumbers_append hfront]
  cases h with
  | absent =>
    rw [List.nil_append, lengthNumbers_of_names hback]
    exact .none
  | present hphrase =>
    obtain ⟨us, rfl, hholds⟩ := hclause _ _ hphrase
    have hnumbers : lengthNumbers (.symbol .openParen :: us ++ back) = us.filterMap numberText? := by
      rw [List.cons_append, lengthNumbers, List.dropWhile_cons_of_neg (by simp),
        List.filterMap_cons_none rfl, List.filterMap_append, numbers_of_names hback, List.append_nil]
    rwa [hnumbers]

/-- The length clause of a declaration holds the numbers behind the parenthesis. -/
theorem Form.holds {decl : TypeDecl} (h : Form ts decl) : ∃ name, decl.typeName? = some name ∧
    Holds name.keyword.family decl.dimension? (lengthNumbers ts) := by
  have hnone {family : TypeFamily} (hnumbers : lengthNumbers ts = []) :
      Holds family none (lengthNumbers ts) := hnumbers ▸ .none
  have hnational : ∀ k ∈ [TypeKeyword.char, .character, .varchar], k.family ≠ .decimal := by decide
  -- Names stand in front of the length clause, and names stand behind it.
  cases h with
  | @national lead t n _ _ _ _ hlead hname hkeyword hlength hbinary =>
    have hfront := isName_pair hlead.isName hname.isWord.isName
    exact ⟨n, rfl, (isLengthClause_one (hnational _ hkeyword)).holds hlength hfront hbinary.isName⟩
  | @nationalVarying lead t v n _ _ _ _ hlead hname hkeyword hvarying hlength hbinary =>
    have hfront : ∀ u ∈ [lead, t, v], u.IsName :=
      List.forall_mem_cons.2 ⟨hlead.isName, isName_pair hname.isWord.isName hvarying.isName⟩
    have hfamily := hnational _ (List.mem_append_left [TypeKeyword.varchar] hkeyword)
    exact ⟨n, rfl, (isLengthClause_one hfamily).holds hlength hfront hbinary.isName⟩
  | @nationalVaryingLast lead t v n _ _ _ _ hlead hname hkeyword hlength hbinary hvarying =>
    have hfront := isName_pair hlead.isName hname.isWord.isName
    have hback := List.forall_mem_append.2
      ⟨hbinary.isName, List.forall_mem_singleton.2 hvarying.isName⟩
    have hfamily := hnational _ (List.mem_append_left [TypeKeyword.varchar] hkeyword)
    exact ⟨n, rfl, (isLengthClause_one hfamily).holds hlength hfront hback⟩
  | @nchar lead t n _ _ _ _ hlead hname hkeyword hlength hbinary =>
    have hfront := isName_pair hlead.isName hname.isWord.isName
    have hfamily : n.keyword.family ≠ .decimal := by
      rw [hkeyword]
      decide
    exact ⟨n, rfl, (isLengthClause_one hfamily).holds hlength hfront hbinary.isName⟩
  | @string t n vs _ _ _ _ _ _ _ hname hfamily hvarying hlength htail =>
    have hfront : ∀ u ∈ t :: vs, u.IsName :=
      List.forall_mem_cons.2 ⟨hname.isWord.isName, hvarying.isName⟩
    have hdecimal : n.keyword.family ≠ .decimal := by simp [hfamily]
    exact ⟨n, rfl, (isLengthClause_one hdecimal).holds hlength hfront htail.isName⟩
  | @longLength t n _ _ _ _ _ _ hname hkeyword hlength htail =>
    have hfront : ∀ u ∈ [t], u.IsName := List.forall_mem_singleton.2 hname.isWord.isName
    have hfamily : n.keyword.family ≠ .decimal := by
      rw [hkeyword]
      decide
    exact ⟨n, rfl, (isLengthClause_one hfamily).holds (.present hlength) hfront htail.isName⟩
  | longVarbinary hname _ hother =>
    exact ⟨_, rfl, hnone (lengthNumbers_of_names
      (isName_pair hname.isWord.isName hother.isWord.isName))⟩
  | longVarchar hname _ hvarchar hbinary hcharset hcollation =>
    refine ⟨_, rfl, hnone (lengthNumbers_of_names ?_)⟩
    simp only [List.forall_mem_cons, List.forall_mem_append]
    exact ⟨hname.isWord.isName, hvarchar.isName, hbinary.isName,
      hcharset.isName fun _ _ => CharsetClause.isName,
      hcollation.isName fun _ _ => CollationClause.isName⟩
  | @integer t n _ _ _ _ hname hfamily hlength hmodifiers =>
    have hfront : ∀ u ∈ [t], u.IsName := List.forall_mem_singleton.2 hname.isWord.isName
    have hdecimal : n.keyword.family ≠ .decimal := by simp [hfamily]
    exact ⟨n, rfl, (isLengthClause_one hdecimal).holds hlength hfront hmodifiers.isName⟩
  | @real t n ps _ _ _ _ _ hname _ hprecision _ hlength hmodifiers =>
    have hfront : ∀ u ∈ t :: ps, u.IsName :=
      List.forall_mem_cons.2 ⟨hname.isWord.isName, hprecision.isName⟩
    exact ⟨n, rfl, isLengthClause_two.holds hlength hfront hmodifiers.isName⟩
  | @decimal t n _ _ _ _ hname hfamily hlength hmodifiers =>
    have hfront : ∀ u ∈ [t], u.IsName := List.forall_mem_singleton.2 hname.isWord.isName
    exact ⟨n, rfl, (isLengthClause_upToTwo hfamily).holds hlength hfront hmodifiers.isName⟩
  | @temporal t n ls _ hname hfamily hlength =>
    have hfront : ∀ u ∈ [t], u.IsName := List.forall_mem_singleton.2 hname.isWord.isName
    have hdecimal : n.keyword.family ≠ .decimal := by simp [hfamily]
    have hholds := (isLengthClause_one hdecimal).holds hlength hfront (List.forall_mem_nil _)
    rw [List.append_nil] at hholds
    exact ⟨n, rfl, hholds⟩
  | simple hname =>
    exact ⟨_, rfl, hnone (lengthNumbers_of_names
      (List.forall_mem_singleton.2 hname.isWord.isName))⟩
  | @collection t n items _ _ _ _ hname _ _ hitems hbinary hcharset =>
    refine ⟨n, rfl, hnone (lengthNumbers_of_numberText? ?_)⟩
    simp only [List.forall_mem_cons, List.forall_mem_append]
    exact ⟨hname.isWord.isName.not_number.1, numberText?_of_mem_bracketed hitems,
      fun u hu => (hbinary.isName u hu).not_number.1,
      fun u hu => (hcharset.isName (fun _ _ => CharsetClause.isName) u hu).not_number.1⟩
  | spatial hname _ hsrid =>
    refine ⟨_, rfl, hnone ?_⟩
    cases hsrid with
    | absent => exact lengthNumbers_of_names (List.forall_mem_singleton.2 hname.isWord.isName)
    | present hsrid =>
      cases hsrid with
      | mk hword =>
        exact lengthNumbers_append (isName_pair hname.isWord.isName hword.isName) _

end TypeDecl

/-! ## Other digits -/

/-- The token, where a number has lost its digits. -/
def Token.withoutDigits : Token → Token
  | number _ => number ""
  | t => t

/-- The length clause without its numbers. -/
def Dimension.withoutNumbers : Dimension → Dimension
  | one _ => one ""
  | two _ => two ""
  | upToTwo _ => upToTwo ""

/-- A length clause that may be left out loses its numbers and keeps its kind. -/
theorem Dimension.map_withoutNumbers (dimension : String → Dimension)
    (h : ∀ text, (dimension text).withoutNumbers = dimension "") (length : Option String) :
    (length.map dimension).map withoutNumbers = (length.map fun _ => "").map dimension := by
  cases length with
  | none => rfl
  | some text => exact congrArg some (h text)

/-- The declaration without the numbers of its length clause and behind `SRID`. -/
def TypeDecl.withoutNumbers : TypeDecl → TypeDecl
  | string name varying length binary charset collation =>
    string name varying (length.map fun _ => "") binary charset collation
  | national lead name length binary => national lead name (length.map fun _ => "") binary
  | nationalVarying name length binary => nationalVarying name (length.map fun _ => "") binary
  | measured name dimension modifiers =>
    measured name (dimension.map Dimension.withoutNumbers) modifiers
  | spatial name srid => spatial name (srid.map fun _ => "")
  | decl => decl

/-- The data type without its source and the numbers of its lengths. -/
def DataType.withoutLengths (t : DataType) : DataType :=
  { t with source := "", length := 0, precision := 0, scale := 0 }

namespace DataType

/-- Without its numbers a length clause still sets the same flags. -/
theorem measured_withoutNumbers (t : DataType) (dimension : Option Dimension) :
    (t.measured (dimension.map Dimension.withoutNumbers)).withoutLengths =
      (t.measured dimension).withoutLengths := by
  rcases dimension with _ | (text | text | text) <;>
    simp only [Option.map_none, Option.map_some, Dimension.withoutNumbers, measured, addSuffix,
      withoutLengths]

theorem measured_withoutNumber (t : DataType) (length : Option String) :
    (t.measured ((length.map fun _ => "").map .one)).withoutLengths =
      (t.measured (length.map .one)).withoutLengths := by
  rw [← Dimension.map_withoutNumbers .one fun _ => rfl]
  exact t.measured_withoutNumbers _

end DataType

/-- The numbers of a declaration are seen only in the source and the lengths. -/
theorem TypeDecl.resolved_withoutNumbers (decl : TypeDecl) :
    decl.withoutNumbers.resolved.withoutLengths = decl.resolved.withoutLengths := by
  -- Only the alternatives with a length clause are touched, and only in what that clause sets.
  cases decl with
  | string name varying length binary charset collation =>
    exact name.dataType.measured_withoutNumber length
  | national lead name length binary =>
    have h := name.dataType.measured_withoutNumber length
    simp only [DataType.withoutLengths, DataType.mk.injEq] at h
    cases lead <;>
      simp only [withoutNumbers, resolved, DataType.withBinary_eq, DataType.addPrefix,
        DataType.withoutLengths, h]
  | nationalVarying name length binary =>
    have h := name.dataType.measured_withoutNumber length
    simp only [DataType.withoutLengths, DataType.mk.injEq] at h
    simp only [withoutNumbers, resolved, DataType.withBinary_eq, DataType.addPrefix,
      DataType.addSuffix, DataType.withoutLengths, h]
  | measured name dimension modifiers =>
    have h := name.dataType.measured_withoutNumbers dimension
    simp only [DataType.withoutLengths, DataType.mk.injEq] at h
    simp only [withoutNumbers, resolved, DataType.withModifiers_eq, DataType.withoutLengths, h]
  | simple | collection | spatial | longVarchar | longVarbinary => rfl

namespace Token

variable {t : Token} {ts : List Token}

/-- What is no number keeps its text. -/
theorem map_withoutDigits (h : ∀ t ∈ ts, t.numberText? = none) : ts.map withoutDigits = ts := by
  refine List.map_congr_left (fun t ht => ?_) |>.trans (List.map_id ts)
  have hnumber := h t ht
  cases t with
  | number n => exact nomatch hnumber
  | _ => rfl

/-- Names have no digits to lose, whatever their spelling. -/
theorem map_withoutDigits_of_names (h : ∀ t ∈ ts, t.IsName) : ts.map withoutDigits = ts :=
  map_withoutDigits fun t ht => (h t ht).not_number.1

theorem IsName.withoutDigits_eq (h : t.IsName) : t.withoutDigits = t :=
  List.singleton_inj.1 (map_withoutDigits_of_names (List.forall_mem_singleton.2 h))

end Token

namespace TypeDecl

variable {ts us : List Token}

/-- Without the digits of its numbers a length clause is one of the same kind. -/
theorem exists_withoutDigits {phrase : List Token → String → Prop} {length : Option String}
    (hphrase : ∀ ts text, phrase ts text → ∃ text', phrase (ts.map withoutDigits) text')
    (h : Optional phrase ts length) : ∃ length', Optional phrase (ts.map withoutDigits) length' ∧
      (length'.map fun _ => "") = length.map fun _ => "" := by
  cases h with
  | absent => exact ⟨none, .absent, rfl⟩
  | present h =>
    obtain ⟨text', htext'⟩ := hphrase _ _ h
    exact ⟨some text', .present htext', rfl⟩

/-- One length stays one length. -/
theorem oneLength_withoutDigits (ts : List Token) (text : String) (h : OneLength ts text) :
    ∃ text', OneLength (ts.map withoutDigits) text' := by
  obtain ⟨n⟩ := h
  exact ⟨_, .mk ""⟩

/-- Two lengths stay two lengths. -/
theorem twoLengths_withoutDigits (ts : List Token) (text : String) (h : TwoLengths ts text) :
    ∃ text', TwoLengths (ts.map withoutDigits) text' := by
  obtain ⟨p, s⟩ := h
  exact ⟨_, .mk "" ""⟩

/-- One or two lengths stay as many. -/
theorem upToTwoLengths_withoutDigits (ts : List Token) (text : String)
    (h : UpToTwoLengths ts text) : ∃ text', UpToTwoLengths (ts.map withoutDigits) text' :=
  h.elim (fun h => (oneLength_withoutDigits ts text h).imp fun _ => .inl)
    fun h => (twoLengths_withoutDigits ts text h).imp fun _ => .inr

/-- `SRID` stays with a number behind it. -/
theorem srid_withoutDigits (ts : List Token) (text : String) (h : SridClause ts text) :
    ∃ text', SridClause (ts.map withoutDigits) text' := by
  cases h with
  | mk hword =>
    rw [List.map_cons, hword.isName.withoutDigits_eq]
    exact ⟨_, .mk hword ""⟩

/-- Without the digits of its numbers a form is one of the same declaration but for the numbers. -/
theorem Form.withoutDigits {decl : TypeDecl} (h : Form ts decl) :
    ∃ other, Form (ts.map Token.withoutDigits) other ∧
      other.withoutNumbers = decl.withoutNumbers := by
  have hone := Dimension.map_withoutNumbers .one fun _ => rfl
  have htwo := Dimension.map_withoutNumbers .two fun _ => rfl
  have hupToTwo := Dimension.map_withoutNumbers .upToTwo fun _ => rfl
  -- The names of a form stay as they are, so only its length clause has to be read again.
  cases h with
  | national hlead hname hkeyword hlength hbinary =>
    obtain ⟨length', hlength', heq⟩ := exists_withoutDigits oneLength_withoutDigits hlength
    rw [List.map_cons, List.map_cons, List.map_append, hlead.isName.withoutDigits_eq,
      hname.isWord.isName.withoutDigits_eq, map_withoutDigits_of_names hbinary.isName]
    exact ⟨_, .national hlead hname hkeyword hlength' hbinary, by rw [withoutNumbers, heq]; rfl⟩
  | nationalVarying hlead hname hkeyword hvarying hlength hbinary =>
    obtain ⟨length', hlength', heq⟩ := exists_withoutDigits oneLength_withoutDigits hlength
    rw [List.map_cons, List.map_cons, List.map_cons, List.map_append,
      hlead.isName.withoutDigits_eq, hname.isWord.isName.withoutDigits_eq,
      hvarying.isName.withoutDigits_eq, map_withoutDigits_of_names hbinary.isName]
    exact ⟨_, .nationalVarying hlead hname hkeyword hvarying hlength' hbinary,
      by rw [withoutNumbers, heq]; rfl⟩
  | nationalVaryingLast hlead hname hkeyword hlength hbinary hvarying =>
    obtain ⟨length', hlength', heq⟩ := exists_withoutDigits oneLength_withoutDigits hlength
    rw [List.map_cons, List.map_cons, List.map_append, List.map_append, List.map_singleton,
      hlead.isName.withoutDigits_eq, hname.isWord.isName.withoutDigits_eq,
      hvarying.isName.withoutDigits_eq, map_withoutDigits_of_names hbinary.isName]
    exact ⟨_, .nationalVaryingLast hlead hname hkeyword hlength' hbinary hvarying,
      by rw [withoutNumbers, heq]; rfl⟩
  | nchar hlead hname hkeyword hlength hbinary =>
    obtain ⟨length', hlength', heq⟩ := exists_withoutDigits oneLength_withoutDigits hlength
    rw [List.map_cons, List.map_cons, List.map_append, hlead.isName.withoutDigits_eq,
      hname.isWord.isName.withoutDigits_eq, map_withoutDigits_of_names hbinary.isName]
    exact ⟨_, .nchar hlead hname hkeyword hlength' hbinary, by rw [withoutNumbers, heq]; rfl⟩
  | string hname hfamily hvarying hlength htail =>
    obtain ⟨length', hlength', heq⟩ := exists_withoutDigits oneLength_withoutDigits hlength
    rw [List.map_cons, List.map_append, List.map_append, hname.isWord.isName.withoutDigits_eq,
      map_withoutDigits_of_names hvarying.isName, map_withoutDigits_of_names htail.isName]
    exact ⟨_, .string hname hfamily hvarying hlength' htail, by rw [withoutNumbers, heq]; rfl⟩
  | longLength hname hkeyword hlength htail =>
    obtain ⟨length', hlength'⟩ := oneLength_withoutDigits _ _ hlength
    rw [List.map_cons, List.map_append, hname.isWord.isName.withoutDigits_eq,
      map_withoutDigits_of_names htail.isName]
    exact ⟨_, .longLength hname hkeyword hlength' htail, rfl⟩
  | longVarbinary hname hkeyword hother hvarbinary =>
    rw [map_withoutDigits_of_names (isName_pair hname.isWord.isName hother.isWord.isName)]
    exact ⟨_, .longVarbinary hname hkeyword hother hvarbinary, rfl⟩
  | longVarchar hname hkeyword hvarchar hbinary hcharset hcollation =>
    have hnames := List.forall_mem_append.2 ⟨hvarchar.isName,
      List.forall_mem_append.2 ⟨hbinary.isName, List.forall_mem_append.2
        ⟨hcharset.isName fun _ _ => CharsetClause.isName,
          hcollation.isName fun _ _ => CollationClause.isName⟩⟩⟩
    rw [List.map_cons, hname.isWord.isName.withoutDigits_eq, map_withoutDigits_of_names hnames]
    exact ⟨_, .longVarchar hname hkeyword hvarchar hbinary hcharset hcollation, rfl⟩
  | integer hname hfamily hlength hmodifiers =>
    obtain ⟨length', hlength', heq⟩ := exists_withoutDigits oneLength_withoutDigits hlength
    rw [List.map_cons, List.map_append, hname.isWord.isName.withoutDigits_eq,
      map_withoutDigits_of_names hmodifiers.isName]
    refine ⟨_, .integer hname hfamily hlength' hmodifiers, ?_⟩
    simp only [withoutNumbers, hone, heq]
  | real hname hfamily hprecision hdouble hlength hmodifiers =>
    obtain ⟨length', hlength', heq⟩ := exists_withoutDigits twoLengths_withoutDigits hlength
    rw [List.map_cons, List.map_append, List.map_append, hname.isWord.isName.withoutDigits_eq,
      map_withoutDigits_of_names hprecision.isName, map_withoutDigits_of_names hmodifiers.isName]
    refine ⟨_, .real hname hfamily hprecision hdouble hlength' hmodifiers, ?_⟩
    simp only [withoutNumbers, htwo, heq]
  | decimal hname hfamily hlength hmodifiers =>
    obtain ⟨length', hlength', heq⟩ := exists_withoutDigits upToTwoLengths_withoutDigits hlength
    rw [List.map_cons, List.map_append, hname.isWord.isName.withoutDigits_eq,
      map_withoutDigits_of_names hmodifiers.isName]
    refine ⟨_, .decimal hname hfamily hlength' hmodifiers, ?_⟩
    simp only [withoutNumbers, hupToTwo, heq]
  | temporal hname hfamily hlength =>
    obtain ⟨length', hlength', heq⟩ := exists_withoutDigits oneLength_withoutDigits hlength
    rw [List.map_cons, hname.isWord.isName.withoutDigits_eq]
    refine ⟨_, .temporal hname hfamily hlength', ?_⟩
    simp only [withoutNumbers, hone, heq]
  | simple hname hfamily =>
    rw [List.map_singleton, hname.isWord.isName.withoutDigits_eq]
    exact ⟨_, .simple hname hfamily, rfl⟩
  | collection hname hfamily hne hitems hbinary hcharset =>
    rw [List.map_cons, List.map_append, List.map_append, hname.isWord.isName.withoutDigits_eq,
      map_withoutDigits (numberText?_of_mem_bracketed hitems),
      map_withoutDigits_of_names hbinary.isName,
      map_withoutDigits_of_names (hcharset.isName fun _ _ => CharsetClause.isName)]
    exact ⟨_, .collection hname hfamily hne hitems hbinary hcharset, rfl⟩
  | spatial hname hfamily hsrid =>
    obtain ⟨srid', hsrid', heq⟩ := exists_withoutDigits srid_withoutDigits hsrid
    rw [List.map_cons, hname.isWord.isName.withoutDigits_eq]
    exact ⟨_, .spatial hname hfamily hsrid', by rw [withoutNumbers, heq]; rfl⟩

/-- What is read of two runs of tokens that differ in digits only differs in numbers only. -/
theorem Form.withoutNumbers_eq {decl other : TypeDecl} (h : Form ts decl) (hother : Form us other)
    (heq : ts.map Token.withoutDigits = us.map Token.withoutDigits) :
    decl.withoutNumbers = other.withoutNumbers := by
  obtain ⟨decl', hform, hdecl⟩ := h.withoutDigits
  obtain ⟨other', hform', hother⟩ := hother.withoutDigits
  -- The same tokens are now read as both.
  rw [heq] at hform
  rw [← hdecl, ← hother, Grammar.form_unique hform hform']

variable {text : String} {ls : List Lexeme} {decl : TypeDecl}

/-- Lengths are exact and isolated. A data type that was read from a text has the lengths that the
numbers behind the parenthesis declare, each of them read for itself. After whatever was noted
before, one entry is made for each of them that is no numeral in range, in order, and no other.
Another text in which only the digits of numbers differ gives a data type that differs only in its
source and the values of its lengths. -/
theorem resolve_lengths (htext : Lexeme.ofString text = .ok ls)
    (hdecl : TypeDecl.parse text = .ok decl) :
    ∃ name t entries, decl.typeName? = some name ∧
      (∀ ds : Diagnostics, decl.resolve.run ds = (t, ⟨ds.entries ++ entries⟩)) ∧
      t.HasLengths name.keyword.family (lengthNumbers (Lexeme.tokens ls)) ∧
      List.Forall₂ (Diagnostic.IsOnLength t.name)
        ((lengthNumbers (Lexeme.tokens ls)).filter fun n => ¬ Text.FitsLength n) entries ∧
      ∀ text' ls' decl', Lexeme.ofString text' = .ok ls' → TypeDecl.parse text' = .ok decl' →
        (Lexeme.tokens ls).map Token.withoutDigits = (Lexeme.tokens ls').map Token.withoutDigits →
        Always (fun u => u.withoutLengths = t.withoutLengths) decl'.resolve := by
  obtain ⟨ls, hls, hform⟩ := parse_eq_ok_iff_form.1 hdecl
  obtain rfl := Except.ok.inj (htext.symm.trans hls)
  obtain ⟨name, hname, hholds⟩ := hform.holds
  have hnumbers := legible_of_mem_lengthNumbers htext
  have hgives : Gives decl.resolve decl.resolved decl.findings := by
    obtain ⟨t, ht⟩ := decl.gives_findings
    have hresolved := decl.always_resolved .empty
    rw [ht .empty] at hresolved
    rwa [← show t = decl.resolved from hresolved]
  refine ⟨name, _, _, hname, hgives, ?_, ?_, fun text' ls' decl' htext' hdecl' heq ds => ?_⟩
  · exact (hholds.hasLengths hnumbers name).congr (resolved_lengths hname)
  · rw [findings_eq hname hholds hnumbers, (resolved_named hname).1]
    exact name.lengthFindings_forall₂ hnumbers
  · -- Without their digits the texts have the same tokens, and these are read in one way only.
    obtain ⟨ls'', hls', hform'⟩ := parse_eq_ok_iff_form.1 hdecl'
    obtain rfl := Except.ok.inj (htext'.symm.trans hls')
    rw [decl'.always_resolved ds, ← decl'.resolved_withoutNumbers, ← decl.resolved_withoutNumbers,
      hform'.withoutNumbers_eq hform heq.symm]

/-- A precision that is out of range counts as zero and is noted, and the scale behind it is read.
With other digits only the source and the lengths are others. -/
theorem resolve_lengths_decimal :
    TypeDecl.parse "decimal(99999999999, 2)" =
        .ok (.measured ⟨.decimal, "decimal"⟩ (some (.upToTwo "(99999999999,2)")) []) ∧
      TypeDecl.parse "decimal(1e3,12)" =
        .ok (.measured ⟨.decimal, "decimal"⟩ (some (.upToTwo "(1e3,12)")) []) ∧
      ∃ t entry, Diagnostic.IsOnLength t.name "99999999999" entry ∧
        (∀ ds : Diagnostics,
          (measured ⟨.decimal, "decimal"⟩ (some (.upToTwo "(99999999999,2)")) []).resolve.run ds =
            (t, ⟨ds.entries ++ [entry]⟩)) ∧
        t.hasTwoLengths = true ∧ t.precision = 0 ∧ t.scale = 2 ∧
        Always (fun u => u.withoutLengths = t.withoutLengths)
          (measured ⟨.decimal, "decimal"⟩ (some (.upToTwo "(1e3,12)")) []).resolve := by
  have htext : Lexeme.ofString "decimal(99999999999, 2)" = .ok
      [⟨.word none "decimal", ⟨1, 1⟩, ⟨1, 8⟩⟩, ⟨.symbol .openParen, ⟨1, 8⟩, ⟨1, 9⟩⟩,
        ⟨.number "99999999999", ⟨1, 9⟩, ⟨1, 20⟩⟩, ⟨.symbol .comma, ⟨1, 20⟩, ⟨1, 21⟩⟩,
        ⟨.number "2", ⟨1, 22⟩, ⟨1, 23⟩⟩, ⟨.symbol .closeParen, ⟨1, 23⟩, ⟨1, 24⟩⟩] := by
    decide +kernel
  have htext' : Lexeme.ofString "decimal(1e3,12)" = .ok
      [⟨.word none "decimal", ⟨1, 1⟩, ⟨1, 8⟩⟩, ⟨.symbol .openParen, ⟨1, 8⟩, ⟨1, 9⟩⟩,
        ⟨.number "1e3", ⟨1, 9⟩, ⟨1, 12⟩⟩, ⟨.symbol .comma, ⟨1, 12⟩, ⟨1, 13⟩⟩,
        ⟨.number "12", ⟨1, 13⟩, ⟨1, 15⟩⟩, ⟨.symbol .closeParen, ⟨1, 15⟩, ⟨1, 16⟩⟩] := by
    decide +kernel
  have hdecl : TypeDecl.parse "decimal(99999999999, 2)" =
      .ok (.measured ⟨.decimal, "decimal"⟩ (some (.upToTwo "(99999999999,2)")) []) := by
    decide +kernel
  have hdecl' : TypeDecl.parse "decimal(1e3,12)" =
      .ok (.measured ⟨.decimal, "decimal"⟩ (some (.upToTwo "(1e3,12)")) []) := by decide +kernel
  have hprecision : Text.declaredLength "99999999999" = 0 := by decide +kernel
  have hscale : Text.declaredLength "2" = 2 := by decide +kernel
  have hfilter : ["99999999999", "2"].filter (fun n => ¬ Text.FitsLength n) = ["99999999999"] := by
    decide +kernel
  obtain ⟨name, t, entries, hname, hrun, hlengths, hentries, hother⟩ :=
    resolve_lengths htext hdecl
  obtain ⟨htwo, hp, hs⟩ := hlengths
  obtain ⟨entry, _, hentry, hrest, rfl⟩ := List.forall₂_cons_left_iff.1 (hfilter ▸ hentries)
  obtain rfl := List.forall₂_nil_left_iff.1 hrest
  exact ⟨hdecl, hdecl', t, entry, hentry, hrun, htwo, hp.trans hprecision, hs.trans hscale,
    hother _ _ _ htext' hdecl' (by decide)⟩

end TypeDecl

end TableSchema
