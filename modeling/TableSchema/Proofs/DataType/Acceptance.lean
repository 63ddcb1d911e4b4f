import TableSchema.Proofs.DataType.Clause
import TableSchema.Proofs.DataType.Steady

/-!
# Acceptance of data types

The grammar of data types takes exactly the forms of a data type and reads the declaration off them.
What a rule takes is a form, whatever is left behind it. That a form is taken in full rests on what
no clause takes: the first word of another one that can stand behind it.

## Main results

* `dataType_takesForm`: the grammar takes forms and nothing else;
* `dataType_of_form`: it takes every form in full;
* `form_unique`: the declaration is determined by the tokens;
* `readAll_dataType_iff_form`: a run of lexemes is read as a declaration exactly if it is a form of
  it.
-/

namespace TableSchema

open Token

namespace TypeName.Names

variable {n : TypeName} {t : Token}

/-- What names a type is the type word. -/
theorem isWord (h : n.Names t) : t.IsWord n.keyword.spelling :=
  ⟨n.text, h⟩

/-- What names a certain type is the word of that type. -/
theorem isWord_of_keyword (h : n.Names t) {k : TypeKeyword} (hk : n.keyword = k) :
    t.IsWord k.spelling :=
  hk ▸ h.isWord

/-- A token is one type word only. -/
theorem keyword_eq (h : n.Names t) {k : TypeKeyword} (hk : t.IsWord k.spelling) :
    n.keyword = k := by
  obtain ⟨rfl, hsame⟩ := h
  obtain ⟨value, hvalue, hother⟩ := hk
  obtain ⟨-, rfl⟩ := Token.word.inj hvalue
  have hword := TypeKeyword.ofWord?_eq_some_iff.2 hsame
  exact Option.some.inj (hword.symm.trans (TypeKeyword.ofWord?_eq_some_iff.2 hother))

end TypeName.Names

namespace Grammar

open TableSchema.Parser TableSchema.Lexeme TableSchema.TypeDecl

variable {ls rest : List Lexeme} {decl : TypeDecl}

/-! ## What is taken is a form -/

/-- The lexemes taken are a form of the declaration. -/
def TakesForm (ls rest : List Lexeme) (decl : TypeDecl) : Prop :=
  ∃ ts, tokens ls = ts ++ tokens rest ∧ Form ts decl

/-- The type word that comes next is of the family. -/
def NamesFamily (family : TypeFamily) (ls : List Lexeme) : Prop :=
  ∀ t ∈ (tokens ls).head?, ∀ n : TypeName, n.Names t → n.keyword.family = family

/-- A rule takes its type word, which is of the family that decided for the rule. -/
theorem of_typeName_bind {family : TypeFamily} (hfamily : NamesFamily family ls)
    {f : TypeName → Parser TypeDecl} (h : (typeName >>= f) ls = .ok (decl, rest)) :
    ∃ t n mid, tokens ls = t :: tokens mid ∧ n.Names t ∧ n.keyword.family = family ∧
      f n mid = .ok (decl, rest) := by
  obtain ⟨_, n, mid, hts, ⟨t, rfl, hname⟩, h⟩ := reads_typeName.of_bind h
  exact ⟨t, n, mid, hts, hname, hfamily t (by simp [hts]) n hname, h⟩

/-- The clauses of a character type behind its length. -/
def stringClauses (name : TypeName) (isVarying : Bool) (length : Option String) :
    Parser TypeDecl := do
  let early ← binary
  let charset ← charset
  let collation ← collation
  let late ← if collation.isNone then binary else pure false
  return .string name isVarying length (early || late) charset collation

/-- The clauses behind the length of a character type are one of the tails of its form. -/
theorem of_stringClauses {name : TypeName} {isVarying : Bool} {length : Option String}
    (h : stringClauses name isVarying length ls = .ok (decl, rest)) :
    ∃ ts binary charset collation, tokens ls = ts ++ tokens rest ∧
      StringTail ts binary charset collation ∧
      decl = .string name isVarying length binary charset collation := by
  obtain ⟨bs, early, mid₁, hbs, hearly, h⟩ := reads_binary.of_bind h
  obtain ⟨cs, charset, mid₂, hcs, hcharset, h⟩ := reads_charset.of_bind h
  obtain ⟨os, collation, mid₃, hos, hcollation, h⟩ := reads_collation.of_bind h
  obtain ⟨es, late, mid₄, hes, hlate, hplain, h⟩ := of_ite_eat h
  obtain ⟨rfl, rfl⟩ := pure_eq_ok.1 h
  have htokens : tokens ls = bs ++ (cs ++ (os ++ es)) ++ tokens mid₄ := by
    simp [hbs, hcs, hos, hes]
  cases hcollation with
  | absent => exact ⟨_, _, _, _, htokens, .plain hearly hcharset hlate, rfl⟩
  | present hcollation =>
    -- Behind a collation no `BINARY` is looked for.
    cases hlate with
    | absent =>
      refine ⟨_, _, _, _, ?_, .collated hearly hcharset hcollation, by rw [Bool.or_false]⟩
      rwa [List.append_nil] at htokens
    | present => exact absurd (hplain rfl) nofun

/-- The rule of character types takes one of their forms. -/
theorem stringType_takesForm (hfamily : NamesFamily .string ls)
    (h : stringType ls = .ok (decl, rest)) : TakesForm ls rest decl := by
  obtain ⟨t, n, mid₁, ht, hname, hkeyword, h⟩ := of_typeName_bind hfamily h
  obtain ⟨vs, isVarying, mid₂, hvs, hvarying, h⟩ := reads_varying.of_bind h
  obtain ⟨ns, length, mid₃, hns, hlength, h⟩ := reads_oneLength.of_bind h
  obtain ⟨ts, binary, charset, collation, hts, htail, rfl⟩ := of_stringClauses h
  exact ⟨t :: (vs ++ (ns ++ ts)), by simp [ht, hvs, hns, hts],
    .string hname hkeyword hvarying hlength htail⟩

/-- `NATIONAL` in its three forms. -/
theorem nationalType_takesForm (h : nationalType ls = .ok (decl, rest)) :
    TakesForm ls rest decl := by
  obtain ⟨_, _, mid₁, hlead, ⟨lead, rfl, hnational⟩, h⟩ :=
    (reads_expect_word "NATIONAL").of_bind h
  obtain ⟨_, n, mid₂, ht, ⟨t, rfl, hname, hkeyword⟩, h⟩ := reads_nationalName.of_bind h
  -- `VARYING` is looked for behind the type word, and at the end if it was not there.
  obtain ⟨vs, early, mid₃, hvs, hearly, hvary, h⟩ := of_ite_eat h
  obtain ⟨ns, length, mid₄, hns, hlength, h⟩ := reads_oneLength.of_bind h
  obtain ⟨bs, isBinary, mid₅, hbs, hbinary, h⟩ := reads_binary.of_bind h
  obtain ⟨es, late, mid₆, hes, hlate, hlast, h⟩ := of_ite_eat h
  have htokens : tokens ls = lead :: t :: (vs ++ (ns ++ (bs ++ (es ++ tokens mid₆)))) := by
    simp [hlead, ht, hvs, hns, hbs, hes]
  have hchar (hne : n.keyword ≠ .varchar) : n.keyword ∈ [TypeKeyword.char, .character] := by
    simpa [hne] using hkeyword
  cases hearly with
  | present hvarying =>
    cases hlate with
    | absent =>
      obtain ⟨rfl, rfl⟩ := pure_eq_ok.1 h
      exact ⟨_, by simpa using htokens,
        .nationalVarying hnational hname (hchar (by simpa using hvary)) hvarying hlength hbinary⟩
    | present => exact absurd (hlast rfl) (by simp)
  | absent =>
    cases hlate with
    | absent =>
      obtain ⟨rfl, rfl⟩ := pure_eq_ok.1 h
      exact ⟨_, by simpa using htokens, .national hnational hname hkeyword hlength hbinary⟩
    | present hvarying =>
      obtain ⟨rfl, rfl⟩ := pure_eq_ok.1 h
      exact ⟨_, by simpa using htokens, .nationalVaryingLast hnational hname
        (hchar (by simpa using hlast)) hlength hbinary hvarying⟩

/-- `NCHAR VARCHAR` -/
theorem ncharType_takesForm (hopens : Terminal.opens [.word "NCHAR", .word "VARCHAR"] ls = true)
    (h : ncharType ls = .ok (decl, rest)) : TakesForm ls rest decl := by
  obtain ⟨lead, l, mid, rfl, hnchar, hvarchar⟩ := Terminal.opens_pair hopens
  obtain ⟨_, _, hskip, hread⟩ := bind_eq_ok.1 h
  obtain rfl := congrArg Prod.snd (Except.ok.inj hskip)
  obtain ⟨_, n, mid₁, ht, ⟨t, rfl, hname⟩, hread⟩ := reads_typeName.of_bind hread
  obtain ⟨ns, length, mid₂, hns, hlength, hread⟩ := reads_oneLength.of_bind hread
  obtain ⟨bs, isBinary, mid₃, hbs, hbinary, hread⟩ := reads_binary.of_bind hread
  obtain ⟨rfl, rfl⟩ := pure_eq_ok.1 hread
  -- The word that the rule reads is the one that decided for it.
  obtain ⟨rfl, htail⟩ : l.token = t ∧ tokens mid = tokens mid₁ := List.cons.inj ht
  exact ⟨lead.token :: l.token :: (ns ++ bs), by simp [htail, hns, hbs],
    .nchar (isWord_iff.2 hnchar) hname (hname.keyword_eq (isWord_iff.2 hvarchar)) hlength hbinary⟩

/-- `LONG` is the only word of its family. -/
theorem keyword_eq_long {k : TypeKeyword} (h : k.family = .long) : k = .long := by
  cases k <;> first | rfl | exact nomatch h

/-- `LONG` with a length, which the parenthesis behind it promises. -/
theorem longLength_takesForm (hfamily : NamesFamily .long ls)
    (hopens : Terminal.opens [.word "LONG", .symbol .openParen] ls = true)
    (h : stringType ls = .ok (decl, rest)) : TakesForm ls rest decl := by
  obtain ⟨long, paren, mid, rfl, -, hparen⟩ := Terminal.opens_pair hopens
  obtain ⟨n, _, hlong, hread⟩ := bind_eq_ok.1 h
  obtain ⟨_, heq, hname⟩ := token_eq_ok.1 hlong
  obtain ⟨rfl, rfl⟩ := List.cons.inj heq
  have hname := TypeName.ofToken?_eq_some_iff.1 hname
  have hkeyword := keyword_eq_long (hfamily long.token rfl n hname)
  have htoken : paren.token = .symbol .openParen := by simpa [Terminal.accepts] using hparen
  -- A parenthesis is not taken for `VARYING`.
  have hvarying : varying (paren :: mid) = .ok (false, paren :: mid) :=
    eat_cons_other (by simp [htoken, Terminal.accepts, bareWord?])
  rw [bind_of_ok hvarying] at hread
  obtain ⟨length?, mid₁, hlength, hread⟩ := bind_eq_ok.1 hread
  obtain ⟨ns, hns, hlength'⟩ := reads_oneLength.sound hlength
  obtain ⟨ts, isBinary, charset, collation, hts, htail, rfl⟩ := of_stringClauses hread
  cases hlength' with
  | absent =>
    obtain ⟨-, -, -, ⟨⟩⟩ | ⟨hclosed, -, -⟩ := ifAhead_eq_ok.1 hlength
    exact absurd hclosed (by simp [Terminal.opens, hparen])
  | present hlength' =>
    exact ⟨long.token :: (ns ++ ts), by simp [hns, hts],
      .longLength hname hkeyword hlength' htail⟩

/-- `LONG VARBINARY` -/
theorem longVarbinaryType_takesForm (hfamily : NamesFamily .long ls)
    (hopens : Terminal.opens [.word "LONG", .word "VARBINARY"] ls = true)
    (h : longVarbinaryType ls = .ok (decl, rest)) : TakesForm ls rest decl := by
  obtain ⟨long, l, mid, rfl, -, hvarbinary⟩ := Terminal.opens_pair hopens
  obtain ⟨t, n, mid₁, ht, hname, hkeyword, hread⟩ := of_typeName_bind hfamily h
  obtain ⟨_, m, mid₂, hu, ⟨u, rfl, hother⟩, hread⟩ := reads_typeName.of_bind hread
  obtain ⟨rfl, rfl⟩ := pure_eq_ok.1 hread
  obtain ⟨rfl, htail⟩ : long.token = t ∧ l.token :: tokens mid = tokens mid₁ := List.cons.inj ht
  obtain ⟨rfl, -⟩ : l.token = u ∧ tokens mid = tokens mid₂ := List.cons.inj (htail.trans hu)
  exact ⟨[long.token, l.token], by simp [ht, hu], .longVarbinary hname (keyword_eq_long hkeyword)
    hother (hother.keyword_eq (isWord_iff.2 hvarbinary))⟩

/-- The rule of `LONG` as a character type takes one of its forms. -/
theorem longVarcharType_takesForm (hfamily : NamesFamily .long ls)
    (h : longVarcharType ls = .ok (decl, rest)) : TakesForm ls rest decl := by
  obtain ⟨t, n, mid₁, ht, hname, hkeyword, h⟩ := of_typeName_bind hfamily h
  obtain ⟨vs, isVarchar, mid₂, hvs, hvarchar, h⟩ := (reads_eat "VARCHAR").of_bind h
  obtain ⟨bs, isBinary, mid₃, hbs, hbinary, h⟩ := reads_binary.of_bind h
  obtain ⟨cs, charset, mid₄, hcs, hcharset, h⟩ := reads_charset.of_bind h
  obtain ⟨os, collation, mid₅, hos, hcollation, h⟩ := reads_collation.of_bind h
  obtain ⟨rfl, rfl⟩ := pure_eq_ok.1 h
  exact ⟨_, by simp [ht, hvs, hbs, hcs, hos],
    .longVarchar hname (keyword_eq_long hkeyword) hvarchar hbinary hcharset hcollation⟩

/-- `LONG` in its three forms. -/
theorem longType_takesForm (hfamily : NamesFamily .long ls) (h : longType ls = .ok (decl, rest)) :
    TakesForm ls rest decl := by
  obtain ⟨type?, mid, hchoice, h⟩ := bind_eq_ok.1 h
  obtain ⟨b, hb, hopens, type, htype, rfl⟩ | ⟨rfl, rfl, -⟩ := choose?_eq_ok hchoice
  · obtain ⟨rfl, rfl⟩ := pure_eq_ok.1 h
    simp only [List.mem_cons, List.not_mem_nil, or_false] at hb
    obtain rfl | rfl := hb
    · exact longLength_takesForm hfamily hopens htype
    · exact longVarbinaryType_takesForm hfamily hopens htype
  · exact longVarcharType_takesForm hfamily h

/-- The rule of integer types takes one of their forms. -/
theorem integerType_takesForm (hfamily : NamesFamily .integer ls)
    (h : integerType ls = .ok (decl, rest)) : TakesForm ls rest decl := by
  obtain ⟨t, n, mid₁, ht, hname, hkeyword, h⟩ := of_typeName_bind hfamily h
  obtain ⟨ns, length, mid₂, hns, hlength, h⟩ := reads_oneLength.of_bind h
  obtain ⟨ms, modifiers, mid₃, hms, hmodifiers, h⟩ := reads_numericModifiers.of_bind h
  obtain ⟨rfl, rfl⟩ := pure_eq_ok.1 h
  exact ⟨_, by simp [ht, hns, hms], .integer hname hkeyword hlength hmodifiers⟩

/-- The rule of floating point types takes one of their forms, `PRECISION` behind `DOUBLE` only. -/
theorem realType_takesForm (hfamily : NamesFamily .real ls)
    (h : realType ls = .ok (decl, rest)) : TakesForm ls rest decl := by
  obtain ⟨t, n, mid₁, ht, hname, hkeyword, h⟩ := of_typeName_bind hfamily h
  -- `PRECISION` is looked for behind `DOUBLE` only.
  obtain ⟨ps, precision, mid₂, hps, hprecision, hdouble, h⟩ : ∃ ps precision mid₂,
      tokens mid₁ = ps ++ tokens mid₂ ∧ Marked "PRECISION" ps precision ∧
        (precision = true → n.keyword = .double) ∧
        (twoLengths >>= fun length => numericModifiers >>= fun modifiers =>
          pure (.measured n (length.map .two) modifiers)) mid₂ = .ok (decl, rest) := by
    split at h
    · obtain ⟨_, mid₂, heat, h⟩ := bind_eq_ok.1 h
      obtain ⟨precision, heat⟩ := discard_eq_ok.1 heat
      obtain ⟨ps, hps, hprecision⟩ := (reads_eat "PRECISION").sound heat
      exact ⟨ps, precision, mid₂, hps, hprecision, fun _ => ‹_›, h⟩
    · exact ⟨[], false, mid₁, rfl, .absent, nofun, h⟩
  obtain ⟨ns, length, mid₃, hns, hlength, h⟩ := reads_twoLengths.of_bind h
  obtain ⟨ms, modifiers, mid₄, hms, hmodifiers, h⟩ := reads_numericModifiers.of_bind h
  obtain ⟨rfl, rfl⟩ := pure_eq_ok.1 h
  exact ⟨_, by simp [ht, hps, hns, hms],
    .real hname hkeyword hprecision hdouble hlength hmodifiers⟩

/-- The rule of types with one or two lengths takes one of their forms. -/
theorem decimalType_takesForm (hfamily : NamesFamily .decimal ls)
    (h : decimalType ls = .ok (decl, rest)) : TakesForm ls rest decl := by
  obtain ⟨t, n, mid₁, ht, hname, hkeyword, h⟩ := of_typeName_bind hfamily h
  obtain ⟨ns, length, mid₂, hns, hlength, h⟩ := reads_upToTwoLengths.of_bind h
  obtain ⟨ms, modifiers, mid₃, hms, hmodifiers, h⟩ := reads_numericModifiers.of_bind h
  obtain ⟨rfl, rfl⟩ := pure_eq_ok.1 h
  exact ⟨_, by simp [ht, hns, hms], .decimal hname hkeyword hlength hmodifiers⟩

/-- The rule of types of time takes one of their forms. -/
theorem temporalType_takesForm (hfamily : NamesFamily .temporal ls)
    (h : temporalType ls = .ok (decl, rest)) : TakesForm ls rest decl := by
  obtain ⟨t, n, mid₁, ht, hname, hkeyword, h⟩ := of_typeName_bind hfamily h
  obtain ⟨ns, length, mid₂, hns, hlength, h⟩ := reads_oneLength.of_bind h
  obtain ⟨rfl, rfl⟩ := pure_eq_ok.1 h
  exact ⟨_, by simp [ht, hns], .temporal hname hkeyword hlength⟩

theorem simpleType_takesForm (hfamily : NamesFamily .simple ls)
    (h : simpleType ls = .ok (decl, rest)) : TakesForm ls rest decl := by
  obtain ⟨t, n, mid₁, ht, hname, hkeyword, h⟩ := of_typeName_bind hfamily h
  obtain ⟨rfl, rfl⟩ := pure_eq_ok.1 h
  exact ⟨[t], ht, .simple hname hkeyword⟩

/-- The rule of enumerations and sets takes one of their forms. -/
theorem collectionType_takesForm (hfamily : NamesFamily .collection ls)
    (h : collectionType ls = .ok (decl, rest)) : TakesForm ls rest decl := by
  obtain ⟨t, n, mid₁, ht, hname, hkeyword, h⟩ := of_typeName_bind hfamily h
  obtain ⟨_, _, mid₂, hts, ⟨items, hne, hitems, rfl, rfl⟩, h⟩ := reads_list.of_bind h
  obtain ⟨bs, isBinary, mid₃, hbs, hbinary, h⟩ := reads_binary.of_bind h
  obtain ⟨cs, charset, mid₄, hcs, hcharset, h⟩ := reads_charset.of_bind h
  obtain ⟨rfl, rfl⟩ := pure_eq_ok.1 h
  exact ⟨_, by simp [ht, hts, hbs, hcs],
    .collection hname hkeyword hne hitems hbinary hcharset⟩

/-- The rule of spatial types takes one of their forms. -/
theorem spatialType_takesForm (hfamily : NamesFamily .spatial ls)
    (h : spatialType ls = .ok (decl, rest)) : TakesForm ls rest decl := by
  obtain ⟨t, n, mid₁, ht, hname, hkeyword, h⟩ := of_typeName_bind hfamily h
  obtain ⟨ss, srid, mid₂, hss, hsrid, h⟩ := reads_srid.of_bind h
  obtain ⟨rfl, rfl⟩ := pure_eq_ok.1 h
  exact ⟨_, by simp [ht, hss], .spatial hname hkeyword hsrid⟩

/-- The rule for a family takes forms of the types of the family. -/
theorem familyType_takesForm {family : TypeFamily} (hfamily : NamesFamily family ls)
    (h : familyType family ls = .ok (decl, rest)) : TakesForm ls rest decl := by
  cases family with
  | string => exact stringType_takesForm hfamily h
  | long => exact longType_takesForm hfamily h
  | integer => exact integerType_takesForm hfamily h
  | real => exact realType_takesForm hfamily h
  | decimal => exact decimalType_takesForm hfamily h
  | temporal => exact temporalType_takesForm hfamily h
  | simple => exact simpleType_takesForm hfamily h
  | collection => exact collectionType_takesForm hfamily h
  | spatial => exact spatialType_takesForm hfamily h

/-- The grammar takes forms of data types and nothing else. -/
theorem dataType_takesForm (h : dataType ls = .ok (decl, rest)) : TakesForm ls rest decl := by
  obtain ⟨type?, mid, hchoice, h⟩ := bind_eq_ok.1 h
  obtain ⟨b, hb, hopens, type, htype, rfl⟩ | ⟨rfl, rfl, -⟩ := choose?_eq_ok hchoice
  · obtain ⟨rfl, rfl⟩ := pure_eq_ok.1 h
    simp only [List.mem_cons, List.not_mem_nil, or_false] at hb
    obtain rfl | rfl := hb
    · exact nationalType_takesForm htype
    · exact ncharType_takesForm hopens htype
  · obtain ⟨keyword?, _, hpeek, h⟩ := bind_eq_ok.1 h
    obtain ⟨hkeyword, rfl⟩ := Prod.mk.inj (Except.ok.inj hpeek)
    cases keyword? with
    | none => exact absurd h fail_eq_ok.1
    | some keyword =>
      refine familyType_takesForm ?_ h
      -- The rule reads the same word that decided for it.
      cases ls with
      | nil => exact nomatch hkeyword
      | cons l ls =>
        rintro _ ⟨⟩ n hname
        have hword : TypeName.ofToken? l.token = some n := TypeName.ofToken?_eq_some_iff.2 hname
        have hkeyword : some n.keyword = some keyword := by simpa [hword] using hkeyword
        rw [Option.some.inj hkeyword]

/-! ## Forms are taken in full -/

variable {n : TypeName} {t : Token} {us vs ns bs cs os es ms ts : List Token}

/-- The type word of a form is taken. -/
theorem typeName_bind_ok (hname : n.Names t) {f : TypeName → Parser TypeDecl}
    (hf : f n (ofTokens us) = .ok (decl, [])) :
    (typeName >>= f) (ofTokens (t :: us)) = .ok (decl, []) :=
  reads_typeName.bind_ok ⟨t, rfl, hname⟩ nofun hf

section Clauses

variable {isVarying isBinary : Bool} {length collation : Option String} {charset : Option Charset}

/-- A character set begins with one of its keywords, if it is there. -/
theorem charset_begins (h : Optional CharsetClause cs charset) : Begins charsetSamples cs :=
  h.begins fun _ _ => CharsetClause.begins

/-- A character type without a collation, where a `BINARY` that stands alone is the first. -/
theorem stringClauses_plain {early late : Bool} (hearly : Marked "BINARY" bs early)
    (hcharset : Optional CharsetClause cs charset) (hlate : Marked "BINARY" es late)
    (hfirst : ∀ o ∈ if early then [] else [Terminal.word "BINARY"], o.Avoids (cs ++ es)) :
    stringClauses n isVarying length (ofTokens (bs ++ (cs ++ es))) =
      .ok (.string n isVarying length (early || late) charset none, []) := by
  refine reads_binary.bind_ok hearly hfirst ?_
  refine reads_charset.bind_ok hcharset (hlate.begins.stops (by decide)) ?_
  have hnone : collation (ofTokens es) = .ok (none, ofTokens es) :=
    reads_collation.complete .absent (hlate.begins.stops (by decide))
  refine (bind_of_ok hnone).trans ?_
  exact reads_binary.last_ok hlate rfl

/-- Each tail of a character type is taken in full. -/
theorem stringClauses_ok (htail : StringTail ts isBinary charset collation) :
    stringClauses n isVarying length (ofTokens ts) =
      .ok (.string n isVarying length isBinary charset collation, []) := by
  cases htail with
  | collated hbinary hcharset hcollation =>
    refine reads_binary.bind_ok hbinary
      (((charset_begins hcharset).append hcollation.begins).stops (by decide)) ?_
    refine reads_charset.bind_ok hcharset (hcollation.begins.stops (by decide)) ?_
    refine reads_collation.last_ok (.present hcollation) ?_
    exact pure_eq_ok.2 ⟨by rw [Bool.or_false], rfl⟩
  | @plain _ _ es _ late _ hearly hcharset hlate =>
    cases hearly with
    | present hword => exact stringClauses_plain (.present hword) hcharset hlate nofun
    | absent =>
      cases hcharset with
      | present hcharset =>
        refine stringClauses_plain .absent (.present hcharset) hlate ?_
        exact ((hcharset.begins.append_left hcharset.ne_nil es).stops (by decide))
      | absent =>
        -- The word stands in its second place, but nothing tells this from the first.
        have hmoved : stringClauses n isVarying length (ofTokens (es ++ ([] ++ []))) =
            .ok (.string n isVarying length (late || false) none none, []) :=
          stringClauses_plain hlate .absent .absent fun _ _ => nofun
        rw [Bool.or_false, List.append_nil, List.append_nil] at hmoved
        exact hmoved

/-- Each form of a character type is taken in full. -/
theorem stringType_ok {vs ns ts : List Token} (hname : n.Names t)
    (hvarying : Marked "VARYING" vs isVarying) (hlength : Optional OneLength ns length)
    (htail : StringTail ts isBinary charset collation) :
    stringType (ofTokens (t :: (vs ++ (ns ++ ts)))) =
      .ok (.string n isVarying length isBinary charset collation, []) := by
  have hns : Begins [.symbol .openParen] ns := hlength.begins fun _ _ => OneLength.begins
  refine typeName_bind_ok hname ?_
  refine reads_varying.bind_ok hvarying ((hns.append htail.begins).stops (by decide)) ?_
  refine reads_oneLength.bind_ok hlength (htail.begins.stops (by decide)) ?_
  exact stringClauses_ok htail

/-- Each form of `LONG` as a character type is taken in full. -/
theorem longVarcharType_ok (hname : n.Names t) {isVarchar : Bool}
    (hvarchar : Marked "VARCHAR" vs isVarchar) (hbinary : Marked "BINARY" bs isBinary)
    (hcharset : Optional CharsetClause cs charset)
    (hcollation : Optional CollationClause os collation) :
    longVarcharType (ofTokens (t :: (vs ++ (bs ++ (cs ++ os))))) =
      .ok (.longVarchar n isVarchar isBinary charset collation, []) := by
  have hos : Begins [.word none "COLLATE"] os := hcollation.begins fun _ _ => CollationClause.begins
  have hcs := (charset_begins hcharset).append hos
  refine typeName_bind_ok hname ?_
  refine (reads_eat "VARCHAR").bind_ok hvarchar ((hbinary.begins.append hcs).stops (by decide)) ?_
  refine reads_binary.bind_ok hbinary (hcs.stops (by decide)) ?_
  refine reads_charset.bind_ok hcharset (hos.stops (by decide)) ?_
  exact reads_collation.last_ok hcollation rfl

/-- The clauses of a type of the national character set behind its type word. -/
theorem nationalType_ok {lead : Token} {early late : Bool} (hlead : lead.IsWord "NATIONAL")
    (hname : n.Names t) (hkeyword : n.keyword ∈ [TypeKeyword.char, .character, .varchar])
    (hearly : Marked "VARYING" vs early) (hlength : Optional OneLength ns length)
    (hbinary : Marked "BINARY" bs isBinary) (hlate : Marked "VARYING" es late)
    (hvary : early = true → n.keyword ≠ .varchar)
    (hlast : late = true → n.keyword ≠ .varchar ∧ early = false)
    (hfirst : ∀ o ∈ if early then [] else [Terminal.word "VARYING"], o.Avoids (ns ++ (bs ++ es))) :
    nationalType (ofTokens (lead :: t :: (vs ++ (ns ++ (bs ++ es))))) =
      .ok (if early || late then .nationalVarying n length isBinary
        else .national .national n length isBinary, []) := by
  refine (reads_expect_word "NATIONAL").bind_ok (a := ()) ⟨lead, rfl, hlead⟩ nofun ?_
  refine reads_nationalName.bind_ok ⟨t, rfl, hname, hkeyword⟩ nofun ?_
  refine ite_eat_ok hearly (by simpa using hvary) hfirst ?_
  refine reads_oneLength.bind_ok hlength ((hbinary.begins.append hlate.begins).stops (by decide)) ?_
  refine reads_binary.bind_ok hbinary (hlate.begins.stops (by decide)) ?_
  rw [← List.append_nil es]
  refine ite_eat_ok hlate (by simpa using hlast) (fun _ _ => nofun) ?_
  cases early <;> cases late <;> rfl

/-- Behind `NCHAR` each form is taken in full, whatever stood in its place. -/
theorem ncharType_ok {lead : Token} (hname : n.Names t)
    (hlength : Optional OneLength ns length) (hbinary : Marked "BINARY" bs isBinary) :
    ncharType (ofTokens (lead :: t :: (ns ++ bs))) =
      .ok (.national .nchar n length isBinary, []) := by
  refine (bind_of_ok rfl).trans ?_
  refine typeName_bind_ok hname ?_
  refine reads_oneLength.bind_ok hlength (hbinary.begins.stops (by decide)) ?_
  exact reads_binary.last_ok hbinary rfl

section Varying

variable {lead v : Token} (hlead : lead.IsWord "NATIONAL") (hname : n.Names t)
include hlead hname

/-- `NATIONAL` without `VARYING`. -/
theorem nationalType_ok_plain
    (hkeyword : n.keyword ∈ [TypeKeyword.char, .character, .varchar])
    (hlength : Optional OneLength ns length) (hbinary : Marked "BINARY" bs isBinary) :
    nationalType (ofTokens (lead :: t :: (ns ++ bs))) =
      .ok (.national .national n length isBinary, []) := by
  have hns : Begins [.symbol .openParen] ns := hlength.begins fun _ _ => OneLength.begins
  have hfirst : (Terminal.word "VARYING").Avoids (ns ++ (bs ++ [])) := by
    rw [List.append_nil]
    exact (hns.append hbinary.begins).avoids (by decide)
  have hnational := nationalType_ok hlead hname hkeyword .absent hlength hbinary .absent
    nofun nofun (List.forall_mem_singleton.2 hfirst)
  rwa [List.append_nil] at hnational

/-- `NATIONAL` with `VARYING` behind the type word. -/
theorem nationalType_ok_first (hkeyword : n.keyword ∈ [TypeKeyword.char, .character])
    (hvarying : v.IsWord "VARYING") (hlength : Optional OneLength ns length)
    (hbinary : Marked "BINARY" bs isBinary) :
    nationalType (ofTokens (lead :: t :: v :: (ns ++ bs))) =
      .ok (.nationalVarying n length isBinary, []) := by
  have hvary : n.keyword ≠ .varchar := fun h => absurd hkeyword (by simp [h])
  have hnational := nationalType_ok hlead hname
    (List.mem_append_left [TypeKeyword.varchar] hkeyword) (.present hvarying) hlength hbinary
    .absent (fun _ => hvary) nofun nofun
  rwa [List.append_nil] at hnational

/-- `NATIONAL` with `VARYING` at the end. -/
theorem nationalType_ok_last (hkeyword : n.keyword ∈ [TypeKeyword.char, .character])
    (hlength : Optional OneLength ns length) (hbinary : Marked "BINARY" bs isBinary)
    (hvarying : v.IsWord "VARYING") :
    nationalType (ofTokens (lead :: t :: (ns ++ (bs ++ [v])))) =
      .ok (.nationalVarying n length isBinary, []) := by
  have hvary : n.keyword ≠ .varchar := fun h => absurd hkeyword (by simp [h])
  -- Without a length and `BINARY` the word stands where it is looked for first.
  have hlater (hfirst : (Terminal.word "VARYING").Avoids (ns ++ (bs ++ [v]))) :
      nationalType (ofTokens (lead :: t :: (ns ++ (bs ++ [v])))) =
        .ok (.nationalVarying n length isBinary, []) := by
    have hnational := nationalType_ok hlead hname
      (List.mem_append_left [TypeKeyword.varchar] hkeyword) .absent hlength hbinary
      (.present hvarying) nofun (fun _ => ⟨hvary, rfl⟩) (List.forall_mem_singleton.2 hfirst)
    exact hnational
  cases hlength with
  | present hlength =>
    exact hlater ((hlength.begins.append_left hlength.ne_nil _).avoids (by decide))
  | absent =>
    cases hbinary with
    | present hword => exact hlater ((Begins.word hword [v]).avoids (by decide))
    | absent =>
      have hnational := nationalType_ok_first hlead hname hkeyword hvarying .absent .absent
      exact hnational

end Varying

/-- Each form of an integer type is taken in full. -/
theorem integerType_ok {modifiers : List NumericModifier} (hname : n.Names t)
    (hlength : Optional OneLength ns length) (hmodifiers : Modifiers ms modifiers) :
    integerType (ofTokens (t :: (ns ++ ms))) =
      .ok (.measured n (length.map .one) modifiers, []) := by
  refine typeName_bind_ok hname ?_
  refine reads_oneLength.bind_ok hlength (Modifiers.begins hmodifiers |>.stops (by decide)) ?_
  exact reads_numericModifiers.last_ok hmodifiers rfl

/-- Each form of a floating point type is taken in full. -/
theorem realType_ok {ps : List Token} {precision : Bool} {modifiers : List NumericModifier}
    (hname : n.Names t) (hprecision : Marked "PRECISION" ps precision)
    (hdouble : precision = true → n.keyword = .double) (hlength : Optional TwoLengths ns length)
    (hmodifiers : Modifiers ms modifiers) :
    realType (ofTokens (t :: (ps ++ (ns ++ ms)))) =
      .ok (.measured n (length.map .two) modifiers, []) := by
  have hns : Begins [.symbol .openParen] ns := hlength.begins fun _ _ => TwoLengths.begins
  have hms := Modifiers.begins hmodifiers
  have hclauses : (do
      let length ← twoLengths
      return TypeDecl.measured n (length.map .two) (← numericModifiers)) (ofTokens (ns ++ ms)) =
        .ok (.measured n (length.map .two) modifiers, []) := by
    refine reads_twoLengths.bind_ok hlength (hms.stops (by decide)) ?_
    exact reads_numericModifiers.last_ok hmodifiers rfl
  refine typeName_bind_ok hname ?_
  split
  · have heat := (reads_eat "PRECISION").complete hprecision ((hns.append hms).stops (by decide))
    exact (bind_of_ok (discard_of_ok heat)).trans hclauses
  · cases hprecision with
    | absent => exact hclauses
    | present => exact absurd (hdouble rfl) ‹_›

/-- Each form of a type with one or two lengths is taken in full. -/
theorem decimalType_ok {modifiers : List NumericModifier} (hname : n.Names t)
    (hlength : Optional UpToTwoLengths ns length) (hmodifiers : Modifiers ms modifiers) :
    decimalType (ofTokens (t :: (ns ++ ms))) =
      .ok (.measured n (length.map .upToTwo) modifiers, []) := by
  refine typeName_bind_ok hname ?_
  refine reads_upToTwoLengths.bind_ok hlength (Modifiers.begins hmodifiers |>.stops (by decide)) ?_
  exact reads_numericModifiers.last_ok hmodifiers rfl

/-- Each form of a type of time is taken in full. -/
theorem temporalType_ok (hname : n.Names t) (hlength : Optional OneLength ns length) :
    temporalType (ofTokens (t :: ns)) = .ok (.measured n (length.map .one) [], []) :=
  typeName_bind_ok hname (reads_oneLength.last_ok hlength rfl)

/-- Each form of an enumeration or a set is taken in full, all of its members in order. -/
theorem collectionType_ok {items : List Token} (hname : n.Names t) (hne : items ≠ [])
    (hitems : ∀ u ∈ items, u.IsString) (hbinary : Marked "BINARY" bs isBinary)
    (hcharset : Optional CharsetClause cs charset) :
    collectionType (ofTokens (t :: (bracketed items ++ (bs ++ cs)))) =
      .ok (.collection n (items.map Token.text) isBinary charset, []) := by
  refine typeName_bind_ok hname ?_
  refine reads_list.bind_ok ⟨items, hne, hitems, rfl, rfl⟩ nofun ?_
  refine reads_binary.bind_ok hbinary ((charset_begins hcharset).stops (by decide)) ?_
  exact reads_charset.last_ok hcharset rfl

/-- Each form of a spatial type is taken in full. -/
theorem spatialType_ok {srid : Option String} (hname : n.Names t)
    (hsrid : Optional SridClause ts srid) :
    spatialType (ofTokens (t :: ts)) = .ok (.spatial n srid, []) :=
  typeName_bind_ok hname (reads_srid.last_ok hsrid rfl)

/-- `LONG` with a length is read as a character type. -/
theorem longLength_ok {text : String} (hname : n.Names t) (hkeyword : n.keyword = .long)
    (hlength : OneLength ns text) (htail : StringTail ts isBinary charset collation) :
    longType (ofTokens (t :: (ns ++ ts))) =
      .ok (.string n false (some text) isBinary charset collation, []) := by
  have hopens : Terminal.opens [.word "LONG", .symbol .openParen]
      (ofTokens (t :: (ns ++ ts))) = true := by
    cases hlength
    exact Bool.and_eq_true_iff.2 ⟨isWord_iff.1 (hname.isWord_of_keyword hkeyword), rfl⟩
  have hstring := stringType_ok hname .absent (.present hlength) htail
  exact bind_of_ok (choose?_of_opens hopens hstring)

/-- `LONG` without a length is read with its clauses. -/
theorem longVarchar_ok {isVarchar : Bool} (hname : n.Names t)
    (hvarchar : Marked "VARCHAR" vs isVarchar) (hbinary : Marked "BINARY" bs isBinary)
    (hcharset : Optional CharsetClause cs charset)
    (hcollation : Optional CollationClause os collation) :
    longType (ofTokens (t :: (vs ++ (bs ++ (cs ++ os))))) =
      .ok (.longVarchar n isVarchar isBinary charset collation, []) := by
  have hos : Begins [.word none "COLLATE"] os := hcollation.begins fun _ _ => CollationClause.begins
  have hrest := hvarchar.begins.append (hbinary.begins.append ((charset_begins hcharset).append hos))
  have hparen : (Terminal.symbol .openParen).Avoids (vs ++ (bs ++ (cs ++ os))) :=
    hrest.avoids (by decide)
  have hvarbinary : (Terminal.word "VARBINARY").Avoids (vs ++ (bs ++ (cs ++ os))) :=
    hrest.avoids (by decide)
  have hchoice : choose? [⟨[.word "LONG", .symbol .openParen], stringType⟩,
      ⟨[.word "LONG", .word "VARBINARY"], longVarbinaryType⟩]
        (ofTokens (t :: (vs ++ (bs ++ (cs ++ os))))) =
          .ok (none, ofTokens (t :: (vs ++ (bs ++ (cs ++ os))))) :=
    (choose?_of_not_opens (hparen.opens_behind (.word "LONG") t)).trans
      (choose?_of_not_opens (hvarbinary.opens_behind (.word "LONG") t))
  refine (bind_of_ok hchoice).trans ?_
  exact longVarcharType_ok hname hvarchar hbinary hcharset hcollation

end Clauses

/-- `LONG VARBINARY` is read. -/
theorem longVarbinary_ok {m : TypeName} {u : Token} (hname : n.Names t)
    (hkeyword : n.keyword = .long) (hother : m.Names u) (hvarbinary : m.keyword = .varbinary) :
    longType (ofTokens [t, u]) = .ok (.longVarbinary n m, []) := by
  have hlong := isWord_iff.1 (hname.isWord_of_keyword hkeyword)
  have hu := hother.isWord_of_keyword hvarbinary
  have hparen : (Terminal.symbol .openParen).Avoids [u] := (Begins.word hu []).avoids (by decide)
  have hopens : Terminal.opens [.word "LONG", .word "VARBINARY"] (ofTokens [t, u]) = true :=
    Bool.and_eq_true_iff.2 ⟨hlong, Bool.and_eq_true_iff.2 ⟨isWord_iff.1 hu, rfl⟩⟩
  have hboth : longVarbinaryType (ofTokens [t, u]) = .ok (.longVarbinary n m, []) :=
    typeName_bind_ok hname (typeName_bind_ok hother rfl)
  have hchoice : choose? [⟨[.word "LONG", .symbol .openParen], stringType⟩,
      ⟨[.word "LONG", .word "VARBINARY"], longVarbinaryType⟩] (ofTokens [t, u]) =
        .ok (some (.longVarbinary n m), []) :=
    (choose?_of_not_opens (hparen.opens_behind (.word "LONG") t)).trans
      (choose?_of_opens hopens hboth)
  exact bind_of_ok hchoice

/-- A type word decides for the rule of its family, unless it is `NCHAR` in front of `VARCHAR`. -/
theorem dataType_of_familyType {family : TypeFamily} (hname : n.Names t)
    (hfamily : n.keyword.family = family)
    (hnchar : n.keyword = .nchar → (Terminal.word "VARCHAR").Avoids us)
    (h : familyType family (ofTokens (t :: us)) = .ok (decl, [])) :
    dataType (ofTokens (t :: us)) = .ok (decl, []) := by
  -- The two forms that are tried before begin with other words.
  have hnational : Terminal.opens [.word "NATIONAL"] (ofTokens (t :: us)) = false := by
    have haccepts : (Terminal.word "NATIONAL").accepts t = false := by
      rw [hname.isWord.accepts_eq]
      cases n.keyword <;> rfl
    exact (congrArg (· && _) haccepts).trans (Bool.false_and _)
  have hvarchar : Terminal.opens [.word "NCHAR", .word "VARCHAR"] (ofTokens (t :: us)) = false :=
    Bool.and_eq_false_imp.2 fun ht =>
      (hnchar (hname.keyword_eq (k := .nchar) (isWord_iff.2 ht))).opens []
  have hpeek : peekTypeKeyword? (ofTokens (t :: us)) = .ok (some n.keyword, ofTokens (t :: us)) := by
    have hword : TypeName.ofToken? t = some n := TypeName.ofToken?_eq_some_iff.2 hname
    simp [peekTypeKeyword?, ofTokens, hword]
  have hchoice : choose? [⟨[.word "NATIONAL"], nationalType⟩,
      ⟨[.word "NCHAR", .word "VARCHAR"], ncharType⟩] (ofTokens (t :: us)) =
        .ok (none, ofTokens (t :: us)) :=
    (choose?_of_not_opens hnational).trans (choose?_of_not_opens hvarchar)
  refine (bind_of_ok hchoice).trans ((bind_of_ok hpeek).trans ?_)
  subst hfamily
  exact h

/-- `NATIONAL` decides for its rule. -/
theorem dataType_of_nationalType {lead : Token} (hlead : lead.IsWord "NATIONAL")
    (h : nationalType (ofTokens (lead :: us)) = .ok (decl, [])) :
    dataType (ofTokens (lead :: us)) = .ok (decl, []) := by
  have hopens : Terminal.opens [.word "NATIONAL"] (ofTokens (lead :: us)) = true :=
    Bool.and_eq_true_iff.2 ⟨isWord_iff.1 hlead, rfl⟩
  exact bind_of_ok (choose?_of_opens hopens h)

/-- `NCHAR` in front of `VARCHAR` decides for its rule. -/
theorem dataType_of_ncharType {lead : Token} (hlead : lead.IsWord "NCHAR") (hname : n.Names t)
    (hkeyword : n.keyword = .varchar)
    (h : ncharType (ofTokens (lead :: t :: us)) = .ok (decl, [])) :
    dataType (ofTokens (lead :: t :: us)) = .ok (decl, []) := by
  have hnational : (Terminal.word "NATIONAL").Avoids (lead :: t :: us) :=
    (Begins.word hlead _).avoids (by decide)
  have hvarchar := isWord_iff.1 (hname.isWord_of_keyword hkeyword)
  have hopens : Terminal.opens [.word "NCHAR", .word "VARCHAR"]
      (ofTokens (lead :: t :: us)) = true :=
    Bool.and_eq_true_iff.2 ⟨isWord_iff.1 hlead, Bool.and_eq_true_iff.2 ⟨hvarchar, rfl⟩⟩
  exact bind_of_ok ((choose?_of_not_opens (hnational.opens [])).trans (choose?_of_opens hopens h))

/-- No other word than those of the string family is `NCHAR`. -/
theorem ne_nchar_of_family {k : TypeKeyword} {family : TypeFamily} (h : k.family = family)
    (hne : family ≠ .string) : k ≠ .nchar := by
  rintro rfl
  exact hne h.symm

/-- A form of a data type is taken in full. -/
theorem dataType_of_form (h : Form ts decl) : dataType (ofTokens ts) = .ok (decl, []) := by
  -- Of the words that begin a form only `NCHAR` does not decide for a rule by itself.
  have hother {n : TypeName} {family : TypeFamily} {us : List Token}
      (hfamily : n.keyword.family = family) (hne : family ≠ .string) (hnchar : n.keyword = .nchar) :
      (Terminal.word "VARCHAR").Avoids us :=
    absurd hnchar (ne_nchar_of_family hfamily hne)
  cases h with
  | national hlead hname hkeyword hlength hbinary =>
    exact dataType_of_nationalType hlead
      (nationalType_ok_plain hlead hname hkeyword hlength hbinary)
  | nationalVarying hlead hname hkeyword hvarying hlength hbinary =>
    exact dataType_of_nationalType hlead
      (nationalType_ok_first hlead hname hkeyword hvarying hlength hbinary)
  | nationalVaryingLast hlead hname hkeyword hlength hbinary hvarying =>
    exact dataType_of_nationalType hlead
      (nationalType_ok_last hlead hname hkeyword hlength hbinary hvarying)
  | nchar hlead hname hkeyword hlength hbinary =>
    exact dataType_of_ncharType hlead hname hkeyword (ncharType_ok hname hlength hbinary)
  | string hname hfamily hvarying hlength htail =>
    refine dataType_of_familyType hname hfamily (fun _ => ?_)
      (stringType_ok hname hvarying hlength htail)
    exact (hvarying.begins.append ((hlength.begins fun _ _ => OneLength.begins).append
      htail.begins)).avoids (by decide)
  | longLength hname hkeyword hlength htail =>
    exact dataType_of_familyType hname (congrArg TypeKeyword.family hkeyword) (by simp [hkeyword])
      (longLength_ok hname hkeyword hlength htail)
  | longVarbinary hname hkeyword hother hvarbinary =>
    exact dataType_of_familyType hname (congrArg TypeKeyword.family hkeyword) (by simp [hkeyword])
      (longVarbinary_ok hname hkeyword hother hvarbinary)
  | longVarchar hname hkeyword hvarchar hbinary hcharset hcollation =>
    exact dataType_of_familyType hname (congrArg TypeKeyword.family hkeyword) (by simp [hkeyword])
      (longVarchar_ok hname hvarchar hbinary hcharset hcollation)
  | integer hname hfamily hlength hmodifiers =>
    exact dataType_of_familyType hname hfamily (hother hfamily nofun)
      (integerType_ok hname hlength hmodifiers)
  | real hname hfamily hprecision hdouble hlength hmodifiers =>
    exact dataType_of_familyType hname hfamily (hother hfamily nofun)
      (realType_ok hname hprecision hdouble hlength hmodifiers)
  | decimal hname hfamily hlength hmodifiers =>
    exact dataType_of_familyType hname hfamily (hother hfamily nofun)
      (decimalType_ok hname hlength hmodifiers)
  | temporal hname hfamily hlength =>
    exact dataType_of_familyType hname hfamily (hother hfamily nofun)
      (temporalType_ok hname hlength)
  | simple hname hfamily =>
    exact dataType_of_familyType hname hfamily (hother hfamily nofun) (typeName_bind_ok hname rfl)
  | collection hname hfamily hne hitems hbinary hcharset =>
    exact dataType_of_familyType hname hfamily (hother hfamily nofun)
      (collectionType_ok hname hne hitems hbinary hcharset)
  | spatial hname hfamily hsrid =>
    exact dataType_of_familyType hname hfamily (hother hfamily nofun)
      (spatialType_ok hname hsrid)

/-! ## The grammar and the forms -/

/-- Lexemes with the same tokens are taken alike. -/
theorem dataType_of_tokens (h : dataType (ofTokens (tokens ls)) = .ok (decl, [])) :
    dataType ls = .ok (decl, []) :=
  (dataType_steady .textEnd).ok_of_tokens h (tokens_ofTokens _).symm

/-- A text is read to its end as a data type exactly if its tokens are a form of it. -/
theorem dataType_eq_ok_iff_form : dataType ls = .ok (decl, []) ↔ Form (tokens ls) decl := by
  constructor
  · intro h
    obtain ⟨ts, hts, hform⟩ := dataType_takesForm h
    rw [tokens_nil, List.append_nil] at hts
    rwa [hts]
  · exact fun h => dataType_of_tokens (dataType_of_form h)

/-- A run of tokens is a form of one declaration only. -/
theorem form_unique {other : TypeDecl} (h : Form ts decl) (hother : Form ts other) :
    decl = other := by
  have heq := (dataType_of_form h).symm.trans (dataType_of_form hother)
  exact congrArg Prod.fst (Except.ok.inj heq)

/-- Lexemes are read as a declaration exactly if their tokens are a form of it. -/
theorem readAll_dataType_iff_form : dataType.readAll ls = .ok decl ↔ Form (tokens ls) decl := by
  rw [readAll_eq_ok, dataType_eq_ok_iff_form]

end Grammar

end TableSchema
