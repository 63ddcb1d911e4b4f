import TableSchema.Proofs.Column.Default
import TableSchema.Proofs.DataType.Source

/-!
# Literals without their quotes

A literal is written between two quotes, perhaps with a lead in front: the letter of its kind, or a
word that introduces it. Quotes are taken off at the ends of the whole text only. So a literal
without a lead loses both of them, and a literal with a lead keeps the first one, unless nothing
stands between them. Default values and the members of enumerations and sets come out so.

## Main definitions

* `strippedLiteral`: a literal without the quotes at its ends;
* `DefaultValue.OneLiteral`: the expressions that are one literal.

## Main results

* `Text.stripQuotes_literal`: what stripping the quotes leaves of a literal;
* `ColumnDecl.literals_stripped`: what a column keeps of its default value and of its members.
-/

namespace TableSchema

open Text

/-! ## One literal -/

/-- What stands in front of the first quote of a literal. -/
def LiteralKind.lead : LiteralKind → String
  | single | double => ""
  | national => "N"
  | escaped => "E"
  | hex => "X"
  | singleBits | doubleBits => "b"

/-- The quotes of a literal. -/
def LiteralKind.mark : LiteralKind → Char
  | double | doubleBits => '"'
  | single | national | escaped | hex | singleBits => '\''

/-- A literal with its lead and its quotes. -/
def quotedLiteral (lead : String) (mark : Char) (body : String) : String :=
  lead ++ String.singleton mark ++ body ++ String.singleton mark

/-- A literal without the quotes at its ends. If it has a lead, the quote behind the lead stands at
no end, unless the literal is empty. -/
def strippedLiteral (lead : String) (mark : Char) (body : String) : String :=
  if lead = "" ∨ body = "" then lead ++ body else lead ++ String.singleton mark ++ body

/-- A literal is written with its lead and its quotes. -/
theorem LiteralKind.text_eq (kind : LiteralKind) (body : String) :
    (Token.literal kind body).text = quotedLiteral kind.lead kind.mark body := by
  rw [← String.toList_inj]
  cases kind <;> simp [Token.text, Token.literalText, quotedLiteral, lead, mark]

namespace Text

/-- The text has no quotation marks. -/
def IsUnquoted (s : String) : Prop :=
  ∀ c ∈ s.toList, isQuote c = false

instance (s : String) : Decidable (IsUnquoted s) :=
  List.decidableBAll (fun c => isQuote c = false) s.toList

end Text

theorem LiteralKind.isUnquoted_lead (kind : LiteralKind) : IsUnquoted kind.lead := by
  cases kind <;> decide

theorem LiteralKind.isQuote_mark (kind : LiteralKind) : isQuote kind.mark = true := by
  cases kind <;> rfl

namespace Text

/-- A text without quotation marks is left as it is. -/
theorem stripQuotes_of_isUnquoted {s : String} (h : IsUnquoted s) : stripQuotes s = s := by
  rw [stripQuotes, strip, stripChars_of_forall h, String.ofList_toList]

/-- The quotes at both ends of a literal are taken off, but the one behind a lead stays. -/
theorem stripQuotes_literal {lead body : String} {mark : Char} (hlead : IsUnquoted lead)
    (hmark : isQuote mark = true) (hbody : IsUnquoted body) :
    stripQuotes (quotedLiteral lead mark body) = strippedLiteral lead mark body := by
  have hmarks : ∀ c ∈ [mark], isQuote c = true := List.forall_mem_singleton.2 hmark
  have hlist : (quotedLiteral lead mark body).toList =
      lead.toList ++ (([mark] ++ body.toList) ++ [mark]) := by
    simp [quotedLiteral]
  rw [stripQuotes, strip, hlist, ← String.toList_inj, String.toList_ofList]
  by_cases hempty : lead = ""
  · -- Both quotes stand at an end.
    rw [strippedLiteral, if_pos (.inl hempty), hempty, String.toList_append, String.toList_empty,
      List.nil_append, List.nil_append, stripChars_append_right hmarks,
      stripChars_append_left hmarks, stripChars_of_forall hbody]
  · have hne : lead.toList ≠ [] := mt String.toList_eq_nil_iff.1 hempty
    rw [stripChars_append_of_forall hne hlead, List.rdropWhile_concat_pos _ _ _ hmark]
    by_cases hnothing : body = ""
    · rw [strippedLiteral, if_pos (.inr hnothing), hnothing, String.toList_empty, List.append_nil,
        List.rdropWhile_singleton, if_pos hmark, String.append_empty, List.append_nil]
    · -- The last character of the body is no quote, so nothing more is taken off.
      obtain hnil | ⟨front, last, hconcat⟩ := List.eq_nil_or_concat body.toList
      · exact absurd (String.toList_eq_nil_iff.1 hnil) hnothing
      · rw [List.concat_eq_append] at hconcat
        have hlast : isQuote last = false := hbody last (by simp [hconcat])
        have hkept : ([mark] ++ body.toList).rdropWhile isQuote = [mark] ++ body.toList := by
          rw [hconcat, ← List.append_assoc, List.rdropWhile_concat_neg _ _ _ (by simp [hlast])]
        rw [hkept, strippedLiteral, if_neg (not_or.2 ⟨hempty, hnothing⟩)]
        simp

/-- A stripped literal has no quotes exactly if it has no lead or nothing between its quotes. -/
theorem isUnquoted_strippedLiteral_iff {lead body : String} {mark : Char} (hlead : IsUnquoted lead)
    (hmark : isQuote mark = true) (hbody : IsUnquoted body) :
    IsUnquoted (strippedLiteral lead mark body) ↔ lead = "" ∨ body = "" := by
  unfold strippedLiteral
  split
  · rename_i hempty
    have hboth : IsUnquoted (lead ++ body) := by
      intro c hc
      rw [String.toList_append, List.mem_append] at hc
      exact hc.elim (hlead c) (hbody c)
    exact iff_of_true hboth hempty
  · rename_i hnonempty
    refine iff_of_false (fun h => ?_) hnonempty
    have hunquoted : isQuote mark = false := h mark (by simp)
    rw [hmark] at hunquoted
    exact nomatch hunquoted

/-- The quotation marks. -/
theorem mem_of_isQuote {c : Char} (h : isQuote c = true) : c ∈ ['\'', '"', '\x60'] := by
  simpa [isQuote, or_assoc] using h

/-- A text is unquoted if no quotation mark occurs in it. -/
theorem isUnquoted_of_not_mem {s : String} (h : ∀ c ∈ ['\'', '"', '\x60'], c ∉ s.toList) :
    IsUnquoted s := by
  intro c hc
  by_contra hquote
  rw [Bool.not_eq_false] at hquote
  exact h c (mem_of_isQuote hquote) hc

/-- Leaving out control characters takes no quote away. -/
theorem isUnquoted_without_iff (s : String) : IsUnquoted (without isControl s) ↔ IsUnquoted s := by
  have hkept : ∀ c ∈ ['\'', '"', '\x60'], isControl c = false :=
    List.all_iff_forall_prop.1 (by decide)
  have hquote : ∀ c ∈ ['\'', '"', '\x60'], isQuote c = true :=
    List.all_iff_forall_prop.1 (by decide)
  constructor
  · refine fun h => isUnquoted_of_not_mem fun c hc hmem => ?_
    have hunquoted : isQuote c = false := by
      refine h c ?_
      rw [without, String.toList_ofList, List.mem_filter]
      exact ⟨hmem, by simp [hkept c hc]⟩
    exact Bool.eq_false_iff.1 hunquoted (hquote c hc)
  · intro h c hc
    rw [without, String.toList_ofList] at hc
    exact h c (List.mem_of_mem_filter hc)

end Text

/-! ## Default values -/

namespace DefaultValue

/-- The expression is one literal, with these parts. A literal between single quotes may have an
introducer in front. -/
inductive OneLiteral : List Token → String → Char → String → Prop
  | plain (kind : LiteralKind) (body : String) :
    OneLiteral [.literal kind body] kind.lead kind.mark body
  | introduced {value : String} (h : Grammar.isIntroducer (.word none value) = true)
      (body : String) : OneLiteral [.word none value, .literal .single body] value '\'' body

variable {ts : List Token} {lead body : String} {mark : Char}

/-- The text of a literal. -/
theorem OneLiteral.glue_eq (h : OneLiteral ts lead mark body) :
    Token.glue ts = quotedLiteral lead mark body := by
  cases h with
  | plain kind body =>
    rw [Token.glue_singleton, kind.text_eq]
  | @introduced value h body =>
    rw [Token.glue_cons, Token.glue_singleton, LiteralKind.text_eq, ← String.toList_inj]
    simp [quotedLiteral, LiteralKind.lead, LiteralKind.mark, Token.text, Token.wordText]

/-- The quotes of a literal are quotes. -/
theorem OneLiteral.isQuote_mark (h : OneLiteral ts lead mark body) : isQuote mark = true := by
  cases h with
  | plain kind body => exact kind.isQuote_mark
  | introduced h body => rfl

/-- What stands in front of the quotes is a letter or a word, and has no quotes itself. -/
theorem OneLiteral.isUnquoted_lead (h : OneLiteral ts lead mark body)
    (hlegible : ∀ t ∈ ts, t.Legible) : IsUnquoted lead := by
  cases h with
  | plain kind body => exact kind.isUnquoted_lead
  | @introduced value h body =>
    obtain ⟨_, ⟨⟩, hvalue⟩ := isIntroducer_iff.1 h
    -- Behind an at sign a word may hold a quote, but no introducer begins with one.
    have hat : lead.toList.head? ≠ some '@' := by
      rcases hvalue with hhead | hletter
      · rw [hhead]
        decide
      · have hletters : ∀ letter ∈ ["b", "B", "x", "X"], letter.toList.head? ≠ some '@' := by decide
        exact hletters lead hletter
    have hparts := (hlegible _ List.mem_cons_self).word_isPart hat
    have hquotes : ∀ c ∈ ['\'', '"', '\x60'], ¬ (isWordPart c = true ∨ c = '.') :=
      List.all_iff_forall_prop.1 (by decide +kernel)
    exact isUnquoted_of_not_mem fun c hc hmem => hquotes c hc (hparts c hmem)

/-- A literal with a lead is not taken for `NULL`. -/
theorem OneLiteral.not_spellsNull (h : OneLiteral ts lead mark body) (hlead : lead ≠ "")
    (hexpression : Expression ts) (hlegible : ∀ t ∈ ts, t.Legible) :
    ¬ SpellsNull (Token.glue ts) := by
  rw [hexpression.spellsNull_iff hlegible]
  -- The bare word is no literal, and literals between plain quotes have no lead.
  rintro (⟨t, hts, hnull⟩ | ⟨⟨kind, hkind, body', others, hts, -⟩, -⟩)
  · cases h with
    | plain kind body =>
      obtain rfl := List.singleton_inj.1 hts
      exact nomatch hnull
    | introduced h body => exact nomatch hts
  · cases h with
    | plain other body =>
      obtain ⟨rfl, -⟩ := Token.literal.inj (List.cons.inj hts).1
      simp only [List.mem_cons, List.not_mem_nil, or_false] at hkind
      rcases hkind with rfl | rfl <;> exact hlead rfl
    | introduced h body => exact nomatch hts

/-- The default value that a literal gives. The quotes of a literal with a lead are not both taken
off, so it is not taken for `NULL`. -/
theorem OneLiteral.ofText_glue (h : OneLiteral ts lead mark body) (hexpression : Expression ts)
    (hlegible : ∀ t ∈ ts, t.Legible) (hbody : IsUnquoted body) :
    (lead = "" → ofText (Token.glue ts) = ofText body) ∧
    (lead ≠ "" → ofText (Token.glue ts) =
      ⟨without isControl (strippedLiteral lead mark body), true⟩) := by
  have hclean : cleanIdentifier (Token.glue ts) =
      without isControl (strippedLiteral lead mark body) := by
    rw [cleanIdentifier_eq_without, h.glue_eq,
      stripQuotes_literal (h.isUnquoted_lead hlegible) h.isQuote_mark hbody]
  constructor
  · intro hlead
    have hsame : cleanIdentifier (Token.glue ts) = cleanIdentifier body := by
      rw [hclean, cleanIdentifier_eq_without, stripQuotes_of_isUnquoted hbody, strippedLiteral,
        if_pos (.inl hlead), hlead, String.empty_append]
    unfold ofText
    rw [hsame]
  · intro hlead
    rw [ofText_of_not_spellsNull (h.not_spellsNull hlead hexpression hlegible), hclean]

/-- The default value that a literal gives has no quotes exactly if nothing stands in front of the
quotes of the literal, or nothing between them. -/
theorem OneLiteral.isUnquoted_value_iff (h : OneLiteral ts lead mark body)
    (hexpression : Expression ts) (hlegible : ∀ t ∈ ts, t.Legible) (hbody : IsUnquoted body) :
    IsUnquoted (ofText (Token.glue ts)).value ↔ lead = "" ∨ body = "" := by
  obtain ⟨hplain, hled⟩ := h.ofText_glue hexpression hlegible hbody
  by_cases hlead : lead = ""
  · refine iff_of_true ?_ (.inl hlead)
    rw [hplain hlead]
    by_cases hnull : SpellsNull body
    · rw [ofText_of_spellsNull hnull]
      exact nofun
    · rw [ofText_of_not_spellsNull hnull, cleanIdentifier_eq_without]
      show IsUnquoted (without isControl (stripQuotes body))
      rw [isUnquoted_without_iff, stripQuotes_of_isUnquoted hbody]
      exact hbody
  · -- Control characters aside, the value is the stripped literal.
    rw [hled hlead, isUnquoted_without_iff]
    exact isUnquoted_strippedLiteral_iff (h.isUnquoted_lead hlegible) h.isQuote_mark hbody

end DefaultValue

/-! ## Members -/

/-- A string literal: what stands between its quotes, and its kind. -/
structure StringLiteral where
  kind : LiteralKind
  body : String
  isString : kind ∈ [LiteralKind.single, .double, .national]

namespace StringLiteral

/-- The token of a string literal. -/
def token (s : StringLiteral) : Token :=
  .literal s.kind s.body

/-- The text of a string literal, without the quotes at its ends. -/
def stripped (s : StringLiteral) : String :=
  strippedLiteral s.kind.lead s.kind.mark s.body

/-- Tokens that are string literals. -/
theorem exists_map_token {ts : List Token} (h : ∀ t ∈ ts, t.IsString) :
    ∃ literals : List StringLiteral, ts = literals.map token := by
  induction ts with
  | nil => exact ⟨[], rfl⟩
  | cons t ts ih =>
    obtain ⟨⟨kind, hkind, body, rfl⟩, hts⟩ := List.forall_mem_cons.1 h
    obtain ⟨literals, rfl⟩ := ih hts
    exact ⟨⟨kind, body, hkind⟩ :: literals, rfl⟩

/-- The quotes at the ends of a string literal are taken off. -/
theorem stripQuotes_text {s : StringLiteral} (h : IsUnquoted s.body) :
    stripQuotes s.token.text = s.stripped := by
  have hlead : IsUnquoted s.kind.lead := s.kind.isUnquoted_lead
  rw [token, s.kind.text_eq, stripQuotes_literal hlead s.kind.isQuote_mark h, stripped]

/-- Exactly what stands between the quotes is left, unless it is a national literal. -/
theorem stripped_eq_body_iff (s : StringLiteral) : s.stripped = s.body ↔ s.kind ≠ .national := by
  obtain ⟨kind, body, hkind⟩ := s
  show strippedLiteral kind.lead kind.mark body = body ↔ kind ≠ .national
  simp only [List.mem_cons, List.not_mem_nil, or_false] at hkind
  unfold strippedLiteral
  rcases hkind with rfl | rfl | rfl
  · simp [LiteralKind.lead]
  · simp [LiteralKind.lead]
  · -- What is left is longer than the body.
    refine iff_of_false (fun h => ?_) (not_not_intro rfl)
    have hlength := congrArg String.length h
    split at hlength <;> simp [LiteralKind.lead] at hlength

end StringLiteral

namespace TypeDecl

open Resolve

/-- The members of an enumeration or a set are its literals, in order, without the quotes at their
ends. -/
theorem members_of_collection (name : TypeName) {literals : List StringLiteral} (binary : Bool)
    (charset : Option Charset) (h : ∀ s ∈ literals, IsUnquoted s.body) :
    Always (·.members = literals.map StringLiteral.stripped)
      (TypeDecl.collection name ((literals.map StringLiteral.token).map Token.text) binary
        charset).resolve := by
  have hstripped : ((literals.map StringLiteral.token).map Token.text).map stripQuotes =
      literals.map StringLiteral.stripped := by
    rw [List.map_map, List.map_map]
    exact List.map_congr_left fun s hs => StringLiteral.stripQuotes_text (h s hs)
  refine .pure ?_
  rw [DataType.withBinary_eq, ← hstripped]

end TypeDecl

/-! ## The literals of a column -/

namespace ColumnDecl

open DefaultValue Resolve

variable {decl : ColumnDecl} {text : String} {types : List Token} {clauses : List (List Token)}

/-- The members of a column are those of its data type. -/
theorem members_of_type {members : List String} (h : Always (·.members = members) decl.type.resolve) :
    Always (fun r => r.1.members = members) decl.resolve :=
  h.bind fun _ hmembers => .bind_any fun _ => .pure hmembers

/-- The list of an enumeration or a set is written behind its name. -/
theorem WrittenAs.literals (h : decl.WrittenAs text types clauses) {name : TypeName}
    {texts : List String} {binary : Bool} {charset : Option Charset}
    (htype : decl.type = .collection name texts binary charset) :
    ∃ t more, ∃ literals : List StringLiteral,
      types = t :: (Token.bracketed (literals.map StringLiteral.token) ++ more) ∧
        texts = (literals.map StringLiteral.token).map Token.text := by
  have hform := h.type
  rw [htype] at hform
  cases hform with
  | @collection t _ items bs cs _ _ hname hfamily hne hitems hbinary hcharset =>
    obtain ⟨literals, rfl⟩ := StringLiteral.exists_map_token hitems
    exact ⟨t, bs ++ cs, literals, rfl, rfl⟩

/-- What is left of the literals of a column that have no quotes between their quotes. A literal as
default value has quotes left exactly if there is something in front of its quotes and between them.
The members of an enumeration or a set are exactly what stands between the quotes of its literals,
as long as none of them is a national one. -/
theorem literals_stripped (h : ColumnDecl.parse text = .ok decl) :
    (∃ types clauses, decl.WrittenAs text types clauses) ∧
    ∀ types clauses, decl.WrittenAs text types clauses → ∀ ds,
      (∀ expression ∈ (clauses.filterMap defaultExpression?).getLast?, ∀ lead mark body,
        OneLiteral expression lead mark body → IsUnquoted body →
          ∃ value : DefaultValue, (decl.resolve.run ds).1.2.defaultValue = some value ∧
            (lead = "" → value = ofText body) ∧
            (lead ≠ "" → value = ⟨without isControl (strippedLiteral lead mark body), true⟩) ∧
            (IsUnquoted value.value ↔ lead = "" ∨ body = "")) ∧
      (∀ name texts binary charset, decl.type = .collection name texts binary charset →
        ∃ t more, ∃ literals : List StringLiteral,
          types = t :: (Token.bracketed (literals.map StringLiteral.token) ++ more) ∧
            ((∀ s ∈ literals, IsUnquoted s.body) →
              (decl.resolve.run ds).1.1.members = literals.map StringLiteral.stripped ∧
              ((decl.resolve.run ds).1.1.members = literals.map StringLiteral.body ↔
                ∀ s ∈ literals, s.kind ≠ .national))) := by
  refine ⟨exists_writtenAs h, fun types clauses hwritten ds => ⟨?_, ?_⟩⟩
  -- The default value is that of the last clause that gives one, and it is one literal.
  · intro expression hlast lead mark body hliteral hbody
    obtain ⟨hexpression, hlegible⟩ := hwritten.expression hlast
    refine ⟨ofText (Token.glue expression), ?_, ?_⟩
    · rw [hwritten.defaultValue_eq ds, hlast, Option.map_some, Function.comp_apply]
    · obtain ⟨hplain, hled⟩ := hliteral.ofText_glue hexpression hlegible hbody
      exact ⟨hplain, hled, hliteral.isUnquoted_value_iff hexpression hlegible hbody⟩
  · intro name texts binary charset htype
    obtain ⟨t, more, literals, htypes, rfl⟩ := hwritten.literals htype
    refine ⟨t, more, literals, htypes, fun hbodies => ?_⟩
    have htypes : Always (·.members = literals.map StringLiteral.stripped) decl.type.resolve := by
      rw [htype]
      exact TypeDecl.members_of_collection name binary charset hbodies
    have hmembers : (decl.resolve.run ds).1.1.members = literals.map StringLiteral.stripped :=
      members_of_type htypes ds
    refine ⟨hmembers, ?_⟩
    rw [hmembers, List.map_inj_left]
    exact forall₂_congr fun s _ => s.stripped_eq_body_iff

/-- A column with a national literal as default value. -/
theorem parse_national :
    ColumnDecl.parse "INT DEFAULT N'a'" =
        .ok ⟨.measured ⟨.int, "INT"⟩ none [], [.default "N'a'"]⟩ ∧
      (⟨.measured ⟨.int, "INT"⟩ none [], [.default "N'a'"]⟩ : ColumnDecl).WrittenAs
        "INT DEFAULT N'a'" [.word none "INT"] [[.word none "DEFAULT", .literal .national "a"]] := by
  have hread : (Token.literal .national "a").ReadsBefore [] := ⟨'N', _, _, rfl, rfl⟩
  obtain ⟨hparse, hwritten⟩ := parse_default ⟨.national, by decide, "a", rfl⟩ hread
  exact ⟨hparse, hwritten⟩

/-- A national literal keeps a quote. -/
theorem literals_stripped_of_national :
    ColumnDecl.parse "INT DEFAULT N'a'" =
        .ok ⟨.measured ⟨.int, "INT"⟩ none [], [.default "N'a'"]⟩ ∧
      ∀ ds, ((⟨.measured ⟨.int, "INT"⟩ none [], [.default "N'a'"]⟩ : ColumnDecl).resolve.run
        ds).1.2.defaultValue = some ⟨"N'a", true⟩ := by
  obtain ⟨hparse, hwritten⟩ := parse_national
  refine ⟨hparse, fun ds => ?_⟩
  obtain ⟨value, hvalue, -, hled, -⟩ := ((literals_stripped hparse).2 _ _ hwritten ds).1 _ rfl
    "N" '\'' "a" (.plain .national "a") (by decide)
  obtain rfl : value = ⟨"N'a", true⟩ := (hled (by decide)).trans (by decide)
  exact hvalue

/-- A column that is an enumeration with a national literal as its member. -/
theorem parse_enum :
    ColumnDecl.parse "ENUM(N'a')" =
        .ok ⟨.collection ⟨.enumeration, "ENUM"⟩ ["N'a'"] false none, []⟩ ∧
      (⟨.collection ⟨.enumeration, "ENUM"⟩ ["N'a'"] false none, []⟩ : ColumnDecl).WrittenAs
        "ENUM(N'a')" (.word none "ENUM" :: (Token.bracketed [.literal .national "a"] ++ []))
        [] := by
  have htokens : Lexeme.ofString "ENUM(N'a')" = .ok
      [⟨.word none "ENUM", ⟨1, 1⟩, ⟨1, 5⟩⟩, ⟨.symbol .openParen, ⟨1, 5⟩, ⟨1, 6⟩⟩,
        ⟨.literal .national "a", ⟨1, 6⟩, ⟨1, 10⟩⟩, ⟨.symbol .closeParen, ⟨1, 10⟩, ⟨1, 11⟩⟩] := by
    decide +kernel
  have hname : (TypeName.mk .enumeration "ENUM").Names (.word none "ENUM") := ⟨rfl, by decide⟩
  have hform : TypeDecl.Form (.word none "ENUM" :: (Token.bracketed [.literal .national "a"] ++ []))
      (.collection ⟨.enumeration, "ENUM"⟩ ["N'a'"] false none) :=
    .collection hname rfl (List.cons_ne_nil _ _)
      (List.forall_mem_singleton.2 ⟨.national, by decide, "a", rfl⟩) .absent .absent
  exact ⟨by decide +kernel, ⟨_, htokens, rfl⟩, hform, .nil⟩

/-- So it is not true that no default value that is a literal keeps a quote, and not true that the
members of an enumeration or a set are what stands between the quotes of its literals. -/
theorem not_forall_literals_stripped :
    (¬ ∀ text decl, ColumnDecl.parse text = .ok decl →
      ∀ types clauses, decl.WrittenAs text types clauses → ∀ ds,
        ∀ expression ∈ (clauses.filterMap defaultExpression?).getLast?, ∀ lead mark body,
          OneLiteral expression lead mark body → IsUnquoted body →
            ∀ value ∈ (decl.resolve.run ds).1.2.defaultValue, IsUnquoted value.value) ∧
    ¬ ∀ text decl, ColumnDecl.parse text = .ok decl →
      ∀ types clauses, decl.WrittenAs text types clauses → ∀ ds,
        ∀ name texts binary charset, decl.type = .collection name texts binary charset →
          ∀ t more, ∀ literals : List StringLiteral,
            types = t :: (Token.bracketed (literals.map StringLiteral.token) ++ more) →
              (∀ s ∈ literals, IsUnquoted s.body) →
                (decl.resolve.run ds).1.1.members = literals.map StringLiteral.body := by
  constructor
  · intro h
    obtain ⟨hparse, hwritten⟩ := parse_national
    have hunquoted : IsUnquoted "N'a" := h _ _ hparse _ _ hwritten .empty _ rfl "N" '\'' "a"
      (.plain .national "a") (by decide) ⟨"N'a", true⟩ (by decide)
    revert hunquoted
    decide
  · intro h
    obtain ⟨hparse, hwritten⟩ := parse_enum
    have hmembers : ["N'a"] = ["a"] := h _ _ hparse _ _ hwritten .empty _ _ _ _ rfl _ _
      [⟨.national, "a", by decide⟩] rfl (by decide)
    revert hmembers
    decide

end ColumnDecl

end TableSchema
