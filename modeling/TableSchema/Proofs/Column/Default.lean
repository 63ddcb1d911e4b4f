import Mathlib.Data.Bool.AllAny
import TableSchema.Column.Resolve
import TableSchema.Proofs.Column.Summary
import TableSchema.Proofs.Text.Strip
import TableSchema.Proofs.Token.Characters

/-!
# Default values

A column has a default value exactly if one of its clauses begins with `DEFAULT`, and the last of
these decides. Its expression stands for `NULL` if its text, without the quotes at its ends and
without control characters, begins with `NULL`. The only expressions that do are the bare word and
literals between quotes: the other ones begin with a character of their own, or with an `N` and
something else than a `U`.

## Main definitions

* `DefaultValue.SpellsNull`: the text is taken for `NULL`;
* `DefaultValue.IsNull`, `DefaultValue.IsQuoted`: the expression is the bare word, or text between
  quotes.

## Main results

* `DefaultValue.Expression.spellsNull_iff`: the expressions that are taken for `NULL`;
* `ColumnDecl.defaultValue_states`: the default value of a column, read off its tokens.
-/

namespace TableSchema

open Token

namespace Text

theorem upper_append (s t : String) :
    Unicode.upper (s ++ t) = Unicode.upper s ++ Unicode.upper t := by
  simp [Unicode.upper, List.flatMap_append]

/-- A text is plain if its upper case is: quotes and control characters are their own upper case. -/
theorem isPlain_of_upper {s : String} (h : IsPlain (Unicode.upper s)) : IsPlain s := by
  have hself : ∀ c : Char, Unicode.upperChar c = [c] → c ∈ s.toList →
      isQuote c = false ∧ isControl c = false := by
    intro c hc hmem
    refine h c ?_
    rw [Unicode.upper, String.toList_ofList]
    exact List.mem_flatMap.2 ⟨c, hmem, by simp [hc]⟩
  intro c hc
  by_cases hcases : c ∈ ['\'', '"', '\x60', '\r', '\n', '\t']
  · have hupper : ∀ d ∈ ['\'', '"', '\x60', '\r', '\n', '\t'], Unicode.upperChar d = [d] :=
      List.all_iff_forall_prop.1 (by decide)
    exact hself c (hupper c hcases) hc
  · simp only [List.mem_cons, List.not_mem_nil, or_false, not_or] at hcases
    simp [isQuote, isControl, isLineBreak, hcases]

end Text

namespace DefaultValue

/-- The text is taken for `NULL`: it begins so, in any case, without the quotes at its ends and
without control characters. -/
def SpellsNull (text : String) : Prop :=
  "NULL".toList <+: (Unicode.upper (Text.cleanIdentifier text)).toList

instance (text : String) : Decidable (SpellsNull text) :=
  inferInstanceAs (Decidable (_ <+: _))

/-- The expression is the bare word `NULL`. -/
def IsNull (expression : List Token) : Prop :=
  ∃ t, expression = [t] ∧ (Terminal.keyword "NULL").accepts t = true

/-- The expression is a literal between quotes, perhaps with other string literals behind it. -/
def IsQuoted (expression : List Token) : Prop :=
  ∃ kind ∈ [LiteralKind.single, .double], ∃ body others,
    expression = .literal kind body :: others ∧ ∀ t ∈ others, t.IsString

theorem ofText_of_spellsNull {text : String} (h : SpellsNull text) : ofText text = {} := by
  unfold ofText
  rw [if_pos (List.isPrefixOf_iff_prefix.2 h)]

theorem ofText_of_not_spellsNull {text : String} (h : ¬ SpellsNull text) :
    ofText text = ⟨Text.cleanIdentifier text, true⟩ := by
  unfold ofText
  rw [if_neg (mt List.isPrefixOf_iff_prefix.1 h)]

theorem ofText_eq_null_iff (text : String) : ofText text = {} ↔ SpellsNull text := by
  by_cases h : SpellsNull text
  · simp [ofText_of_spellsNull h, h]
  · simp [ofText_of_not_spellsNull h, h]

/-! ## Texts that are no `NULL` -/

/-- A text is not taken for `NULL` if what it begins with is plain and no beginning of `NULL`. -/
theorem not_spellsNull_append {front : String} (hplain : Text.IsPlain (Unicode.upper front))
    (hnull : ¬ (Unicode.upper front).toList.take 4 <+: "NULL".toList) (back : String) :
    ¬ SpellsNull (front ++ back) := by
  have hne : front.toList ≠ [] := by
    intro h
    rw [Unicode.upper, h] at hnull
    exact hnull (List.nil_prefix)
  unfold SpellsNull
  rw [Text.cleanIdentifier_append hne (Text.isPlain_of_upper hplain), Text.upper_append,
    String.toList_append]
  generalize (Unicode.upper (Text.without _ _)).toList = tail
  intro h
  have hfront : (Unicode.upper front).toList.take 4 <+: (Unicode.upper front).toList ++ tail :=
    (List.take_prefix 4 _).trans (List.prefix_append _ tail)
  exact hnull (List.prefix_of_prefix_length_le hfront h (List.length_take_le _ _))

/-- So it is with a word and its upper case. -/
theorem not_spellsNull_of_upper {value word : String} (hupper : Unicode.upper value = word)
    (h : Text.IsPlain word ∧ ¬ word.toList.take 4 <+: "NULL".toList) (back : String) :
    ¬ SpellsNull (value ++ back) :=
  not_spellsNull_append (hupper.symm ▸ h.1) (hupper.symm ▸ h.2) back

/-- So it is with a single character and its upper case. -/
theorem not_spellsNull_of_head {text : String} {c : Char} {cs : List Char}
    (htext : text.toList = c :: cs) (h : Text.IsPlain (Unicode.upper (String.singleton c)) ∧
      ¬ (Unicode.upper (String.singleton c)).toList.take 4 <+: "NULL".toList) :
    ¬ SpellsNull text := by
  have hfront : text = String.singleton c ++ String.ofList cs := by
    rw [← String.toList_inj, htext]
    simp
  rw [hfront]
  exact not_spellsNull_append h.1 h.2 _

/-- A national literal begins with an `N`, but a quote or nothing at all follows. -/
theorem not_spellsNull_national (back : String) : ¬ SpellsNull ("N'" ++ back) := by
  have hlead : "N'" ++ back = "N" ++ ("'" ++ back) := by
    rw [← String.append_assoc]
    rfl
  have hprefix : ("'" ++ back).toList.rdropWhile Text.isQuote <+: '\'' :: back.toList := by
    rw [String.toList_append]
    exact List.rdropWhile_prefix _ _
  unfold SpellsNull
  rw [hlead, Text.cleanIdentifier_append (by decide) (by decide), Text.upper_append,
    String.toList_append]
  -- If not all of it is quotes, the first quote stays.
  obtain hnil | ⟨tail, htail, -⟩ := List.prefix_cons_iff.1 hprefix
  · rw [hnil]
    decide
  · have hcons : String.ofList ('\'' :: tail) = "'" ++ String.ofList tail := by
      rw [← String.toList_inj]
      simp
    have hquote : ∀ c ∈ "'".toList, Text.isControl c = false :=
      List.all_iff_forall_prop.1 (by decide)
    rw [htail, hcons, Text.without_append_of_forall hquote, Text.upper_append,
      String.toList_append]
    generalize (Unicode.upper (Text.without _ _)).toList = rest
    intro h
    have hsecond : 'U' = '\'' := (List.cons_prefix_cons.1 (List.cons_prefix_cons.1 h).2).1
    exact absurd hsecond (by decide)

/-! ## Expressions that are no `NULL` -/

/-- A word has the upper case of its spelling. -/
theorem upper_of_isWord {t : Token} {word : String} (h : t.IsWord word)
    (hword : Text.IsSpelling word) : Unicode.upper t.text = word := by
  obtain ⟨value, rfl, hsame⟩ := h
  exact Text.upper_eq_of_sameAscii hsame hword

/-- So has what a keyword accepts. -/
theorem upper_of_keyword {t : Token} {word : String}
    (h : (Terminal.keyword word).accepts t = true) : Unicode.upper t.text = word := by
  obtain ⟨value, rfl, hupper⟩ := Terminal.keyword_accepts.1 h
  exact hupper

variable {ts : List Token}

/-- A bare word that introduces a literal, and what it begins with. -/
theorem isIntroducer_iff {t : Token} : Grammar.isIntroducer t = true ↔
    ∃ value, t = .word none value ∧
      (value.toList.head? = some '_' ∨ value ∈ ["b", "B", "x", "X"]) := by
  constructor
  · intro h
    unfold Grammar.isIntroducer at h
    cases t with
    | word quote value =>
      cases quote with
      | none => exact ⟨value, rfl, by simpa [Token.bareWord?] using h⟩
      | some quote => simp [Token.bareWord?] at h
    | _ => simp [Token.bareWord?] at h
  · rintro ⟨value, rfl, h⟩
    simpa [Grammar.isIntroducer, Token.bareWord?] using h

/-- An introducer begins with an underscore, or it is a letter that `NULL` does not begin with. -/
theorem not_spellsNull_introducer {t : Token} (h : Grammar.isIntroducer t = true) (back : String) :
    ¬ SpellsNull (t.text ++ back) := by
  obtain ⟨value, rfl, hhead | hletter⟩ := isIntroducer_iff.1 h
  · obtain ⟨cs, hcs⟩ := List.head?_eq_some_iff.1 hhead
    have htext : ((Token.word none value).text ++ back).toList = '_' :: (cs ++ back.toList) := by
      rw [String.toList_append, ← List.cons_append, ← hcs]
      rfl
    exact not_spellsNull_of_head htext (by decide)
  · have hletters : ∀ letter ∈ ["b", "B", "x", "X"], Text.IsPlain (Unicode.upper letter) ∧
        ¬ (Unicode.upper letter).toList.take 4 <+: "NULL".toList := by decide
    exact not_spellsNull_append (hletters value hletter).1 (hletters value hletter).2 back

/-- A number begins with a digit, a point, a sign or the letter of an exponent. -/
theorem not_spellsNull_number {digits : String} (h : (Token.number digits).Legible) :
    ¬ SpellsNull digits := by
  cases hdigits : digits.toList with
  | nil =>
    obtain rfl : digits = "" := String.toList_eq_nil_iff.1 hdigits
    decide
  | cons c cs =>
    have hpart : Number.isPart c = true := h.number_isPart c (hdigits ▸ List.mem_cons_self)
    have hhead : Text.IsPlain (Unicode.upper (String.singleton c)) ∧
        ¬ (Unicode.upper (String.singleton c)).toList.take 4 <+: "NULL".toList :=
      Number.of_isPart (P := fun c => Text.IsPlain (Unicode.upper (String.singleton c)) ∧
        ¬ (Unicode.upper (String.singleton c)).toList.take 4 <+: "NULL".toList) (by decide) hpart
    exact not_spellsNull_of_head hdigits hhead

/-- Literals side by side are taken for `NULL` only if the first is between plain quotes. -/
theorem isQuoted_of_strings {t : Token} {ts : List Token} (h : ∀ u ∈ t :: ts, u.IsString)
    (hnull : SpellsNull (Token.glue (t :: ts))) : IsQuoted (t :: ts) := by
  obtain ⟨⟨kind, hkind, body, rfl⟩, hts⟩ := List.forall_mem_cons.1 h
  by_cases hnational : kind = .national
  · subst hnational
    have htext : Token.glue (.literal .national body :: ts) = "N'" ++ (body ++ "'" ++ Token.glue ts) := by
      rw [Token.glue_cons, ← String.append_assoc, ← String.append_assoc]
      rfl
    rw [htext] at hnull
    exact absurd hnull (not_spellsNull_national _)
  · have hplain : kind ∈ [LiteralKind.single, .double] := by
      simpa [hnational] using hkind
    exact ⟨kind, hplain, body, ts, rfl, hts⟩

/-- A constant of one token is taken for `NULL` only if it is the bare word. -/
theorem isNull_of_plain {t : Token} (h : Grammar.isPlainConstant t = true) (hlegible : t.Legible)
    (hnull : SpellsNull t.text) : (Terminal.keyword "NULL").accepts t = true := by
  have hword : ∀ t : Token, [Terminal.keyword "TRUE", .keyword "FALSE", .keyword "NULL"].any (·.accepts t) →
      SpellsNull t.text → (Terminal.keyword "NULL").accepts t = true := by
    intro t h hnull
    simp only [List.any_cons, List.any_nil, Bool.or_false, Bool.or_eq_true] at h
    rw [← String.append_empty (s := t.text)] at hnull
    rcases h with htrue | hfalse | hnull
    · exact absurd hnull (not_spellsNull_of_upper (upper_of_keyword htrue) (by decide) "")
    · exact absurd hnull (not_spellsNull_of_upper (upper_of_keyword hfalse) (by decide) "")
    · exact hnull
  cases t with
  | number digits => exact absurd hnull (not_spellsNull_number hlegible)
  | literal kind body =>
    have htext : ∀ lead closing : String,
        (lead ++ body ++ closing).toList = lead.toList ++ (body.toList ++ closing.toList) := by
      intro lead closing
      rw [String.toList_append, String.toList_append, List.append_assoc]
    -- The mark in front of the quotes does not begin `NULL`.
    cases kind with
    | hex => exact absurd hnull (not_spellsNull_of_head (htext "X'" "'") (by decide))
    | singleBits => exact absurd hnull (not_spellsNull_of_head (htext "b'" "'") (by decide))
    | doubleBits => exact absurd hnull (not_spellsNull_of_head (htext "b\"" "\"") (by decide))
    | single | double | national | escaped => exact nomatch h
  | _ => exact hword _ h hnull

/-- A constant is taken for `NULL` only if it is the bare word or text between quotes. -/
theorem Constant.spellsNull_imp (h : Constant ts) (hlegible : ∀ t ∈ ts, t.Legible)
    (hnull : SpellsNull (Token.glue ts)) : IsNull ts ∨ IsQuoted ts := by
  cases h with
  | strings h => exact .inr (isQuoted_of_strings h hnull)
  | introduced hi ht hts =>
    rw [Token.glue_cons] at hnull
    exact absurd hnull (not_spellsNull_introducer hi _)
  | @plain t h =>
    rw [Token.glue_singleton] at hnull
    exact .inl ⟨t, rfl, isNull_of_plain h (hlegible t (List.mem_singleton_self t)) hnull⟩

/-- An operator does not begin like `NULL`. -/
theorem not_spellsNull_operator {t : Token} (h : Grammar.isUnaryOperator t = true) (back : String) :
    ¬ SpellsNull (t.text ++ back) := by
  rcases Bool.or_eq_true_iff.1 h with hsymbol | hnot
  · have hsymbols : ∀ t ∈ [Token.symbol .plus, .symbol .minus, .symbol .bang, .symbol .tilde],
        Text.IsPlain (Unicode.upper t.text) ∧
          ¬ (Unicode.upper t.text).toList.take 4 <+: "NULL".toList := by decide
    obtain ⟨hplain, hnull⟩ := hsymbols t (of_decide_eq_true hsymbol)
    exact not_spellsNull_append hplain hnull back
  · exact not_spellsNull_of_upper (upper_of_keyword hnot) (by decide) back

/-- The expressions that are taken for `NULL`: the bare word, and text between quotes that begins
so. -/
theorem Expression.spellsNull_iff (h : Expression ts) (hlegible : ∀ t ∈ ts, t.Legible) :
    SpellsNull (Token.glue ts) ↔ IsNull ts ∨ IsQuoted ts ∧ SpellsNull (Token.glue ts) := by
  constructor
  · intro hnull
    have hcases : IsNull ts ∨ IsQuoted ts := by
      cases h with
      | @null t h => exact .inl ⟨t, rfl, h⟩
      | @call t word hword h ts =>
        have hwords : ∀ word ∈ functionWords, Text.IsSpelling word ∧
            Text.IsPlain word ∧ ¬ word.toList.take 4 <+: "NULL".toList := by decide
        obtain ⟨hspelling, hplain⟩ := hwords word hword
        rw [Token.glue_cons] at hnull
        exact absurd hnull (not_spellsNull_of_upper (upper_of_isWord h hspelling) hplain _)
      | parenthesized ts =>
        rw [Token.glue_cons] at hnull
        exact absurd hnull (not_spellsNull_append (by decide) (by decide) _)
      | signed ht h =>
        rw [Token.glue_cons] at hnull
        exact absurd hnull (not_spellsNull_operator ht _)
      | constant h => exact h.spellsNull_imp hlegible hnull
    exact hcases.imp_right fun hquoted => ⟨hquoted, hnull⟩
  · rintro (⟨t, rfl, ht⟩ | ⟨-, hnull⟩)
    · -- The word has neither quotes nor control characters, so nothing of it is taken off.
      have hupper := upper_of_keyword ht
      have hplain : Text.IsPlain t.text := Text.isPlain_of_upper (hupper.symm ▸ by decide)
      have hne : t.text.toList ≠ [] := by
        intro hnil
        rw [String.toList_eq_nil_iff.1 hnil] at hupper
        exact absurd hupper (by decide)
      have hclean : Text.cleanIdentifier t.text = t.text := by
        have hclean := Text.cleanIdentifier_append hne hplain ""
        rwa [String.append_empty, show Text.without Text.isControl _ = "" from rfl,
          String.append_empty] at hclean
      show "NULL".toList <+: (Unicode.upper (Text.cleanIdentifier (Token.glue [t]))).toList
      simp only [Token.glue_singleton, hclean, hupper, List.prefix_rfl]
    · exact hnull

end DefaultValue

/-! ## The clauses of a column -/

open Resolve DefaultValue

/-- The last clause with an expression decides the default value. -/
theorem ColumnConstraint.defaultValue_ofClauses (clauses : List ColumnClause) :
    Always (fun c => c.defaultValue =
      (clauses.filterMap ColumnClause.defaultText?).getLast?.map ofText) (ofClauses clauses) := by
  intro ds
  rw [gives_summary clauses ds]
  rfl

/-- The text of a clause with an expression is that of its tokens. -/
theorem ColumnClause.Written.defaultText?_eq {ts : List Token} {clause : ColumnClause}
    (h : clause.Written ts) :
    clause.defaultText? = (defaultExpression? ts).map Token.glue := by
  cases h with
  | default ht h => simp [defaultText?, defaultExpression?, ht]
  | other hts hclause =>
    rw [hclause]
    cases ts with
    | nil => rfl
    | cons t ts =>
      have ht : (Terminal.keyword "DEFAULT").accepts t = false := hts t rfl
      simp [defaultExpression?, ht]

/-- What stands behind the word `DEFAULT` of a clause is an expression. -/
theorem ColumnClause.Written.expression {ts expression : List Token} {clause : ColumnClause}
    (h : clause.Written ts) (hexpression : defaultExpression? ts = some expression) :
    Expression expression ∧ ∀ t ∈ expression, t ∈ ts := by
  cases h with
  | @default t _ ht h =>
    obtain rfl := Option.some.inj ((if_pos ht).symm.trans hexpression)
    exact ⟨h, fun u hu => List.mem_cons_of_mem t hu⟩
  | other hts hclause =>
    cases ts with
    | nil => exact nomatch hexpression
    | cons t ts =>
      have ht : (Terminal.keyword "DEFAULT").accepts t = false := hts t rfl
      simp [defaultExpression?, ht] at hexpression

/-- The texts of the expressions are those of their tokens, clause by clause. -/
theorem ColumnClause.texts_of_written {clauses : List (List Token)} {parsed : List ColumnClause}
    (h : List.Forall₂ Written clauses parsed) :
    parsed.filterMap defaultText? = (clauses.filterMap defaultExpression?).map Token.glue := by
  induction h with
  | nil => rfl
  | @cons ts clause clauses parsed hclause _ ih =>
    rw [List.filterMap_cons, List.filterMap_cons, hclause.defaultText?_eq, ih]
    cases defaultExpression? ts <;> rfl

/-- The tokens of a clause are those of a clause that was read. -/
theorem ColumnClause.exists_of_written {clauses : List (List Token)} {parsed : List ColumnClause}
    (h : List.Forall₂ Written clauses parsed) :
    ∀ ts ∈ clauses, ∃ clause : ColumnClause, clause.Written ts := by
  induction h with
  | nil => exact nofun
  | cons hclause _ ih => exact List.forall_mem_cons.2 ⟨⟨_, hclause⟩, ih⟩

namespace ColumnDecl

variable {decl : ColumnDecl} {text : String} {types : List Token} {clauses : List (List Token)}

/-- The default value is that of the last expression behind `DEFAULT`, if there is one. -/
theorem WrittenAs.defaultValue_eq (h : decl.WrittenAs text types clauses) (ds : Diagnostics) :
    (decl.resolve.run ds).1.2.defaultValue =
      (clauses.filterMap defaultExpression?).getLast?.map (ofText ∘ Token.glue) := by
  have hresolve : ∀ value, Always (·.defaultValue = value) (ColumnConstraint.ofClauses decl.clauses) →
      Always (·.2.defaultValue = value) decl.resolve := fun value hclauses =>
    .bind_any fun _ => hclauses.bind fun _ hc => .pure hc
  rw [hresolve _ (ColumnConstraint.defaultValue_ofClauses decl.clauses) ds,
    ColumnClause.texts_of_written h.clauses, List.getLast?_map, Option.map_map]

/-- An expression of the column is one of the phrases, and its tokens were read. -/
theorem WrittenAs.expression (h : decl.WrittenAs text types clauses) {expression : List Token}
    (hexpression : expression ∈ (clauses.filterMap defaultExpression?).getLast?) :
    Expression expression ∧ ∀ t ∈ expression, t.Legible := by
  obtain ⟨ts, hts, heq⟩ := List.mem_filterMap.1 (List.mem_of_getLast? hexpression)
  obtain ⟨clause, hclause⟩ := ColumnClause.exists_of_written h.clauses ts hts
  obtain ⟨hphrase, hsub⟩ := hclause.expression heq
  exact ⟨hphrase, fun t ht => h.legible ts hts t (hsub t ht)⟩

/-- The three states of a default value. There is none exactly if no clause begins with `DEFAULT`,
and the last that does decides. It is `NULL` exactly if its expression is the bare word or a literal
between quotes whose text begins so, and otherwise it is the text of the expression. -/
theorem defaultValue_states (h : ColumnDecl.parse text = .ok decl) :
    (∃ types clauses, decl.WrittenAs text types clauses) ∧
    ∀ types clauses, decl.WrittenAs text types clauses → ∀ ds,
      ((decl.resolve.run ds).1.2.defaultValue = none ↔
        ∀ ts ∈ clauses, defaultExpression? ts = none) ∧
      ∀ expression ∈ (clauses.filterMap defaultExpression?).getLast?,
        ((decl.resolve.run ds).1.2.defaultValue = some {} ↔
          IsNull expression ∨ IsQuoted expression ∧ SpellsNull (Token.glue expression)) ∧
        ((decl.resolve.run ds).1.2.defaultValue ≠ some {} →
          (decl.resolve.run ds).1.2.defaultValue =
            some ⟨Text.cleanIdentifier (Token.glue expression), true⟩) := by
  refine ⟨exists_writtenAs h, fun types clauses hwritten ds => ⟨?_, fun expression hlast => ?_⟩⟩
  · rw [hwritten.defaultValue_eq ds, Option.map_eq_none_iff, List.getLast?_eq_none_iff,
      List.filterMap_eq_nil_iff]
  · obtain ⟨hexpression, hlegible⟩ := hwritten.expression hlast
    rw [hwritten.defaultValue_eq ds, hlast, Option.map_some, Function.comp_apply,
      Option.some_inj, ofText_eq_null_iff]
    refine ⟨hexpression.spellsNull_iff hlegible, fun hvalue => ?_⟩
    rw [Ne, Option.some_inj, ofText_eq_null_iff] at hvalue
    rw [ofText_of_not_spellsNull hvalue]

/-- A column with a default value that is text and begins like `NULL`. -/
theorem parse_nullable :
    ColumnDecl.parse "INT DEFAULT 'nullable'" =
        .ok ⟨.measured ⟨.int, "INT"⟩ none [], [.default "'nullable'"]⟩ ∧
      (⟨.measured ⟨.int, "INT"⟩ none [], [.default "'nullable'"]⟩ : ColumnDecl).WrittenAs
        "INT DEFAULT 'nullable'" [.word none "INT"]
        [[.word none "DEFAULT", .literal .single "nullable"]] := by
  have hread : (Token.literal .single "nullable").ReadsBefore [] := ⟨'\'', _, _, rfl, rfl⟩
  obtain ⟨hparse, hwritten⟩ := parse_default ⟨.single, by decide, "nullable", rfl⟩ hread
  exact ⟨hparse, hwritten⟩

/-- A literal may be taken for `NULL` although it is text. -/
theorem defaultValue_states_of_nullable :
    ColumnDecl.parse "INT DEFAULT 'nullable'" =
        .ok ⟨.measured ⟨.int, "INT"⟩ none [], [.default "'nullable'"]⟩ ∧
      ∀ ds, ((⟨.measured ⟨.int, "INT"⟩ none [], [.default "'nullable'"]⟩ : ColumnDecl).resolve.run
        ds).1.2.defaultValue = some {} := by
  obtain ⟨hparse, hwritten⟩ := parse_nullable
  refine ⟨hparse, fun ds => ?_⟩
  have hstates := ((defaultValue_states hparse).2 _ _ hwritten ds).2 _ rfl
  exact hstates.1.2 (.inr ⟨⟨.single, by decide, "nullable", [], rfl, nofun⟩, by decide⟩)

/-- So it is not true that only the bare word stands for `NULL`. -/
theorem not_forall_defaultValue_states : ¬ ∀ text decl, ColumnDecl.parse text = .ok decl →
    ∀ types clauses, decl.WrittenAs text types clauses → ∀ ds,
      ∀ expression ∈ (clauses.filterMap defaultExpression?).getLast?,
        ((decl.resolve.run ds).1.2.defaultValue = some {} ↔ IsNull expression) := by
  intro h
  obtain ⟨hparse, hwritten⟩ := parse_nullable
  obtain ⟨t, ht, hnull⟩ := (h _ _ hparse _ _ hwritten .empty _ rfl).1 (by decide)
  obtain rfl := List.singleton_inj.1 ht
  exact nomatch hnull

end ColumnDecl

end TableSchema
