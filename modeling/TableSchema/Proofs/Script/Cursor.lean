import TableSchema.Proofs.Column.Resume
import TableSchema.Proofs.Script.Agreement
import TableSchema.Proofs.Table.Composition

/-!
# The place in a text

All rules read one text, each from the place where another one stopped. Reading is safe since every
rule keeps to the following at every place of every text. It stops inside the text and not before
the place where it began. The tokens that it takes for a text stand between these two places. When a
parenthesis is counted as closed, one is open. The step of a repetition takes a lexeme whenever the
repetition goes on.

## Main definitions

* `IsRule`: the rules of the grammar;
* `IsStep`: the steps of its repetitions.

## Main results

* `IsRule.forward`: every rule goes forward;
* `IsStep.advances`: every step of a repetition advances;
* `rules_safe`: what this says of the places in a text.
-/

set_option autoImplicit false

namespace TableSchema.Grammar

open TableSchema.Parser TableSchema.Lexeme TableSchema.Likeness

variable {α : Type} {p : Parser α} {l : Lexeme} {ls rest : List Lexeme}

/-! ## The rules -/

/-- What a length clause takes: the numbers with the parentheses around them. -/
def enclosed (numbers : Parser Unit) : Parser Unit := do
  expect (.symbol .openParen)
  numbers
  expect (.symbol .closeParen)

/-- What the name of a table takes. -/
def namePath : Parser Unit := do
  discard identifier
  if ← eat (.symbol .period) then discard identifier

/-- The parser is a rule of the grammar. -/
inductive IsRule : {α : Type} → Parser α → Prop
  -- Words, symbols and literals, and what is passed over.
  | expect (t : Terminal) : IsRule (expect t)
  | eat (t : Terminal) : IsRule (eat t)
  | number : IsRule number
  | stringLiteral : IsRule stringLiteral
  | identifier : IsRule identifier
  | oneOf (words : List String) : IsRule (oneOf words)
  | parenthesized : IsRule parenthesized
  | skipStatement : IsRule skipStatement
  | skipLine : IsRule skipLine
  -- Data types.
  | typeName : IsRule typeName
  | oneNumber : IsRule (enclosed (discard number))
  | twoNumbers : IsRule (enclosed do
      discard number
      expect (.symbol .comma)
      discard number)
  | upToTwoNumbers : IsRule (enclosed do
      discard number
      if ← eat (.symbol .comma) then discard number)
  | oneLength : IsRule oneLength
  | twoLengths : IsRule twoLengths
  | upToTwoLengths : IsRule upToTwoLengths
  | numericModifiers : IsRule numericModifiers
  | charset : IsRule charset
  | collation : IsRule collation
  | nationalName : IsRule nationalName
  | family (f : TypeFamily) : IsRule (familyType f)
  | longVarbinary : IsRule longVarbinaryType
  | longVarchar : IsRule longVarcharType
  | national : IsRule nationalType
  | nchar : IsRule ncharType
  | dataType : IsRule dataType
  -- Keys and references.
  | namePath : IsRule namePath
  | tableName : IsRule tableName
  | keyTarget : IsRule keyTarget
  | keyPart : IsRule keyPart
  | keyParts : IsRule keyParts
  | indexName : IsRule indexName
  | indexType : IsRule indexType
  | indexWord : IsRule indexWord
  | indexOption : IsRule (choose? indexOptions)
  | optionedParts : IsRule optionedParts
  | referenceAction : IsRule referenceAction
  | referenceRule : IsRule (choose? referenceRules)
  | reference : IsRule reference
  | constraintName : IsRule constraintName
  | primaryKey (name : Option String) : IsRule (primaryKey name)
  | uniqueKey (name : Option String) : IsRule (uniqueKey name)
  | foreignKey (name : Option String) : IsRule (foreignKey name)
  | tableConstraint : IsRule tableConstraint
  | specialIndex (kind : String) : IsRule (specialIndex kind)
  | plainIndex : IsRule plainIndex
  | indexDeclaration : IsRule indexDeclaration
  -- Columns.
  | precision : IsRule precision
  | currentTimestamp : IsRule currentTimestamp
  | timestampDefault : IsRule timestampDefault
  | constant : IsRule constant
  | signedConstant : IsRule signedConstant
  | defaultValue : IsRule defaultValue
  | generatedColumn : IsRule generatedColumn
  | columnCheck : IsRule columnCheck
  | columnClause : IsRule columnClause
  | nextClause : IsRule nextClause
  | columnDefinition : IsRule columnDefinition
  -- Tables.
  | columnName : IsRule columnName
  | namedColumn : IsRule namedColumn
  | tableItem : IsRule tableItem
  | tableItems : IsRule tableItems
  | assignment : IsRule assignment
  | tablespace : IsRule tablespace
  | tableOption : IsRule (choose? tableOptions)
  | trailingQuery : IsRule trailingQuery
  | tableClause : IsRule tableClause?
  | tableTail : IsRule tableTail
  | tableBody (name : String) : IsRule (tableBody name)
  | modelInParens : IsRule modelInParens
  | createTable : IsRule createTable
  | singleTable : IsRule singleTable
  -- Scripts.
  | otherStatement (category : Category) : IsRule (otherStatement category)
  | statement : IsRule statement
  | separator : IsRule separator
  | nextStatement : IsRule statement?
  | script : IsRule script

/-- The rest of a line is left out from the front. -/
theorem forward_skipLine : Forward skipLine := by
  intro ls
  cases ls with
  | nil => exact List.suffix_refl _
  | cons l ls => exact (List.dropWhile_suffix _).trans (List.suffix_cons l ls)

theorem forward_enclosed {numbers : Parser Unit} (h : Forward numbers) :
    Forward (enclosed numbers) :=
  (Forward.expect _).bind fun _ => h.bind fun _ => .expect _

theorem forward_namePath : Forward namePath := by
  refine (Forward.discard (.token _ _)).bind fun _ => (Forward.eatAll _).bind fun period => ?_
  cases period with
  | false => exact .pure ()
  | true => exact .discard (.token _ _)

/-- The text of a statement that is not read in full ends where its line or the statement does. -/
theorem forward_otherStatement (category : Category) : Forward (otherStatement category) := by
  have hget : Forward (get : Parser (List Lexeme)) := fun ls => List.suffix_refl ls
  refine hget.bind fun ls => Forward.bind (.spaced ?_) fun _ => .pure _
  exact .ite forward_skipLine (.skipUntil _)

/-- Every rule goes forward. -/
theorem IsRule.forward (h : IsRule p) : Forward p := by
  -- What agrees with itself on texts that are alike goes forward, and most rules were shown to
  -- agree.
  cases h with
  | expect t => exact .expect t
  | eat t => exact .eatAll [t]
  | number => exact .token _ _
  | stringLiteral => exact .token _ _
  | identifier => exact .token _ _
  | oneOf words => exact .token _ _
  | parenthesized => exact .parenthesized
  | skipStatement => exact .skipUntil _
  | skipLine => exact forward_skipLine
  | typeName => exact .token _ _
  | oneNumber => exact forward_enclosed (.discard (.token _ _))
  | twoNumbers =>
    exact forward_enclosed <| (Forward.discard (.token _ _)).bind fun _ =>
      (Forward.expect _).bind fun _ => .discard (.token _ _)
  | upToTwoNumbers =>
    refine forward_enclosed ((Forward.discard (.token _ _)).bind fun _ => ?_)
    exact (Forward.eatAll _).bind fun _ => .ite (.discard (.token _ _)) (.pure _)
  | oneLength => exact oneLength_agree.forward
  | twoLengths => exact twoLengths_agree.forward
  | upToTwoLengths => exact upToTwoLengths_agree.forward
  | numericModifiers => exact numericModifiers_agree.forward
  | charset => exact charset_agree.forward
  | collation => exact collation_agree.forward
  | nationalName => exact .token _ _
  | family f => exact (familyType_agree f).forward
  | longVarbinary => exact longVarbinaryType_agree.forward
  | longVarchar => exact longVarcharType_agree.forward
  | national => exact nationalType_agree.forward
  | nchar => exact ncharType_agree.forward
  | dataType => exact dataType_agree.forward
  | namePath => exact forward_namePath
  | tableName => exact tableName_agree.forward
  | keyTarget => exact keyTarget_agree.forward
  | keyPart => exact keyPart_agree.forward
  | keyParts => exact keyParts_agree.forward
  | indexName => exact indexName_agree.forward
  | indexType => exact indexType_agree.forward
  | indexWord => exact indexWord_agree.forward
  | indexOption => exact (Agree.choose? indexOptions_agree).forward
  | optionedParts => exact optionedParts_agree.forward
  | referenceAction => exact referenceAction_agree.forward
  | referenceRule => exact (Agree.choose? referenceRules_agree).forward
  | reference => exact reference_agree.forward
  | constraintName => exact constraintName_agree.forward
  | primaryKey name => exact (primaryKey_agree rfl).forward
  | uniqueKey name => exact (uniqueKey_agree rfl).forward
  | foreignKey name => exact (foreignKey_agree rfl).forward
  | tableConstraint => exact tableConstraint_agree.forward
  | specialIndex kind => exact (specialIndex_agree kind).forward
  | plainIndex => exact plainIndex_agree.forward
  | indexDeclaration => exact indexDeclaration_agree.forward
  | precision => exact precision_agree.forward
  | currentTimestamp => exact currentTimestamp_agree.forward
  | timestampDefault => exact timestampDefault_agree.forward
  | constant => exact constant_agree.forward
  | signedConstant => exact signedConstant_agree.forward
  | defaultValue => exact defaultValue_agree.forward
  | generatedColumn => exact generatedColumn_agree.forward
  | columnCheck => exact columnCheck_agree.forward
  | columnClause => exact columnClause_agree.forward
  | nextClause =>
    exact (Forward.asks _).bind fun _ =>
      .ite (.pure _) (columnClause_agree.forward.bind fun _ => .pure _)
  | columnDefinition => exact columnDefinition_agree.forward
  | columnName => exact columnName_agree.forward
  | namedColumn => exact namedColumn_agree.forward
  | tableItem => exact tableItem_agree.forward
  | tableItems => exact tableItems_agree.forward
  | assignment => exact assignment_agree.forward
  | tablespace => exact tablespace_agree.forward
  | tableOption => exact (Agree.choose? tableOptions_agree).forward
  | trailingQuery => exact trailingQuery_agree.forward
  | tableClause => exact tableClause?_agree.forward
  | tableTail => exact tableTail_agree.forward
  | tableBody name => exact (tableBody_agree rfl).forward
  | modelInParens => exact modelInParens_agree.forward
  | createTable => exact createTable_agree.forward
  | singleTable => exact createTable_agree.forward.bind fun _ =>
      (Forward.discard (.eatAll _)).bind fun _ => .pure _
  | otherStatement category => exact forward_otherStatement category
  | statement => exact statement_agree.forward
  | separator => exact separator_agree.forward
  | nextStatement => exact statement?_agree.forward
  | script => exact script_agree.forward

/-! ## The steps of repetitions -/

/-- The parser is the step of a repetition of the grammar. -/
inductive IsStep : {α : Type} → Parser (Option α) → Prop
  | statement : IsStep statement?
  | tableItem : IsStep (nextItem tableItem)
  | clause : IsStep nextClause
  | keyPart : IsStep (nextItem keyPart)
  | indexOption : IsStep (choose? indexOptions)
  | referenceRule : IsStep (choose? referenceRules)
  | tableClause : IsStep tableClause?

/-- The next item of a list takes the comma in front of it. -/
theorem advances_nextItem (h : Forward p) : Advances (nextItem p) :=
  have hafter : Advances (after [.symbol .comma] p) := .after (List.cons_ne_nil _ _) h
  hafter

theorem forward_equalsSign : Forward equalsSign :=
  .discard (.eatAll _)

theorem tableClauses_consume : ∀ b ∈ tableClauses, b.Consumes := by
  have hassignment := (assignment_agree (k := same)).forward
  have hcharset : ∀ b ∈ charsetOptions, b.Consumes := by
    unfold charsetOptions
    simp only [List.forall_mem_cons]
    refine ⟨?_, ?_, ?_, ?_, nofun⟩
    all_goals exact .behind (by decide) hassignment
  -- Every clause takes the words that it begins with, and what stands behind them goes forward.
  unfold tableClauses tableOptions
  simp only [List.cons_append, List.append_assoc, List.forall_mem_cons, List.forall_mem_append]
  refine ⟨.behind (by decide) (.skipUntil _),
    .behind (by decide) (Agree.choose _ charsetOptions_agree).forward, hcharset,
    .behind (by decide) hassignment, .behind (by decide) hassignment,
    .behind (by decide) tablespace_agree.forward, ?union, .behind (by decide) (.pure _), nofun,
    ?plain⟩
  case union =>
    exact .behind (by decide) (forward_equalsSign.bind fun _ => .parenthesized)
  case plain =>
    intro b hb
    obtain ⟨name, -, rfl⟩ := List.mem_map.1 hb
    exact .behind (List.cons_ne_nil _ _) hassignment

/-- A clause behind the entries of a table takes a lexeme. -/
theorem advances_tableClause : Advances tableClause? := by
  intro ls a rest h
  obtain ⟨clause?, mid, hchoice, h⟩ := bind_eq_ok.1 h
  cases clause? with
  | none => cases (pure_eq_ok.1 h).1
  | some clause =>
    -- The comma behind the clause is looked for where the clause ends.
    have hcomma : Forward (do discard (eat (.symbol .comma)); return some ()) :=
      (Forward.discard (.eatAll _)).bind fun _ => .pure _
    exact Nat.lt_of_le_of_lt (hcomma.suffix_of_ok h).length_le
      (Advances.choose? tableClauses_consume ls clause mid hchoice)

/-- Where a statement begins there is a lexeme, and it is no semicolon. -/
theorem exists_cons_of_category {category : Category} (h : Category.of? ls = some category) :
    ∃ l behind, ls = l :: behind ∧ l.token ≠ .symbol .semicolon := by
  cases ls with
  | nil => cases h
  | cons l behind =>
    refine ⟨l, behind, rfl, fun hl => ?_⟩
    rcases opening_of_of? h with hparen | ⟨word, hword⟩
    · rw [hl] at hparen
      cases hparen
    · rw [hl] at hword
      cases hword

/-- Where a statement begins, a lexeme is left out with its line or with the statement. -/
theorem skip_shortens {category : Category} (hof : Category.of? ls = some category) {c : Prop}
    [Decidable c] {u : Unit}
    (h : (if c then skipLine else skipStatement) ls = .ok (u, rest)) :
    rest.length < ls.length := by
  obtain ⟨l, behind, rfl, hl⟩ := exists_cons_of_category hof
  have hstop : Terminal.opens [.symbol .semicolon] (l :: behind) = false := by
    simpa [Terminal.opens, Terminal.accepts] using hl
  have hbehind : ∀ depth, (dropUntil (Terminal.opens [.symbol .semicolon]) depth behind).length <
      (l :: behind).length :=
    fun depth => Nat.lt_succ_of_le (dropUntil_suffix _ depth behind).length_le
  -- Neither the line nor the statement ends in front of its first lexeme.
  split at h
  · obtain rfl := congrArg Prod.snd (Except.ok.inj h)
    exact Nat.lt_succ_of_le (List.dropWhile_suffix _).length_le
  · obtain rfl : dropUntil (Terminal.opens [.symbol .semicolon]) 0 (l :: behind) = rest :=
      congrArg Prod.snd (Except.ok.inj h)
    rw [dropUntil, hstop, if_neg (by simp)]
    split
    · exact hbehind _
    split
    · exact hbehind _
    · exact hbehind _

/-- A statement that is not read in full is not empty. -/
theorem otherStatement_shortens {category : Category} {statement : Statement}
    (hof : Category.of? ls = some category)
    (h : otherStatement category ls = .ok (statement, rest)) :
    rest.length < ls.length := by
  obtain ⟨_, _, hget, h⟩ := bind_eq_ok.1 h
  obtain ⟨rfl, rfl⟩ := get_eq_ok.1 hget
  obtain ⟨text, mid, hspaced, h⟩ := bind_eq_ok.1 h
  obtain ⟨-, rfl⟩ := pure_eq_ok.1 h
  obtain ⟨ts, _, htaken, h⟩ := bind_eq_ok.1 hspaced
  obtain ⟨-, rfl⟩ := pure_eq_ok.1 h
  exact skip_shortens hof (taken_eq_ok.1 htaken).1

/-- A table takes a lexeme: its first word. -/
theorem consumes_createTable : Consumes createTable := by
  rw [createTable_eq]
  have hnamed := (namedTable_agree (k := same)).forward
  refine (Consumes.expect _).bind fun _ => (Forward.discard (.eatAll _)).bind fun _ => ?_
  refine (Forward.expect _).bind fun _ => (Forward.eatAll _).bind fun _ => .ite ?_ hnamed
  exact (Forward.expect _).bind fun _ => (Forward.expect _).bind fun _ => hnamed

/-- A statement takes a lexeme. -/
theorem consumes_statement : Consumes statement := by
  intro ls statement rest h
  rw [statement_eq] at h
  cases hof : Category.of? ls with
  | none => simp [hof] at h
  | some category =>
    rw [hof] at h
    obtain ⟨table?, mid, hchoice, h⟩ := bind_eq_ok.1 h
    obtain ⟨b, hb, hopens, table, hbody, rfl⟩ | ⟨rfl, rfl, -⟩ := choose?_eq_ok hchoice
    · obtain ⟨-, rfl⟩ := pure_eq_ok.1 h
      rw [body_of_mem_tableStatements b hb] at hbody
      exact (consumes_createTable.bind fun _ => .pure _) ls table mid hbody
    · exact otherStatement_shortens hof h

/-- A step through a script that gives a statement takes a lexeme. -/
theorem advances_statement : Advances statement? := by
  intro ls statement rest h
  obtain ⟨_, mid, hsemicolons, h⟩ := bind_eq_ok.1 h
  obtain ⟨ends, _, hends, h⟩ := bind_eq_ok.1 h
  obtain ⟨-, rfl⟩ := asks_eq_ok.1 hends
  cases ends with
  | true => cases (pure_eq_ok.1 h).1
  | false =>
    have hstatement : Consumes (do
        let statement ← Grammar.statement
        separator
        return some statement) :=
      consumes_statement.bind fun _ => separator_agree.forward.bind fun _ => .pure _
    exact Nat.lt_of_lt_of_le (hstatement _ _ rest h)
      ((Forward.discard (.tokenRun _)).suffix_of_ok hsemicolons).length_le

/-- Every step of a repetition takes a lexeme when it gives something. -/
theorem IsStep.advances {step : Parser (Option α)} (h : IsStep step) : Advances step := by
  cases h with
  | statement => exact advances_statement
  | tableItem => exact advances_nextItem tableItem_agree.forward
  | clause => exact nextClause_advances
  | keyPart => exact advances_nextItem keyPart_agree.forward
  | indexOption => exact .choose? fun b hb => (indexOptions_offer b hb).consumes
  | referenceRule => exact .choose? fun b hb => (referenceRules_offer b hb).consumes
  | tableClause => exact advances_tableClause

/-! ## All of it together -/

/-- A closing parenthesis that is passed over has an open one to close. -/
theorem count_lt_of_parenthesized {passed later : List Lexeme} {c : Lexeme}
    (hscan : ls.take (ls.length - (parenthesized.leaves ls).length) = passed ++ c :: later)
    (hc : c.token = .symbol .closeParen) :
    (tokens passed).count (.symbol .closeParen) < (tokens passed).count (.symbol .openParen) := by
  -- What is passed over stands in front of what is left.
  obtain ⟨front, hfront⟩ := Forward.parenthesized ls
  generalize hleaves : parenthesized.leaves ls = left at *
  subst hfront
  rw [List.length_append, Nat.add_sub_cancel, List.take_left] at hscan
  subst hscan
  cases hopen : Terminal.opens [.symbol .openParen] (passed ++ c :: later ++ left) with
  | false =>
    -- Without an opening parenthesis nothing is passed over.
    rw [leaves_of_error (parenthesized_of_not_opens hopen)] at hleaves
    exact absurd (List.append_left_eq_self.1 hleaves)
      (List.append_ne_nil_of_right_ne_nil _ (List.cons_ne_nil c later))
  | true =>
    cases passed with
    | nil =>
      simp [Terminal.opens, Terminal.accepts, hc] at hopen
    | cons o passed =>
      have ho : o.token = .symbol .openParen := by
        simpa [Terminal.opens, Terminal.accepts] using hopen
      have heq : o :: passed ++ c :: later ++ left = o :: (passed ++ c :: (later ++ left)) := by
        simp
      rw [heq] at hleaves
      -- What the search leaves is what is left, so that it comes to `c`.
      have hcount : (tokens passed).count (.symbol .closeParen) <
          (tokens passed).count (.symbol .openParen) + (0 + 1) := by
        refine count_lt_of_closeParens c (later ++ left) fun rest hrest => ?_
        have hok : parenthesized (o :: (passed ++ c :: (later ++ left))) = .ok ((), rest) := by
          rw [parenthesized_cons ho, hrest]
        rw [leaves_of_ok hok] at hleaves
        rw [hleaves, List.length_append]
        exact Nat.le_add_left _ _
      simpa [ho] using hcount

/-- At every place `k` of every text, each rule of the grammar, and so each of the five that read a
whole text, is safe.

* It stops at a place from `k` on inside the text, whether it succeeds or fails.
* What it takes for a text are the tokens between the two places. Where the opening word of a
  statement is taken, there is one.
* Where a parenthesis is counted as closed, one is open: fewer have been closed than opened before.
* The step of a repetition fails, ends it, or takes a lexeme; so each repetition goes on as long as
  its step gives something. -/
theorem rules_safe :
    (∀ {α : Type} (p : Parser α), IsRule p → ∀ (text : List Lexeme) (k : Nat), k ≤ text.length →
      ∃ n, k ≤ n ∧ n ≤ text.length ∧ p.leaves (text.drop k) = text.drop n) ∧
    (∀ p : Parser Unit, IsRule p → ∀ (text : List Lexeme) (k : Nat) rest, k ≤ text.length →
      p (text.drop k) = .ok ((), rest) →
        ∃ n, k ≤ n ∧ n ≤ text.length ∧ rest = text.drop n ∧
          taken p (text.drop k) = .ok (tokens ((text.take n).drop k), rest)) ∧
    (∀ (text : List Lexeme) (k : Nat) category, Category.of? (text.drop k) = some category →
      k + 1 ≤ text.length) ∧
    (∀ (ls passed later : List Lexeme) (c : Lexeme),
      ls.take (ls.length - (parenthesized.leaves ls).length) = passed ++ c :: later →
      c.token = .symbol .closeParen →
      (tokens passed).count (.symbol .closeParen) <
        (tokens passed).count (.symbol .openParen)) ∧
    ∀ {α : Type} (step : Parser (Option α)), IsStep step → ∀ ls,
      ((∃ f, step ls = .error f) ∨ (∃ rest, step ls = .ok (none, rest)) ∨
        ∃ a rest, step ls = .ok (some a, rest) ∧ rest.length < ls.length) ∧
      many step ls =
        match step ls with
        | .error f => .error f
        | .ok (none, rest) => .ok ([], rest)
        | .ok (some a, rest) =>
          match many step rest with
          | .error f => .error f
          | .ok (as, rest) => .ok (a :: as, rest) := by
  -- Places and texts come from rules that go forward, the repetition from steps that advance.
  refine ⟨?places, ?texts, ?words, ?parens, ?steps⟩
  case places => exact fun p hp text k hk => hp.forward.exists_index hk
  case texts => exact fun p hp text k rest hk hok => hp.forward.taken hk hok
  case words =>
    intro text k category hof
    obtain ⟨l, behind, hdrop, -⟩ := exists_cons_of_category hof
    have hlength := congrArg List.length hdrop
    rw [List.length_drop, List.length_cons] at hlength
    omega
  case parens => exact fun ls passed later c hscan hc => count_lt_of_parenthesized hscan hc
  case steps =>
    intro α step hstep ls
    refine ⟨?_, many_of_advances hstep.advances ls⟩
    cases h : step ls with
    | error f => exact .inl ⟨f, rfl⟩
    | ok r =>
      obtain ⟨a?, rest⟩ := r
      cases a? with
      | none => exact .inr (.inl ⟨rest, rfl⟩)
      | some a => exact .inr (.inr ⟨a, rest, rfl, hstep.advances ls a rest h⟩)

/-- `SELECT (a);` -/
def selectInParens : List Lexeme :=
  ofTokens [.word none "SELECT", .symbol .openParen, .word none "a", .symbol .closeParen,
    .symbol .semicolon]

/-- Reading `SELECT (a);` stops inside the text. The parenthesis behind its opening word is taken,
and where it is counted as closed, it is open. The statement takes a lexeme. -/
theorem rules_safe_of_select :
    (∃ n ≤ selectInParens.length, script.leaves selectInParens = selectInParens.drop n) ∧
      (∃ n, 1 ≤ n ∧ n ≤ selectInParens.length ∧ selectInParens.drop 4 = selectInParens.drop n ∧
        taken parenthesized (selectInParens.drop 1) =
          .ok (tokens ((selectInParens.take n).drop 1), selectInParens.drop 4)) ∧
      0 + 1 ≤ selectInParens.length ∧
      (tokens ((selectInParens.take 3).drop 1)).count (.symbol .closeParen) <
        (tokens ((selectInParens.take 3).drop 1)).count (.symbol .openParen) ∧
      ∃ statement rest, statement? selectInParens = .ok (some statement, rest) ∧
        rest.length < selectInParens.length := by
  obtain ⟨hplaces, htexts, hwords, hparens, hsteps⟩ := rules_safe
  obtain ⟨n, -, hplace⟩ := hplaces script .script selectInParens 0 (Nat.zero_le _)
  -- The parenthesis is read from the first place on, and `)` is the third lexeme behind it.
  have hclosed : parenthesized (selectInParens.drop 1) = .ok ((), selectInParens.drop 4) := rfl
  refine ⟨⟨n, hplace⟩, htexts parenthesized .parenthesized selectInParens 1 _ (by decide) hclosed,
    hwords selectInParens 0 .manipulation rfl,
    hparens (selectInParens.drop 1) _ [] ⟨.symbol .closeParen, .start, .start⟩ ?scan rfl, ?step⟩
  case scan =>
    rw [leaves_of_ok hclosed]
    rfl
  case step =>
    obtain ⟨statement, rest, hread⟩ :
        ∃ statement rest, statement? selectInParens = .ok (some statement, rest) := ⟨_, _, rfl⟩
    have hstep := (hsteps statement? .statement selectInParens).1
    rw [hread] at hstep
    -- The run is known to give a statement, so only the last of the three outcomes is left.
    rcases hstep with ⟨_, h⟩ | ⟨_, h⟩ | ⟨_, _, h, hlength⟩
    · cases h
    · cases h
    · cases h
      exact ⟨statement, rest, hread, hlength⟩

end TableSchema.Grammar
