import TableSchema.Proofs.Grammar.Append
import TableSchema.Proofs.Script.Findings
import TableSchema.Proofs.Table.Steady
import TableSchema.Script.Grammar

/-!
# Scripts one after the other

Two scripts with a semicolon between them are read as the statements of the first and then those of
the second. The first must not leave a parenthesis open, which would hide the semicolon, and the
semicolon and the second must lie on later lines, since a change of the delimiter takes the rest of
its line.

## Main definitions

* `EndsBefore`: what a script and the lexemes behind it need for this.

## Main results

* `statement_append`: a statement is read in front of a semicolon as at the end of the text;
* `script_append`: two scripts are read one after the other, and resolved one after the other.
-/

namespace TableSchema.Grammar

open TableSchema.Parser TableSchema.Parser.Seam

variable {α : Type} {ls rest second : List Lexeme} {semi : Lexeme}

/-- The lexemes `ls` may be followed by `semi` and `second`: their parentheses are closed, `semi` is
a semicolon, and it lies on a later line with what follows it. -/
structure EndsBefore (ls : List Lexeme) (semi : Lexeme) (second : List Lexeme) : Prop where
  closed : Closed (Lexeme.tokens ls)
  semicolon : semi.token = .symbol .semicolon
  later : ∀ l ∈ ls, ∀ m ∈ semi :: second, l.start.line < m.start.line

/-- What holds of lexemes and those behind them holds of the last ones. -/
theorem EndsBefore.of_suffix (h : EndsBefore ls semi second) (hrest : rest <:+ ls) :
    EndsBefore rest semi second where
  closed := (semicolonSeam []).inside_of_suffix (tokens_suffix hrest) h.closed
  semicolon := h.semicolon
  later := fun l hl => h.later l (hrest.subset hl)

/-- Lexemes go on with the tokens behind them. -/
theorem EndsBefore.continues (h : EndsBefore ls semi second) :
    (semicolonSeam (Lexeme.tokens second)).Continues ls (ls ++ semi :: second) := by
  simp [Continues, semicolonSeam, h.semicolon]

/-! ## Statements -/

/-- A parser that is steady in front of a semicolon leaves the lexemes from it on. -/
theorem EndsBefore.appends {p : Parser α} (h : EndsBefore ls semi second)
    (hp : (semicolonSeam (Lexeme.tokens second)).Steady p) : Appends p ls (semi :: second) := by
  have htail : (semicolonSeam (Lexeme.tokens second)).tail = Lexeme.tokens (semi :: second) := by
    simp [semicolonSeam, h.semicolon]
  exact fun a rest hrun => (hp ls h.closed).append htail hrun trivial

/-- The rest of a line is passed over up to lexemes on later lines. -/
theorem skipLine_appends (h : EndsBefore ls semi second) (hne : ls ≠ []) :
    Appends skipLine ls (semi :: second) := by
  intro a rest hrun
  cases ls with
  | nil => exact absurd rfl hne
  | cons l ls =>
    obtain rfl : ls.dropWhile (·.start.line = l.start.line) = rest := by
      simpa [skipLine, dropLine] using hrun
    refine ⟨(List.dropWhile_suffix _).trans (List.suffix_cons l ls), ?_⟩
    -- The semicolon is on a later line, so it stops what passes over the first line.
    have hlater : ¬ semi.start.line = l.start.line := by
      have := h.later l List.mem_cons_self semi List.mem_cons_self
      omega
    have hdrop : (ls ++ semi :: second).dropWhile (·.start.line = l.start.line) =
        ls.dropWhile (·.start.line = l.start.line) ++ semi :: second := by
      rw [List.dropWhile_append]
      split
      · rename_i hempty
        rw [List.isEmpty_iff.1 hempty, List.dropWhile_cons_of_neg (by simpa using hlater)]
        rfl
      · rfl
    rw [skipLine, List.cons_append, dropLine, hdrop]

/-- A statement that is not read in full ends in front of the semicolon. -/
theorem otherStatement_appends (h : EndsBefore ls semi second) (hne : ls ≠ [])
    (category : Category) : Appends (otherStatement category) ls (semi :: second) := by
  have hstep : ∀ ls, otherStatement category ls =
      (spaced (if openingWord ls = "DELIMITER" then skipLine else skipStatement) >>= fun text =>
        pure (.other category (openingWord ls) text)) ls := fun _ => rfl
  have hword : openingWord (ls ++ semi :: second) = openingWord ls := by
    cases ls with
    | nil => exact absurd rfl hne
    | cons l ls => rfl
  -- A change of the delimiter ends with its line, every other statement in front of a semicolon.
  have hskip : Appends (if openingWord ls = "DELIMITER" then skipLine else skipStatement) ls
      (semi :: second) := by
    split
    · exact skipLine_appends h hne
    · exact h.appends skipStatement_steady
  intro statement rest hrun
  rw [hstep] at hrun ⊢
  rw [hword]
  exact hskip.spaced.bind (fun _ _ _ => .pure _ _ _) statement rest hrun

/-- The declarations of tables among the statements. -/
def tableStatements : List (Branch Statement) := [
  ⟨[.keyword "CREATE", .keyword "TABLE"], tableStatement⟩,
  ⟨[.keyword "CREATE", .keyword "TEMPORARY", .keyword "TABLE"], tableStatement⟩]

/-- A statement is read by its category, if it does not declare a table. -/
theorem statement_eq (ls : List Lexeme) : statement ls = (match Category.of? ls with
    | none => fail .statement
    | some category => choose? tableStatements >>= fun statement? =>
      match statement? with
      | some statement => pure statement
      | none => otherStatement category : Parser Statement) ls :=
  rfl

theorem body_of_mem_tableStatements : ∀ b ∈ tableStatements, b.body = tableStatement := by
  simp [tableStatements]

/-- Where the words of a declaration come next, the statement is the declaration. -/
theorem statement_of_createTable {decl : TableDecl}
    (hopens : ∃ b ∈ tableStatements, Terminal.opens b.opener ls = true)
    (hdecl : createTable ls = .ok (decl, rest)) : statement ls = .ok (.createTable decl, rest) := by
  have hopeners : ∀ b ∈ tableStatements, b.opener.head? = some (.keyword "CREATE") := by
    simp [tableStatements]
  have hchoice : choose? tableStatements ls = .ok (some (.createTable decl), rest) := by
    rw [choose?_of_body_eq body_of_mem_tableStatements hopens]
    exact map_eq_ok.2 ⟨_, bind_of_ok hdecl, rfl⟩
  -- The statement has a category, since it begins with a word that opens one.
  obtain ⟨category, hcategory⟩ : ∃ category, Category.of? ls = some category := by
    obtain ⟨b, hb, hopens⟩ := hopens
    obtain ⟨pattern, hopener⟩ := List.head?_eq_some_iff.1 (hopeners b hb)
    rw [hopener] at hopens
    obtain ⟨l, ls, rfl, hcreate, -⟩ := Terminal.opens_cons.1 hopens
    unfold Category.of?
    split
    · exact ⟨_, rfl⟩
    · refine Option.isSome_iff_exists.1 (startsStatement_iff.2 ?_)
      exact ⟨([.keyword "CREATE"], .definition), by decide, by simp [Terminal.opens, hcreate]⟩
  rw [statement_eq, hcategory]
  exact bind_of_ok hchoice

/-- A statement that is a declaration is read as one behind its words. -/
theorem createTable_of_statement {decl : TableDecl}
    (h : statement ls = .ok (.createTable decl, rest)) :
    (∃ b ∈ tableStatements, Terminal.opens b.opener ls = true) ∧
      createTable ls = .ok (decl, rest) := by
  rw [statement_eq] at h
  cases hcategory : Category.of? ls with
  | none => simp [hcategory] at h
  | some category =>
    rw [hcategory] at h
    obtain ⟨statement?, mid, hchoice, h⟩ := bind_eq_ok.1 h
    obtain ⟨b, hb, hopens, statement, hbody, rfl⟩ | ⟨rfl, -, -⟩ := choose?_eq_ok hchoice
    · obtain ⟨rfl, rfl⟩ := pure_eq_ok.1 h
      rw [body_of_mem_tableStatements b hb] at hbody
      obtain ⟨decl', mid', hdecl, hpure⟩ := bind_eq_ok.1 hbody
      obtain ⟨heq, rfl⟩ := pure_eq_ok.1 hpure
      obtain rfl := Statement.createTable.inj heq
      exact ⟨⟨b, hb, hopens⟩, hdecl⟩
    · -- What is not read in full is another statement.
      obtain ⟨_, _, -, h⟩ := bind_eq_ok.1 h
      obtain ⟨_, _, -, h⟩ := bind_eq_ok.1 h
      exact nomatch (pure_eq_ok.1 h).1

/-- A statement is read in front of the semicolon as at the end of the text. -/
theorem statement_appends (h : EndsBefore ls semi second) (hne : ls ≠ []) :
    Appends statement ls (semi :: second) := by
  have hcategory : Category.of? (ls ++ semi :: second) = Category.of? ls := by
    rw [Category.of?, Category.of?, ofWords?_eq h.continues]
    cases ls with
    | nil => exact absurd rfl hne
    | cons l ls => simp [Terminal.opens]
  have hdeclarations : (semicolonSeam (Lexeme.tokens second)).Steady (choose? tableStatements) := by
    have htable : (semicolonSeam (Lexeme.tokens second)).Steady tableStatement :=
      createTable_steady.bind fun _ => .pure _
    refine .choose? ?_
    unfold tableStatements
    simp only [List.forall_mem_cons]
    exact ⟨.mk rfl htable, .mk rfl htable, List.forall_mem_nil _⟩
  intro statement rest hrun
  rw [statement_eq] at hrun ⊢
  rw [hcategory]
  cases hof : Category.of? ls with
  | none => simp [hof] at hrun
  | some category =>
    rw [hof] at hrun
    refine (h.appends hdeclarations).bind (fun statement? mid hchoice => ?_) statement rest hrun
    cases statement? with
    | some statement => exact .pure _ _ _
    | none =>
      -- Without a declaration of a table nothing has been taken so far.
      obtain ⟨b, -, -, a, -, ha⟩ | ⟨-, rfl, -⟩ := choose?_eq_ok hchoice
      · cases ha
      · exact otherStatement_appends h hne category

/-! ## Scripts -/

/-- No statement is left where nothing is left. -/
theorem statement?_nil : statement? [] = .ok (none, []) := rfl

/-- A semicolon before a statement is passed over. -/
theorem statement?_semicolon {l : Lexeme} (hl : l.token = .symbol .semicolon) (ls : List Lexeme) :
    statement? (l :: ls) = statement? ls := by
  have hrun : tokenRun (Option.guard (· == Token.symbol .semicolon)) (l :: ls) =
      .ok (.symbol .semicolon :: (tokenRun.run (Option.guard (· == .symbol .semicolon)) ls).1,
        (tokenRun.run (Option.guard (· == .symbol .semicolon)) ls).2) := by
    simp [tokenRun, tokenRun.run, hl, Option.guard]
  have hrest : tokenRun (Option.guard (· == Token.symbol .semicolon)) ls =
      .ok (tokenRun.run (Option.guard (· == .symbol .semicolon)) ls) := rfl
  rw [statement?, bind_of_ok (discard_of_ok hrun), bind_of_ok (discard_of_ok hrest)]

/-- A statement and what separates it from the next one. -/
def separatedStatement : Parser Statement := do
  let statement ← statement
  separator
  return statement

/-- Another token than a semicolon begins a statement. -/
theorem statement?_cons {l : Lexeme} (hl : l.token ≠ .symbol .semicolon) (ls : List Lexeme) :
    statement? (l :: ls) = (some <$> separatedStatement) (l :: ls) := by
  have hrun : tokenRun (Option.guard (· == Token.symbol .semicolon)) (l :: ls) =
      .ok ([], l :: ls) := by
    simp [tokenRun, tokenRun.run, hl, Option.guard]
  rw [statement?, bind_of_ok (discard_of_ok hrun), atEnd, bind_of_ok (asks_ok _ _)]
  change (statement >>= fun statement => separator >>= fun _ => pure (some statement)) (l :: ls) = _
  simp only [separatedStatement, map_bind, map_pure]

/-- The end of the text separates statements. -/
theorem separator_nil : separator [] = .ok ((), []) := rfl

/-- A semicolon separates statements. -/
theorem separator_semicolon {l : Lexeme} (hl : l.token = .symbol .semicolon) (ls : List Lexeme) :
    separator (l :: ls) = .ok ((), ls) := by
  have heat : eat (.symbol .semicolon) (l :: ls) = .ok (true, ls) := eat_cons (by rw [hl]; rfl)
  rw [separator, atEnd, bind_of_ok (asks_ok _ _)]
  change (eat (.symbol .semicolon) >>= fun semicolon => if semicolon then pure () else _) (l :: ls) = _
  rw [bind_of_ok heat]
  rfl

/-- Nothing separates a statement from a word that opens the next one. -/
theorem separator_cons {l : Lexeme} (hl : l.token ≠ .symbol .semicolon) (ls : List Lexeme) :
    separator (l :: ls) = (if Category.startsStatement (l :: ls) then pure ()
      else fail (.terminal (.symbol .semicolon)) : Parser Unit) (l :: ls) := by
  have heat : eat (.symbol .semicolon) (l :: ls) = .ok (false, l :: ls) :=
    eat_cons_other (by simpa [Terminal.accepts] using hl)
  rw [separator, atEnd, bind_of_ok (asks_ok _ _)]
  change (eat (.symbol .semicolon) >>= fun semicolon => if semicolon then pure () else _) (l :: ls) = _
  rw [bind_of_ok heat]
  rfl

/-- Behind a statement the same separates it from the next one in front of the semicolon, and at the
end of the text it is the semicolon. -/
theorem separator_append (h : EndsBefore ls semi second) (hrun : separator ls = .ok ((), rest)) :
    rest <:+ ls ∧ ((rest = [] ∧ separator (ls ++ semi :: second) = .ok ((), second)) ∨
      separator (ls ++ semi :: second) = .ok ((), rest ++ semi :: second)) := by
  cases ls with
  | nil =>
    rw [separator_nil] at hrun
    cases hrun
    exact ⟨List.suffix_refl _, .inl ⟨rfl, separator_semicolon h.semicolon second⟩⟩
  | cons l ls =>
    -- Without a semicolon a statement has to start next, and that is seen from the same lexemes.
    by_cases hl : l.token = .symbol .semicolon
    · rw [separator_semicolon hl] at hrun
      obtain rfl : ls = rest := by simpa using hrun
      exact ⟨List.suffix_cons l ls, .inr (separator_semicolon hl _)⟩
    · rw [separator_cons hl] at hrun
      rw [List.cons_append, separator_cons hl, ← List.cons_append, startsStatement_eq h.continues]
      cases hstarts : Category.startsStatement (l :: ls) with
      | false => simp [hstarts] at hrun
      | true =>
        rw [hstarts, if_pos rfl] at hrun
        obtain ⟨-, rfl⟩ := pure_eq_ok.1 hrun
        exact ⟨List.suffix_refl _, .inr rfl⟩

/-- What reading the next statement of `ls` becomes in front of the semicolon: if there is none, it
is the next statement of what follows; otherwise it is the same one, and if it was the last one the
semicolon may belong to it. -/
theorem statement?_append (h : EndsBefore ls semi second) {statement? : Option Statement}
    (hrun : Grammar.statement? ls = .ok (statement?, rest)) :
    (statement? = none ∧ rest = [] ∧
        Grammar.statement? (ls ++ semi :: second) = Grammar.statement? second) ∨
      (rest <:+ ls ∧ ls ≠ [] ∧ ∃ statement, statement? = some statement ∧
        ((rest = [] ∧ Grammar.statement? (ls ++ semi :: second) = .ok (some statement, second)) ∨
          Grammar.statement? (ls ++ semi :: second) =
            .ok (some statement, rest ++ semi :: second))) := by
  induction ls with
  | nil =>
    rw [statement?_nil] at hrun
    cases hrun
    exact .inl ⟨rfl, rfl, statement?_semicolon h.semicolon second⟩
  | cons l ls ih =>
    by_cases hl : l.token = .symbol .semicolon
    · -- A semicolon in front is passed over, here and there.
      rw [statement?_semicolon hl] at hrun
      rw [List.cons_append, statement?_semicolon hl]
      obtain hnone | ⟨hrest, -, hsome⟩ := ih (h.of_suffix (List.suffix_cons l ls)) hrun
      · exact .inl hnone
      · exact .inr ⟨hrest.trans (List.suffix_cons l ls), List.cons_ne_nil l ls, hsome⟩
    · rw [statement?_cons hl] at hrun
      obtain ⟨statement, hseparated, rfl⟩ := map_eq_ok.1 hrun
      obtain ⟨statement', mid, hstatement, hmid⟩ := bind_eq_ok.1 hseparated
      obtain ⟨u, mid', hseparator, hpure⟩ := bind_eq_ok.1 hmid
      obtain ⟨rfl, rfl⟩ := pure_eq_ok.1 hpure
      obtain ⟨hsuffix, hstatement'⟩ :=
        statement_appends h (List.cons_ne_nil l ls) statement' mid hstatement
      obtain ⟨hrest, hseparator'⟩ := separator_append (h.of_suffix hsuffix) hseparator
      -- What the separator leaves is what the statement with its separator leaves.
      have hgoes : ∀ behind, separator (mid ++ semi :: second) = .ok ((), behind) →
          Grammar.statement? (l :: ls ++ semi :: second) = .ok (some statement', behind) := by
        intro behind hbehind
        rw [List.cons_append, statement?_cons hl, ← List.cons_append]
        refine map_eq_ok.2 ⟨statement', ?_, rfl⟩
        rw [separatedStatement, bind_of_ok hstatement', bind_of_ok hbehind]
        rfl
      refine .inr ⟨hrest.trans hsuffix, List.cons_ne_nil l ls, statement', rfl, ?_⟩
      exact hseparator'.imp (fun hlast => ⟨hlast.1, hgoes _ hlast.2⟩) (hgoes _)

/-- A repetition that takes everything goes the same way from lexemes whose first step is the
same. -/
theorem many_of_step_eq {step : Parser (Option α)} {small big : List Lexeme} {as : List α}
    (hstep : step big = step small) (hle : small.length ≤ big.length)
    (hnil : step [] = .ok (none, [])) (h : many step small = .ok (as, [])) :
    many step big = .ok (as, []) := by
  obtain ⟨rfl, hsmall⟩ | ⟨a, later, mid, rfl, hsmall, hlt, hmany⟩ | ⟨a, rfl, hsmall, hstuck⟩ :=
    many_eq_ok h
  · exact many_of_none (hstep.trans hsmall)
  · exact many_of_some (hstep.trans hsmall) (Nat.lt_of_lt_of_le hlt hle) hmany
  · -- Nothing is taken and nothing is left, so there is nothing to take.
    obtain rfl : small = [] := List.length_eq_zero_iff.1 (Nat.le_zero.1 hstuck)
    rw [hnil] at hsmall
    cases hsmall

/-- The statements of two scripts, one after the other. -/
theorem many_statement?_append (h : EndsBefore ls semi second) {statements others : Script}
    (hfirst : many statement? ls = .ok (statements, []))
    (hsecond : many statement? second = .ok (others, [])) :
    many statement? (ls ++ semi :: second) = .ok (statements ++ others, []) := by
  -- The induction is on how many lexemes of the first script are left.
  induction hn : ls.length using Nat.strongRecOn generalizing ls statements with
  | ind n ih =>
    obtain ⟨rfl, hstep⟩ | ⟨next, later, mid, rfl, hstep, hlt, hmany⟩ | ⟨next, rfl, hstep, hstuck⟩ :=
      many_eq_ok hfirst
    · -- Without a statement in the first script the second one begins behind the semicolon.
      obtain ⟨-, -, hnext⟩ | ⟨-, -, _, hsome, -⟩ := statement?_append h hstep
      · exact many_of_step_eq hnext (by simp; omega) statement?_nil hsecond
      · exact nomatch hsome
    · obtain ⟨hnone, -⟩ | ⟨hmid, -, _, hsome, hnext⟩ := statement?_append h hstep
      · exact nomatch hnone
      · obtain rfl := Option.some.inj hsome
        obtain ⟨rfl, hlast⟩ | hgoes := hnext
        · -- The semicolon belongs to the last statement.
          obtain rfl : [] = later := by
            rw [many_of_none statement?_nil] at hmany
            simpa using hmany
          exact many_of_some hlast (by simp; omega) hsecond
        · refine many_of_some hgoes (by simpa using hlt) ?_
          exact ih mid.length (hn ▸ hlt) (h.of_suffix hmid) hmany rfl
    · -- A statement takes at least one lexeme.
      obtain ⟨hnone, -⟩ | ⟨-, hne, -⟩ := statement?_append h hstep
      · exact nomatch hnone
      · exact absurd (List.length_eq_zero_iff.1 (Nat.le_zero.1 hstuck)) hne

/-- Two scripts with a semicolon between them are read as the statements of the first and then those
of the second. Resolving them gives the tables of the first and then those of the second, and notes
what each of them notes, one after the other. -/
theorem script_append {first second : List Lexeme} {semi : Lexeme} {statements others : Script}
    (h : EndsBefore first semi second) (hfirst : readAll script first = .ok statements)
    (hsecond : readAll script second = .ok others) :
    readAll script (first ++ semi :: second) = .ok (statements ++ others) ∧
      ∀ ds : Diagnostics, (Script.resolve (statements ++ others)).run ds =
        ((Script.resolve statements).value ++ (Script.resolve others).value,
          (ds.append ((Script.resolve statements).run .empty).2).append
            ((Script.resolve others).run .empty).2) := by
  constructor
  · rw [readAll_eq_ok] at hfirst hsecond ⊢
    exact many_statement?_append h hfirst hsecond
  · intro ds
    -- Both the tables and the findings of a script are those of its statements, one by one.
    have htables : Script.tables (statements ++ others) =
        Script.tables statements ++ Script.tables others := List.filterMap_append
    have hfindings : Script.findings (statements ++ others) =
        Script.findings statements ++ Script.findings others := List.flatMap_append
    rw [Script.gives_findings, htables, hfindings, List.map_append, ← Diagnostics.append_append,
      (Script.gives_findings statements).value_eq, (Script.gives_findings others).value_eq,
      Script.gives_findings statements .empty, Script.gives_findings others .empty]
    rfl

/-- A statement and another one on the next line. -/
theorem script_append_of_lines :
    readAll script [⟨.word none "USE", ⟨1, 1⟩, ⟨1, 4⟩⟩, ⟨.word none "a", ⟨1, 5⟩, ⟨1, 6⟩⟩,
      ⟨.symbol .semicolon, ⟨2, 1⟩, ⟨2, 2⟩⟩, ⟨.word none "HELP", ⟨2, 2⟩, ⟨2, 6⟩⟩] =
        .ok [.other .utility "USE" "USE a", .other .utility "HELP" "HELP"] := by
  have hfirst : readAll script [⟨.word none "USE", ⟨1, 1⟩, ⟨1, 4⟩⟩,
      ⟨.word none "a", ⟨1, 5⟩, ⟨1, 6⟩⟩] = .ok [.other .utility "USE" "USE a"] :=
    readAll_eq_ok.2 (many_of_some rfl (by decide) (many_of_none statement?_nil))
  have hsecond : readAll script [⟨.word none "HELP", ⟨2, 2⟩, ⟨2, 6⟩⟩] =
      .ok [.other .utility "HELP" "HELP"] :=
    readAll_eq_ok.2 (many_of_some rfl (by decide) (many_of_none statement?_nil))
  have hends : EndsBefore [⟨.word none "USE", ⟨1, 1⟩, ⟨1, 4⟩⟩, ⟨.word none "a", ⟨1, 5⟩, ⟨1, 6⟩⟩]
      ⟨.symbol .semicolon, ⟨2, 1⟩, ⟨2, 2⟩⟩ [⟨.word none "HELP", ⟨2, 2⟩, ⟨2, 6⟩⟩] :=
    ⟨by decide, rfl, by decide⟩
  exact (script_append hends hfirst hsecond).1

end TableSchema.Grammar
