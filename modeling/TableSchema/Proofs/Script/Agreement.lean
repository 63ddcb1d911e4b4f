import TableSchema.Proofs.Script.Concatenation
import TableSchema.Proofs.Table.Agreement

/-!
# Scripts that are alike

Two texts that are alike are divided into the same statements, and their tables have the same
declarations up to their texts. Positions decide in one place only, where a change of the delimiter
ends with its line.

## Main definitions

* `Statement.mapTexts`: a statement with its texts replaced.

## Main results

* `statement_agree`: the grammar of statements agrees on texts that are alike;
* `script_agree`: so does the grammar of scripts.
-/

namespace TableSchema

/-- The statement with its texts replaced. The opening word is one of the language, not a text. -/
def Statement.mapTexts (name content : String → String) : Statement → Statement
  | createTable decl => .createTable (decl.mapTexts name content)
  | other category keyword text => .other category keyword (name text)

namespace Grammar

open TableSchema.Parser TableSchema.Likeness

variable {k : Likeness} {l l' : Lexeme} {ls ls' : List Lexeme}

/-! ## Opening words -/

/-- Every statement is opened by a keyword. -/
theorem accepts_of_ofWords? {category : Category}
    (h : Category.ofWords? (l :: ls) = some category) :
    ∃ word, (Terminal.keyword word).accepts l.token = true := by
  have hkeyword : ∀ o ∈ Category.openings, ∃ word seconds, o.1 = .keyword word :: seconds := by
    simp [Category.openings, Category.openingPairs, Category.openingWords]
  obtain ⟨o, ho, -⟩ := Option.map_eq_some_iff.1 h
  obtain ⟨word, seconds, heq⟩ := hkeyword o (List.mem_of_find?_eq_some ho)
  have hopens := List.find?_some ho
  rw [heq] at hopens
  exact ⟨word, (Bool.and_eq_true_iff.1 hopens).1⟩

/-- A statement begins with a parenthesis or a bare word. -/
theorem opening_of_of? {category : Category} (h : Category.of? (l :: ls) = some category) :
    l.token = .symbol .openParen ∨ ∃ word, l.token.bareWord? = some word := by
  unfold Category.of? at h
  split at h
  · rename_i hopens
    exact .inl (by simpa [Terminal.opens, Terminal.accepts] using hopens)
  · obtain ⟨spelling, haccepts⟩ := accepts_of_ofWords? h
    obtain ⟨word, hword, -⟩ := Option.any_eq_true _ _ |>.1 haccepts
    exact .inr ⟨word, hword⟩

/-- The category of the statement is the same in both texts. -/
theorem of?_alike (h : k.All ls ls') : Category.of? ls = Category.of? ls' := by
  rw [Category.of?, Category.of?, opens_eq h, ofWords?_alike h]

/-- A statement has the same opening word in both texts. -/
theorem openingWord_alike (hl : k.alike l l')
    (hopening : l.token = .symbol .openParen ∨ ∃ word, l.token.bareWord? = some word) :
    openingWord (l :: ls) = openingWord (l' :: ls') := by
  rcases hopening with hparen | ⟨word, hword⟩
  · rw [openingWord, openingWord, (symbol_iff hl _).1 hparen, hparen]
  · -- The words are equal up to their case, so their upper case is the same.
    have hlower := k.bareWord_eq hl
    rw [hword, Option.map_some] at hlower
    obtain ⟨word', hword', hcase⟩ := Option.map_eq_some_iff.1 hlower.symm
    rw [openingWord, openingWord, hword, hword', Option.map_some, Option.map_some, Option.getD_some,
      Option.getD_some, Text.upper_eq_upper hcase]

/-! ## Lines -/

/-- The same lexemes are passed over in both texts if a test has the same answers. -/
theorem dropWhile_alike {test test' : Lexeme → Bool} (h : k.All ls ls')
    (htest : ∀ m m', k.alike m m' → test m = test' m') :
    ∃ n, ls.dropWhile test = ls.drop n ∧ ls'.dropWhile test' = ls'.drop n := by
  induction h with
  | nil => exact ⟨0, rfl, rfl⟩
  | @cons m m' ms ms' hm hms ih =>
    rw [List.dropWhile_cons, List.dropWhile_cons, htest m m' hm]
    split
    · obtain ⟨n, hn, hn'⟩ := ih
      exact ⟨n + 1, hn, hn'⟩
    · exact ⟨0, rfl, rfl⟩

/-- The line of a word that changes the delimiter ends at the same place in both texts. -/
theorem skipLine_agreeAt (hl : k.alike l l') (h : k.All ls ls')
    (hdelimiter : (Terminal.keyword "DELIMITER").accepts l.token = true) :
    AgreeAt id skipLine skipLine (l :: ls) (l' :: ls') := by
  have hline : ∀ m m', k.alike m m' →
      decide (m.start.line = l.start.line) = decide (m'.start.line = l'.start.line) :=
    fun m m' hm => decide_eq_decide.2 (k.line_iff hl hm hdelimiter)
  obtain ⟨n, hn, hn'⟩ := dropWhile_alike h hline
  refine .inl ⟨n + 1, (), (), rfl, ?_, ?_⟩
  · rw [skipLine, dropLine, hn, List.drop_succ_cons]
  · rw [skipLine, dropLine, hn', List.drop_succ_cons]

/-! ## Statements -/

/-- A statement that is not read in full is the same up to its text. -/
theorem otherStatement_agreeAt (h : k.All ls ls') {category : Category}
    (hof : Category.of? ls = some category) :
    AgreeAt (Statement.mapTexts k.name k.content) (otherStatement category)
      (otherStatement category) ls ls' := by
  cases h with
  | nil => cases hof
  | @cons l l' ls ls' hl hls =>
    have hopening := opening_of_of? hof
    have hword : openingWord (l' :: ls') = openingWord (l :: ls) :=
      (openingWord_alike hl hopening).symm
    have hskip : AgreeAt id (if openingWord (l :: ls) = "DELIMITER" then skipLine else skipStatement)
        (if openingWord (l :: ls) = "DELIMITER" then skipLine else skipStatement)
        (l :: ls) (l' :: ls') := by
      split
      · rename_i hdelimiter
        refine skipLine_agreeAt hl hls ?_
        -- A parenthesis changes no delimiter, so the opening word is a bare one.
        rcases hopening with hparen | ⟨word, hbare⟩
        · rw [openingWord, hparen] at hdelimiter
          exact absurd hdelimiter (by decide)
        · simp only [openingWord, hbare, Option.map_some, Option.getD_some] at hdelimiter
          simp [Terminal.accepts, hbare, hdelimiter]
      · exact Agree.skipStatement _ _ (.cons hl hls)
    have hstep : ∀ ls, otherStatement category ls =
        (spaced (if openingWord ls = "DELIMITER" then skipLine else skipStatement) >>= fun text =>
          pure (.other category (openingWord ls) text)) ls := fun _ => rfl
    rw [AgreeAt, hstep, hstep, hword]
    refine (agreeAt_spaced hskip (.cons hl hls)).bind fun n text text' htext _ => ?_
    exact .inl ⟨0, .other category _ text, .other category _ text',
      congrArg (Statement.other category _) htext, rfl, rfl⟩

theorem tableStatement_agree :
    k.Agree (Statement.mapTexts k.name k.content) tableStatement tableStatement :=
  createTable_agree.bind fun _ _ h => .pure (congrArg Statement.createTable h)

/-- Texts that are alike begin with the same statement, up to its texts. -/
theorem statement_agree : k.Agree (Statement.mapTexts k.name k.content) statement statement := by
  have htables : k.Agree (Option.map (Statement.mapTexts k.name k.content))
      (choose? tableStatements) (choose? tableStatements) :=
    .choose? (.cons ⟨rfl, tableStatement_agree⟩ (.cons ⟨rfl, tableStatement_agree⟩ .nil))
  intro ls ls' hls
  rw [AgreeAt, statement_eq, statement_eq, ← of?_alike hls]
  cases hof : Category.of? ls with
  | none => exact Agree.fail _ ls ls' hls
  | some category =>
    refine (htables ls ls' hls).bind fun n statement? statement?' hview hok => ?_
    cases statement? with
    | some statement =>
      obtain ⟨statement', rfl, hstatement⟩ := Option.map_eq_some_iff.1 hview.symm
      exact .inl ⟨0, statement, statement', hstatement.symm, rfl, rfl⟩
    | none =>
      obtain rfl : statement?' = none := Option.map_eq_none_iff.1 hview.symm
      -- Without a declaration of a table nothing has been taken so far.
      obtain ⟨b, -, -, a, -, ha⟩ | ⟨-, hrest, -⟩ := choose?_eq_ok hok
      · cases ha
      · exact otherStatement_agreeAt (List.forall₂_drop n hls) (by rw [← hrest, hof])

/-! ## Scripts -/

theorem separator_agree : k.Agree id separator separator := by
  refine Agree.atEnd.bind_id fun _ => .ite (.pure rfl) ?_
  refine (Agree.eat _).bind_id fun _ => .ite (.pure rfl) ?_
  refine (Agree.asks fun ls ls' hls => startsStatement_alike hls).bind_id fun _ => ?_
  exact .ite (.pure rfl) (.fail _)

theorem statement?_agree :
    k.Agree (Option.map (Statement.mapTexts k.name k.content)) statement? statement? := by
  have hsemicolons : k.Shows (fun _ => ()) (Option.guard (· == .symbol .semicolon)) := by
    refine shows_guard fun l l' hl => ?_
    rw [Bool.eq_iff_iff, beq_iff_eq, beq_iff_eq]
    exact symbol_iff hl .semicolon
  refine (Agree.discard (.tokenRun hsemicolons)).bind_id fun _ => ?_
  refine Agree.atEnd.bind_id fun _ => .ite (.pure rfl) ?_
  refine statement_agree.bind fun _ _ hstatement => separator_agree.bind_id fun _ => ?_
  exact .pure (congrArg some hstatement)

/-- Scripts that are alike have the same statements, up to their texts. -/
theorem script_agree : k.Agree (List.map (Statement.mapTexts k.name k.content)) script script :=
  .many statement?_agree

end Grammar

end TableSchema
