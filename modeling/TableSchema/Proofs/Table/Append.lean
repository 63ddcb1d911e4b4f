import TableSchema.Proofs.Key.Append
import TableSchema.Proofs.Table.Steady

/-!
# Tables in front of a statement

The declaration of a table ends where the next statement begins, even without a semicolon between
them. Everything after the list of the table looks for words of its own, none of which opens a
statement but for a few; and what is passed over with the partitions ends there if every parenthesis
before it is closed.

## Main definitions

* `Grammar.tableWords`: the words with which the declaration of a table may go on;
* `Grammar.StatementFollows`: a text that is the next statement, and no query of the table;
* `Grammar.Finished`: a declaration without a query, behind which nothing is left or a semicolon.

## Main results

* `statementFollows_of_starts`: which statements can follow a declaration;
* `createTable_appendsIf`: a declaration ends in front of such a statement.
-/

namespace TableSchema.Grammar

open TableSchema.Parser TableSchema.Parser.Seam TableSchema.Lexeme

variable {tail ls rest : List Lexeme}

/-- The words with which the declaration of a table may go on. -/
def tableWords : List String :=
  plainOptions ++ ["AS", "BY", "CHAR", "CHARACTER", "CHARSET", "COLLATE", "DATA", "DEFAULT",
    "DIRECTORY", "IF", "IGNORE", "INDEX", "LIKE", "PARTITION", "SELECT", "START", "STORAGE",
    "TABLESPACE", "TEMPORARY", "TRANSACTION", "UNION"]

/-- The second words of openings whose first words open no statement. -/
def secondWords : List String :=
  ["GROUP_REPLICATION", "REPLICA", "SLAVE", "TRANSACTION"]

/-- The next statement begins here, with a word that the declaration of a table does not go on with
and not as a query. -/
structure StatementFollows (tail : List Lexeme) : Prop where
  words : LedOutside (tableWords ++ secondWords) tail
  starts : Category.startsStatement tail = true
  noQuery : queryLead? tail = none

namespace StatementFollows

variable (h : StatementFollows tail)
include h

theorem tableWords : LedOutside tableWords tail :=
  h.words.mono (List.subset_append_left _ _)

/-- Something follows. -/
theorem ne_nil : tail ≠ [] := by
  rintro rfl
  exact absurd h.starts (by decide)

/-! ## The end of partitions -/

/-- No query begins in what follows. -/
theorem startsQuery_append (ls : List Lexeme) : startsQuery (ls ++ tail) = startsQuery ls := by
  have hselect : Terminal.Apart [.keyword "SELECT"] tail := h.tableWords.apart (by decide)
  have hparen : Terminal.Apart [.symbol .openParen, .keyword "SELECT"] tail :=
    h.tableWords.apart (by decide)
  simp only [startsQuery, Terminal.opensAny, List.any_cons, List.any_nil, hselect.opens_append,
    hparen.opens_append]

/-- The words in front of a query are not in what follows. -/
theorem queryLead?_append {ls : List Lexeme} (hls : ls ≠ []) :
    queryLead? (ls ++ tail) = queryLead? ls := by
  have has : Terminal.Apart [.keyword "AS"] tail := h.tableWords.apart (by decide)
  refine queryLead?_congr ?_ (fun n hn => ?_) fun n hn => ?_
  · obtain ⟨l, ls, rfl⟩ := List.exists_cons_of_ne_nil hls
    rfl
  · rw [List.drop_append_of_le_length hn, has.opens_append]
  · rw [List.drop_append_of_le_length hn, h.startsQuery_append]

/-- Whether a statement begins at a lexeme is the same in front of another statement: a pair of
words that opens one is not parted between them, unless its first word opens one already. -/
theorem startsStatement_append {ls : List Lexeme} (hls : ls ≠ []) :
    Category.startsStatement (ls ++ tail) = Category.startsStatement ls := by
  obtain ⟨l, ls, rfl⟩ := List.exists_cons_of_ne_nil hls
  have hopenings : ∀ opening ∈ Category.openings,
      opening.1.tail.all (Terminal.within secondWords) = true ∨
        opening.1.take 1 ∈ Category.openings.map Prod.fst := by decide
  refine Bool.eq_iff_iff.2 ⟨fun hstarts => ?_, fun hstarts => ?_⟩
  · obtain ⟨opening, hmem, hopens⟩ := startsStatement_iff.1 hstarts
    -- The second word does not begin the next statement, or the first opens a statement alone.
    obtain hlater | hsingle := hopenings opening hmem
    · have hapart : Terminal.Apart opening.1.tail tail :=
        (h.words.mono (List.subset_append_right _ _)).apart hlater
      rw [hapart.opens_cons_append] at hopens
      exact startsStatement_iff.2 ⟨opening, hmem, hopens⟩
    · obtain ⟨single, hmem, hfirst⟩ := List.mem_map.1 hsingle
      refine startsStatement_iff.2 ⟨single, hmem, ?_⟩
      rw [hfirst]
      cases hwords : opening.1 with
      | nil => rfl
      | cons t pattern =>
        rw [hwords, List.cons_append, Terminal.opens, Bool.and_eq_true] at hopens
        exact Bool.and_eq_true_iff.2 ⟨hopens.1, rfl⟩
  · obtain ⟨opening, hmem, hopens⟩ := startsStatement_iff.1 hstarts
    exact startsStatement_iff.2
      ⟨opening, hmem, Terminal.opens_of_append (tokens_append _ _) hopens⟩

/-- The partitions end where they ended. -/
theorem isPartitionEnd_append {ls : List Lexeme} (hls : ls ≠ []) :
    isPartitionEnd (ls ++ tail) = isPartitionEnd ls := by
  rw [isPartitionEnd, isPartitionEnd, queryAhead, queryAhead, h.queryLead?_append hls,
    h.startsStatement_append hls]
  obtain ⟨l, ls, rfl⟩ := List.exists_cons_of_ne_nil hls
  rfl

/-- What follows ends the partitions. -/
theorem isPartitionEnd : isPartitionEnd tail = true := by
  simp [Grammar.isPartitionEnd, h.starts]

/-- Partitions are passed over up to the next statement. -/
theorem skipPartitions_appends (hclosed : Closed (tokens ls)) :
    Appends (skipUntil Grammar.isPartitionEnd) ls tail := by
  intro a rest hrun
  obtain rfl : dropUntil Grammar.isPartitionEnd 0 ls = rest := by simpa [skipUntil] using hrun
  refine ⟨dropUntil_suffix _ 0 ls, ?_⟩
  have hdrop := dropUntil_continues Grammar.isPartitionEnd (fun ls ls' => ls' = ls ++ tail)
    (by rintro l ls _ rfl; exact ⟨l, ls ++ tail, rfl, rfl, rfl⟩)
    (by rintro ls _ rfl hls; exact h.isPartitionEnd_append hls)
    (by rintro _ rfl; exact dropUntil_of_stop h.isPartitionEnd) hclosed hclosed.depth rfl
  rw [skipUntil, hdrop]

/-! ## Options -/

theorem assignment_ends : Ends tail assignment :=
  (Ends.discard (.eat (h.words.apart rfl))).bind fun _ => .discard (.token _ _)

/-- No `STORAGE` follows. -/
theorem tablespace_ends : Ends tail tablespace :=
  h.assignment_ends.bind fun _ => (Ends.eat (h.tableWords.apart (by decide))).bind fun _ =>
    .ite (.discard (.token _ _)) (.pure ())

end StatementFollows

/-- The lexemes are more than the first word of `CHARACTER SET`, or another one. `SET` opens a
statement, so it could follow that word. -/
def Uncut (ls : List Lexeme) : Prop :=
  ∀ l, ls = [l] → (Terminal.word "CHARACTER").accepts l.token = false ∧
    (Terminal.word "CHAR").accepts l.token = false

/-- A clause of a table comes next only where its opener is not cut. -/
theorem uncut_of_opens {b : Branch Unit} (hb : b ∈ tableClauses)
    (hopens : Terminal.opens b.opener ls = true) : Uncut ls := by
  have hopeners : ∀ b ∈ tableClauses, 2 ≤ b.opener.length ∨
      b.opener.head?.any (Terminal.outside ["CHARACTER", "CHAR"]) = true := by decide
  rintro l rfl
  obtain hlength | houtside := hopeners b hb
  · have hle := Terminal.length_le_of_opens hopens
    exact absurd (Nat.le_trans hlength hle) (by simp)
  · have hled : LedOutside ["CHARACTER", "CHAR"] [l] := .of_opens houtside hopens
    exact ⟨hled.not_accepts (by decide) l rfl, hled.not_accepts (by decide) l rfl⟩

/-- Behind a text that is not cut the next statement does not begin like a clause of the table. -/
theorem StatementFollows.opens_append (h : StatementFollows tail) (hls : Uncut ls) :
    ∀ b ∈ tableClauses, Terminal.opens b.opener (ls ++ tail) = Terminal.opens b.opener ls := by
  have hopeners : ∀ b ∈ tableClauses, b.opener.all (Terminal.within Grammar.tableWords) = true ∨
      b.opener = [.word "CHARACTER", .word "SET"] ∨ b.opener = [.word "CHAR", .word "SET"] := by
    decide
  -- The two words for a character set are the only ones of which the tail could supply the second.
  have hcharset : ∀ t, t.within Grammar.tableWords = true →
      (∀ l, ls = [l] → t.accepts l.token = false) →
      Terminal.opens [t, .word "SET"] (ls ++ tail) = Terminal.opens [t, .word "SET"] ls := by
    intro t ht hcut
    clear hls
    match ls, hcut with
    | [], _ =>
      obtain ⟨l, tail, rfl⟩ := List.exists_cons_of_ne_nil h.ne_nil
      simp [Terminal.opens, h.tableWords.not_accepts ht l rfl]
    | [l], hcut => simp [Terminal.opens, hcut l rfl]
    | l :: m :: ls, _ => rfl
  intro b hb
  obtain hwithin | hopener | hopener := hopeners b hb
  · exact (h.tableWords.apart hwithin).opens_append ls
  · rw [hopener]
    exact hcharset _ (by decide) fun l hl => (hls l hl).1
  · rw [hopener]
    exact hcharset _ (by decide) fun l hl => (hls l hl).2

namespace StatementFollows

variable (h : StatementFollows tail)
include h

/-- The options for a character set end in front of what follows. -/
theorem charsetOptions_append : ∀ b ∈ charsetOptions, Terminal.opens b.opener ls = true →
    Appends b.body ls tail := by
  unfold charsetOptions
  simp only [List.forall_mem_cons]
  exact ⟨fun hopens => .behind hopens h.assignment_ends,
    fun hopens => .behind hopens h.assignment_ends, fun hopens => .behind hopens h.assignment_ends,
    fun hopens => .behind hopens h.assignment_ends, nofun⟩

/-- One of the options for a character set is read, so what is read was not cut. -/
theorem charsetOption_ends : Ends tail (choose .charsetOrCollation charsetOptions) := by
  intro ls u rest hrun
  have hclauses : ∀ b ∈ charsetOptions, b ∈ tableClauses := fun b hb =>
    List.mem_cons_of_mem _ (List.mem_append_left _ (List.mem_append_left _
      (List.mem_cons_of_mem _ hb)))
  obtain ⟨b, hb, hopens, -⟩ := choose_eq_ok hrun
  have huncut := uncut_of_opens (hclauses b hb) hopens
  exact choose_append hrun fun b hb => ⟨h.opens_append huncut b (hclauses b hb),
    fun hopens => h.charsetOptions_append b hb hopens u rest⟩

/-- Each option of a table ends in front of what follows. -/
theorem tableOptions_append : ∀ b ∈ tableOptions, Terminal.opens b.opener ls = true →
    Appends b.body ls tail := by
  have hassignment : ∀ {opener : List Terminal}, Terminal.opens opener ls = true →
      Appends (Branch.behind opener assignment).body ls tail :=
    fun hopens => .behind hopens h.assignment_ends
  unfold tableOptions
  simp only [List.cons_append, List.append_assoc, List.forall_mem_cons, List.forall_mem_append]
  refine ⟨fun hopens => .behind hopens h.charsetOption_ends, h.charsetOptions_append, hassignment,
    hassignment, fun hopens => .behind hopens h.tablespace_ends, ?union,
    fun hopens => .behind hopens (Ends.pure ()), nofun, ?plain⟩
  case union =>
    refine fun hopens => .behind hopens ?_
    exact (Ends.discard (.eat (h.words.apart rfl))).bind fun _ => .parenthesized
  case plain =>
    intro b hb
    obtain ⟨name, -, rfl⟩ := List.mem_map.1 hb
    exact hassignment

/-- The clauses of a table, with its partitions among them. -/
theorem tableClauses_append (hclosed : Closed (tokens ls)) :
    ∀ b ∈ tableClauses, Terminal.opens b.opener ls = true → Appends b.body ls tail := by
  refine List.forall_mem_cons.2 ⟨fun hopens => ?_, h.tableOptions_append⟩
  refine (Appends.skip (Terminal.length_le_of_opens hopens)).bind fun _ mid hmid => ?_
  obtain rfl : ls.drop 2 = mid := (Prod.mk.inj (Except.ok.inj hmid)).2
  exact h.skipPartitions_appends (hclosed.of_suffix (List.drop_suffix 2 ls))

/-! ## The end of a declaration -/

end StatementFollows

/-- Nothing is left, or a semicolon. -/
def AtSemicolon (ls : List Lexeme) : Prop :=
  ls = [] ∨ Terminal.opens [.symbol .semicolon] ls = true

/-- A semicolon is a lexeme whose token it is. -/
theorem AtSemicolon.cases (h : AtSemicolon ls) :
    ls = [] ∨ ∃ l later, ls = l :: later ∧ l.token = .symbol .semicolon := by
  obtain rfl | hopens := h
  · exact .inl rfl
  · obtain ⟨l, later, rfl, hl, -⟩ := Terminal.opens_cons.1 hopens
    exact .inr ⟨l, later, rfl, by simpa [Terminal.accepts] using hl⟩

/-- A statement that ends at a semicolon is not cut by what follows. -/
theorem AtSemicolon.uncut (h : AtSemicolon ls) : Uncut ls := by
  rintro l rfl
  obtain hnil | ⟨_, _, heq, hl⟩ := h.cases
  · exact nomatch hnil
  · obtain ⟨rfl, -⟩ := List.cons.inj heq
    rw [hl]
    exact ⟨rfl, rfl⟩

namespace StatementFollows

variable (h : StatementFollows tail)
include h

/-- Options and partitions end where no clause is read any more. -/
theorem tableClause?_appendsIf (hclosed : Closed (tokens ls)) :
    AppendsIf (fun clause? rest => clause? = none → AtSemicolon rest) tableClause? ls tail := by
  intro clause? rest hrun hend
  obtain ⟨found?, mid, hchoice, hfound⟩ := bind_eq_ok.1 hrun
  have huncut : Uncut ls := by
    obtain ⟨b, hb, hopens, -⟩ | ⟨rfl, rfl, -⟩ := choose?_eq_ok hchoice
    · exact uncut_of_opens hb hopens
    · -- Without a clause nothing is taken, and the text ends here.
      obtain ⟨rfl, rfl⟩ := pure_eq_ok.1 hfound
      exact (hend rfl).uncut
  have hsteps : Appends (choose? tableClauses) ls tail := fun a? rest hrun =>
    choose?_append hrun fun b hb => ⟨h.opens_append huncut b hb,
      fun hopens a _ => h.tableClauses_append hclosed b hb hopens a rest⟩
  refine hsteps.bind (fun found? mid _ => ?_) clause? rest hrun
  cases found? with
  | none => exact .pure none _ _
  | some found =>
    exact ((Ends.discard (.eat (h.words.apart rfl))).bind fun _ => .pure _) mid

/-- Where nothing is left, or a semicolon, no query comes next in front of the statement. -/
theorem trailingQuery_append (hend : AtSemicolon ls) :
    trailingQuery (ls ++ tail) = .ok (none, ls ++ tail) := by
  refine trailingQuery_of_none ?_
  obtain rfl | ⟨l, later, rfl, hl⟩ := hend.cases
  · exact h.noQuery
  · simp [queryLead?, startsQuery, Terminal.opensAny, Terminal.opens, Terminal.accepts, hl,
      Token.bareWord?]

/-- The declaration ends there. -/
theorem isTableEnd_append (hend : AtSemicolon ls) : isTableEnd (ls ++ tail) = true := by
  obtain rfl | ⟨l, later, rfl, hl⟩ := hend.cases
  · simp [isTableEnd, h.starts]
  · simp [isTableEnd, Terminal.opens, Terminal.accepts, hl]

/-- What follows the list of a table ends in front of the next statement, if it holds no query and
ends where the text does or before a semicolon. -/
theorem tableTail_appendsIf (hclosed : Closed (tokens ls)) :
    AppendsIf (fun query? rest => query? = none ∧ AtSemicolon rest) tableTail ls tail := by
  rintro query? rest hrun ⟨rfl, hend⟩
  obtain ⟨_, mid, hmany, hrun⟩ := bind_eq_ok.1 hrun
  obtain ⟨units, hmany⟩ := discard_eq_ok.1 hmany
  obtain ⟨query?, mid', hquery, hrun⟩ := bind_eq_ok.1 hrun
  cases query? with
  | some query => exact nomatch (pure_eq_ok.1 hrun).1
  | none =>
    obtain rfl : mid = mid' := (trailingQuery_eq_none hquery).symm
    obtain ⟨ends, _, hends, hrun⟩ := bind_eq_ok.1 hrun
    obtain ⟨-, rfl⟩ := asks_eq_ok.1 hends
    obtain rfl : mid = rest := by
      cases ends with
      | true => exact (pure_eq_ok.1 hrun).2
      | false => exact absurd hrun fail_eq_ok.1
    -- Every clause ends in front of the tail as long as no parenthesis is open before it.
    obtain ⟨hrest, hmany'⟩ := AppendsIf.many (fun hrest hls => Closed.of_suffix hls hrest)
      (fun ls hclosed => h.tableClause?_appendsIf hclosed) hclosed units mid hmany hend
    refine ⟨hrest, ?_⟩
    rw [tableTail, bind_of_ok (discard_of_ok hmany'), bind_of_ok (h.trailingQuery_append hend)]
    change (asks isTableEnd >>= fun ends => if ends then pure none else fail .tableOption) _ = _
    rw [bind_of_ok (asks_ok _ _), h.isTableEnd_append hend]
    rfl

end StatementFollows

/-! ## Declarations -/

/-- The declaration is made by a list or like another one, and nothing is left of its text, or a
semicolon. -/
def Finished (decl : TableDecl) (rest : List Lexeme) : Prop :=
  (∀ name items query, decl ≠ .query name items query) ∧ AtSemicolon rest

namespace StatementFollows

variable (h : StatementFollows tail)
include h

/-- What follows the list of a finished declaration is not part of it. -/
theorem afterList_appendsIf (name : String) (items : Option (List TableItem))
    (hclosed : Closed (tokens ls)) : AppendsIf Finished (afterList name items) ls tail := by
  rintro decl rest hrun ⟨hquery, hend⟩
  obtain ⟨query?, htail, hdeclared⟩ := afterList_eq_ok.1 hrun
  have hnone : query? = none := by
    cases query? with
    | none => rfl
    | some query => exact absurd (Option.some.inj hdeclared).symm (hquery name items query)
  obtain ⟨hrest, htail'⟩ := h.tableTail_appendsIf hclosed query? rest htail ⟨hnone, hend⟩
  exact ⟨hrest, afterList_eq_ok.2 ⟨query?, htail', hdeclared⟩⟩

/-- A finished declaration ends where it ended, whatever its body is. -/
theorem tableBody_appendsIf (name : String) (hclosed : Closed (tokens ls)) :
    AppendsIf Finished (tableBody name) ls tail := by
  -- Whether a list comes next is seen in front of the tail.
  have hlist : listAhead (ls ++ tail) = listAhead ls := by
    have hparen : Terminal.Apart [.symbol .openParen] tail := h.words.apart rfl
    rw [listAhead, listAhead, hparen.opens_append]
    cases ls with
    | nil => rfl
    | cons l ls => rw [List.cons_append, List.drop_one, List.drop_one, List.tail_cons,
        List.tail_cons, h.startsQuery_append]
  rw [tableBody_eq]
  refine AppendsIf.bind (.asks hlist) fun listed mid hmid => ?_
  have hmid := hclosed.of_suffix hmid
  cases listed with
  | false => exact h.afterList_appendsIf name none hmid
  | true =>
    have hitems : Ends tail tableItems := .list (tableItem_steady _)
    exact AppendsIf.bind (hitems.map some mid) fun items rest hrest =>
      h.afterList_appendsIf name items (hmid.of_suffix hrest)

/-- Behind `TABLE`, a finished declaration ends where it ended. -/
theorem namedTable_appendsIf (hclosed : Closed (tokens ls)) :
    AppendsIf Finished namedTable ls tail := by
  have hname : Ends tail tableName := tableName_ends h.words
  -- No `LIKE` follows that the table could be declared by.
  have hmodel : Ends tail (choose? [
      .behind [.keyword "LIKE"] tableName,
      .behind [.symbol .openParen, .keyword "LIKE"] modelInParens]) := by
    refine .choose? ?_
    simp only [List.forall_mem_cons]
    refine ⟨.behind (h.tableWords.apart (by decide)) hname, ?_, nofun⟩
    exact .behind (h.tableWords.apart (by decide))
      (hname.bind fun _ => (Ends.expect _).bind fun _ => .pure _)
  refine AppendsIf.bind (hname ls) fun name mid hmid => ?_
  refine AppendsIf.bind (hmodel mid) fun model? rest hrest => ?_
  cases model? with
  | some model => exact .of_appends (.pure _ _ _)
  | none => exact h.tableBody_appendsIf name ((hclosed.of_suffix hmid).of_suffix hrest)

/-- The declaration of a table ends in front of the next statement. -/
theorem createTable_appendsIf (hclosed : Closed (tokens ls)) :
    AppendsIf Finished createTable ls tail := by
  have hword : ∀ t, t.within Grammar.tableWords = true → Ends tail (eat t) := fun t ht =>
    .eat (h.tableWords.apart (by simp [ht]))
  rw [createTable_eq]
  refine AppendsIf.bind (Ends.expect _ ls) fun _ ls₁ h₁ => ?_
  refine AppendsIf.bind ((hword _ (by decide)).discard ls₁) fun _ ls₂ h₂ => ?_
  refine AppendsIf.bind (Ends.expect _ ls₂) fun _ ls₃ h₃ => ?_
  refine AppendsIf.bind (hword _ (by decide) ls₃) fun ifNotExists ls₄ h₄ => ?_
  -- The parentheses of what is left stay closed from part to part.
  have hclosed₄ := (((hclosed.of_suffix h₁).of_suffix h₂).of_suffix h₃).of_suffix h₄
  cases ifNotExists with
  | false => exact h.namedTable_appendsIf hclosed₄
  | true =>
    refine AppendsIf.bind (Ends.expect _ ls₄) fun _ ls₅ h₅ => ?_
    refine AppendsIf.bind (Ends.expect _ ls₅) fun _ ls₆ h₆ => ?_
    exact h.namedTable_appendsIf ((hclosed₄.of_suffix h₅).of_suffix h₆)

end StatementFollows

/-! ## Statements that can follow -/

/-- The words of a statement that a query opens, which could belong to the table before it. -/
def replaceQueries : List (List Terminal) := [
  [.keyword "REPLACE", .keyword "SELECT"],
  [.keyword "REPLACE", .symbol .openParen, .keyword "SELECT"],
  [.keyword "REPLACE", .keyword "AS", .keyword "SELECT"],
  [.keyword "REPLACE", .keyword "AS", .symbol .openParen, .keyword "SELECT"]]

/-- A statement can follow the declaration of a table if it begins with another word than the
declaration could go on with, and not like a query with `REPLACE` before it. -/
theorem statementFollows_of_starts (hstarts : Category.startsStatement tail = true)
    (hwords : ∀ word ∈ ["SELECT", "START", "CHECKSUM"],
      Terminal.opens [.keyword word] tail = false)
    (hreplace : Terminal.opensAny replaceQueries tail = false) : StatementFollows tail := by
  have hopenings : ∀ opening ∈ Category.openings,
      (∃ word ∈ ["SELECT", "START", "CHECKSUM"], opening.1.head? = some (.keyword word)) ∨
        opening.1.head?.any (Terminal.outside (tableWords ++ secondWords)) = true := by decide
  obtain ⟨opening, hmem, hopens⟩ := startsStatement_iff.1 hstarts
  have hled : LedOutside (tableWords ++ secondWords) tail := by
    obtain ⟨word, hword, hhead⟩ | houtside := hopenings opening hmem
    · obtain ⟨pattern, hopening⟩ := List.head?_eq_some_iff.1 hhead
      rw [hopening] at hopens
      obtain ⟨l, tail, rfl, hl, -⟩ := Terminal.opens_cons.1 hopens
      exact absurd (hwords word hword) (by simp [Terminal.opens, hl])
    · exact .of_opens houtside hopens
  refine ⟨hled, hstarts, ?_⟩
  cases tail with
  | nil => rfl
  | cons l tail =>
    have hno : ∀ t : Terminal, t.within (tableWords ++ secondWords) = true →
        t.accepts l.token = false :=
      fun t ht => hled.not_accepts ht l rfl
    have hignore := hno (.keyword "IGNORE") (by decide)
    have has := hno (.keyword "AS") (by decide)
    have hselect := hno (.keyword "SELECT") (by decide)
    have hparen := hno (.symbol .openParen) rfl
    cases hl : (Terminal.keyword "REPLACE").accepts l.token with
    | false =>
      simp [queryLead?, startsQuery, Terminal.opensAny, Terminal.opens, hignore, has, hselect,
        hparen, hl]
    | true =>
      -- Behind `REPLACE` no query comes next, neither at once nor behind `AS`.
      obtain ⟨hselect, hparen, hasSelect, hasParen⟩ :
          Terminal.opens [.keyword "SELECT"] tail = false ∧
          Terminal.opens [.symbol .openParen, .keyword "SELECT"] tail = false ∧
          Terminal.opens [.keyword "AS", .keyword "SELECT"] tail = false ∧
          Terminal.opens [.keyword "AS", .symbol .openParen, .keyword "SELECT"] tail = false := by
        rw [replaceQueries, Terminal.opensAny] at hreplace
        simpa only [List.any_cons, List.any_nil, Terminal.opens, hl, Bool.true_and,
          Bool.or_false, Bool.or_eq_false_iff] using hreplace
      have hquery : startsQuery tail = false := by
        simp [startsQuery, Terminal.opensAny, hselect, hparen]
      cases tail with
      | nil => simp [queryLead?, startsQuery, Terminal.opensAny, Terminal.opens, hl]
      | cons m tail =>
        cases hm : (Terminal.keyword "AS").accepts m.token with
        | false => simp [queryLead?, Terminal.opensAny, Terminal.opens, hl, hm, hquery]
        | true =>
          rw [Terminal.opens, hm, Bool.true_and] at hasSelect hasParen
          simp [queryLead?, startsQuery, Terminal.opensAny, Terminal.opens, hl, hm, hasSelect,
            hasParen]

end TableSchema.Grammar
