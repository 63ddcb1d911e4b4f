import TableSchema.Proofs.Key.Acceptance
import TableSchema.Proofs.Table.Steady
import TableSchema.Script.Grammar

/-!
# The list of a table, entry by entry

A table that is declared by a list is read entry by entry: its columns, constraints and indexes are
those that their tokens declare when each of them is read on its own. An entry ends where it would
end by itself, since the grammars of entries are steady in front of a comma and a parenthesis, and
the first word of an entry sends it to the grammar that it was read with.

## Main definitions

* `ColumnName.Written`: the words that name a column;
* `Declares`: tokens that are a whole entry on their own, with the entry;
* `IsEntry`: tokens that are read as an entry of a list;
* `tableHead`, `quotedName`: what stands before the list.

## Main results

* `createTable_of_entries`: the declaration of a table whose list is made of entries;
* `singleTable_entries`: what is read of it when nothing follows, or options and partitions.
-/

namespace TableSchema

/-- The words that name a column, with points between them, and the name that is read of them: a
column, perhaps behind its table, perhaps behind its database. -/
inductive ColumnName.Written : List Token → ColumnName → Prop
  /-- The column alone. -/
  | column (quote : Option Char) (column : String) :
    Written [.word quote column] ⟨Token.wordText quote column, []⟩
  /-- The column behind its table. -/
  | ofTable (quote quote' : Option Char) (table column : String) :
    Written [.word quote table, .symbol .period, .word quote' column]
      ⟨Token.wordText quote table, [Token.wordText quote' column]⟩
  /-- The column behind its database and its table. -/
  | ofDatabase (quote quote' quote'' : Option Char) (database table column : String) :
    Written [.word quote database, .symbol .period, .word quote' table, .symbol .period,
        .word quote'' column]
      ⟨Token.wordText quote database, [Token.wordText quote' table, Token.wordText quote'' column]⟩

namespace Grammar

open TableSchema.Parser TableSchema.Parser.Seam

variable {ls rest : List Lexeme}

/-! ## First words -/

/-- A data type begins with a bare word. -/
theorem bareWord_of_dataType {decl : TypeDecl} (h : dataType ls = .ok (decl, rest)) :
    ∃ l ls' value, ls = l :: ls' ∧ l.token = .word none value := by
  obtain ⟨type?, mid, hchoice, h⟩ := bind_eq_ok.1 h
  obtain ⟨b, hb, hopens, -⟩ | ⟨rfl, rfl, -⟩ := choose?_eq_ok hchoice
  · -- The words that open a type of the national character set are bare.
    have hopener : ∃ spelling pattern, b.opener = .word spelling :: pattern := by
      simp only [List.mem_cons, List.not_mem_nil, or_false] at hb
      rcases hb with rfl | rfl
      · exact ⟨_, _, rfl⟩
      · exact ⟨_, _, rfl⟩
    obtain ⟨spelling, pattern, heq⟩ := hopener
    rw [heq] at hopens
    obtain ⟨l, ls', rfl, hl, -⟩ := Terminal.opens_cons.1 hopens
    obtain ⟨value, hvalue⟩ := Terminal.bareWord_of_accepts hl nofun
    exact ⟨l, ls', value, rfl, hvalue⟩
  · obtain ⟨keyword?, mid, hpeek, h⟩ := bind_eq_ok.1 h
    cases keyword? with
    | none => exact absurd h fail_eq_ok.1
    | some keyword =>
      cases ls with
      | nil => simp [peekTypeKeyword?] at hpeek
      | cons l ls =>
        cases hl : l.token with
        | word quote value =>
          cases quote with
          | none => exact ⟨l, ls, value, rfl, hl⟩
          | some quote => simp [peekTypeKeyword?, TypeName.ofToken?, Token.bareWord?, hl] at hpeek
        | _ => simp [peekTypeKeyword?, TypeName.ofToken?, Token.bareWord?, hl] at hpeek

/-- A constraint of a table begins with one of its words. -/
theorem opens_of_tableConstraint {decl : ConstraintDecl}
    (h : tableConstraint ls = .ok (decl, rest)) :
    Terminal.opensAny constraintOpeners ls = true := by
  obtain ⟨name, mid, hname, h⟩ := bind_eq_ok.1 h
  obtain ⟨named, mid', hnamed, hname⟩ := bind_eq_ok.1 hname
  obtain ⟨hconstraint, rfl⟩ := eatAll_eq_ok.1 hnamed
  unfold constraintOpeners Terminal.opensAny
  rw [List.any_eq_true]
  cases named with
  | true => exact ⟨_, List.mem_cons_self, hconstraint⟩
  | false =>
    -- Without a name, the choice of the constraint is made by the first word.
    obtain ⟨-, rfl⟩ := pure_eq_ok.1 hname
    obtain ⟨b, hb, hopens, -⟩ := choose_eq_ok h
    simp only [List.mem_cons, List.not_mem_nil, or_false] at hb
    refine ⟨b.opener, ?_, hopens⟩
    rcases hb with rfl | rfl | rfl | rfl <;> simp [Branch.behind]

/-- An index begins with one of its words. -/
theorem opens_of_indexDeclaration {decl : IndexDecl}
    (h : indexDeclaration ls = .ok (decl, rest)) :
    Terminal.opensAny indexOpeners ls = true := by
  unfold indexOpeners Terminal.opensAny
  rw [List.any_eq_true]
  -- The words of special indexes are tried before those of plain ones.
  obtain ⟨index?, mid, hchoice, h⟩ := bind_eq_ok.1 h
  obtain ⟨b, hb, hopens, -⟩ | ⟨rfl, rfl, -⟩ := choose?_eq_ok hchoice
  · simp only [List.mem_cons, List.not_mem_nil, or_false] at hb
    refine ⟨b.opener, ?_, hopens⟩
    rcases hb with rfl | rfl <;> simp [Branch.behind]
  · obtain ⟨word?, mid, hword, h⟩ := bind_eq_ok.1 h
    obtain ⟨b, hb, hopens, -⟩ | ⟨rfl, rfl, -⟩ := choose?_eq_ok hword
    · simp only [List.mem_cons, List.not_mem_nil, or_false] at hb
      refine ⟨b.opener, ?_, hopens⟩
      rcases hb with rfl | rfl <;> simp [Branch.behind]
    · exact absurd h fail_eq_ok.1

/-- The words that a constraint begins with. -/
def constraintWords : List String := ["CONSTRAINT", "PRIMARY", "UNIQUE", "FOREIGN", "CHECK"]

/-- The words that an index begins with. -/
def indexWords : List String := ["INDEX", "KEY", "FULLTEXT", "SPATIAL"]

/-- The openers are single words out of `words`. -/
def OpenedBy (openers : List (List Terminal)) (words : List String) : Prop :=
  ∀ opener ∈ openers, ∃ word ∈ words, Text.IsSpelling word ∧
    (opener = [.keyword word] ∨ opener = [.word word])

theorem constraintOpeners_openedBy : OpenedBy constraintOpeners constraintWords := by
  unfold OpenedBy
  decide

theorem indexOpeners_openedBy : OpenedBy indexOpeners indexWords := by
  unfold OpenedBy
  decide

/-- What comes next is accepted by the keyword of the same spelling as an opener. -/
theorem firstWord_of_opensAny {openers : List (List Terminal)} {words : List String}
    (hopeners : OpenedBy openers words) (h : Terminal.opensAny openers ls = true) :
    ∃ l ls' word, ls = l :: ls' ∧ word ∈ words ∧
      (Terminal.keyword word).accepts l.token = true := by
  obtain ⟨opener, hmem, hopens⟩ := List.any_eq_true.1 h
  obtain ⟨word, hword, hspelling, rfl | rfl⟩ := hopeners opener hmem
  · obtain ⟨l, ls', rfl, hl, -⟩ := Terminal.opens_cons.1 hopens
    exact ⟨l, ls', word, rfl, hword, hl⟩
  · obtain ⟨l, ls', rfl, hl, -⟩ := Terminal.opens_cons.1 hopens
    exact ⟨l, ls', word, rfl, hword, Terminal.keyword_accepts_of_word hspelling hl⟩

/-- An index is not taken for a constraint. -/
theorem not_constraint_of_index (h : Terminal.opensAny indexOpeners ls = true) :
    Terminal.opensAny constraintOpeners ls = false := by
  obtain ⟨l, ls', word, rfl, hword, hl⟩ := firstWord_of_opensAny indexOpeners_openedBy h
  -- The first word would be accepted by two keywords, which therefore are the same.
  have hdisjoint : ∀ word ∈ indexWords, word ∉ constraintWords := by decide
  cases hopens : Terminal.opensAny constraintOpeners (l :: ls') with
  | false => rfl
  | true =>
    obtain ⟨_, _, other, heq, hother, hl'⟩ :=
      firstWord_of_opensAny constraintOpeners_openedBy hopens
    cases heq
    exact absurd (Terminal.keyword_unique hl hl' ▸ hother) (hdisjoint word hword)

/-- A quoted word is none of the words that a constraint or an index begins with. -/
theorem not_opensAny_of_quoted {openers : List (List Terminal)} {words : List String}
    (hopeners : OpenedBy openers words) {l : Lexeme} {quote : Char} {name : String}
    (hl : l.token = .word (some quote) name) : Terminal.opensAny openers (l :: ls) = false := by
  cases hopens : Terminal.opensAny openers (l :: ls) with
  | false => rfl
  | true =>
    obtain ⟨_, _, word, heq, -, haccepts⟩ := firstWord_of_opensAny hopeners hopens
    cases heq
    obtain ⟨value, hbare, -⟩ := Terminal.keyword_accepts.1 haccepts
    simp [hl] at hbare

/-! ## Entries -/

/-- The tokens declare the entry when they are read on their own: they are a backtick quoted name
and a column, a constraint or an index. -/
inductive Declares : List Token → TableItem → Prop
  /-- A column behind its name. -/
  | column {name : String} {ls : List Lexeme} {decl : ColumnDecl}
      (h : readAll columnDefinition ls = .ok decl) :
      Declares (.word (some '\x60') name :: Lexeme.tokens ls)
        (.column ⟨Token.wordText (some '\x60') name, []⟩ decl)
  /-- A constraint. -/
  | constraint {ls : List Lexeme} {decl : ConstraintDecl}
      (h : readAll tableConstraint ls = .ok decl) :
      Declares (Lexeme.tokens ls) (.constraint decl)
  /-- An index. -/
  | index {ls : List Lexeme} {decl : IndexDecl} (h : readAll indexDeclaration ls = .ok decl) :
      Declares (Lexeme.tokens ls) (.index decl)

/-- A word is read as its text. -/
theorem identifier_word (quote : Option Char) (value : String) (p q : Position) :
    identifier (⟨.word quote value, p, q⟩ :: ls) = .ok (Token.wordText quote value, ls) :=
  token_eq_ok.2 ⟨_, rfl, rfl⟩

/-- The name of a column is read in front of what does not go on with a point. -/
theorem columnName_append {us : List Token} {name : ColumnName} (h : name.Written us)
    (hls : Terminal.opens [.symbol .period] ls = false) :
    columnName (Lexeme.ofTokens us ++ ls) = .ok (name, ls) := by
  have hnone : after [.symbol .period] identifier ls = .ok (none, ls) :=
    after_eq_ok.2 (.inr ⟨hls, rfl, rfl⟩)
  have hsome : ∀ (quote : Option Char) (value : String) (behind : List Lexeme),
      after [.symbol .period] identifier
        (Lexeme.ofTokens [.symbol .period, .word quote value] ++ behind) =
          .ok (some (Token.wordText quote value), behind) := fun quote value behind =>
    after_eq_ok.2 (.inl ⟨rfl, _, identifier_word quote value _ _, rfl⟩)
  -- Each point is followed by a word, and behind the last word no point follows.
  cases h with
  | column quote column =>
    change columnName (⟨.word quote column, _, _⟩ :: ls) = _
    rw [columnName, bind_of_ok (identifier_word quote column _ _), bind_of_ok hnone]
    rfl
  | ofTable quote quote' table column =>
    change columnName (⟨.word quote table, _, _⟩ ::
      (Lexeme.ofTokens [.symbol .period, .word quote' column] ++ ls)) = _
    rw [columnName, bind_of_ok (identifier_word quote table _ _),
      bind_of_ok (hsome quote' column ls)]
    dsimp only
    rw [bind_of_ok hnone]
    rfl
  | ofDatabase quote quote' quote'' database table column =>
    change columnName (⟨.word quote database, _, _⟩ ::
      (Lexeme.ofTokens [.symbol .period, .word quote' table] ++
        (Lexeme.ofTokens [.symbol .period, .word quote'' column] ++ ls))) = _
    rw [columnName, bind_of_ok (identifier_word quote database _ _),
      bind_of_ok (hsome quote' table _)]
    dsimp only
    rw [bind_of_ok (hsome quote'' column ls)]
    rfl

/-- The name of a column and a column are a named column: the type after the name is no point. -/
theorem namedColumn_of_definition {us : List Token} {name : ColumnName} {decl : ColumnDecl}
    (hname : name.Written us) (h : columnDefinition ls = .ok (decl, rest)) :
    namedColumn (Lexeme.ofTokens us ++ ls) = .ok (.column name decl, rest) := by
  -- A point would make the name a longer one, but a type begins with a bare word.
  have hperiod : Terminal.opens [.symbol .period] ls = false := by
    obtain ⟨type, mid, htype, -⟩ := bind_eq_ok.1 h
    obtain ⟨t, ls', value, rfl, ht⟩ := bareWord_of_dataType htype
    simp [Terminal.opens, Terminal.accepts, ht]
  rw [namedColumn, bind_of_ok (columnName_append hname hperiod), bind_of_ok h]
  rfl

/-- A column behind its name, the first word of which is quoted, is read as an entry. -/
theorem exists_tableItem_of_written {us : List Token} {name : ColumnName} {decl : ColumnDecl}
    (hname : name.Written us) {quote : Char} {value : String}
    (hfirst : us.head? = some (.word (some quote) value))
    (h : readAll columnDefinition ls = .ok decl) :
    ∃ ls', Lexeme.tokens ls' = us ++ Lexeme.tokens ls ∧
      tableItem ls' = .ok (.column name decl, []) := by
  rw [readAll_eq_ok] at h
  refine ⟨Lexeme.ofTokens us ++ ls, by simp, ?_⟩
  have hcolumn := namedColumn_of_definition hname h
  -- A quoted name opens neither a constraint nor an index, so the rule of columns is left.
  obtain ⟨l, ls', hls', hl⟩ : ∃ l ls', Lexeme.ofTokens us ++ ls = l :: ls' ∧
      l.token = .word (some quote) value := by
    cases us with
    | nil => exact nomatch hfirst
    | cons u us => exact ⟨_, _, rfl, Option.some.inj hfirst⟩
  rw [hls'] at hcolumn ⊢
  rw [tableItem, aheadAny, bind_of_ok (asks_ok _ _),
    not_opensAny_of_quoted constraintOpeners_openedBy hl, if_neg Bool.false_ne_true, aheadAny,
    bind_of_ok (asks_ok _ _), not_opensAny_of_quoted indexOpeners_openedBy hl,
    if_neg Bool.false_ne_true, hcolumn]

/-- What is read as an entry on its own is read as that entry of a list. -/
theorem Declares.exists_tableItem {ts : List Token} {item : TableItem} (h : Declares ts item) :
    ∃ ls, Lexeme.tokens ls = ts ∧ tableItem ls = .ok (item, []) := by
  cases h with
  | @column name ls decl h => exact exists_tableItem_of_written (.column _ name) rfl h
  | @constraint ls decl h =>
    rw [readAll_eq_ok] at h
    refine ⟨ls, rfl, ?_⟩
    rw [tableItem, aheadAny, bind_of_ok (asks_ok _ _), opens_of_tableConstraint h, if_pos rfl,
      bind_of_ok h]
    rfl
  | @index ls decl h =>
    rw [readAll_eq_ok] at h
    -- Constraints are tried first, and no word that opens an index opens one.
    have hopens := opens_of_indexDeclaration h
    refine ⟨ls, rfl, ?_⟩
    rw [tableItem, aheadAny, bind_of_ok (asks_ok _ _), not_constraint_of_index hopens,
      if_neg Bool.false_ne_true, aheadAny, bind_of_ok (asks_ok _ _), hopens, if_pos rfl,
      bind_of_ok h]
    rfl

/-- An entry begins neither with a parenthesis nor with a word that a query or the model of a table
begins with. -/
theorem Declares.first {ts : List Token} {item : TableItem} (h : Declares ts item) :
    ∃ u us, ts = u :: us ∧
      ∀ t ∈ [Terminal.keyword "LIKE", .keyword "SELECT", .symbol .openParen],
        t.accepts u = false := by
  -- Constraints and indexes are told by their first word, columns by the quote of their name.
  have hword : ∀ {ls : List Lexeme} {openers : List (List Terminal)} {words : List String},
      OpenedBy openers words → "LIKE" ∉ words → "SELECT" ∉ words →
      Terminal.opensAny openers ls = true → ∃ u us, Lexeme.tokens ls = u :: us ∧
        ∀ t ∈ [Terminal.keyword "LIKE", .keyword "SELECT", .symbol .openParen],
          t.accepts u = false := by
    intro ls openers words hopeners hlike hselect hopens
    obtain ⟨l, ls', word, rfl, hword, hl⟩ := firstWord_of_opensAny hopeners hopens
    have hne : ∀ other, other ∉ words → word ≠ other := by
      rintro other hother rfl
      exact hother hword
    obtain ⟨value, hvalue, -⟩ := Terminal.keyword_accepts.1 hl
    refine ⟨l.token, _, rfl, ?_⟩
    simp only [List.forall_mem_cons]
    exact ⟨Terminal.keyword_accepts_other hl (hne _ hlike),
      Terminal.keyword_accepts_other hl (hne _ hselect), by simp [Terminal.accepts, hvalue], nofun⟩
  cases h with
  | @column name ls decl h =>
    refine ⟨_, _, rfl, ?_⟩
    simp [Terminal.accepts, Token.bareWord?]
  | @constraint ls decl h =>
    exact hword constraintOpeners_openedBy (by decide) (by decide)
      (opens_of_tableConstraint (readAll_eq_ok.1 h))
  | @index ls decl h =>
    exact hword indexOpeners_openedBy (by decide) (by decide)
      (opens_of_indexDeclaration (readAll_eq_ok.1 h))

/-- The tokens are an entry of a list: they are read in full as the entry, and they begin neither
with a parenthesis nor with a word that a query or the model of a table begins with. -/
structure IsEntry (ts : List Token) (item : TableItem) : Prop where
  /-- On their own they are read as the entry. -/
  alone : ∃ ls, Lexeme.tokens ls = ts ∧ Grammar.tableItem ls = .ok (item, [])
  /-- They begin as neither a query nor a model does. -/
  first : ∃ u us, ts = u :: us ∧
    ∀ t ∈ [Terminal.keyword "LIKE", .keyword "SELECT", .symbol .openParen], t.accepts u = false

/-- A column behind its name, the first word of which is quoted, is an entry. -/
theorem isEntry_of_written {us : List Token} {name : ColumnName} {decl : ColumnDecl}
    (hname : name.Written us) {quote : Char} {value : String}
    (hfirst : us.head? = some (.word (some quote) value))
    (h : readAll columnDefinition ls = .ok decl) :
    IsEntry (us ++ Lexeme.tokens ls) (.column name decl) where
  alone := exists_tableItem_of_written hname hfirst h
  first := by
    cases us with
    | nil => exact nomatch hfirst
    | cons u us =>
      obtain rfl := Option.some.inj hfirst
      exact ⟨_, _, rfl, by simp [Terminal.accepts, Token.bareWord?]⟩

/-- What declares an entry is an entry. -/
theorem Declares.isEntry {ts : List Token} {item : TableItem} (h : Declares ts item) :
    IsEntry ts item :=
  ⟨h.exists_tableItem, h.first⟩

/-- An entry is read in full in front of a mark, wherever it stands. -/
theorem IsEntry.tableItem {ts tail : List Token} {item : TableItem} (h : IsEntry ts item)
    (htail : ∀ u ∈ tail.head?, u.isMark = true) (hls : Lexeme.tokens ls = ts ++ tail) :
    ∃ rest, Grammar.tableItem ls = .ok (item, rest) ∧ Lexeme.tokens rest = tail := by
  obtain ⟨alone, rfl, halone⟩ := h.alone
  obtain ⟨-, hsteady⟩ :=
    tableItem_steady (Seam.before tail htail) alone trivial item [] halone
  obtain ⟨rest, hitem, -, hrest⟩ := hsteady trivial ls hls
  exact ⟨rest, hitem, hrest⟩

/-! ## Lists of entries -/

/-- The next item of a list, behind a comma. -/
def nextItem {α : Type} (item : Parser α) : Parser (Option α) := do
  if ← eat (.symbol .comma) then return some (← item) else return none

/-- Items are separated by the commas that the next ones stand behind. -/
theorem separated_eq {α : Type} (item : Parser α) :
    separated item = (item >>= fun first => many (nextItem item) >>= fun others =>
      pure (first :: others)) :=
  rfl

/-- Lists of tokens with a separator between them: the first one, and each of the others behind the
separator. -/
theorem intercalate_cons {α : Type} (mark : α) (xs : List α) (xss : List (List α)) :
    List.intercalate [mark] (xs :: xss) = xs ++ xss.flatMap (mark :: ·) := by
  induction xss generalizing xs with
  | nil => simp
  | cons ys yss ih =>
    rw [List.intercalate_cons_cons, ih ys]
    simp

variable {entries : List (List Token × TableItem)} {tail : List Token}

/-- What stands behind an entry begins with a mark: it is a comma or the closing parenthesis. -/
theorem isMark_of_entries (entries : List (List Token × TableItem)) (tail : List Token) :
    ∀ u ∈ ((entries.map Prod.fst).flatMap (.symbol .comma :: ·) ++
      .symbol .closeParen :: tail).head?, u.isMark = true := by
  cases entries <;> simp [Token.isMark]

/-- The entries behind the first one are read up to the closing parenthesis. -/
theorem many_nextItem_of_entries (hentries : ∀ e ∈ entries, IsEntry e.1 e.2)
    (hls : Lexeme.tokens ls = (entries.map Prod.fst).flatMap (.symbol .comma :: ·) ++
      .symbol .closeParen :: tail) :
    ∃ rest, many (nextItem tableItem) ls = .ok (entries.map Prod.snd, rest) ∧
      Lexeme.tokens rest = .symbol .closeParen :: tail := by
  induction entries generalizing ls with
  | nil =>
    cases ls with
    | nil => simp at hls
    | cons l ls =>
      -- The parenthesis is no comma, so no entry follows.
      obtain ⟨hl, -⟩ := List.cons.inj hls
      have hcomma : eat (.symbol .comma) (l :: ls) = .ok (false, l :: ls) :=
        eat_cons_other (by rw [hl]; rfl)
      have hnext : nextItem tableItem (l :: ls) = .ok (none, l :: ls) := by
        rw [nextItem, bind_of_ok hcomma]
        rfl
      exact ⟨l :: ls, many_of_none hnext, hls⟩
  | cons e entries ih =>
    obtain ⟨he, hentries⟩ := List.forall_mem_cons.1 hentries
    cases ls with
    | nil => simp at hls
    | cons l ls =>
      rw [List.map_cons, List.flatMap_cons, List.cons_append, List.cons_append,
        List.append_assoc] at hls
      obtain ⟨hl, hbehind⟩ := List.cons.inj hls
      obtain ⟨mid, hitem, hmid⟩ := he.tableItem (isMark_of_entries entries tail) hbehind
      have hcomma : eat (.symbol .comma) (l :: ls) = .ok (true, ls) :=
        eat_cons (by rw [hl]; rfl)
      have hnext : nextItem tableItem (l :: ls) = .ok (some e.2, mid) := by
        rw [nextItem, bind_of_ok hcomma]
        exact map_eq_ok.2 ⟨e.2, hitem, rfl⟩
      obtain ⟨rest, hmany, hrest⟩ := ih hentries hmid
      -- The comma alone makes what is left shorter.
      have hlt : mid.length < (l :: ls).length := by
        rw [← hmid] at hbehind
        have hlength := congrArg List.length hbehind
        simp at hlength ⊢
        omega
      exact ⟨rest, many_of_some hnext hlt hmany, hrest⟩

/-- A list of entries is read entry by entry. -/
theorem tableItems_of_entries (hne : entries ≠ []) (hentries : ∀ e ∈ entries, IsEntry e.1 e.2)
    (hls : Lexeme.tokens ls = .symbol .openParen ::
      (List.intercalate [.symbol .comma] (entries.map Prod.fst) ++ .symbol .closeParen :: tail)) :
    ∃ rest, tableItems ls = .ok (entries.map Prod.snd, rest) ∧ Lexeme.tokens rest = tail := by
  cases entries with
  | nil => exact absurd rfl hne
  | cons e entries =>
    obtain ⟨he, hentries⟩ := List.forall_mem_cons.1 hentries
    cases ls with
    | nil => simp at hls
    | cons l ls =>
      obtain ⟨hl, hbehind⟩ := List.cons.inj hls
      rw [List.map_cons, intercalate_cons, List.append_assoc] at hbehind
      have hopen : expect (.symbol .openParen) (l :: ls) = .ok ((), ls) :=
        expect_cons (by rw [hl]; rfl)
      obtain ⟨mid, hfirst, hmid⟩ := he.tableItem (isMark_of_entries entries tail) hbehind
      obtain ⟨mid', hothers, hmid'⟩ := many_nextItem_of_entries hentries hmid
      -- What stops the repetition is the parenthesis that closes the list.
      cases mid' with
      | nil => simp at hmid'
      | cons m rest =>
        obtain ⟨hm, hrest⟩ := List.cons.inj hmid'
        have hclose : expect (.symbol .closeParen) (m :: rest) = .ok ((), rest) :=
          expect_cons (by rw [hm]; rfl)
        have hseparated :
            separated tableItem ls = .ok ((e :: entries).map Prod.snd, m :: rest) := by
          rw [separated_eq, bind_of_ok hfirst, bind_of_ok hothers]
          rfl
        refine ⟨rest, ?_, hrest⟩
        rw [tableItems, list, bind_of_ok hopen, bind_of_ok hseparated, bind_of_ok hclose]
        rfl

/-! ## Whole declarations -/

/-- The tokens are instances of the terminals, one of each. -/
def Spells : List Terminal → List Token → Prop
  | [], [] => True
  | t :: pattern, u :: ts => t.accepts u = true ∧ Spells pattern ts
  | _, _ => False

/-- The words `CREATE [TEMPORARY] TABLE [IF NOT EXISTS]`. -/
def tableHead (temporary ifNotExists : Bool) : List Terminal :=
  .keyword "CREATE" :: (if temporary then [.keyword "TEMPORARY"] else []) ++
    .keyword "TABLE" ::
      (if ifNotExists then [.keyword "IF", .keyword "NOT", .keyword "EXISTS"] else [])

/-- A name between backticks, perhaps behind the name of its database. -/
def quotedName (database : Option String) (name : String) : List Token :=
  match database with
  | some database => [.word (some '\x60') database, .symbol .period, .word (some '\x60') name]
  | none => [.word (some '\x60') name]

/-- It is a name of a table, whose text is what its tokens are glued to. -/
theorem tableName_quotedName (database : Option String) (name : String) :
    TableName (quotedName database name) (Token.glue (quotedName database name)) := by
  cases database with
  | none =>
    have h := TableName.plain (some '\x60') name
    exact h.glue_eq.symm ▸ h
  | some database =>
    have h := TableName.qualified (some '\x60') database (some '\x60') name
    exact h.glue_eq.symm ▸ h

theorem spells_cons {t : Terminal} {pattern : List Terminal} {ts : List Token} :
    Spells (t :: pattern) ts ↔
      ∃ u us, ts = u :: us ∧ t.accepts u = true ∧ Spells pattern us := by
  cases ts with
  | nil => simp [Spells]
  | cons u us =>
    constructor
    · exact fun h => ⟨u, us, rfl, h⟩
    · rintro ⟨_, _, heq, h⟩
      cases heq
      exact h

/-- The words in front of the name of a table, without those that may be left out. -/
theorem spells_createTable :
    Spells (tableHead false false) [.word none "CREATE", .word none "TABLE"] :=
  ⟨by decide, by decide, trivial⟩

variable {front : List Lexeme}

/-- Lexemes that spell nothing are none. -/
theorem eq_nil_of_spells (h : Spells [] (Lexeme.tokens front)) : front = [] := by
  cases front with
  | nil => rfl
  | cons l front => simp [Spells] at h

/-- The words `[TEMPORARY] TABLE` are passed over. -/
theorem tableWord_of_spells {temporary : Bool} {pattern : List Terminal}
    (hspells : Spells ((if temporary then [.keyword "TEMPORARY"] else []) ++
      .keyword "TABLE" :: pattern) (Lexeme.tokens front)) (k : Parser TableDecl) :
    ∃ left, Spells pattern (Lexeme.tokens left) ∧ (do
      discard (eat (.keyword "TEMPORARY"))
      expect (.keyword "TABLE")
      k) (front ++ rest) = k (left ++ rest) := by
  cases temporary with
  | false =>
    obtain ⟨u, ts, hts, hu, hspells'⟩ := spells_cons.1 hspells
    obtain ⟨l, left, rfl, rfl, rfl⟩ := Lexeme.tokens_eq_cons.1 hts
    refine ⟨left, hspells', ?_⟩
    -- What is accepted as `TABLE` is not taken for `TEMPORARY`.
    have hother := Terminal.keyword_accepts_other (t := "TEMPORARY") hu (by decide)
    rw [List.cons_append, bind_of_ok (discard_of_ok (eat_cons_other hother)),
      bind_of_ok (expect_cons hu)]
  | true =>
    obtain ⟨u, ts, hts, hu, hspells'⟩ := spells_cons.1 hspells
    obtain ⟨v, us, rfl, hv, hpattern⟩ := spells_cons.1 hspells'
    obtain ⟨l, mid, rfl, rfl, hmid⟩ := Lexeme.tokens_eq_cons.1 hts
    obtain ⟨m, left, rfl, rfl, rfl⟩ := Lexeme.tokens_eq_cons.1 hmid
    refine ⟨left, hpattern, ?_⟩
    rw [List.cons_append, bind_of_ok (discard_of_ok (eat_cons hu)), List.cons_append,
      bind_of_ok (expect_cons hv)]

/-- The words `[IF NOT EXISTS]` are passed over. Where they are left out, `IF` does not come
next. -/
theorem ifNotExists_of_spells {ifNotExists : Bool}
    (hspells : Spells (if ifNotExists then
      [.keyword "IF", .keyword "NOT", .keyword "EXISTS"] else []) (Lexeme.tokens front))
    (hrest : ifNotExists = false → Terminal.opens [.keyword "IF"] rest = false)
    (k : Parser TableDecl) :
    (do
      if ← eat (.keyword "IF") then
        expect (.keyword "NOT")
        expect (.keyword "EXISTS")
      k) (front ++ rest) = k rest := by
  -- Without the words, a name that is spelled `IF` would be taken for the first of them.
  cases ifNotExists with
  | false =>
    obtain rfl := eq_nil_of_spells hspells
    have heat : eat (.keyword "IF") rest = .ok (false, rest) := eatAll_eq_ok.2 ⟨hrest rfl, rfl⟩
    exact (bind_of_ok heat).trans rfl
  | true =>
    obtain ⟨u, ts, hts, hu, hspells'⟩ := spells_cons.1 hspells
    obtain ⟨v, us, rfl, hv, hexists⟩ := spells_cons.1 hspells'
    obtain ⟨w, vs, rfl, hw, hend⟩ := spells_cons.1 hexists
    obtain ⟨l, _, rfl, rfl, hls₁⟩ := Lexeme.tokens_eq_cons.1 hts
    obtain ⟨m, _, rfl, rfl, hls₂⟩ := Lexeme.tokens_eq_cons.1 hls₁
    obtain ⟨n, left, rfl, rfl, rfl⟩ := Lexeme.tokens_eq_cons.1 hls₂
    obtain rfl := eq_nil_of_spells hend
    exact (bind_of_ok (eat_cons hu)).trans ((bind_of_ok (expect_cons hv)).trans
      (bind_of_ok (expect_cons hw)))

/-- The words before the name of a table are passed over, unless the name could be one of them. -/
theorem createTable_append {temporary ifNotExists : Bool}
    (hhead : Spells (tableHead temporary ifNotExists) (Lexeme.tokens front))
    (hrest : ifNotExists = false → Terminal.opens [.keyword "IF"] rest = false) :
    createTable (front ++ rest) = namedTable rest := by
  obtain ⟨u, ts, hts, hu, hspells⟩ := spells_cons.1 hhead
  obtain ⟨l, behind, rfl, rfl, rfl⟩ := Lexeme.tokens_eq_cons.1 hts
  obtain ⟨left, hspells', htable⟩ := tableWord_of_spells hspells (do
    if ← eat (.keyword "IF") then
      expect (.keyword "NOT")
      expect (.keyword "EXISTS")
    namedTable)
  rw [createTable_eq, List.cons_append, bind_of_ok (expect_cons hu), htable,
    ifNotExists_of_spells hspells' hrest]

/-- A quoted name is not taken for `IF`. -/
theorem not_opens_of_quotedName {database : Option String} {name : String}
    (h : Lexeme.tokens front = quotedName database name) :
    Terminal.opens [.keyword "IF"] (front ++ rest) = false := by
  obtain ⟨quoted, us, hquoted⟩ : ∃ quoted us,
      quotedName database name = .word (some '\x60') quoted :: us := by
    cases database <;> exact ⟨_, _, rfl⟩
  obtain ⟨l, left, rfl, hl, -⟩ := Lexeme.tokens_eq_cons.1 (h.trans hquoted)
  simp [Terminal.opens, Terminal.accepts, Token.bareWord?, hl]

/-- A list of entries begins like its first entry. -/
theorem first_of_entries (hne : entries ≠ []) (hentries : ∀ e ∈ entries, IsEntry e.1 e.2)
    {us : List Token}
    (hls : Lexeme.tokens ls = List.intercalate [.symbol .comma] (entries.map Prod.fst) ++ us) :
    ∃ l rest, ls = l :: rest ∧
      ∀ t ∈ [Terminal.keyword "LIKE", .keyword "SELECT", .symbol .openParen],
        t.accepts l.token = false := by
  cases entries with
  | nil => exact absurd rfl hne
  | cons e entries =>
    obtain ⟨u, ts, hts, hu⟩ := (List.forall_mem_cons.1 hentries).1.first
    rw [List.map_cons, intercalate_cons, hts] at hls
    obtain ⟨l, rest, rfl, rfl, -⟩ := Lexeme.tokens_eq_cons.1 hls
    exact ⟨l, rest, rfl, hu⟩

/-- A declaration by entries is read as these entries, and then as what its tail makes of it. -/
theorem createTable_of_entries {temporary ifNotExists : Bool} {head : List Token}
    (hhead : Spells (tableHead temporary ifNotExists) head) {database : Option String}
    {name : String} (hne : entries ≠ []) (hentries : ∀ e ∈ entries, IsEntry e.1 e.2)
    (hls : Lexeme.tokens ls = head ++ (quotedName database name ++ .symbol .openParen ::
      (List.intercalate [.symbol .comma] (entries.map Prod.fst) ++ .symbol .closeParen :: tail))) :
    ∃ rest, createTable ls =
        afterList (Token.glue (quotedName database name)) (some (entries.map Prod.snd)) rest ∧
      Lexeme.tokens rest = tail := by
  obtain ⟨front, behind, rfl, rfl, hbehind⟩ := List.map_eq_append_iff.1 hls
  obtain ⟨named, list, rfl, hnamed, hlist⟩ := List.map_eq_append_iff.1 hbehind
  have hcreate : createTable (front ++ (named ++ list)) = namedTable (named ++ list) :=
    createTable_append hhead fun _ => not_opens_of_quotedName hnamed
  have hname : tableName (named ++ list) = .ok (Token.glue (quotedName database name), list) := by
    refine tableName_append (hnamed ▸ tableName_quotedName database name) ?_
    obtain ⟨o, list', rfl, ho, -⟩ := Lexeme.tokens_eq_cons.1 hlist
    simp [Terminal.opens, Terminal.accepts, ho]
  obtain ⟨rest, hitems, hrest⟩ := tableItems_of_entries hne hentries hlist
  obtain ⟨o, list', rfl, ho, hlist'⟩ := Lexeme.tokens_eq_cons.1 hlist
  obtain ⟨f, list'', rfl, hf⟩ := first_of_entries hne hentries hlist'
  obtain ⟨hlike, hselect, hopen, -⟩ := by simpa only [List.forall_mem_cons] using hf
  -- Neither the model of a table nor a query begins like an entry.
  have hmodel : choose? [
      .behind [.keyword "LIKE"] tableName,
      .behind [.symbol .openParen, .keyword "LIKE"] modelInParens] (o :: f :: list'') =
        .ok (none, o :: f :: list'') := by
    have hnolike : (Terminal.keyword "LIKE").accepts o.token = false := by rw [ho]; rfl
    rw [choose?_cons, choose?_cons]
    simp [Branch.behind, Terminal.opens, hlike, hnolike]
    rfl
  have hlistAhead : listAhead (o :: f :: list'') = true := by
    simp [listAhead, startsQuery, Terminal.opensAny, Terminal.opens, hselect, hopen]
    rw [ho]
    rfl
  refine ⟨rest, ?_, hrest⟩
  rw [hcreate, namedTable, bind_of_ok hname, bind_of_ok hmodel]
  change tableBody _ (o :: f :: list'') = _
  rw [tableBody_eq, bind_of_ok (asks_ok _ _), hlistAhead, if_pos rfl,
    bind_of_ok (map_eq_ok.2 ⟨_, hitems, rfl⟩)]

/-- The same for entries that are declared by their tokens. -/
theorem createTable_entries {temporary ifNotExists : Bool} {head : List Token}
    (hhead : Spells (tableHead temporary ifNotExists) head) {database : Option String}
    {name : String} (hne : entries ≠ []) (hentries : ∀ e ∈ entries, Declares e.1 e.2)
    (hls : Lexeme.tokens ls = head ++ (quotedName database name ++ .symbol .openParen ::
      (List.intercalate [.symbol .comma] (entries.map Prod.fst) ++ .symbol .closeParen :: tail))) :
    ∃ rest, createTable ls =
        afterList (Token.glue (quotedName database name)) (some (entries.map Prod.snd)) rest ∧
      Lexeme.tokens rest = tail :=
  createTable_of_entries hhead hne (fun e he => (hentries e he).isEntry) hls

/-- Where nothing follows the list, the table is declared by its entries. -/
theorem afterList_nil (name : String) (items : List TableItem) :
    afterList name (some items) [] = .ok (.columns name items, []) := by
  have hclause : tableClause? [] = .ok (none, []) := rfl
  rw [afterList_eq_ok]
  refine ⟨none, ?_, rfl⟩
  rw [tableTail, bind_of_ok (discard_of_ok (many_of_none hclause))]
  rfl

/-- A table that is declared by entries, and by nothing else, has these entries. Options and
partitions behind the list, and whatever else leaves it a table that is declared by a list, do not
change the name and the entries that are read. -/
theorem singleTable_entries (temporary ifNotExists : Bool) (database : Option String)
    (name : String) (entries : List (List Token × TableItem)) (tail : List Token)
    (head : List Token) (ls : List Lexeme) (hhead : Spells (tableHead temporary ifNotExists) head)
    (hne : entries ≠ []) (hentries : ∀ e ∈ entries, Declares e.1 e.2)
    (hls : Lexeme.tokens ls = head ++ (quotedName database name ++ .symbol .openParen ::
      (List.intercalate [.symbol .comma] (entries.map Prod.fst) ++ .symbol .closeParen :: tail))) :
    (tail = [] → readAll singleTable ls =
      .ok (.columns (Token.glue (quotedName database name)) (entries.map Prod.snd))) ∧
    ∀ table items, readAll singleTable ls = .ok (.columns table items) →
      table = Token.glue (quotedName database name) ∧ items = entries.map Prod.snd := by
  -- In front of any tail the entries are read and the tail is left.
  obtain ⟨rest, hcreate, hrest⟩ := createTable_entries hhead hne hentries hls
  constructor
  · rintro rfl
    obtain rfl : rest = [] := by simpa [Lexeme.tokens] using hrest
    rw [afterList_nil] at hcreate
    rw [readAll_eq_ok, singleTable, bind_of_ok hcreate]
    rfl
  · intro table items h
    rw [readAll_eq_ok] at h
    obtain ⟨decl, mid, hdecl, h⟩ := bind_eq_ok.1 h
    obtain ⟨u, mid', -, h⟩ := bind_eq_ok.1 h
    obtain ⟨rfl, -⟩ := pure_eq_ok.1 h
    -- The entries are read before the tail is looked at; the tail decides only whether a query
    -- declares the table instead.
    rw [hcreate] at hdecl
    obtain ⟨query?, -, hdeclared⟩ := afterList_eq_ok.1 hdecl
    cases query? with
    | some query => simp [declared?] at hdeclared
    | none =>
      obtain ⟨rfl, rfl⟩ : _ ∧ _ := by simpa [declared?] using hdeclared
      exact ⟨rfl, rfl⟩

/-- The column `INT` without clauses. -/
theorem columnDefinition_int : readAll columnDefinition [⟨.word none "INT", .start, .start⟩] =
    .ok ⟨.measured ⟨.int, "INT"⟩ none [], []⟩ := by
  have htype : dataType [⟨.word none "INT", .start, .start⟩] =
      .ok (.measured ⟨.int, "INT"⟩ none [], []) := rfl
  rw [readAll_eq_ok, columnDefinition, bind_of_ok htype, bind_of_ok (many_of_none rfl)]
  rfl

/-- A column, a key and an index, each with its tokens. -/
def threeEntries : List (List Token × TableItem) := [
  ([.word (some '\x60') "a", .word none "INT"],
    .column ⟨"\x60a\x60", []⟩ ⟨.measured ⟨.int, "INT"⟩ none [], []⟩),
  ([.word none "PRIMARY", .word none "KEY", .symbol .openParen, .word (some '\x60') "a",
      .symbol .closeParen],
    .constraint (.primaryKey none none none [⟨.column "\x60a\x60", none, none⟩])),
  ([.word none "KEY", .word (some '\x60') "k", .symbol .openParen, .word (some '\x60') "a",
      .symbol .closeParen],
    .index (.plain "KEY" (some "\x60k\x60") [⟨.column "\x60a\x60", none, none⟩]))]

/-- Each of the three entries is declared by its tokens. -/
theorem declares_of_mem_threeEntries : ∀ e ∈ threeEntries, Declares e.1 e.2 := by
  have hkey : readAll tableConstraint (Lexeme.ofTokens [.word none "PRIMARY", .word none "KEY",
      .symbol .openParen, .word (some '\x60') "a", .symbol .closeParen]) =
      .ok (.primaryKey none none none [⟨.column "\x60a\x60", none, none⟩]) := by decide +kernel
  have hindex : readAll indexDeclaration (Lexeme.ofTokens [.word none "KEY",
      .word (some '\x60') "k", .symbol .openParen, .word (some '\x60') "a", .symbol .closeParen]) =
      .ok (.plain "KEY" (some "\x60k\x60") [⟨.column "\x60a\x60", none, none⟩]) := by
    decide +kernel
  have hcolumn := @Declares.column "a" _ _ columnDefinition_int
  have hkey := Declares.constraint hkey
  have hindex := Declares.index hindex
  rw [Lexeme.tokens_ofTokens] at hkey hindex
  rw [threeEntries, List.forall_mem_cons, List.forall_mem_cons, List.forall_mem_cons]
  exact ⟨hcolumn, hkey, hindex, List.forall_mem_nil _⟩

/-- A table with three entries, read from its tokens, and with an option behind them. -/
theorem singleTable_entries_of_three :
    let head : List Token := [.word none "CREATE", .word none "TEMPORARY", .word none "TABLE",
      .word none "IF", .word none "NOT", .word none "EXISTS"]
    let list := quotedName (some "d") "t" ++ .symbol .openParen ::
      (List.intercalate [.symbol .comma] (threeEntries.map Prod.fst) ++ [.symbol .closeParen])
    let option : List Token := [.word none "ENGINE", .symbol .equals, .word none "InnoDB"]
    readAll singleTable (Lexeme.ofTokens (head ++ list)) =
        .ok (.columns "\x60d\x60.\x60t\x60" (threeEntries.map Prod.snd)) ∧
      ∃ table items,
        readAll singleTable (Lexeme.ofTokens (head ++ (list ++ option))) =
          .ok (.columns table items) ∧
        table = "\x60d\x60.\x60t\x60" ∧ items = threeEntries.map Prod.snd := by
  intro head list option
  have hhead : Spells (tableHead true true) head := ⟨rfl, rfl, rfl, rfl, rfl, rfl, trivial⟩
  have hne : threeEntries ≠ [] := List.cons_ne_nil _ _
  have htable : Token.glue (quotedName (some "d") "t") = "\x60d\x60.\x60t\x60" := by decide
  -- The same tokens are read alone and with an option behind them.
  have halone := (singleTable_entries true true (some "d") "t" threeEntries [] head
    (Lexeme.ofTokens (head ++ list)) hhead hne declares_of_mem_threeEntries
    (Lexeme.tokens_ofTokens _)).1 rfl
  have hoption := (singleTable_entries true true (some "d") "t" threeEntries option head
    (Lexeme.ofTokens (head ++ (list ++ option))) hhead hne declares_of_mem_threeEntries
    ((Lexeme.tokens_ofTokens _).trans (by simp [list]))).2
  rw [htable] at halone hoption
  have haccepted : readAll singleTable (Lexeme.ofTokens (head ++ (list ++ option))) =
      .ok (.columns "\x60d\x60.\x60t\x60" (threeEntries.map Prod.snd)) := by decide +kernel
  exact ⟨halone, _, _, haccepted, hoption _ _ haccepted⟩

end Grammar

end TableSchema
