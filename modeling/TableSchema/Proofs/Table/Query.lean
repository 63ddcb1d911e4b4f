import TableSchema.Proofs.Grammar.Parenthesis
import TableSchema.Proofs.Table.Composition

/-!
# Queries behind the name of a table

Whether a table is declared by a list or by a query is asked twice. A parenthesis with a query
behind it, which may stand in parentheses of its own, is not read as a list. What is not read as a
list has to be a query, but then a query is one that begins with `SELECT` behind a single
parenthesis. A query in two pairs of parentheses is neither, and the declaration is rejected at its
first parenthesis.

## Main results

* `singleTable_of_query`: what is read of a declaration whose body is not taken for a list;
* `not_forall_singleTable_query`: it is not always a query.
-/

namespace TableSchema

namespace Grammar

open TableSchema.Parser TableSchema.Lexeme

variable {l : Lexeme} {ls : List Lexeme}

/-! ## Up to the end of the statement -/

/-- Without a semicolon everything is passed over. -/
theorem skipStatement_of_noSemicolon (h : Token.symbol .semicolon ∉ tokens ls) :
    skipStatement ls = .ok ((), []) := by
  have hdrop : ∀ depth, dropUntil (Terminal.opens [.symbol .semicolon]) depth ls = [] := by
    induction ls with
    | nil => exact fun depth => rfl
    | cons l ls ih =>
      have hl : Token.symbol .semicolon ≠ l.token := List.ne_of_not_mem_cons h
      have hls : Token.symbol .semicolon ∉ tokens ls := List.not_mem_of_not_mem_cons h
      have hstop : Terminal.opens [.symbol .semicolon] (l :: ls) = false := by
        simpa [Terminal.opens, Terminal.accepts] using hl.symm
      intro depth
      simp only [dropUntil, hstop, ih hls]
      simp
  exact congrArg (fun rest => Except.ok ((), rest)) (hdrop 0)

/-- Without a semicolon the text of the statement is that of all tokens. -/
theorem spaced_skipStatement (h : Token.symbol .semicolon ∉ tokens ls) :
    spaced skipStatement ls = .ok (Token.spaced (tokens ls), []) := by
  have htaken : taken skipStatement ls = .ok (tokens ls, []) :=
    taken_eq_ok.2 ⟨skipStatement_of_noSemicolon h, by simp⟩
  rw [spaced, bind_of_ok htaken]
  rfl

/-! ## Behind the name -/

section OpenParen

variable (hl : l.token = .symbol .openParen)
include hl

/-- A pattern that begins with something else does not come next at a parenthesis. -/
theorem not_opens_of_openParen {pattern : List Terminal}
    (h : (pattern.head?.any fun o => !o.accepts (.symbol .openParen)) = true) :
    Terminal.opens pattern (l :: ls) = false := by
  cases pattern with
  | nil => simp at h
  | cons o pattern =>
    have ho : o.accepts l.token = false := by simpa [hl] using h
    rw [Terminal.opens, ho, Bool.false_and]

/-- No option and no partitions begin with a parenthesis. -/
theorem tableClause?_of_openParen : tableClause? (l :: ls) = .ok (none, l :: ls) := by
  have hopeners : tableClauses.all (fun b =>
      b.opener.head?.any fun o => !o.accepts (.symbol .openParen)) = true := by decide
  have hnone : choose? tableClauses (l :: ls) = .ok (none, l :: ls) :=
    choose?_of_forall fun b hb => not_opens_of_openParen hl (List.all_eq_true.1 hopeners b hb)
  rw [tableClause?, bind_of_ok hnone]
  rfl

/-- At a parenthesis a query comes next only if it begins right behind it. -/
theorem queryLead?_of_openParen : queryLead? (l :: ls) =
    if Terminal.opens [.symbol .openParen, .keyword "SELECT"] (l :: ls) then some 0 else none := by
  have hother : ∀ {word : String}, Terminal.opens [.keyword word] (l :: ls) = false :=
    not_opens_of_openParen hl rfl
  have hchoice :
      Terminal.opensAny [[.keyword "IGNORE"], [.keyword "REPLACE"]] (l :: ls) = false := by
    simp only [Terminal.opensAny, List.any_cons, List.any_nil, hother, Bool.or_false]
  have hquery : startsQuery (l :: ls) =
      Terminal.opens [.symbol .openParen, .keyword "SELECT"] (l :: ls) := by
    simp only [startsQuery, Terminal.opensAny, List.any_cons, List.any_nil, hother, Bool.or_false,
      Bool.false_or]
  simp only [queryLead?, hchoice, Bool.false_eq_true, if_false, List.drop_zero, hother, hquery]

/-- At a parenthesis the declaration does not end. -/
theorem isTableEnd_of_openParen : isTableEnd (l :: ls) = false := by
  have hopeners : Category.openings.all (fun opening =>
      opening.1.head?.any fun o => !o.accepts (.symbol .openParen)) = true := by decide
  have hstarts : Category.startsStatement (l :: ls) = false := by
    refine Bool.eq_false_iff.2 fun h => ?_
    obtain ⟨opening, hmem, hopens⟩ := startsStatement_iff.1 h
    rw [not_opens_of_openParen hl (List.all_eq_true.1 hopeners opening hmem)] at hopens
    exact Bool.false_ne_true hopens
  have hsemicolon : Terminal.opens [.symbol .semicolon] (l :: ls) = false :=
    not_opens_of_openParen hl rfl
  simp only [isTableEnd, List.isEmpty_cons, hsemicolon, hstarts, Bool.or_false]

/-- What follows the name of a table at a parenthesis is the text of a query, or it is rejected. -/
theorem tableTail_of_openParen (hsemicolon : Token.symbol .semicolon ∉ tokens (l :: ls)) :
    tableTail (l :: ls) =
      if Terminal.opens [.symbol .openParen, .keyword "SELECT"] (l :: ls) then
        .ok (some (Token.spaced (tokens (l :: ls))), [])
      else .error ⟨.tableOption, l :: ls⟩ := by
  -- No clause is taken, so a query is asked for at the parenthesis itself.
  have hclauses : discard (many tableClause?) (l :: ls) = .ok ((), l :: ls) :=
    discard_of_ok (many_of_none (tableClause?_of_openParen hl))
  have hlead : queryLead? (l :: ls) = _ := queryLead?_of_openParen hl
  rw [tableTail, bind_of_ok hclauses]
  split at hlead
  · rw [if_pos ‹_›]
    have hquery : trailingQuery (l :: ls) = .ok (some (Token.spaced (tokens (l :: ls))), []) := by
      rw [trailingQuery_of_some hlead]
      exact map_eq_ok.2 ⟨_, spaced_skipStatement hsemicolon, rfl⟩
    rw [bind_of_ok hquery]
    rfl
  · rw [if_neg ‹_›]
    have hquery : trailingQuery (l :: ls) = .ok (none, l :: ls) := trailingQuery_of_none hlead
    rw [bind_of_ok hquery]
    change (asks isTableEnd >>= fun ends => if ends then pure none else fail .tableOption) _ = _
    rw [bind_of_ok (asks_ok _ _), isTableEnd_of_openParen hl]
    rfl

end OpenParen

/-! ## Whole declarations -/

variable {body : List Lexeme}

/-- A query is not taken for the model of a table. -/
theorem not_opens_like_of_startsQuery (h : startsQuery ls = true) :
    Terminal.opens [.keyword "LIKE"] ls = false := by
  obtain ⟨pattern, hmem, hopens⟩ := List.any_eq_true.1 h
  simp only [List.mem_cons, List.not_mem_nil, or_false] at hmem
  rcases hmem with rfl | rfl
  · obtain ⟨m, ls, rfl, hm, -⟩ := Terminal.opens_cons.1 hopens
    rw [Terminal.opens, Terminal.keyword_accepts_other hm (by decide), Bool.false_and]
  · obtain ⟨m, ls, rfl, hm, -⟩ := Terminal.opens_cons.1 hopens
    exact not_opens_of_openParen (by simpa [Terminal.accepts] using hm) rfl

/-- Behind the name of a table, a body that is not read as a list is a query, or it is rejected. -/
theorem namedTable_of_query {named : List Lexeme} {name : String}
    (hname : TableName (tokens named) name)
    (hopen : Terminal.opens [.symbol .openParen] body = true)
    (hquery : startsQuery (body.drop 1) = true)
    (hsemicolon : Token.symbol .semicolon ∉ tokens body) :
    namedTable (named ++ body) =
      if Terminal.opens [.symbol .openParen, .keyword "SELECT"] body then
        .ok (.query name none (Token.spaced (tokens body)), [])
      else .error ⟨.tableOption, body⟩ := by
  obtain ⟨l, ls, rfl, hl, -⟩ := Terminal.opens_cons.1 hopen
  have hl : l.token = .symbol .openParen := by simpa [Terminal.accepts] using hl
  have hlike : Terminal.opens [.keyword "LIKE"] ls = false := not_opens_like_of_startsQuery hquery
  have hmodel : choose? [
      .behind [.keyword "LIKE"] tableName,
      .behind [.symbol .openParen, .keyword "LIKE"] modelInParens] (l :: ls) =
        .ok (none, l :: ls) := by
    refine choose?_of_forall ?_
    simp only [List.forall_mem_cons]
    exact ⟨not_opens_of_openParen hl rfl, Bool.and_eq_false_imp.2 fun _ => hlike,
      List.forall_mem_nil _⟩
  -- Here the query is asked for one lexeme later than behind the list.
  have hlist : listAhead (l :: ls) = false := by
    rw [listAhead, hquery, Bool.not_true, Bool.and_false]
  rw [namedTable, bind_of_ok (tableName_append hname (not_opens_of_openParen hl rfl)),
    bind_of_ok hmodel]
  change tableBody name (l :: ls) = _
  rw [tableBody_eq, bind_of_ok (asks_ok _ _), hlist, if_neg Bool.false_ne_true, afterList_eq]
  have htail := tableTail_of_openParen hl hsemicolon
  split at htail
  · rw [if_pos ‹_›, bind_of_ok htail]
    rfl
  · rw [if_neg ‹_›, bind_of_error htail]

/-- So it is behind the words before the name, unless the name could be one of them. -/
theorem createTable_of_query {temporary ifNotExists : Bool} {front named : List Lexeme}
    {name : String} (hhead : Spells (tableHead temporary ifNotExists) (tokens front))
    (hname : TableName (tokens named) name)
    (hbare : ifNotExists = false → Terminal.opens [.keyword "IF"] named = false)
    (hopen : Terminal.opens [.symbol .openParen] body = true)
    (hquery : startsQuery (body.drop 1) = true)
    (hsemicolon : Token.symbol .semicolon ∉ tokens body) :
    createTable (front ++ (named ++ body)) =
      if Terminal.opens [.symbol .openParen, .keyword "SELECT"] body then
        .ok (.query name none (Token.spaced (tokens body)), [])
      else .error ⟨.tableOption, body⟩ := by
  -- A name is not empty, so that it alone tells whether `IF` comes next.
  have hif : ifNotExists = false → Terminal.opens [.keyword "IF"] (named ++ body) = false := by
    intro hflag
    cases named with
    | nil => exact absurd rfl hname.ne_nil
    | cons l left => exact hbare hflag
  rw [createTable_append hhead hif, namedTable_of_query hname hopen hquery hsemicolon]

/-- A declaration whose body is not read as a list, since a query begins behind its first
parenthesis, is declared by the text of the body if the query begins right behind the parenthesis.
Where another parenthesis stands between them, the declaration is rejected at the first one. -/
theorem singleTable_of_query (temporary ifNotExists : Bool) (front named body : List Lexeme)
    (name : String) (hhead : Spells (tableHead temporary ifNotExists) (tokens front))
    (hname : TableName (tokens named) name)
    (hbare : ifNotExists = false → Terminal.opens [.keyword "IF"] named = false)
    (hopen : Terminal.opens [.symbol .openParen] body = true)
    (hquery : startsQuery (body.drop 1) = true)
    (hsemicolon : Token.symbol .semicolon ∉ tokens body) :
    readAll singleTable (front ++ (named ++ body)) =
      if Terminal.opens [.symbol .openParen, .keyword "SELECT"] body then
        .ok (.query name none (Token.spaced (tokens body)))
      else .error ((Failure.mk .tableOption body).locate (front ++ (named ++ body))) := by
  have hcreate := createTable_of_query hhead hname hbare hopen hquery hsemicolon
  -- Where the query is read, one pair of parentheses at most is looked for in front of it.
  split at hcreate
  · rw [if_pos ‹_›, readAll_eq_ok, singleTable, bind_of_ok hcreate]
    rfl
  · rw [if_neg ‹_›]
    exact readAll_of_error (bind_of_error hcreate)

/-- A query in one pair of parentheses declares a table. -/
theorem singleTable_of_query_select :
    readAll singleTable (ofTokens [.word none "CREATE", .word none "TABLE", .word (some '\x60') "t",
      .symbol .openParen, .word none "SELECT", .number "1", .symbol .closeParen]) =
        .ok (.query "\x60t\x60" none "( SELECT 1 )") :=
  singleTable_of_query false false (ofTokens [.word none "CREATE", .word none "TABLE"])
    (ofTokens [.word (some '\x60') "t"]) (ofTokens [.symbol .openParen, .word none "SELECT",
      .number "1", .symbol .closeParen]) "\x60t\x60" ⟨by decide, by decide, trivial⟩
    (.plain (some '\x60') "t") (fun _ => rfl) rfl rfl (by decide)

/-- A query in two pairs of parentheses. -/
def nestedQuery : List Token :=
  [.symbol .openParen, .symbol .openParen, .word none "SELECT", .number "1", .symbol .closeParen,
    .symbol .closeParen]

/-- Its parentheses are balanced. -/
theorem balanced_nestedQuery : Token.Balanced nestedQuery :=
  .parens (.parens (.other (by decide) (by decide) (.other (by decide) (by decide) .nil)) .nil) .nil

/-- It is not so that every body whose list is passed over for a query, with balanced parentheses
and without a semicolon, declares a table by that query: one in two pairs of parentheses does
not. -/
theorem not_forall_singleTable_query :
    ¬ ∀ (front named body : List Lexeme) (name : String),
      Spells (tableHead false false) (tokens front) → TableName (tokens named) name →
      Terminal.opens [.keyword "IF"] named = false →
      Terminal.opens [.symbol .openParen] body = true → startsQuery (body.drop 1) = true →
      Token.Balanced (tokens body) → Token.symbol .semicolon ∉ tokens body →
      readAll singleTable (front ++ (named ++ body)) =
        .ok (.query name none (Token.spaced (tokens body))) := by
  intro h
  have hhead : Spells (tableHead false false)
      (tokens (ofTokens [.word none "CREATE", .word none "TABLE"])) :=
    spells_createTable
  have hname : TableName (tokens (ofTokens [.word (some '\x60') "t"])) "\x60t\x60" :=
    .plain (some '\x60') "t"
  have hbalanced : Token.Balanced (tokens (ofTokens nestedQuery)) := balanced_nestedQuery
  have hsemicolon : Token.symbol .semicolon ∉ tokens (ofTokens nestedQuery) := by decide
  have hreject := createTable_of_query hhead hname (fun _ => rfl) (by rfl) (by rfl) hsemicolon
  have hread := h _ _ _ _ hhead hname rfl (by rfl) (by rfl) hbalanced hsemicolon
  obtain ⟨decl, rest, hcreate, -⟩ := bind_eq_ok.1 (readAll_eq_ok.1 hread)
  rw [hreject, if_neg (by decide)] at hcreate
  cases hcreate

end Grammar

end TableSchema
