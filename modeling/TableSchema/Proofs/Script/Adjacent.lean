import TableSchema.Proofs.Script.Contents
import TableSchema.Proofs.Table.Append

/-!
# Statements without a semicolon

The declaration of a table may be followed directly by another statement. What ends it is the first
word of that statement, so the two are read as they are alone, unless the declaration itself could
go on with that word.

## Main results

* `statement_append_of_follows`: a declaration is read in front of the next statement;
* `script_adjacent`: a script of one declaration and another script, with nothing between them, are
  read as the declaration and then the statements of the other script.
-/

namespace TableSchema.Grammar

open TableSchema.Parser TableSchema.Lexeme

variable {ls rest tail : List Lexeme} {decl : TableDecl}

/-- Where no statement is left there are semicolons only, and they are passed over. -/
theorem statement?_append_of_none (h : statement? ls = .ok (none, [])) (tail : List Lexeme) :
    statement? (ls ++ tail) = statement? tail := by
  induction ls with
  | nil => rfl
  | cons l ls ih =>
    by_cases hl : l.token = .symbol .semicolon
    · rw [statement?_semicolon hl] at h
      rw [List.cons_append, statement?_semicolon hl, ih h]
    · rw [statement?_cons hl] at h
      obtain ⟨_, -, hsome⟩ := map_eq_ok.1 h
      exact nomatch hsome

/-- Behind the last statement nothing is left, or a semicolon. -/
theorem atSemicolon_of_separator (h : separator ls = .ok ((), rest))
    (hlast : statement? rest = .ok (none, [])) : AtSemicolon ls := by
  cases ls with
  | nil => exact .inl rfl
  | cons l ls =>
    by_cases hl : l.token = .symbol .semicolon
    · exact .inr (by simp [Terminal.opens, Terminal.accepts, hl])
    · -- Otherwise another statement begins here.
      rw [separator_cons hl] at h
      split at h
      · obtain ⟨-, rfl⟩ := pure_eq_ok.1 h
        rw [statement?_cons hl] at hlast
        obtain ⟨_, -, hsome⟩ := map_eq_ok.1 hlast
        cases hsome
      · exact absurd h fail_eq_ok.1

/-- A word is no semicolon. -/
theorem StatementFollows.token_ne_semicolon {l : Lexeme} (h : StatementFollows (l :: tail)) :
    l.token ≠ .symbol .semicolon := by
  obtain ⟨value, hvalue⟩ := (h.words l rfl).1
  simp [hvalue]

/-- What separates two statements is a semicolon, or nothing in front of the next one. -/
theorem separator_append_of_follows (h : StatementFollows tail) (hend : AtSemicolon ls)
    (hrun : separator ls = .ok ((), rest)) : separator (ls ++ tail) = .ok ((), rest ++ tail) := by
  obtain rfl | ⟨l, later, rfl, hl⟩ := hend.cases
  · obtain rfl : [] = rest := (Prod.mk.inj (Except.ok.inj hrun)).2
    obtain ⟨l, tail, rfl⟩ := List.exists_cons_of_ne_nil h.ne_nil
    rw [List.nil_append, separator_cons h.token_ne_semicolon, if_pos h.starts]
    rfl
  · rw [separator_semicolon hl] at hrun
    obtain rfl : later = rest := (Prod.mk.inj (Except.ok.inj hrun)).2
    exact separator_semicolon hl _

/-- The last statement of a script, if it is a declaration without a query, is read in front of the
next statement. -/
theorem statement?_append_of_follows (h : StatementFollows tail) (hclosed : Closed (tokens ls))
    (hquery : ∀ name items query, decl ≠ .query name items query)
    (hrun : statement? ls = .ok (some (.createTable decl), rest))
    (hlast : statement? rest = .ok (none, [])) :
    statement? (ls ++ tail) = .ok (some (.createTable decl), rest ++ tail) := by
  induction ls with
  | nil => exact nomatch hrun
  | cons l ls ih =>
    by_cases hl : l.token = .symbol .semicolon
    · rw [statement?_semicolon hl] at hrun
      rw [List.cons_append, statement?_semicolon hl]
      exact ih (hclosed.of_suffix (List.suffix_cons l ls)) hrun
    · rw [statement?_cons hl] at hrun
      obtain ⟨statement, hseparated, hsome⟩ := map_eq_ok.1 hrun
      obtain rfl := Option.some.inj hsome
      obtain ⟨statement, mid, hstatement, hmid⟩ := bind_eq_ok.1 hseparated
      obtain ⟨u, rest', hseparator, hpure⟩ := bind_eq_ok.1 hmid
      obtain ⟨rfl, rfl⟩ := pure_eq_ok.1 hpure
      -- The declaration is read as a table, which ends where its text does or at a semicolon.
      obtain ⟨⟨b, hb, hopens⟩, hdecl⟩ := createTable_of_statement hstatement
      have hend := atSemicolon_of_separator hseparator hlast
      have hdecl' := (h.createTable_appendsIf hclosed decl mid hdecl ⟨hquery, hend⟩).2
      have hopens' := Terminal.opens_of_append (tokens_append (l :: ls) tail) hopens
      have hstatement' := statement_of_createTable ⟨b, hb, hopens'⟩ hdecl'
      have hseparator' := separator_append_of_follows h hend hseparator
      rw [List.cons_append, statement?_cons hl, ← List.cons_append]
      refine map_eq_ok.2 ⟨_, ?_, rfl⟩
      rw [separatedStatement, bind_of_ok hstatement', bind_of_ok hseparator']
      rfl

/-- **Statements need no semicolon between them.** A script that is one declaration of a table, by a
list or like another table, with all of its parentheses closed, may be followed directly by a script
that begins with the word of a statement: the two are read as the declaration and then the
statements of the second. The word must not be one with which the declaration could go on,
`SELECT`, `START` or `CHECKSUM`, nor `REPLACE` before a query. -/
theorem script_adjacent {first second : List Lexeme} {others : Script}
    (hfirst : readAll script first = .ok [.createTable decl])
    (hquery : ∀ name items query, decl ≠ .query name items query)
    (hclosed : Closed (tokens first))
    (hsecond : readAll script second = .ok others)
    (hstarts : Category.startsStatement second = true)
    (hwords : ∀ word ∈ ["SELECT", "START", "CHECKSUM"],
      Terminal.opens [.keyword word] second = false)
    (hreplace : Terminal.opensAny replaceQueries second = false) :
    readAll script (first ++ second) = .ok (.createTable decl :: others) := by
  have hfollows := statementFollows_of_starts hstarts hwords hreplace
  rw [readAll_eq_ok] at hfirst hsecond ⊢
  obtain ⟨hnil, -⟩ | ⟨statement, later, rest, heq, hstep, hlt, hmany⟩ |
      ⟨statement, heq, hstep, hle⟩ := many_eq_ok hfirst
  · exact nomatch hnil
  · obtain ⟨rfl, rfl⟩ := List.cons.inj heq
    -- Behind the declaration there is no other statement in the first script.
    obtain ⟨-, hlast⟩ | ⟨_, _, _, hnil, -⟩ | ⟨_, hnil, -⟩ := many_eq_ok hmany
    · have hnext := statement?_append_of_none hlast second
      refine many_of_some (statement?_append_of_follows hfollows hclosed hquery hstep hlast)
        (by simpa using hlt) ?_
      exact many_of_step_eq hnext (by simp) statement?_nil hsecond
    · exact nomatch hnil
    · exact nomatch hnil
  · obtain rfl : first = [] := List.length_eq_zero_iff.1 (Nat.le_zero.1 hle)
    exact nomatch hstep

/-- A table with one column, and a statement that drops it. -/
theorem script_adjacent_drop :
    readAll script (ofTokens [.word none "CREATE", .word none "TABLE", .word (some '\x60') "t",
        .symbol .openParen, .word (some '\x60') "a", .word none "INT", .symbol .closeParen] ++
      ofTokens [.word none "drop", .word none "TABLE", .word (some '\x60') "t"]) =
      .ok [.createTable (.columns "\x60t\x60"
          [.column ⟨"\x60a\x60", []⟩ ⟨.measured ⟨.int, "INT"⟩ none [], []⟩]),
        .other .definition "DROP" "drop TABLE \x60t\x60"] := by
  have hdrop : statement? (ofTokens [.word none "drop", .word none "TABLE",
      .word (some '\x60') "t"]) =
        .ok (some (.other .definition "DROP" "drop TABLE \x60t\x60"), []) := rfl
  exact script_adjacent script_table nofun (by decide)
    (readAll_eq_ok.2 (many_of_some hdrop (by decide) (many_of_none statement?_nil)))
    (by decide) (by decide) (by decide)

end TableSchema.Grammar
