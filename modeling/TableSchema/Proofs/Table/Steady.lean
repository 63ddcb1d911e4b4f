import TableSchema.Proofs.Column.Steady
import TableSchema.Table.Grammar

/-!
# Tables at a seam

The entries of a table's list stop at every seam. What follows the list is passed over up to a
semicolon outside parentheses, so it stops at a seam where a semicolon comes and every parenthesis
before it is closed.

## Main definitions

* `Closed`: no opening parenthesis of the tokens is left without a closing one.

## Main results

* `tableItem_steady`: the entries of a table are steady at every seam;
* `createTable_steady`: the grammar of tables is steady in front of a semicolon, on tokens whose
  parentheses are closed.
-/

namespace TableSchema.Grammar

open TableSchema.Parser TableSchema.Parser.Seam

variable (s : Seam)

/-! ## Entries -/

/-- The points of a column name stand in front of the seam. -/
theorem columnName_steady : s.Steady columnName := by
  refine Steady.identifier.bind fun head => (Steady.after rfl .identifier).bind fun first? => ?_
  cases first? with
  | none => exact .pure _
  | some first =>
    refine (Steady.after rfl .identifier).bind fun second? => ?_
    cases second? with
    | none => exact .pure _
    | some second => exact .pure _

theorem namedColumn_steady : s.Steady namedColumn :=
  (columnName_steady s).bind fun _ => (columnDefinition_steady s).bind fun _ => .pure _

/-- An entry of a table takes nothing behind the seam. -/
theorem tableItem_steady : s.Steady tableItem := by
  refine (Steady.aheadAny rfl).bind fun constraint => ?_
  refine .ite ((tableConstraint_steady s).bind fun _ => .pure _) ?_
  refine (Steady.aheadAny rfl).bind fun index => ?_
  exact .ite ((indexDeclaration_steady s).bind fun _ => .pure _) (namedColumn_steady s)

/-! ## Options -/

theorem assignment_steady : s.Steady assignment :=
  (equalsSign_steady s).bind fun _ => .discard (.token _ _)

/-- The options for a character set stop at the seam. -/
theorem charsetOptions_steady : ∀ b ∈ charsetOptions, s.SteadyBranch b := by
  unfold charsetOptions
  simp only [List.forall_mem_cons]
  exact ⟨.behind rfl (assignment_steady s), .behind rfl (assignment_steady s),
    .behind rfl (assignment_steady s), .behind rfl (assignment_steady s), nofun⟩

/-- `STORAGE` is a word, so it is not looked for in a mark. -/
theorem tablespace_steady : s.Steady tablespace :=
  (assignment_steady s).bind fun _ => (Steady.eat rfl).bind fun _ =>
    .ite (.discard (.token _ _)) (.pure ())

/-- Each option of a table stops at the seam. -/
theorem tableOptions_steady : ∀ b ∈ tableOptions, s.SteadyBranch b := by
  unfold tableOptions
  simp only [List.cons_append, List.append_assoc, List.forall_mem_cons, List.forall_mem_append]
  refine ⟨.behind rfl (.choose (charsetOptions_steady s)), charsetOptions_steady s, ?words⟩
  refine ⟨.behind rfl (assignment_steady s), .behind rfl (assignment_steady s),
    .behind rfl (tablespace_steady s), ?union, .behind rfl (.pure ()), nofun, ?plain⟩
  case union => exact .behind rfl ((equalsSign_steady s).bind fun _ => .parenthesized)
  case plain =>
    intro b hb
    obtain ⟨name, -, rfl⟩ := List.mem_map.1 hb
    exact .behind rfl (assignment_steady s)

/-! ## In front of a semicolon -/

/-- No opening parenthesis is left without a closing one: each suffix of the tokens has as many
closing parentheses as opening ones, at least. -/
def Closed (ts : List Token) : Prop :=
  ∀ us, us <:+ ts → us.count (.symbol .openParen) ≤ us.count (.symbol .closeParen)

theorem Closed.nil : Closed [] := by
  rintro us hus
  rw [List.suffix_nil.1 hus]
  exact Nat.le_refl _

/-- Tokens are closed exactly if they have enough closing parentheses and are closed behind the
first one. -/
theorem closed_cons {t : Token} {ts : List Token} : Closed (t :: ts) ↔
    (t :: ts).count (.symbol .openParen) ≤ (t :: ts).count (.symbol .closeParen) ∧ Closed ts := by
  constructor
  · intro h
    exact ⟨h _ (List.suffix_refl _), fun us hus => h us (hus.trans (List.suffix_cons t ts))⟩
  · rintro ⟨hcount, hclosed⟩ us hus
    obtain rfl | hus := List.suffix_cons_iff.1 hus
    · exact hcount
    · exact hclosed us hus

/-- Whether the parentheses are closed is seen suffix by suffix. -/
instance Closed.decidable : (ts : List Token) → Decidable (Closed ts)
  | [] => isTrue .nil
  | _ :: ts =>
    have : Decidable (Closed ts) := Closed.decidable ts
    decidable_of_iff _ closed_cons.symm

/-- The parentheses of what is left are closed as well. -/
theorem Closed.of_suffix {ls rest : List Lexeme} (h : Closed (Lexeme.tokens ls))
    (hrest : rest <:+ ls) : Closed (Lexeme.tokens rest) :=
  fun us hus => h us (hus.trans (tokens_suffix hrest))

/-- The seam in front of a semicolon, behind tokens whose parentheses are closed. -/
def semicolonSeam (tail : List Token) : Seam where
  tail := .symbol .semicolon :: tail
  inside := Closed
  left := fun _ => True
  inside_of_suffix := fun hsuffix hclosed us hus => hclosed us (hus.trans hsuffix)
  left_of_suffix := fun _ _ => trivial
  mark_of_left := fun _ => .inr (by simp [Token.isMark])

variable {tail : List Token} {ls ls' : List Lexeme}

/-- What goes on in front of a semicolon has a first lexeme. -/
theorem exists_semicolon (h : (semicolonSeam tail).Continues [] ls') :
    ∃ l' ls'', ls' = l' :: ls'' ∧ l'.token = .symbol .semicolon := by
  cases ls' with
  | nil => simp [Continues, semicolonSeam] at h
  | cons l' ls'' => exact ⟨l', ls'', rfl, (List.cons.inj h).1⟩

/-- Passing over tokens whose parentheses are closed does not run across a place behind them where
it stops. The lexemes `ls'` continue `ls`, in whatever sense `continues` has. The depth is bounded
by the closing parentheses that are still to come. -/
theorem dropUntil_continues (stop : List Lexeme → Bool)
    (continues : List Lexeme → List Lexeme → Prop)
    (hcons : ∀ l ls ls', continues (l :: ls) ls' →
      ∃ l' ls'', ls' = l' :: ls'' ∧ l'.token = l.token ∧ continues ls ls'')
    (hstop : ∀ ls ls', continues ls ls' → ls ≠ [] → stop ls' = stop ls)
    (hend : ∀ ls', continues [] ls' → dropUntil stop 0 ls' = ls')
    {depth : Nat} (hclosed : Closed (Lexeme.tokens ls))
    (hdepth : depth + (Lexeme.tokens ls).count (.symbol .openParen) ≤
      (Lexeme.tokens ls).count (.symbol .closeParen))
    (h : continues ls ls') : continues (dropUntil stop depth ls) (dropUntil stop depth ls') := by
  induction ls generalizing depth ls' with
  | nil =>
    obtain rfl : depth = 0 := by simpa using hdepth
    rw [hend ls' h]
    exact h
  | cons l ls ih =>
    obtain ⟨l', ls'', rfl, hhead, htail⟩ := hcons l ls ls' h
    have hclosed' : Closed (Lexeme.tokens ls) := hclosed.of_suffix (List.suffix_cons l ls)
    have hcount := hclosed' _ (List.suffix_refl _)
    have hgo : ∀ d, d + (Lexeme.tokens ls).count (.symbol .openParen) ≤
          (Lexeme.tokens ls).count (.symbol .closeParen) →
        continues (dropUntil stop d ls) (dropUntil stop d ls'') :=
      fun d hd => ih hclosed' hd htail
    rw [Lexeme.tokens_cons, List.count_cons, List.count_cons] at hdepth
    rw [dropUntil, dropUntil, hstop _ _ h (List.cons_ne_nil l ls), hhead]
    split
    · exact h
    · -- The token may change the depth, and the bound has to be kept for what stands behind it.
      split
      · rename_i hopen
        have hdepth : depth + 1 + (Lexeme.tokens ls).count (.symbol .openParen) ≤
            (Lexeme.tokens ls).count (.symbol .closeParen) := by
          simp [hopen] at hdepth
          omega
        exact hgo (depth + 1) hdepth
      · split
        · rename_i hclose
          simp [hclose] at hdepth
          exact hgo (depth - 1) (by omega)
        · rename_i hopen hclose
          simp [hopen, hclose] at hdepth
          exact hgo depth (by omega)

/-- A search that starts where it stops passes over nothing. -/
theorem dropUntil_of_stop {stop : List Lexeme → Bool} (h : stop ls = true) :
    dropUntil stop 0 ls = ls := by
  cases ls with
  | nil => rfl
  | cons l ls => rw [dropUntil, if_pos ⟨rfl, h⟩]

/-- Outside of all parentheses the depth is bounded as it has to be. -/
theorem Closed.depth {ts : List Token} (h : Closed ts) :
    0 + ts.count (.symbol .openParen) ≤ ts.count (.symbol .closeParen) := by
  rw [Nat.zero_add]
  exact h ts (List.suffix_refl ts)

/-- Passing over tokens up to a place outside parentheses, which a semicolon always is. -/
theorem skipUntil_steady {stop : List Lexeme → Bool}
    (hstop : ∀ ls ls', (semicolonSeam tail).Continues ls ls' → ls ≠ [] → stop ls' = stop ls)
    (hend : ∀ l ls, l.token = .symbol .semicolon → stop (l :: ls) = true) :
    (semicolonSeam tail).Steady (skipUntil stop) := by
  intro ls hclosed a rest h
  obtain rfl : dropUntil stop 0 ls = rest := by simpa [skipUntil] using h
  have hcontinues : ∀ ls', (semicolonSeam tail).Continues ls ls' →
      (semicolonSeam tail).Continues (dropUntil stop 0 ls) (dropUntil stop 0 ls') := by
    refine fun ls' hls' => dropUntil_continues stop _ (fun _ _ _ => continues_cons) hstop
      (fun ls' hls' => ?_) hclosed (Closed.depth hclosed) hls'
    obtain ⟨l', ls'', rfl, hl'⟩ := exists_semicolon hls'
    exact dropUntil_of_stop (hend l' ls'' hl')
  constructor
  · exact dropUntil_suffix stop 0 ls
  · exact fun _ ls' hls' => ⟨_, rfl, dropUntil_suffix stop 0 ls', hcontinues ls' hls'⟩

/-- What is passed over of a statement ends at the semicolon. -/
theorem skipStatement_steady : (semicolonSeam tail).Steady skipStatement := by
  refine skipUntil_steady (fun ls ls' hls' hne => ?_) fun l ls hl => ?_
  · cases ls with
    | nil => exact absurd rfl hne
    | cons l ls =>
      obtain ⟨l', ls'', rfl, hhead, -⟩ := continues_cons hls'
      simp [Terminal.opens, hhead]
  · simp [Terminal.opens, Terminal.accepts, hl]

/-- The category of the statement that a word opens is the same in front of a semicolon. -/
theorem ofWords?_eq (h : (semicolonSeam tail).Continues ls ls') :
    Category.ofWords? ls' = Category.ofWords? ls := by
  -- No statement is opened by a mark, so the openings do not see the semicolon.
  have hunmarked :
      Category.openings.all (fun opening => !opening.1.any Terminal.isMark) = true := by
    decide
  have hopens : ∀ opening ∈ Category.openings,
      Terminal.opens opening.1 ls' = Terminal.opens opening.1 ls := by
    intro opening hmem
    have hopening := List.all_eq_true.1 hunmarked opening hmem
    exact opens_eq (by simpa using hopening) trivial h
  unfold Category.ofWords?
  generalize Category.openings = openings at hopens
  induction openings with
  | nil => rfl
  | cons opening openings ih =>
    obtain ⟨hhead, htail⟩ := List.forall_mem_cons.1 hopens
    rw [List.find?_cons, List.find?_cons, hhead]
    cases Terminal.opens opening.1 ls with
    | true => rfl
    | false => exact ih htail

/-- A statement begins where the words of an opening come next. -/
theorem startsStatement_iff : Category.startsStatement ls = true ↔
    ∃ opening ∈ Category.openings, Terminal.opens opening.1 ls = true := by
  simp [Category.startsStatement, Category.ofWords?]

/-- In front of the semicolon the next statement begins where it began at the end of a text. -/
theorem startsStatement_eq (h : (semicolonSeam tail).Continues ls ls') :
    Category.startsStatement ls' = Category.startsStatement ls := by
  rw [Category.startsStatement, Category.startsStatement, ofWords?_eq h]

/-- A word that is counted if it comes next, behind `n` lexemes, is there. -/
theorem count_le {n : Nat} (hn : n ≤ ls.length) {b : Bool}
    (h : b = true → 1 ≤ (ls.drop n).length) : (if b = true then n + 1 else n) ≤ ls.length := by
  split
  · rename_i hb
    have := h hb
    rw [List.length_drop] at this
    omega
  · exact hn

/-- The words that are counted before a query are there. -/
theorem choice_le (ls : List Lexeme) :
    (if Terminal.opensAny [[.keyword "IGNORE"], [.keyword "REPLACE"]] ls then 1 else 0) ≤
      ls.length := by
  refine count_le (n := 0) (Nat.zero_le _) fun h => ?_
  obtain ⟨pattern, hmem, hopens⟩ := List.any_eq_true.1 h
  have hone : ∀ p ∈ [[Terminal.keyword "IGNORE"], [.keyword "REPLACE"]], p.length = 1 := by decide
  have hle := Terminal.length_le_of_opens hopens
  rwa [hone pattern hmem] at hle

/-- The words in front of a query are lexemes of the text. -/
theorem queryLead?_le {lead : Nat} (h : queryLead? ls = some lead) : lead ≤ ls.length := by
  unfold queryLead? at h
  -- Each count is named before the next one is looked at, so that the conditions stay small.
  have hchoice := choice_le ls
  generalize (if Terminal.opensAny [[.keyword "IGNORE"], [.keyword "REPLACE"]] ls then 1 else 0) =
    choice at h hchoice
  have hlead := count_le hchoice (b := Terminal.opens [.keyword "AS"] (ls.drop choice))
    Terminal.length_le_of_opens
  dsimp only at h
  generalize (if Terminal.opens [.keyword "AS"] (ls.drop choice) = true then choice + 1
    else choice) = n at h hlead
  obtain ⟨-, rfl⟩ := by simpa using h
  exact hlead

/-- The words before a query are the same if they come next alike, and the words behind them do. -/
theorem queryLead?_congr
    (hchoice : Terminal.opensAny [[.keyword "IGNORE"], [.keyword "REPLACE"]] ls' =
      Terminal.opensAny [[.keyword "IGNORE"], [.keyword "REPLACE"]] ls)
    (has : ∀ n ≤ ls.length,
      Terminal.opens [.keyword "AS"] (ls'.drop n) = Terminal.opens [.keyword "AS"] (ls.drop n))
    (hquery : ∀ n ≤ ls.length, startsQuery (ls'.drop n) = startsQuery (ls.drop n)) :
    queryLead? ls' = queryLead? ls := by
  unfold queryLead?
  -- What is counted before a query is there in both lists, so they are cut alike.
  have hle := choice_le ls
  rw [hchoice]
  generalize (if Terminal.opensAny [[.keyword "IGNORE"], [.keyword "REPLACE"]] ls then 1 else 0) =
    choice at hle ⊢
  have hlead := count_le hle (b := Terminal.opens [.keyword "AS"] (ls.drop choice))
    Terminal.length_le_of_opens
  dsimp only
  rw [has choice hle]
  generalize (if Terminal.opens [.keyword "AS"] (ls.drop choice) = true then choice + 1
    else choice) = n at hlead ⊢
  rw [hquery n hlead]

/-- The words before a query are the same in front of a semicolon. -/
theorem queryLead?_eq (h : (semicolonSeam tail).Continues ls ls') :
    queryLead? ls' = queryLead? ls :=
  queryLead?_congr (opensAny_eq rfl trivial h) (fun _ hn => opens_eq rfl trivial (h.drop hn))
    fun _ hn => opensAny_eq rfl trivial (h.drop hn)

/-- There is no query where no words lead one. -/
theorem trailingQuery_of_none (h : queryLead? ls = none) :
    trailingQuery ls = (pure none : Parser (Option String)) ls := by
  have hget : (get : Parser (List Lexeme)) ls = .ok (ls, ls) := rfl
  rw [trailingQuery, bind_of_ok hget, h]

/-- A query is read behind the words that lead it. -/
theorem trailingQuery_of_some {lead : Nat} (h : queryLead? ls = some lead) :
    trailingQuery ls = (do skip lead; some <$> spaced skipStatement) ls := by
  have hget : (get : Parser (List Lexeme)) ls = .ok (ls, ls) := rfl
  rw [trailingQuery, bind_of_ok hget, h]
  rfl

/-- Where no query is read nothing is taken. -/
theorem trailingQuery_eq_none {rest : List Lexeme} (h : trailingQuery ls = .ok (none, rest)) :
    rest = ls := by
  cases hlead : queryLead? ls with
  | none =>
    rw [trailingQuery_of_none hlead] at h
    exact (pure_eq_ok.1 h).2.symm
  | some lead =>
    rw [trailingQuery_of_some hlead] at h
    obtain ⟨_, mid, -, hspaced⟩ := bind_eq_ok.1 h
    obtain ⟨_, -, hsome⟩ := map_eq_ok.1 hspaced
    exact nomatch hsome

/-- The text of a query in front of a semicolon. -/
theorem trailingQuery_steady : (semicolonSeam tail).Steady trailingQuery := by
  intro ls hls
  -- The same query is found in front of the semicolon, or none as well.
  cases hlead : queryLead? ls with
  | none =>
    refine (Steady.pure none ls hls).of_imp (fun r h => ?_) fun ls' _ hls' r h => ?_
    · rwa [trailingQuery_of_none hlead] at h
    · rwa [trailingQuery_of_none ((queryLead?_eq hls').trans hlead)]
  | some lead =>
    have hquery : (semicolonSeam tail).SteadyAt (do skip lead; some <$> spaced skipStatement) ls :=
      .skip_then (queryLead?_le hlead) hls ((Steady.spaced skipStatement_steady).map some)
    refine hquery.of_imp (fun r h => ?_) fun ls' _ hls' r h => ?_
    · rwa [trailingQuery_of_some hlead] at h
    · rwa [trailingQuery_of_some ((queryLead?_eq hls').trans hlead)]

/-- In front of the semicolon the partitions end where they ended at the end of a text. -/
theorem isPartitionEnd_eq (h : (semicolonSeam tail).Continues ls ls') (hne : ls ≠ []) :
    isPartitionEnd ls' = isPartitionEnd ls := by
  cases ls with
  | nil => exact absurd rfl hne
  | cons l ls =>
    rw [isPartitionEnd, isPartitionEnd, queryAhead, queryAhead, queryLead?_eq h,
      startsStatement_eq h]
    obtain ⟨l', ls'', rfl, hhead, -⟩ := continues_cons h
    simp [Terminal.opens, hhead]

/-- Each clause behind the entries of a table stops at the semicolon. -/
theorem tableClauses_steady : ∀ b ∈ tableClauses, (semicolonSeam tail).SteadyBranch b := by
  refine List.forall_mem_cons.2 ⟨.behind rfl ?_, tableOptions_steady _⟩
  refine skipUntil_steady (fun ls ls' hls' hne => isPartitionEnd_eq hls' hne) fun l ls hl => ?_
  simp [isPartitionEnd, Terminal.opens, Terminal.accepts, hl]

/-- A comma behind a clause stands in front of the semicolon. -/
theorem tableClause?_steady : (semicolonSeam tail).Steady tableClause? := by
  refine Steady.bind (.choose? tableClauses_steady) fun clause? => ?_
  cases clause? with
  | none => exact .pure none
  | some clause =>
    refine Steady.bind (.discard (.eat_of_tail fun _ u hu => ?_)) fun _ => .pure _
    obtain rfl : Token.symbol .semicolon = u := by simpa [semicolonSeam] using hu
    rfl

/-- A declaration that ends at the end of its text ends in front of a semicolon as well. -/
theorem isTableEnd_steady : (semicolonSeam tail).Steady (asks isTableEnd) := by
  refine .asks fun ls ls' _ hls' => ?_
  cases ls with
  | nil =>
    obtain ⟨l', ls'', rfl, hl'⟩ := exists_semicolon hls'
    simp [isTableEnd, Terminal.opens, Terminal.accepts, hl']
  | cons l ls =>
    rw [isTableEnd, isTableEnd, startsStatement_eq hls']
    obtain ⟨l', ls'', rfl, hhead, -⟩ := continues_cons hls'
    simp [Terminal.opens, hhead]

/-- What stands behind the entries of a table stops at the semicolon. -/
theorem tableTail_steady : (semicolonSeam tail).Steady tableTail := by
  refine Steady.bind (.discard (.many tableClause?_steady)) fun _ => ?_
  refine trailingQuery_steady.bind fun query? => ?_
  cases query? with
  | some query => exact .pure _
  | none => exact isTableEnd_steady.bind fun ends => .ite (.pure none) (.fail _)

/-! ## The body of a table -/

/-- The table that a list and a query declare, one of which is there. -/
def declared? (name : String) : Option (List TableItem) → Option String → Option TableDecl
  | items, some query => some (.query name items query)
  | some items, none => some (.columns name items)
  | none, none => none

/-- What follows the list of a table, read up to the end of the declaration. -/
def afterList (name : String) (items : Option (List TableItem)) : Parser TableDecl := do
  let tail ← get
  match items, ← tableTail with
  | items, some query => return .query name items query
  | some items, none => return .columns name items
  | none, none =>
    set tail
    fail .tableBody

/-- A list comes next. -/
def listAhead (ls : List Lexeme) : Bool :=
  Terminal.opens [.symbol .openParen] ls && !startsQuery (ls.drop 1)

/-- The body of a table is its list, if one comes next, and what follows. -/
theorem tableBody_eq (name : String) :
    tableBody name = (asks listAhead >>= fun listed =>
      if listed then (some <$> tableItems) >>= afterList name else afterList name none) :=
  rfl

/-- A table that has neither a list nor a query fails where its list could have been. -/
theorem afterList_eq (name : String) (items : Option (List TableItem)) (ls : List Lexeme) :
    afterList name items ls = (tableTail >>= fun query? => match items, query? with
      | items, some query => (pure (TableDecl.query name items query) : Parser TableDecl)
      | some items, none => pure (.columns name items)
      | none, none => do
        set ls
        fail .tableBody) ls :=
  rfl

/-- What follows the list decides whether a table is declared by the list or by a query. -/
theorem afterList_eq_ok {name : String} {items : Option (List TableItem)} {decl : TableDecl}
    {rest : List Lexeme} : afterList name items ls = .ok (decl, rest) ↔
      ∃ query?, tableTail ls = .ok (query?, rest) ∧ declared? name items query? = some decl := by
  -- A query decides for itself, and without one there has to be a list.
  rw [afterList_eq, bind_eq_ok]
  constructor
  · rintro ⟨query?, mid, htail, h⟩
    refine ⟨query?, ?_⟩
    cases query? with
    | some query =>
      obtain ⟨rfl, rfl⟩ := pure_eq_ok.1 h
      exact ⟨htail, rfl⟩
    | none =>
      cases items with
      | some items =>
        obtain ⟨rfl, rfl⟩ := pure_eq_ok.1 h
        exact ⟨htail, rfl⟩
      | none =>
        obtain ⟨u, mid', -, hfail⟩ := bind_eq_ok.1 h
        exact absurd hfail fail_eq_ok.1
  · rintro ⟨query?, htail, h⟩
    refine ⟨query?, rest, htail, ?_⟩
    cases query? with
    | some query =>
      obtain rfl : TableDecl.query name items query = decl := by simpa [declared?] using h
      rfl
    | none =>
      cases items with
      | some items =>
        obtain rfl : TableDecl.columns name items = decl := by simpa [declared?] using h
        rfl
      | none => simp [declared?] at h

/-- A declaration with a list is the same in front of a semicolon. -/
theorem afterList_steady (name : String) (items : Option (List TableItem)) :
    (semicolonSeam tail).Steady (afterList name items) := by
  intro ls hls decl rest h
  obtain ⟨query?, htail, hdecl⟩ := afterList_eq_ok.1 h
  obtain ⟨hrest, hsteady⟩ := tableTail_steady ls hls query? rest htail
  refine ⟨hrest, fun hleft ls' hls' => ?_⟩
  obtain ⟨rest', htail', hrest'⟩ := hsteady hleft ls' hls'
  exact ⟨rest', afterList_eq_ok.2 ⟨query?, htail', hdecl⟩, hrest'⟩

/-- The list, the options and the query of a table. -/
theorem tableBody_steady (name : String) : (semicolonSeam tail).Steady (tableBody name) := by
  -- The question looks one token past the parenthesis, which is there if the answer depends on it.
  have hlistAhead : (semicolonSeam tail).Steady (asks listAhead) := by
    refine .asks fun ls ls' hleft hls' => ?_
    rw [listAhead, listAhead, opens_eq rfl hleft hls']
    cases hopens : Terminal.opens [.symbol .openParen] ls with
    | false => rfl
    | true =>
      have hle : 1 ≤ ls.length := Terminal.length_le_of_opens hopens
      rw [startsQuery, startsQuery, opensAny_eq rfl trivial (hls'.drop hle)]
  rw [tableBody_eq]
  refine hlistAhead.bind fun listed => .ite ?_ (afterList_steady name none)
  exact ((Steady.list (tableItem_steady _)).map some).bind (afterList_steady name)

/-- The name of the model ends at its closing parenthesis. -/
theorem modelInParens_steady (s : Seam) : s.Steady modelInParens :=
  (tableName_steady s).bind fun _ => (Steady.expect _).bind fun _ => .pure _

/-- The name and the body of a table, or the table that it is declared like. -/
def namedTable : Parser TableDecl := do
  let name ← tableName
  match ← choose? [
    .behind [.keyword "LIKE"] tableName,
    .behind [.symbol .openParen, .keyword "LIKE"] modelInParens] with
  | some table => return .like name table
  | none => tableBody name

/-- The words before the name of a table. -/
theorem createTable_eq : createTable = (do
    expect (.keyword "CREATE")
    discard (eat (.keyword "TEMPORARY"))
    expect (.keyword "TABLE")
    if ← eat (.keyword "IF") then
      expect (.keyword "NOT")
      expect (.keyword "EXISTS")
    namedTable) :=
  rfl

/-- What declares a table behind `TABLE` is the same in front of a semicolon. -/
theorem namedTable_steady : (semicolonSeam tail).Steady namedTable := by
  refine (tableName_steady _).bind fun name => Steady.bind (.choose? ?_) fun model? => ?_
  · simp only [List.forall_mem_cons]
    exact ⟨.behind rfl (tableName_steady _), .behind rfl (modelInParens_steady _), nofun⟩
  · cases model? with
    | some model => exact .pure _
    | none => exact tableBody_steady name

/-- The declaration of a table takes nothing behind a semicolon. -/
theorem createTable_steady : (semicolonSeam tail).Steady createTable := by
  rw [createTable_eq]
  refine (Steady.expect _).bind fun _ => Steady.bind (.discard (.eat rfl)) fun _ => ?_
  refine (Steady.expect _).bind fun _ => (Steady.eat rfl).bind fun ifNotExists => ?_
  refine .ite ?_ namedTable_steady
  exact (Steady.expect _).bind fun _ => (Steady.expect _).bind fun _ => namedTable_steady

end TableSchema.Grammar
