import TableSchema.Proofs.Column.Clause
import TableSchema.Proofs.DataType.Append
import TableSchema.Proofs.Key.Append

/-!
# Columns clause by clause

A clause of a column is read in front of the next clause as it is read alone, since no clause begins
with a word with which another one goes on. There are three exceptions: `KEY` belongs to a bare
`UNIQUE` before it, `ON UPDATE` to a default that is the current time, and `COLLATE` to a character
type.

## Main definitions

* `Grammar.clauseWords`: the words with which a clause may go on;
* `Grammar.EndsClause`: a clause ends in front of a text;
* `Grammar.IsClause`: tokens that are a clause;
* `Grammar.RunsOn`: a clause that goes on with the words of the next one.

## Main results

* `columnClause_append`: a clause is read in front of a text where it ends;
* `endsClause_of_clause`: a clause ends in front of another one, but for the exceptions;
* `columnDefinition_clauses`: a type and clauses, each of which can be read alone, are read as a
  column of that type with those clauses.
-/

namespace TableSchema.Grammar

open TableSchema.Parser TableSchema.Lexeme

variable {tail ls rest : List Lexeme}

/-- The words with which a clause of a column may go on, but for `KEY` and `ON`. -/
def clauseWords : List String :=
  referenceWords ++
    ["CURRENT_TIMESTAMP", "LOCALTIME", "LOCALTIMESTAMP", "NOW", "STORED", "VIRTUAL"]

/-! ## Default values -/

section Values

variable (h : LedOutside clauseWords tail)
include h

theorem precision_ends : Ends tail precision := by
  refine (Ends.expect _).bind fun _ => (Ends.ahead (h.apart rfl)).bind fun closed => ?_
  cases closed with
  | true => exact .expect _
  | false => exact (Ends.discard (.token _ _)).bind fun _ => .expect _

theorem currentTimestamp_ends : Ends tail currentTimestamp := by
  refine (Ends.eat (h.apart (by decide))).bind fun now => .ite (precision_ends h) fun ls => ?_
  have hwords : ∀ pattern ∈ timestampWords, pattern.all (Terminal.within clauseWords) = true := by
    decide
  refine (Ends.aheadAny (fun pattern hmem => h.apart (hwords pattern hmem)) ls).bind
    fun word mid hword => ?_
  obtain ⟨hopens, rfl⟩ := asks_eq_ok.1 hword
  cases word with
  | false => exact Ends.fail _ ls
  | true =>
    have hprecision : Ends tail (discard (ifAhead [.symbol .openParen] precision)) :=
      .discard (.ifAhead (h.apart rfl) (precision_ends h))
    exact (Appends.skip (length_pos_of_timestampWord hopens)).bind fun _ mid _ => hprecision mid

theorem bareConstant_ends : Ends tail bareConstant := by
  have hliteral : ∀ l ∈ tail.head?, l.token.stringText? = none := h.value_eq_none fun _ => rfl
  refine (Ends.token? hliteral).bind fun literal? => ?_
  cases literal? with
  | some text => exact .discard (.tokenRun hliteral)
  | none => exact .discard (.token _ _)

/-- The word that follows is no literal, so an introducer before it does not become one. -/
theorem constant_ends : ∀ ls, Appends constant ls tail := by
  intro ls
  cases ls with
  | nil => exact fun _ _ hrun => nomatch hrun
  | cons l ls =>
    rw [constant_eq]
    -- An introducer that is the last lexeme could be joined by a literal of the tail, which has
    -- none.
    have hahead : Appends introducerAhead (l :: ls) tail := by
      refine .asks ?_
      cases ls with
      | cons m ls => rfl
      | nil =>
        cases tail with
        | nil => rfl
        | cons m tail =>
          obtain ⟨value, hvalue⟩ := (h m rfl).1
          simp [hvalue, isSingleQuoted]
    refine hahead.bind fun introduced mid hmid => ?_
    obtain ⟨-, rfl⟩ := asks_eq_ok.1 hmid
    cases introduced with
    | false => exact bareConstant_ends h (l :: ls)
    | true => exact (Appends.skip (by simp)).bind fun _ mid _ => bareConstant_ends h mid

theorem signedConstant_append : Appends signedConstant ls tail := by
  cases ls with
  | nil => exact fun _ _ hrun => nomatch hrun
  | cons l ls =>
    refine Appends.bind (.discard (.token? nofun)) fun _ mid _ => ?_
    exact constant_ends h mid

/-- The current time as a default is read in front of another word, unless it has no `ON UPDATE` of
its own and one follows. -/
theorem timestampDefault_append (hrun : timestampDefault ls = .ok ((), []))
    (hupdate : currentTimestamp ls = .ok ((), []) →
      Terminal.opens [.keyword "ON", .keyword "UPDATE"] tail = false) :
    timestampDefault (ls ++ tail) = .ok ((), tail) := by
  obtain ⟨_, mid, hcurrent, hafter⟩ := bind_eq_ok.1 hrun
  have hopens : Terminal.opens [.keyword "ON", .keyword "UPDATE"] (mid ++ tail) =
      Terminal.opens [.keyword "ON", .keyword "UPDATE"] mid := by
    cases mid with
    | nil => exact hupdate hcurrent
    | cons l mid => exact Terminal.Apart.opens_cons_append (h.apart (by decide)) l mid
  have happends : Appends (after [.keyword "ON", .keyword "UPDATE"] currentTimestamp) mid tail :=
    (Appends.eatAll hopens).bind fun _ mid _ =>
      Ends.ite ((currentTimestamp_ends h).bind fun _ => .pure _) (.pure none) mid
  rw [timestampDefault, bind_of_ok (currentTimestamp_ends h ls _ mid hcurrent).2]
  exact (happends.discard _ _ hafter).2

/-- What is chosen by its first words is read in front of another word, unless it is the current
time and `ON UPDATE` follows. -/
theorem defaultExpressions_append (hupdate : currentTimestamp ls = .ok ((), []) →
      Terminal.opens [.keyword "ON", .keyword "UPDATE"] tail = false) :
    ∀ b ∈ defaultExpressions, Terminal.opens b.opener ls = true → ∀ a, b.body ls = .ok (a, []) →
      [] <:+ ls ∧ b.body (ls ++ tail) = .ok (a, [] ++ tail) := by
  have htimestamp : ∀ a, timestampDefault ls = .ok (a, []) →
      [] <:+ ls ∧ timestampDefault (ls ++ tail) = .ok (a, [] ++ tail) :=
    fun a ha => ⟨List.nil_suffix, timestampDefault_append h ha hupdate⟩
  unfold defaultExpressions
  simp only [List.forall_mem_cons]
  refine ⟨?null, ?cast, ?parenthesis, fun _ => htimestamp, fun _ => htimestamp,
    fun _ => htimestamp, fun _ => htimestamp, nofun⟩
  case null => exact fun hopens a => Appends.behind hopens (Ends.pure ()) a []
  case cast =>
    intro hopens a
    have hpos : 1 ≤ ls.length := Nat.le_of_succ_le (Terminal.length_le_of_opens hopens)
    exact (Appends.skip hpos).bind (fun _ mid _ => Ends.parenthesized mid) a []
  case parenthesis => exact fun _ a => Ends.parenthesized _ a []

/-- A default value is read in front of another word, unless it is the current time and `ON UPDATE`
follows. -/
theorem defaultValue_append (hrun : defaultValue ls = .ok ((), []))
    (hupdate : currentTimestamp ls = .ok ((), []) →
      Terminal.opens [.keyword "ON", .keyword "UPDATE"] tail = false) :
    defaultValue (ls ++ tail) = .ok ((), tail) := by
  cases ls with
  | nil => exact nomatch hrun
  | cons l ls =>
    -- No expression goes on with a word that the tail begins with.
    have hopener : ∀ b ∈ defaultExpressions,
        Terminal.opens b.opener (l :: ls ++ tail) = Terminal.opens b.opener (l :: ls) := by
      have hlater : ∀ b ∈ defaultExpressions,
          b.opener.tail.all (Terminal.within clauseWords) = true := by decide
      exact fun b hb => Terminal.Apart.opens_cons_append (h.apart (hlater b hb)) l ls
    obtain ⟨found?, mid, hchoice, hrun⟩ := bind_eq_ok.1 hrun
    cases found? with
    | none =>
      have hchoice' := (choose?_append hchoice fun b hb => ⟨hopener b hb, fun _ _ h => nomatch h⟩).2
      rw [defaultValue, bind_of_ok hchoice']
      exact (signedConstant_append h _ _ hrun).2
    | some found =>
      obtain ⟨-, rfl⟩ := pure_eq_ok.1 hrun
      have hchoice' := (choose?_append hchoice fun b hb => ⟨hopener b hb, fun hopens a _ =>
        defaultExpressions_append h hupdate b hb hopens a⟩).2
      rw [defaultValue, bind_of_ok hchoice']
      rfl

end Values

/-! ## Clauses -/

section Clauses

variable (h : LedOutside clauseWords tail)
include h

theorem generatedColumn_append : Appends generatedColumn ls tail := by
  cases ls with
  | nil => exact fun _ _ hrun => nomatch hrun
  | cons l ls =>
    have hstored : Ends tail (do
        unless ← eat (.word "VIRTUAL") do discard (eat (.word "STORED"))) :=
      (Ends.eat (h.apart (by decide))).bind fun _ =>
        .ite (.pure ()) (.discard (.eat (h.apart (by decide))))
    have hend : Ends tail (do
        expect (.keyword "AS")
        parenthesized
        unless ← eat (.word "VIRTUAL") do discard (eat (.word "STORED"))) :=
      (Ends.expect _).bind fun _ => Ends.parenthesized.bind fun _ => hstored
    refine Appends.bind (.eatAll rfl) fun _ mid _ => ?_
    exact Ends.ite ((Ends.expect _).bind fun _ => hend) hend mid

omit h in
theorem columnCheck_append : Appends columnCheck ls tail := by
  have hend : ∀ name, Ends tail (do
      expect (.keyword "CHECK")
      return ColumnClause.check name (← glued parenthesized)) := fun name =>
    (Ends.expect _).bind fun _ => (Ends.glued .parenthesized).bind fun _ => .pure _
  cases ls with
  | nil => exact fun _ _ hrun => nomatch hrun
  | cons l ls =>
    refine Appends.bind (.eatAll rfl) fun named mid _ => ?_
    cases named with
    | false => exact ((Ends.pure none).bind hend) mid
    | true =>
      -- Behind `CONSTRAINT` there is a name or `CHECK`.
      cases mid with
      | nil => exact fun _ _ hrun => nomatch hrun
      | cons m mid =>
        refine Appends.bind (.asks rfl) fun bare mid _ => ?_
        exact Ends.ite ((Ends.pure none).bind hend) (((Ends.token _ _).map some).bind hend) mid

end Clauses

/-- The clause that is all of `ls` ends in front of `tail`: what follows begins with another word
than those with which clauses go on, no rule of a reference begins there, and it is neither `KEY`
behind a bare `UNIQUE` nor `ON UPDATE` behind the current time as a default. -/
structure EndsClause (ls : List Lexeme) (clause : ColumnClause) (tail : List Lexeme) : Prop where
  words : LedOutside clauseWords tail
  rules : ∀ b ∈ referenceRules, Terminal.opens b.opener tail = false
  key : clause = .unique false → Terminal.opens [.keyword "KEY"] tail = false
  update : ∀ l value, ls = l :: value → (Terminal.keyword "DEFAULT").accepts l.token = true →
    currentTimestamp value = .ok ((), []) →
      Terminal.opens [.keyword "ON", .keyword "UPDATE"] tail = false

section Clause

variable {clause : ColumnClause} (h : EndsClause ls clause tail)
include h

/-- What an alternative reads as the clause it reads in front of the text. -/
theorem columnClauses_append : ∀ b ∈ columnClauses, Terminal.opens b.opener ls = true →
    b.body ls = .ok (clause, []) →
      [] <:+ ls ∧ b.body (ls ++ tail) = .ok (clause, [] ++ tail) := by
  have hbehind : ∀ {opener : List Terminal} {p : Parser ColumnClause}, Ends tail p →
      Terminal.opens opener ls = true → (Branch.behind opener p).body ls = .ok (clause, []) →
      [] <:+ ls ∧ (Branch.behind opener p).body (ls ++ tail) = .ok (clause, [] ++ tail) :=
    fun hp hopens => Appends.behind hopens hp clause []
  have hends : ∀ {p : Parser ColumnClause}, Appends p ls tail → p ls = .ok (clause, []) →
      [] <:+ ls ∧ p (ls ++ tail) = .ok (clause, [] ++ tail) :=
    fun hp => hp clause []
  unfold columnClauses
  simp only [List.forall_mem_cons]
  refine ⟨?notNull, ?null, ?default, ?visible, ?invisible, ?increment, ?onUpdate, ?primary, ?key,
    ?unique, ?comment, ?format, ?storage, ?references, ?collate, ?generated, ?as, ?serial,
    ?constraint, ?check, nofun⟩
  case notNull => exact hbehind ((Ends.expect _).bind fun _ => .pure _)
  case null => exact hbehind (.pure _)
  case visible => exact hbehind (.pure _)
  case invisible => exact hbehind (.pure _)
  case increment => exact hbehind (.pure _)
  case onUpdate =>
    exact hbehind ((Ends.glued (currentTimestamp_ends h.words)).bind fun _ => .pure _)
  case primary => exact hbehind ((Ends.expect _).bind fun _ => .pure _)
  case key => exact hbehind (.pure _)
  case comment => exact hbehind ((Ends.token _ _).bind fun _ => .pure _)
  case format => exact hbehind ((Ends.token _ _).bind fun _ => .pure _)
  case storage => exact hbehind ((Ends.token _ _).bind fun _ => .pure _)
  case references =>
    have hreference := reference_ends (h.words.mono (List.subset_append_left _ _)) h.rules
    exact fun _ => hends ((hreference.bind fun _ => .pure _) ls)
  case collate => exact hbehind ((Ends.token _ _).bind fun _ => .pure _)
  case generated =>
    exact fun _ => hends ((generatedColumn_append h.words).glued.bind fun _ _ _ => .pure _ _ _)
  case as =>
    exact fun _ => hends ((generatedColumn_append h.words).glued.bind fun _ _ _ => .pure _ _ _)
  case serial =>
    exact hbehind ((Ends.expect _).bind fun _ => (Ends.expect _).bind fun _ => .pure _)
  case constraint => exact fun _ => hends columnCheck_append
  case check => exact fun _ => hends columnCheck_append
  case default =>
    intro hopens hrun
    obtain ⟨l, value, rfl, hl, -⟩ := Terminal.opens_cons.1 hopens
    obtain ⟨_, mid, hskip, hclause⟩ := bind_eq_ok.1 hrun
    obtain rfl : value = mid := by simpa [skip] using hskip
    obtain ⟨text, _, htext, hpure⟩ := bind_eq_ok.1 hclause
    obtain ⟨-, rfl⟩ := pure_eq_ok.1 hpure
    obtain ⟨ts, _, htaken, hpure⟩ := bind_eq_ok.1 htext
    obtain ⟨-, rfl⟩ := pure_eq_ok.1 hpure
    have hvalue : defaultValue value = .ok ((), []) := (taken_eq_ok.1 htaken).1
    have hvalue' := defaultValue_append h.words hvalue (h.update l value rfl hl)
    have happends : Appends defaultValue value tail := .of_ok hvalue List.nil_suffix hvalue'
    exact hends (.behind_cons (happends.glued.bind fun _ _ _ => .pure _ _ _)) hrun
  case unique =>
    intro hopens hrun
    obtain ⟨l, value, rfl, -⟩ := Terminal.opens_cons.1 hopens
    have hkey : Terminal.opens [.keyword "KEY"] (value ++ tail) =
        Terminal.opens [.keyword "KEY"] value := by
      cases value with
      | nil =>
        -- The clause is the word `UNIQUE` alone.
        cases hrun
        exact h.key rfl
      | cons m value => rfl
    exact hends (.behind_cons ((Appends.eatAll hkey).bind fun _ _ _ => .pure _ _ _)) hrun

/-- A clause is read in front of a text where it ends. -/
theorem columnClause_append (hrun : columnClause ls = .ok (clause, [])) :
    columnClause (ls ++ tail) = .ok (clause, tail) := by
  cases ls with
  | nil => exact nomatch hrun
  | cons l ls =>
    have hlater : ∀ b ∈ columnClauses,
        b.opener.tail.all (Terminal.within clauseWords) = true := by decide
    refine (choose_append hrun fun b hb => ⟨?_, columnClauses_append h b hb⟩).2
    exact Terminal.Apart.opens_cons_append (h.words.apart (hlater b hb)) l ls

end Clause

/-! ## Boundaries -/

section Boundaries

variable {clause next : ColumnClause}

/-- A clause begins with one of the words of its openers. -/
theorem ledOutside_of_clause {words : List String} (h : columnClause ls = .ok (clause, rest))
    (hwords : columnClauses.all (fun b => b.opener.head?.any (Terminal.outside words)) = true) :
    LedOutside words ls := by
  obtain ⟨b, hb, hopens, -⟩ := choose_eq_ok h
  exact .of_opens (List.all_eq_true.1 hwords b hb) hopens

/-- A word with which only one kind of clause begins tells the kind. -/
theorem clause_of_word {word : String} {pattern : List Terminal} {b : Branch ColumnClause}
    (h : columnClause ls = .ok (clause, rest))
    (hword : Terminal.opens (.keyword word :: pattern) ls = true)
    (hone : columnClauses.filter (fun b => !b.opener.head?.any (Terminal.outside [word])) = [b]) :
    Terminal.opens b.opener ls = true ∧ b.body ls = .ok (clause, rest) := by
  obtain ⟨b', hb', hopens, hbody⟩ := choose_eq_ok h
  cases hother : b'.opener.head?.any (Terminal.outside [word]) with
  | false =>
    have hmem : b' ∈ [b] := hone ▸ List.mem_filter.2 ⟨hb', by simp [hother]⟩
    obtain rfl := List.mem_singleton.1 hmem
    exact ⟨hopens, hbody⟩
  | true =>
    -- A clause of another kind does not begin with the word.
    obtain ⟨l, ls, rfl, hl, -⟩ := Terminal.opens_cons.1 hword
    have hnot := (LedOutside.of_opens hother hopens l rfl).2 word (List.mem_singleton_self word)
    exact absurd hl (by simp [hnot])

/-- Only a collation begins with `COLLATE`. -/
theorem ledOutside_collate (h : columnClause ls = .ok (clause, rest))
    (hclause : ∀ name, clause ≠ .collation name) : LedOutside ["COLLATE"] ls := by
  have hled : LedOutside [] ls := ledOutside_of_clause h (by decide)
  intro l hl
  refine ⟨(hled l hl).1, List.forall_mem_singleton.2 (Bool.eq_false_iff.2 fun haccepts => ?_)⟩
  obtain ⟨ls, rfl⟩ := List.head?_eq_some_iff.1 hl
  have hopens : Terminal.opens [.keyword "COLLATE"] (l :: ls) = true := by
    rw [Terminal.opens, haccepts]
    rfl
  obtain ⟨-, hbody⟩ := clause_of_word h hopens rfl
  obtain ⟨_, mid, -, hbody⟩ := bind_eq_ok.1 hbody
  obtain ⟨name, _, -, hpure⟩ := bind_eq_ok.1 hbody
  exact hclause name (pure_eq_ok.1 hpure).1.symm

/-- The words with which the action of a rule begins. -/
def actionWords : List String :=
  ["RESTRICT", "CASCADE", "SET", "NO"]

/-- The current time does not begin like an action. -/
theorem ledOutside_of_currentTimestamp {u : Unit} (h : currentTimestamp ls = .ok (u, rest)) :
    LedOutside actionWords ls := by
  obtain ⟨now, mid, hnow, h⟩ := bind_eq_ok.1 h
  obtain ⟨hopens, rfl⟩ := eatAll_eq_ok.1 hnow
  cases now with
  | true => exact .of_opens (by decide) hopens
  | false =>
    obtain ⟨word, _, hword, h⟩ := bind_eq_ok.1 h
    obtain ⟨hopens, rfl⟩ := asks_eq_ok.1 hword
    cases word with
    | false => exact absurd h fail_eq_ok.1
    | true =>
      have hwords : ∀ pattern ∈ timestampWords,
          pattern.head?.any (Terminal.outside actionWords) = true := by decide
      obtain ⟨pattern, hmem, hpattern⟩ := List.any_eq_true.1 hopens
      exact .of_opens (hwords pattern hmem) hpattern

/-- No rule of a reference begins where a clause does: behind `ON UPDATE` there is the current time
in a clause, and an action in a rule. -/
theorem opens_rule_of_clause (h : columnClause ls = .ok (clause, rest)) :
    ∀ b ∈ referenceRules, Terminal.opens b.opener ls = false := by
  intro b hb
  have hactions : ∀ b ∈ referenceRules, ∃ t ∈ b.opener.drop 2 |>.head?,
      t.within actionWords = true := by decide
  refine Bool.eq_false_iff.2 fun hopens => ?_
  obtain ⟨t, ht, hwithin⟩ := hactions b hb
  simp only [referenceRules, List.mem_flatMap, List.mem_map] at hb
  obtain ⟨⟨spelling, event⟩, -, word, -, rfl⟩ := hb
  obtain rfl : Terminal.word word = t := Option.some.inj ht
  -- Only one clause begins with `ON`, and it takes the current time where a rule has its action.
  obtain ⟨-, hbody⟩ := clause_of_word h hopens rfl
  obtain ⟨l, ls, rfl, hl, hopens⟩ := Terminal.opens_cons.1 hopens
  obtain ⟨m, ls, rfl, hm, hopens⟩ := Terminal.opens_cons.1 hopens
  obtain ⟨n, ls, rfl, hn, -⟩ := Terminal.opens_cons.1 hopens
  obtain ⟨_, mid, hskip, hbody⟩ := bind_eq_ok.1 hbody
  obtain rfl : n :: ls = mid := by simpa [skip] using hskip
  obtain ⟨text, _, htext, -⟩ := bind_eq_ok.1 hbody
  obtain ⟨ts, _, htaken, -⟩ := bind_eq_ok.1 htext
  have hled := ledOutside_of_currentTimestamp (taken_eq_ok.1 htaken).1
  exact absurd hn (by simp [hled.not_accepts hwithin n rfl])

/-- A clause goes on with the words of the next one: `KEY` behind a bare `UNIQUE`, or `ON UPDATE`
behind the current time as a default. -/
inductive RunsOn : List Token → ColumnClause → ColumnClause → Prop
  | key {ts : List Token} : RunsOn ts (.unique false) (.key false)
  | onUpdate {t : Token} {ts : List Token} {clause : ColumnClause} {text : String}
      (ht : (Terminal.keyword "DEFAULT").accepts t = true)
      (hts : readAll currentTimestamp (ofTokens ts) = .ok ()) :
    RunsOn (t :: ts) clause (.onUpdate text)

/-- Where nothing follows, every clause ends. -/
theorem endsClause_nil : EndsClause ls clause [] where
  words := .nil
  rules b hb := by
    have hne : ∀ b ∈ referenceRules, b.opener ≠ [] := by decide
    obtain ⟨t, pattern, hopener⟩ := List.exists_cons_of_ne_nil (hne b hb)
    rw [hopener]
    rfl
  key _ := rfl
  update _ _ _ _ _ := rfl

/-- A clause ends in front of another one, unless it goes on with its words. -/
theorem endsClause_of_clause {ts : List Token} (h : columnClause tail = .ok (next, rest))
    (hends : ¬ RunsOn ts clause next) : EndsClause (ofTokens ts) clause tail where
  words := ledOutside_of_clause h (by decide)
  rules := opens_rule_of_clause h
  -- A clause that begins with one of these words is the one that runs on, which is excluded.
  key := by
    rintro rfl
    refine Bool.eq_false_iff.2 fun hopens => hends ?_
    obtain ⟨-, hbody⟩ := clause_of_word h hopens rfl
    obtain ⟨_, mid, -, hpure⟩ := bind_eq_ok.1 hbody
    obtain ⟨rfl, -⟩ := pure_eq_ok.1 hpure
    exact .key
  update := by
    intro l value hts hl hvalue
    refine Bool.eq_false_iff.2 fun hopens => hends ?_
    obtain ⟨-, hbody⟩ := clause_of_word h hopens rfl
    obtain ⟨_, mid, -, hbody⟩ := bind_eq_ok.1 hbody
    obtain ⟨text, _, -, hpure⟩ := bind_eq_ok.1 hbody
    obtain ⟨rfl, -⟩ := pure_eq_ok.1 hpure
    cases ts with
    | nil => exact nomatch hts
    | cons t ts =>
      obtain ⟨rfl, rfl⟩ := List.cons.inj hts
      exact .onUpdate hl (readAll_eq_ok.2 hvalue)

end Boundaries

/-! ## Columns -/

/-- The column does not end where a clause begins. -/
theorem nextClause_of_clause {clause : ColumnClause} (h : columnClause ls = .ok (clause, rest)) :
    nextClause ls = .ok (some clause, rest) := by
  have hled : LedOutside [] ls := ledOutside_of_clause h (by decide)
  have hend : isColumnEnd ls = false := by
    cases ls with
    | nil => exact nomatch h
    | cons l ls =>
      obtain ⟨value, hvalue⟩ := (hled l rfl).1
      simp [isColumnEnd, Terminal.opensAny, Terminal.opens, Terminal.accepts, hvalue]
  rw [nextClause, bind_of_ok (asks_ok _ _), hend]
  exact map_eq_ok.2 ⟨clause, h, rfl⟩

/-- Clauses that end in front of each other are read one after the other. -/
theorem many_nextClause {groups : List (List Token × ColumnClause)}
    (hgroups : ∀ g ∈ groups, columnClause (ofTokens g.1) = .ok (g.2, []))
    (hchain : groups.IsChain fun g next => ¬ RunsOn g.1 g.2 next.2) :
    many nextClause (ofTokens (groups.map Prod.fst).flatten) = .ok (groups.map Prod.snd, []) ∧
      ∀ g ∈ groups.head?, ∃ rest,
        columnClause (ofTokens (groups.map Prod.fst).flatten) = .ok (g.2, rest) := by
  -- The first clause ends in front of the others because the one behind it is read where they
  -- begin.
  induction groups with
  | nil => exact ⟨many_of_none rfl, nofun⟩
  | cons g groups ih =>
    obtain ⟨hg, hgroups⟩ := List.forall_mem_cons.1 hgroups
    obtain ⟨hmany, hnext⟩ := ih hgroups hchain.of_cons
    have hends : EndsClause (ofTokens g.1) g.2 (ofTokens (groups.map Prod.fst).flatten) := by
      cases groups with
      | nil => exact endsClause_nil
      | cons next groups =>
        obtain ⟨rest, hclause⟩ := hnext next rfl
        exact endsClause_of_clause hclause (List.isChain_cons_cons.1 hchain).1
    have hclause := columnClause_append hends hg
    rw [List.map_cons, List.flatten_cons, ofTokens_append]
    refine ⟨many_of_some (nextClause_of_clause hclause) ?_ hmany, ?_⟩
    · -- A clause is not empty.
      cases hts : g.1 with
      | nil =>
        rw [hts] at hg
        exact nomatch hg
      | cons t ts => simp
    · rintro _ ⟨⟩
      exact ⟨_, hclause⟩

/-- The tokens are the clause: behind `DATE`, a type that nothing belongs to, they are read as a
column with this clause alone. -/
def IsClause (ts : List Token) (clause : ColumnClause) : Prop :=
  ∃ date : TypeDecl,
    readAll columnDefinition (ofTokens (.word none "DATE" :: ts)) = .ok ⟨date, [clause]⟩

/-- What is a clause behind `DATE` is read as it. -/
theorem columnClause_of_isClause {ts : List Token} {clause : ColumnClause}
    (h : IsClause ts clause) : columnClause (ofTokens ts) = .ok (clause, []) := by
  obtain ⟨date, h⟩ := h
  have hdate : dataType (ofTokens (.word none "DATE" :: ts)) =
      .ok (.simple ⟨.date, "DATE"⟩, ofTokens ts) := rfl
  rw [readAll_eq_ok, columnDefinition, bind_of_ok hdate] at h
  obtain ⟨clauses, mid, hmany, h⟩ := bind_eq_ok.1 h
  obtain ⟨hdecl, rfl⟩ := pure_eq_ok.1 h
  obtain ⟨-, rfl⟩ := ColumnDecl.mk.inj hdecl
  have hclause : ∀ {rest}, nextClause (ofTokens ts) = .ok (some clause, rest) →
      columnClause (ofTokens ts) = .ok (clause, rest) := by
    intro rest hstep
    obtain ⟨hnone, -⟩ | ⟨_, hsome, hrun⟩ := of_nextClause hstep
    · cases hnone
    · exact Option.some.inj hsome ▸ hrun
  -- One step gives the clause, and nothing is left for another one.
  obtain ⟨hnil, -⟩ | ⟨first, later, mid, hclauses, hstep, -, hend⟩ | ⟨first, hclauses, hstep, -⟩ :=
    many_eq_ok hmany
  · cases hnil
  · obtain ⟨rfl, rfl⟩ := List.cons.inj hclauses
    obtain ⟨-, hnone⟩ | ⟨_, _, _, hnil, -⟩ | ⟨_, hnil, -⟩ := many_eq_ok hend
    · obtain ⟨-, rfl⟩ | ⟨_, hsome, -⟩ := of_nextClause hnone
      · exact hclause hstep
      · cases hsome
    · cases hnil
    · cases hnil
  · obtain ⟨rfl, -⟩ := List.cons.inj hclauses
    exact hclause hstep

/-- Tokens are a clause exactly if they are read as one without a type before them. -/
theorem isClause_iff {ts : List Token} {clause : ColumnClause} :
    IsClause ts clause ↔ columnClause (ofTokens ts) = .ok (clause, []) := by
  refine ⟨columnClause_of_isClause, fun h => ⟨.simple ⟨.date, "DATE"⟩, ?_⟩⟩
  have hdate : dataType (ofTokens (.word none "DATE" :: ts)) =
      .ok (.simple ⟨.date, "DATE"⟩, ofTokens ts) := rfl
  have hlength : 0 < (ofTokens ts).length := by
    cases ts with
    | nil => exact nomatch h
    | cons t ts => simp
  have hmany : many nextClause (ofTokens ts) = .ok ([clause], []) :=
    many_of_some (nextClause_of_clause h) hlength (many_of_none rfl)
  rw [readAll_eq_ok, columnDefinition, bind_of_ok hdate]
  exact (bind_of_ok hmany).trans rfl

/-- **A column is read clause by clause.** Tokens that are a type, followed by groups of tokens each
of which is a clause when it stands alone, are read as a column of that type with these clauses,
unless a clause goes on with words of the next one or a character type with a collation. -/
theorem columnDefinition_clauses (types : List Token) (type : TypeDecl)
    (groups : List (List Token × ColumnClause)) (ls : List Lexeme)
    (htype : readAll dataType (ofTokens types) = .ok type)
    (hgroups : ∀ g ∈ groups, IsClause g.1 g.2)
    (hcollation : type.takesCollation = true →
      ∀ g ∈ groups.head?, ∀ name, g.2 ≠ .collation name)
    (hchain : groups.IsChain fun g next => ¬ RunsOn g.1 g.2 next.2)
    (hls : tokens ls = types ++ (groups.map Prod.fst).flatten) :
    readAll columnDefinition ls = .ok ⟨type, groups.map Prod.snd⟩ := by
  obtain ⟨hmany, hfirst⟩ :=
    many_nextClause (fun g hg => columnClause_of_isClause (hgroups g hg)) hchain
  -- The type ends in front of the first clause.
  have hwords : LedOutside typeWords (ofTokens (groups.map Prod.fst).flatten) := by
    cases groups with
    | nil => exact .nil
    | cons g groups =>
      obtain ⟨rest, hclause⟩ := hfirst g rfl
      exact ledOutside_of_clause hclause (by decide)
  have hcollate : type.takesCollation = true →
      LedOutside ["COLLATE"] (ofTokens (groups.map Prod.fst).flatten) := by
    intro htakes
    cases groups with
    | nil => exact .nil
    | cons g groups =>
      obtain ⟨rest, hclause⟩ := hfirst g rfl
      exact ledOutside_collate hclause (hcollation htakes g rfl)
  have htype' := (dataType_appendsIf hwords _ type [] (readAll_eq_ok.1 htype) hcollate).2
  have hcolumn :
      columnDefinition (ofTokens (tokens ls)) = .ok (⟨type, groups.map Prod.snd⟩, []) := by
    rw [hls, ofTokens_append, columnDefinition, bind_of_ok htype', List.nil_append]
    exact (bind_of_ok hmany).trans rfl
  exact readAll_eq_ok.2
    ((columnDefinition_steady .textEnd).ok_of_tokens hcolumn (tokens_ofTokens _).symm)

/-- A column of a character type with three clauses. -/
theorem columnDefinition_clauses_varchar :
    readAll columnDefinition (ofTokens [.word none "VARCHAR", .symbol .openParen, .number "10",
      .symbol .closeParen, .word none "NOT", .word none "NULL", .word none "default",
      .literal .single "a", .word none "Unique", .word none "KEY"]) =
      .ok ⟨.string ⟨.varchar, "VARCHAR"⟩ false (some "(10)") false none none,
        [.nullability true, .default "'a'", .unique true]⟩ :=
  columnDefinition_clauses
    [.word none "VARCHAR", .symbol .openParen, .number "10", .symbol .closeParen] _
    [([.word none "NOT", .word none "NULL"], .nullability true),
      ([.word none "default", .literal .single "a"], .default "'a'"),
      ([.word none "Unique", .word none "KEY"], .unique true)] _
    rfl
    (by simp only [List.forall_mem_cons]; exact
      ⟨isClause_iff.2 rfl, isClause_iff.2 rfl, isClause_iff.2 rfl, nofun⟩)
    (by rintro - _ ⟨⟩ name ⟨⟩)
    (.cons_cons nofun (.cons_cons nofun (.singleton _)))
    rfl

end TableSchema.Grammar
