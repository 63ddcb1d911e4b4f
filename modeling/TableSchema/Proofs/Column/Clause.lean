import TableSchema.Proofs.Column.Steady
import TableSchema.Proofs.DataType.RoundTrip

/-!
# The clauses of a column

The tokens of a column are those of its type and then those of its clauses, clause by clause. A
`DEFAULT` clause is told from the others by its first word, and what stands behind that word is an
expression: `NULL`, a call, something in parentheses, or a constant, perhaps behind an operator.

## Main definitions

* `DefaultValue.Constant`, `DefaultValue.Expression`: the phrases that can stand behind `DEFAULT`;
* `ColumnClause.Written`: the tokens of a clause;
* `ColumnDecl.WrittenAs`: the tokens of a column, divided into those of its type and its clauses.

## Main results

* `ColumnDecl.exists_writtenAs`: a column that was read from a text is written there.
-/

namespace TableSchema

open Token

namespace DefaultValue

/-- String literals side by side, perhaps behind a character set, or another constant. -/
inductive Constant : List Token → Prop
  | strings {t : Token} {ts : List Token} (h : ∀ u ∈ t :: ts, u.IsString) : Constant (t :: ts)
  | introduced {i t : Token} {ts : List Token} (hi : Grammar.isIntroducer i = true)
      (ht : Grammar.isSingleQuoted t = true) (hts : ∀ u ∈ ts, u.IsString) : Constant (i :: t :: ts)
  | plain {t : Token} (h : Grammar.isPlainConstant t = true) : Constant [t]

/-- The words of functions that may be called. -/
def functionWords : List String :=
  ["CAST", "CURRENT_TIMESTAMP", "LOCALTIME", "LOCALTIMESTAMP", "NOW"]

/-- What can stand behind `DEFAULT`. Of calls and of what is in parentheses only the beginning is
looked at. -/
inductive Expression : List Token → Prop
  | null {t : Token} (h : (Terminal.keyword "NULL").accepts t = true) : Expression [t]
  | call {t : Token} {word : String} (hword : word ∈ functionWords) (h : t.IsWord word)
      (ts : List Token) : Expression (t :: ts)
  | parenthesized (ts : List Token) : Expression (.symbol .openParen :: ts)
  | signed {t : Token} {ts : List Token} (ht : Grammar.isUnaryOperator t = true) (h : Constant ts) :
    Expression (t :: ts)
  | constant {ts : List Token} (h : Constant ts) : Expression ts

end DefaultValue

/-- The text of the expression of a `DEFAULT` clause. -/
def ColumnClause.defaultText? : ColumnClause → Option String
  | default text => some text
  | _ => none

/-- What stands behind the word `DEFAULT`, if it is the first. -/
def defaultExpression? : List Token → Option (List Token)
  | [] => none
  | t :: ts => if (Terminal.keyword "DEFAULT").accepts t then some ts else none

/-- The tokens of a clause: the word `DEFAULT` and an expression, of which the text is kept, or
tokens that begin otherwise. -/
inductive ColumnClause.Written : List Token → ColumnClause → Prop
  | default {t : Token} {expression : List Token}
      (ht : (Terminal.keyword "DEFAULT").accepts t = true)
      (h : DefaultValue.Expression expression) :
    Written (t :: expression) (.default (Token.glue expression))
  | other {ts : List Token} {clause : ColumnClause} (hts : (Terminal.keyword "DEFAULT").Avoids ts)
      (hclause : clause.defaultText? = none) : Written ts clause

namespace Parser

open Lexeme

variable {α : Type} {ls rest : List Lexeme}

/-- A repetition takes a phrase for each of its values, one behind the other. -/
theorem many_takes {step : Parser (Option α)} {phrase : List Token → α → Prop}
    (hnone : ∀ ls rest, step ls = .ok (none, rest) → rest = ls)
    (hsome : ∀ ls a rest, step ls = .ok (some a, rest) →
      ∃ ts, tokens ls = ts ++ tokens rest ∧ phrase ts a)
    {as : List α} (h : many step ls = .ok (as, rest)) :
    ∃ groups, tokens ls = groups.flatten ++ tokens rest ∧ List.Forall₂ phrase groups as := by
  -- The induction is on how many lexemes are left, since each repetition takes some.
  induction hn : ls.length using Nat.strongRecOn generalizing ls as with
  | ind n ih =>
    obtain ⟨rfl, hstep⟩ | ⟨a, later, mid, rfl, hstep, hlt, hmany⟩ | ⟨a, rfl, hstep, -⟩ :=
      many_eq_ok h
    · rw [hnone ls rest hstep]
      exact ⟨[], rfl, .nil⟩
    · obtain ⟨ts, hts, hphrase⟩ := hsome ls a mid hstep
      obtain ⟨groups, hgroups, hphrases⟩ := ih mid.length (hn ▸ hlt) hmany rfl
      exact ⟨ts :: groups, by simp [hts, hgroups], .cons hphrase hphrases⟩
    · obtain ⟨ts, hts, hphrase⟩ := hsome ls a rest hstep
      exact ⟨[ts], by simpa using hts, .cons hphrase .nil⟩

/-- The tokens in front of what is left behind the first lexeme. -/
theorem takes_cons {l : Lexeme} (h : rest <:+ ls) :
    ∃ ts, tokens (l :: ls) = (l.token :: ts) ++ tokens rest := by
  obtain ⟨front, rfl⟩ := h
  exact ⟨tokens front, by simp⟩

end Parser

namespace Grammar

open TableSchema.Parser TableSchema.Parser.Seam TableSchema.Lexeme DefaultValue

variable {ls rest : List Lexeme} {l : Lexeme} {u : Unit}

/-! ## Expressions -/

/-- A constant, without what may introduce it. -/
def bareConstant : Parser Unit := do
  match ← token? Token.stringText? with
  | some _ => discard (tokenRun Token.stringText?)
  | none => discard (token .defaultValue (Option.guard isPlainConstant))

theorem constant_eq : constant = (do
    if ← introducerAhead then skip 1
    bareConstant) :=
  rfl

/-- A constant without an introducer is a run of strings or another constant. -/
theorem bareConstant_takes (h : bareConstant ls = .ok (u, rest)) :
    ∃ t ts, tokens ls = (t :: ts) ++ tokens rest ∧
      ((∀ u ∈ t :: ts, u.IsString) ∨ isPlainConstant t = true ∧ ts = []) := by
  obtain ⟨text?, mid, htext, h⟩ := bind_eq_ok.1 h
  obtain ⟨l, text, rfl, hl, rfl⟩ | ⟨rfl, rfl, -⟩ := token?_eq_ok.1 htext
  · obtain ⟨texts, hrun⟩ := discard_eq_ok.1 h
    obtain ⟨front, rfl, hfront, -⟩ := tokenRun_eq_ok.1 hrun
    have hstring : l.token.IsString := (stringText?_eq_some_iff.1 hl).1
    have hstrings : ∀ m ∈ front, m.token.IsString :=
      ((List.forall₂_and_left front texts).1 (hfront.imp fun _ _ hm =>
        ⟨(stringText?_eq_some_iff.1 hm).1, hm⟩)).1
    exact ⟨l.token, Lexeme.tokens front, by simp, .inl (List.forall_mem_cons.2
      ⟨hstring, List.forall_mem_map.2 hstrings⟩)⟩
  · obtain ⟨t, htoken⟩ := discard_eq_ok.1 h
    obtain ⟨l, rfl, hl⟩ := token_eq_ok.1 htoken
    obtain ⟨-, hplain⟩ := Option.guard_eq_some_iff.1 hl
    exact ⟨l.token, [], rfl, .inr ⟨hplain, rfl⟩⟩

/-- What is taken as a constant is one. -/
theorem constant_takes (h : constant ls = .ok (u, rest)) :
    ∃ ts, tokens ls = ts ++ tokens rest ∧ Constant ts := by
  rw [constant_eq] at h
  obtain ⟨introduced, mid, hahead, hbody⟩ := bind_eq_ok.1 h
  clear h
  obtain ⟨hintroduced, rfl⟩ := asks_eq_ok.1 hahead
  cases introduced with
  | false =>
    obtain ⟨t, ts, hts, hstrings | ⟨hplain, rfl⟩⟩ := bareConstant_takes hbody
    · exact ⟨t :: ts, hts, .strings hstrings⟩
    · exact ⟨[t], hts, .plain hplain⟩
  | true =>
    split at hintroduced
    · rename_i first second ls
      -- The introducer is skipped, and the literal behind it is the first one of the constant.
      obtain ⟨hfirst, hsecond⟩ := Bool.and_eq_true_iff.1 hintroduced
      obtain ⟨_, mid, hskip, h⟩ := bind_eq_ok.1 hbody
      obtain rfl : second :: ls = mid := by simpa [skip] using hskip
      obtain ⟨t, ts, hts, hconstant⟩ := bareConstant_takes h
      obtain ⟨rfl, hls⟩ := List.cons.inj hts
      have htokens : tokens ls = ts ++ tokens rest := hls
      refine ⟨first.token :: second.token :: ts, by simp [htokens], .introduced hfirst hsecond ?_⟩
      rcases hconstant with hstrings | ⟨-, rfl⟩
      · exact fun u hu => hstrings u (List.mem_cons_of_mem _ hu)
      · exact List.forall_mem_nil _
    · exact absurd hintroduced Bool.false_ne_true

/-- A parenthesis takes at least the token that opens it. -/
theorem parenthesized_suffix (h : parenthesized (l :: ls) = .ok (u, rest)) : rest <:+ ls := by
  obtain ⟨_, mid, hopen, hclose⟩ := bind_eq_ok.1 h
  obtain ⟨_, heq, -⟩ := expect_eq_ok.1 hopen
  obtain ⟨-, rfl⟩ := List.cons.inj heq
  split at hclose
  · rename_i closed hclosed
    obtain rfl : closed = rest := by simpa using hclose
    exact (closeParens_continues (s := textEnd) hclosed).1
  · exact nomatch hclose

/-- The function of the current time takes the word it begins with. -/
theorem currentTimestamp_suffix (h : currentTimestamp (l :: ls) = .ok (u, rest)) :
    rest <:+ ls := by
  obtain ⟨now, mid, hnow, h⟩ := bind_eq_ok.1 h
  obtain ⟨-, rfl⟩ := eatAll_eq_ok.1 hnow
  cases now with
  | true => exact (precision_steady textEnd ls trivial u rest h).1
  | false =>
    obtain ⟨word, mid, hword, h⟩ := bind_eq_ok.1 h
    obtain ⟨-, rfl⟩ := asks_eq_ok.1 hword
    cases word with
    | false => exact absurd h fail_eq_ok.1
    | true =>
      obtain ⟨_, mid, hskip, h⟩ := bind_eq_ok.1 h
      obtain rfl : ls = mid := by simpa [skip] using hskip
      have hsteady : textEnd.Steady (discard (ifAhead [.symbol .openParen] precision)) :=
        .discard (.ifAhead rfl (precision_steady textEnd))
      exact (hsteady ls trivial u rest h).1

/-- So does a default value that is the current time. -/
theorem timestampDefault_suffix (h : timestampDefault (l :: ls) = .ok (u, rest)) :
    rest <:+ ls := by
  obtain ⟨_, mid, hcurrent, h⟩ := bind_eq_ok.1 h
  have hsteady : textEnd.Steady (discard (after [.keyword "ON", .keyword "UPDATE"] currentTimestamp)) :=
    .discard (.after rfl (currentTimestamp_steady textEnd))
  exact ((hsteady mid trivial u rest h).1).trans (currentTimestamp_suffix hcurrent)

/-- What is chosen by its first words is an expression. -/
theorem defaultExpressions_takes {b : Branch Unit} (hb : b ∈ defaultExpressions)
    (hopens : Terminal.opens b.opener ls = true) (h : b.body ls = .ok (u, rest)) :
    ∃ ts, tokens ls = ts ++ tokens rest ∧ Expression ts := by
  -- Of a call only the name of the function counts; anything may stand behind it.
  have hcall : ∀ {word : String} {pattern : List Terminal}, word ∈ functionWords →
      Terminal.opens (.word word :: pattern) ls = true → rest <:+ ls.tail →
      ∃ ts, tokens ls = ts ++ tokens rest ∧ Expression ts := by
    intro word pattern hword hopens hrest
    obtain ⟨l, ls, rfl, hl, -⟩ := Terminal.opens_cons.1 hopens
    obtain ⟨ts, hts⟩ := takes_cons (l := l) hrest
    exact ⟨l.token :: ts, hts, .call hword (isWord_iff.2 hl) ts⟩
  have htimestamp : ∀ {word : String} {pattern : List Terminal}, word ∈ functionWords →
      Terminal.opens (.word word :: pattern) ls = true →
      timestampDefault ls = .ok (u, rest) → ∃ ts, tokens ls = ts ++ tokens rest ∧ Expression ts := by
    intro word pattern hword hopens hbody
    refine hcall hword hopens ?_
    obtain ⟨l, ls, rfl, -⟩ := Terminal.opens_cons.1 hopens
    exact timestampDefault_suffix hbody
  simp only [defaultExpressions, List.mem_cons, List.not_mem_nil, or_false] at hb
  rcases hb with rfl | rfl | rfl | rfl | rfl | rfl | rfl
  · obtain ⟨l, ls, rfl, hl, -⟩ := Terminal.opens_cons.1 hopens
    obtain ⟨-, rfl⟩ : u = () ∧ ls = rest := by simpa [Branch.behind, skip] using h
    exact ⟨[l.token], rfl, .null hl⟩
  · refine hcall (by decide) hopens ?_
    obtain ⟨_, mid, hskip, h⟩ := bind_eq_ok.1 h
    obtain rfl : ls.drop 1 = mid := by simpa [skip] using hskip
    rw [← List.drop_one]
    exact (Steady.parenthesized (s := textEnd) _ trivial u rest h).1
  · obtain ⟨l, ls, rfl, hl, -⟩ := Terminal.opens_cons.1 hopens
    obtain ⟨ts, hts⟩ := takes_cons (l := l) (parenthesized_suffix h)
    have hparen : l.token = .symbol .openParen := by simpa [Terminal.accepts] using hl
    exact ⟨l.token :: ts, hts, hparen ▸ .parenthesized ts⟩
  · exact htimestamp (by decide) hopens h
  · exact htimestamp (by decide) hopens h
  · exact htimestamp (by decide) hopens h
  · exact htimestamp (by decide) hopens h

/-- What is taken behind `DEFAULT` is an expression. -/
theorem defaultValue_takes (h : defaultValue ls = .ok (u, rest)) :
    ∃ ts, tokens ls = ts ++ tokens rest ∧ Expression ts := by
  obtain ⟨found?, mid, hchoice, h⟩ := bind_eq_ok.1 h
  obtain ⟨b, hb, hopens, _, hbody, rfl⟩ | ⟨rfl, rfl, -⟩ := choose?_eq_ok hchoice
  · obtain ⟨-, rfl⟩ := pure_eq_ok.1 h
    exact defaultExpressions_takes hb hopens hbody
  · obtain ⟨_, mid, hoperator, h⟩ := bind_eq_ok.1 h
    obtain ⟨operator?, hoperator⟩ := discard_eq_ok.1 hoperator
    obtain ⟨ts, hts, hconstant⟩ := constant_takes h
    obtain ⟨l, _, rfl, hl, -⟩ | ⟨-, rfl, -⟩ := token?_eq_ok.1 hoperator
    · obtain ⟨-, hsign⟩ := Option.guard_eq_some_iff.1 hl
      exact ⟨l.token :: ts, by simp [hts], .signed hsign hconstant⟩
    · exact ⟨ts, hts, .constant hconstant⟩

/-! ## Clauses -/

/-- A clause of another kind: it begins with another word than `DEFAULT`, and what it gives has no
expression. -/
structure IsOther (b : Branch ColumnClause) : Prop where
  opener : ∃ word, word ≠ "DEFAULT" ∧ Text.IsSpelling word ∧
    (b.opener.head? = some (.keyword word) ∨ b.opener.head? = some (.word word))
  body : GivesOnly b.body (·.defaultText? = none)

/-- The clause that gives a default value. -/
def defaultBranch : Branch ColumnClause :=
  .behind [.keyword "DEFAULT"] (return .default (← glued defaultValue))

theorem columnCheck_givesOnly : GivesOnly columnCheck (·.defaultText? = none) := by
  have hend : ∀ name, GivesOnly (do
      expect (.keyword "CHECK")
      return ColumnClause.check name (← glued parenthesized)) (·.defaultText? = none) :=
    fun name => .bind fun _ => .bind fun _ => .pure rfl
  refine .bind fun named => .ite ?_ (.bind hend)
  exact .bind fun bare => .ite (.bind hend) (.bind hend)

/-- All clauses but one are of another kind. -/
theorem columnClauses_cases : ∀ b ∈ columnClauses, b = defaultBranch ∨ IsOther b := by
  have hkeyword : ∀ {word : String} {more : List Terminal} {body : Parser ColumnClause},
      word ≠ "DEFAULT" ∧ Text.IsSpelling word → GivesOnly body (·.defaultText? = none) →
      IsOther ⟨.keyword word :: more, body⟩ := fun hword hbody =>
    ⟨⟨_, hword.1, hword.2, .inl rfl⟩, hbody⟩
  have hword : ∀ {word : String} {more : List Terminal} {body : Parser ColumnClause},
      word ≠ "DEFAULT" ∧ Text.IsSpelling word → GivesOnly body (·.defaultText? = none) →
      IsOther ⟨.word word :: more, body⟩ := fun hword hbody =>
    ⟨⟨_, hword.1, hword.2, .inr rfl⟩, hbody⟩
  unfold columnClauses
  simp only [List.forall_mem_cons]
  refine ⟨.inr ?notNull, .inr ?null, .inl rfl, .inr ?visible, .inr ?invisible, .inr ?increment,
    .inr ?onUpdate, .inr ?primary, .inr ?key, .inr ?unique, .inr ?comment, .inr ?format,
    .inr ?storage, .inr ?references, .inr ?collate, .inr ?generated, .inr ?as, .inr ?serial,
    .inr ?constraint, .inr ?check, nofun⟩
  case notNull => exact hkeyword (by decide) (.bind fun _ => .bind fun _ => .pure rfl)
  case null => exact hkeyword (by decide) (.bind fun _ => .pure rfl)
  case visible => exact hword (by decide) (.bind fun _ => .pure rfl)
  case invisible => exact hword (by decide) (.bind fun _ => .pure rfl)
  case increment => exact hword (by decide) (.bind fun _ => .pure rfl)
  case onUpdate => exact hkeyword (by decide) (.bind fun _ => .bind fun _ => .pure rfl)
  case primary => exact hkeyword (by decide) (.bind fun _ => .bind fun _ => .pure rfl)
  case key => exact hkeyword (by decide) (.bind fun _ => .pure rfl)
  case unique => exact hkeyword (by decide) (.bind fun _ => .bind fun _ => .pure rfl)
  case comment => exact hkeyword (by decide) (.bind fun _ => .bind fun _ => .pure rfl)
  case format => exact hword (by decide) (.bind fun _ => .bind fun _ => .pure rfl)
  case storage => exact hword (by decide) (.bind fun _ => .bind fun _ => .pure rfl)
  case references => exact hkeyword (by decide) (.bind fun _ => .pure rfl)
  case collate => exact hkeyword (by decide) (.bind fun _ => .bind fun _ => .pure rfl)
  case generated => exact hword (by decide) (.bind fun _ => .pure rfl)
  case as => exact hkeyword (by decide) (.bind fun _ => .pure rfl)
  case serial => exact hword (by decide) (.bind fun _ => .bind fun _ => .bind fun _ => .pure rfl)
  case constraint => exact hkeyword (by decide) columnCheck_givesOnly
  case check => exact hkeyword (by decide) columnCheck_givesOnly

/-- A clause of another kind does not begin with `DEFAULT`. -/
theorem IsOther.avoids {b : Branch ColumnClause} (hb : IsOther b)
    (hopens : Terminal.opens b.opener ls = true) :
    (Terminal.keyword "DEFAULT").Avoids (tokens ls) := by
  obtain ⟨word, hne, hspelling, hhead⟩ := hb.opener
  obtain ⟨o, more, hopener⟩ : ∃ o more, b.opener = o :: more := by
    cases hopener : b.opener with
    | nil => simp [hopener] at hhead
    | cons o more => exact ⟨o, more, rfl⟩
  rw [hopener] at hopens hhead
  obtain ⟨l, ls, rfl, hl, -⟩ := Terminal.opens_cons.1 hopens
  have hword : (Terminal.keyword word).accepts l.token = true := by
    rcases hhead with hhead | hhead
    · obtain rfl := Option.some.inj hhead
      exact hl
    · obtain rfl := Option.some.inj hhead
      exact Terminal.keyword_accepts_of_word hspelling hl
  rintro t ⟨⟩
  exact Terminal.keyword_accepts_other hword hne

/-- A clause is written with the tokens that are taken. -/
theorem columnClause_takes {clause : ColumnClause} (h : columnClause ls = .ok (clause, rest)) :
    ∃ ts, tokens ls = ts ++ tokens rest ∧ clause.Written ts := by
  obtain ⟨b, hb, hopens, hbody⟩ := choose_eq_ok h
  rcases columnClauses_cases b hb with rfl | hother
  · obtain ⟨l, ls, rfl, hl, -⟩ := Terminal.opens_cons.1 hopens
    obtain ⟨_, mid, hskip, h⟩ := bind_eq_ok.1 hbody
    obtain rfl : ls = mid := by simpa [skip] using hskip
    obtain ⟨text, mid, htext, h⟩ := bind_eq_ok.1 h
    obtain ⟨rfl, rfl⟩ := pure_eq_ok.1 h
    obtain ⟨taken, mid, htaken, h⟩ := bind_eq_ok.1 htext
    obtain ⟨rfl, rfl⟩ := pure_eq_ok.1 h
    have hvalue := (taken_eq_ok.1 htaken).1
    obtain ⟨ts, hts, hexpression⟩ := defaultValue_takes hvalue
    -- The text is that of the tokens that were taken, which are the expression.
    obtain ⟨heq, -⟩ := Prod.mk.inj (Except.ok.inj (htext.symm.trans (glued_of_ok hvalue hts)))
    rw [heq]
    exact ⟨l.token :: ts, by simp [hts], .default hl hexpression⟩
  · obtain ⟨front, rfl⟩ := (columnClause_steady textEnd ls trivial clause rest h).1
    refine ⟨tokens front, tokens_append front rest, .other ?_ (hother.body _ clause rest hbody)⟩
    have havoids := hother.avoids hopens
    intro t ht
    exact havoids t (by rw [tokens_append]; exact List.mem_head?_append_of_mem_head? ht)

/-- What is read of a column behind its type, as often as there are clauses. -/
def nextClause : Parser (Option ColumnClause) := do
  if ← asks isColumnEnd then return none else return some (← columnClause)

/-- The next clause is read, or the column ends and nothing is taken. -/
theorem of_nextClause {clause? : Option ColumnClause} (h : nextClause ls = .ok (clause?, rest)) :
    (clause? = none ∧ rest = ls) ∨
      ∃ clause, clause? = some clause ∧ columnClause ls = .ok (clause, rest) := by
  obtain ⟨ends, _, hends, h⟩ := bind_eq_ok.1 h
  obtain ⟨-, rfl⟩ := asks_eq_ok.1 hends
  cases ends with
  | true =>
    obtain ⟨rfl, rfl⟩ := pure_eq_ok.1 h
    exact .inl ⟨rfl, rfl⟩
  | false =>
    obtain ⟨clause, hclause, rfl⟩ := map_eq_ok.1 h
    exact .inr ⟨clause, rfl, hclause⟩

/-- A column is written with the tokens that are taken: those of its type and those of its clauses. -/
theorem columnDefinition_takes {decl : ColumnDecl} (h : columnDefinition ls = .ok (decl, rest)) :
    ∃ types clauses, tokens ls = types ++ (clauses.flatten ++ tokens rest) ∧
      TypeDecl.Form types decl.type ∧ List.Forall₂ ColumnClause.Written clauses decl.clauses := by
  obtain ⟨type, mid, htype, h⟩ := bind_eq_ok.1 h
  obtain ⟨parsed, mid', hmany, h⟩ := bind_eq_ok.1 h
  obtain ⟨rfl, rfl⟩ := pure_eq_ok.1 h
  obtain ⟨types, htypes, hform⟩ := dataType_takesForm htype
  obtain ⟨clauses, hclauses, hwritten⟩ : ∃ clauses, tokens mid = clauses.flatten ++ tokens mid' ∧
      List.Forall₂ ColumnClause.Written clauses parsed := by
    refine many_takes (fun ls rest hstep => ?_) (fun ls clause rest hstep => ?_) hmany
    · obtain ⟨-, hrest⟩ | ⟨clause, hsome, -⟩ := of_nextClause hstep
      · exact hrest
      · exact nomatch hsome
    · obtain ⟨hnone, -⟩ | ⟨_, hsome, hclause⟩ := of_nextClause hstep
      · exact nomatch hnone
      · exact Option.some.inj hsome ▸ columnClause_takes hclause
  exact ⟨types, clauses, by rw [htypes, hclauses], hform, hwritten⟩

/-! ## A string literal as default value -/

/-- A clause that gives a string literal as default value is read so. -/
theorem columnClause_default {t : Token} (ht : t.IsString) (p q p' q' : Position) :
    columnClause [⟨.word none "DEFAULT", p, q⟩, ⟨t, p', q'⟩] = .ok (.default (Token.glue [t]), []) := by
  obtain ⟨kind, hkind, body, rfl⟩ := ht
  simp only [List.mem_cons, List.not_mem_nil, or_false] at hkind
  rcases hkind with rfl | rfl | rfl <;> rfl

/-- A column `INT` with a string literal as default value is read so. -/
theorem columnDefinition_default {t : Token} (ht : t.IsString) {ls : List Lexeme}
    (hls : Lexeme.tokens ls = [.word none "INT", .word none "DEFAULT", t]) :
    columnDefinition ls =
      .ok (⟨.measured ⟨.int, "INT"⟩ none [], [.default (Token.glue [t])]⟩, []) := by
  obtain ⟨⟨_, p₁, q₁⟩, _, rfl, rfl, hmid⟩ := Lexeme.tokens_eq_cons.1 hls
  obtain ⟨⟨_, p₂, q₂⟩, _, rfl, rfl, hrest⟩ := Lexeme.tokens_eq_cons.1 hmid
  obtain ⟨⟨u, p₃, q₃⟩, tail, rfl, hu, htail⟩ := Lexeme.tokens_eq_cons.1 hrest
  obtain rfl : u = t := hu
  obtain rfl : tail = [] := by simpa [Lexeme.tokens] using htail
  have htype : dataType [⟨.word none "INT", p₁, q₁⟩, ⟨.word none "DEFAULT", p₂, q₂⟩, ⟨u, p₃, q₃⟩] =
      .ok (.measured ⟨.int, "INT"⟩ none [], [⟨.word none "DEFAULT", p₂, q₂⟩, ⟨u, p₃, q₃⟩]) := rfl
  have hclause := columnClause_default ht p₂ q₂ p₃ q₃
  have hstep : (do if ← asks isColumnEnd then return none else return some (← columnClause))
      [⟨.word none "DEFAULT", p₂, q₂⟩, ⟨u, p₃, q₃⟩] =
        .ok (some (ColumnClause.default (Token.glue [u])), []) := by
    have hend : asks isColumnEnd [⟨.word none "DEFAULT", p₂, q₂⟩, ⟨u, p₃, q₃⟩] = .ok (false, _) := rfl
    rw [bind_of_ok hend]
    exact map_eq_ok.2 ⟨_, hclause, rfl⟩
  rw [columnDefinition, bind_of_ok htype,
    bind_of_ok (many_of_some hstep (Nat.succ_pos _) (many_of_none rfl))]
  rfl

end Grammar

/-- The column is written in the text with the tokens of its type and then those of its clauses. -/
structure ColumnDecl.WrittenAs (decl : ColumnDecl) (text : String) (types : List Token)
    (clauses : List (List Token)) : Prop where
  /-- The text has these tokens, one behind the other. -/
  tokens : ∃ ls, Lexeme.ofString text = .ok ls ∧ Lexeme.tokens ls = types ++ clauses.flatten
  /-- The first of them are a form of the type. -/
  type : TypeDecl.Form types decl.type
  /-- The others are the clauses, in order. -/
  clauses : List.Forall₂ ColumnClause.Written clauses decl.clauses

namespace ColumnDecl

variable {decl : ColumnDecl} {text : String}

/-- A column that was read from a text is written there. -/
theorem exists_writtenAs (h : ColumnDecl.parse text = .ok decl) :
    ∃ types clauses, decl.WrittenAs text types clauses := by
  obtain ⟨ls, hls, hdecl⟩ := Parser.readString_eq_ok.1 h
  obtain ⟨types, clauses, htokens, htype, hclauses⟩ := Grammar.columnDefinition_takes hdecl
  exact ⟨types, clauses, ⟨ls, hls, by simpa using htokens⟩, htype, hclauses⟩

variable {types : List Token} {clauses : List (List Token)}

/-- The tokens of a clause were read. -/
theorem WrittenAs.legible (h : decl.WrittenAs text types clauses) :
    ∀ ts ∈ clauses, ∀ t ∈ ts, t.Legible := by
  obtain ⟨ls, hls, htokens⟩ := h.tokens
  intro ts hts t ht
  have hmem : t ∈ Lexeme.tokens ls := by
    rw [htokens]
    exact List.mem_append_right types (List.mem_flatten.2 ⟨ts, hts, ht⟩)
  obtain ⟨l, hl, rfl⟩ := List.mem_map.1 hmem
  exact Token.legible_of_ofString hls l hl

/-- A column `INT` with a string literal as default value, read from a text. -/
theorem parse_default {t : Token} (ht : t.IsString) (hread : t.ReadsBefore []) :
    ColumnDecl.parse ("INT DEFAULT " ++ t.text) =
        .ok ⟨.measured ⟨.int, "INT"⟩ none [], [.default (Token.glue [t])]⟩ ∧
      (⟨.measured ⟨.int, "INT"⟩ none [], [.default (Token.glue [t])]⟩ : ColumnDecl).WrittenAs
        ("INT DEFAULT " ++ t.text) [.word none "INT"] [[.word none "DEFAULT", t]] := by
  -- The text is written from its end, where each token is read back in front of the next.
  have hliteral : Follows [.blank, t] := .cons .blank ⟨hread, trivial⟩
  have hdefault : Follows (.blank :: .word none "DEFAULT" :: _) :=
    .cons .blank (hliteral.readsBack_word (by decide))
  have htype : ReadsBack (.word none "INT" :: _) := hdefault.readsBack_word (by decide)
  have hne : t ≠ .blank := by
    obtain ⟨kind, -, body, rfl⟩ := ht
    exact nofun
  have htext : ("INT DEFAULT " ++ t.text).toList =
      Token.chars [.word none "INT", .blank, .word none "DEFAULT", .blank, t] := by
    simp [written_of_ne_blank hne]
  obtain ⟨ls, hls, htokens⟩ := htype.lexemes htext
  have hfilter : Lexeme.tokens ls = [.word none "INT", .word none "DEFAULT", t] := by
    rw [htokens]
    simp [hne]
  have hname : (TypeName.mk .int "INT").Names (.word none "INT") := ⟨rfl, by decide⟩
  have hint : TypeDecl.Form [.word none "INT"] (.measured ⟨.int, "INT"⟩ none []) :=
    .integer hname rfl .absent .nil
  refine ⟨Parser.readString_eq_ok.2 ⟨ls, hls, Grammar.columnDefinition_default ht hfilter⟩, ?_⟩
  have hexpression : DefaultValue.Expression [t] :=
    .constant (.strings (List.forall_mem_singleton.2 ht))
  exact ⟨⟨ls, hls, hfilter⟩, hint, .cons (.default rfl hexpression) .nil⟩

end ColumnDecl

end TableSchema
