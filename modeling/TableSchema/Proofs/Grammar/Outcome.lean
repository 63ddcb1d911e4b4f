import Mathlib.Data.List.Forall2
import TableSchema.Error

/-!
# Outcomes of parsers

What a parser gives when it succeeds, said of each way of putting parsers together. A sequence
succeeds when its parts do, one on what the other leaves; the tests take nothing; a demand takes the
lexeme that it finds.
-/

namespace TableSchema.Parser

variable {α β : Type}

/-- A sequence succeeds when its parts do, the second on what the first leaves. -/
theorem bind_eq_ok {p : Parser α} {f : α → Parser β} {ls rest : List Lexeme} {b : β} :
    (p >>= f) ls = .ok (b, rest) ↔ ∃ a mid, p ls = .ok (a, mid) ∧ f a mid = .ok (b, rest) := by
  change (p ls >>= fun r => f r.1 r.2) = _ ↔ _
  cases p ls with
  | error e => simp [bind, Except.bind]
  | ok r =>
    obtain ⟨a, mid⟩ := r
    constructor
    · exact fun h => ⟨a, mid, rfl, h⟩
    · rintro ⟨_, _, hr, h⟩
      cases hr
      exact h

/-- The outcome of a sequence whose first part succeeds is that of the second. -/
theorem bind_of_ok {p : Parser α} {f : α → Parser β} {ls mid : List Lexeme} {a : α}
    (h : p ls = .ok (a, mid)) : (p >>= f) ls = f a mid := by
  change (p ls >>= fun r => f r.1 r.2) = _
  rw [h]
  rfl

/-- A sequence fails when its first part does. -/
theorem bind_of_error {p : Parser α} {f : α → Parser β} {ls : List Lexeme} {e : Failure}
    (h : p ls = .error e) : (p >>= f) ls = .error e := by
  change (p ls >>= fun r => f r.1 r.2) = _
  rw [h]
  rfl

@[simp]
theorem pure_eq_ok {a b : α} {ls rest : List Lexeme} :
    (pure a : Parser α) ls = .ok (b, rest) ↔ a = b ∧ ls = rest := by
  change Except.ok (a, ls) = .ok (b, rest) ↔ _
  simp

@[simp]
theorem fail_eq_ok {e : Expected} {b : α} {ls rest : List Lexeme} :
    (fail e : Parser α) ls = .ok (b, rest) ↔ False := by
  simp [fail]

@[simp]
theorem asks_eq_ok {question : List Lexeme → Bool} {b : Bool} {ls rest : List Lexeme} :
    asks question ls = .ok (b, rest) ↔ question ls = b ∧ ls = rest := by
  simp [asks]

@[simp]
theorem get_eq_ok {ls ls' rest : List Lexeme} :
    (get : Parser (List Lexeme)) ls = .ok (ls', rest) ↔ ls = ls' ∧ ls = rest := by
  change Except.ok (ls, ls) = .ok (ls', rest) ↔ _
  simp

/-- A question is answered, and nothing is taken. -/
theorem asks_ok (question : List Lexeme → Bool) (ls : List Lexeme) :
    asks question ls = .ok (question ls, ls) := rfl

/-- Taking a pattern tells whether it was there. -/
theorem eatAll_eq_ok {pattern : List Terminal} {ls rest : List Lexeme} {b : Bool} :
    eatAll pattern ls = .ok (b, rest) ↔
      Terminal.opens pattern ls = b ∧ rest = if b then ls.drop pattern.length else ls := by
  unfold eatAll
  cases Terminal.opens pattern ls <;> cases b <;> simp [eq_comm]

/-- A demanded terminal is the first one. -/
theorem expect_eq_ok {t : Terminal} {ls rest : List Lexeme} {u : Unit} :
    expect t ls = .ok (u, rest) ↔ ∃ l, ls = l :: rest ∧ t.accepts l.token = true := by
  unfold expect eat
  rw [bind_eq_ok]
  constructor
  · rintro ⟨b, mid, hb, h⟩
    obtain ⟨hopens, rfl⟩ := eatAll_eq_ok.1 hb
    -- Without the terminal the parser fails; with it there is a first lexeme to take.
    cases b with
    | false => simp at h
    | true =>
      cases ls with
      | nil => simp [Terminal.opens] at hopens
      | cons l ls =>
        simp only [if_true, List.length_cons, List.length_nil, List.drop_succ_cons, List.drop_zero,
          pure_eq_ok] at h
        exact ⟨l, by rw [h.2], by simpa [Terminal.opens] using hopens⟩
  · rintro ⟨l, rfl, hl⟩
    exact ⟨true, rest, eatAll_eq_ok.2 ⟨by simp [Terminal.opens, hl], rfl⟩, by simp⟩

/-- A demanded terminal that comes next is taken. -/
theorem expect_cons {t : Terminal} {l : Lexeme} {ls : List Lexeme}
    (h : t.accepts l.token = true) : expect t (l :: ls) = .ok ((), ls) :=
  expect_eq_ok.2 ⟨l, rfl, h⟩

/-- A demanded terminal that does not come next is missed where it should stand. -/
theorem expect_of_not_opens {t : Terminal} {ls : List Lexeme} (h : Terminal.opens [t] ls = false) :
    expect t ls = .error ⟨.terminal t, ls⟩ := by
  have heat : eat t ls = .ok (false, ls) := eatAll_eq_ok.2 ⟨h, rfl⟩
  rw [expect, bind_of_ok heat]
  rfl

/-- A terminal that comes next is taken. -/
theorem eat_cons {t : Terminal} {l : Lexeme} {ls : List Lexeme} (h : t.accepts l.token = true) :
    eat t (l :: ls) = .ok (true, ls) :=
  eatAll_eq_ok.2 ⟨by simp [Terminal.opens, h], rfl⟩

/-- Another token than a terminal is not taken for it. -/
theorem eat_cons_other {t : Terminal} {l : Lexeme} {ls : List Lexeme}
    (h : t.accepts l.token = false) : eat t (l :: ls) = .ok (false, l :: ls) :=
  eatAll_eq_ok.2 ⟨by simp [Terminal.opens, h], rfl⟩

/-- A token that is looked for is the first one, if it has a value. -/
theorem token?_eq_ok {value : Token → Option α} {ls rest : List Lexeme} {a? : Option α} :
    token? value ls = .ok (a?, rest) ↔
      (∃ l a, ls = l :: rest ∧ value l.token = some a ∧ a? = some a) ∨
        (a? = none ∧ ls = rest ∧ ∀ l ∈ ls.head?, value l.token = none) := by
  unfold token?
  cases ls with
  | nil => simp [eq_comm]
  | cons l ls =>
    -- The first token alone decides which of the two it is.
    cases h : value l.token with
    | none => simp [h, eq_comm]
    | some a =>
      simp only [h, Except.ok.injEq, Prod.mk.injEq]
      constructor
      · rintro ⟨rfl, rfl⟩
        exact .inl ⟨l, a, rfl, h, rfl⟩
      · rintro (⟨l', a', heq, ha', rfl⟩ | ⟨-, -, hnone⟩)
        · obtain ⟨rfl, rfl⟩ := List.cons.inj heq
          exact ⟨h.symm.trans ha', rfl⟩
        · simp [h] at hnone

/-- A token that has a value is taken. -/
theorem token?_cons {value : Token → Option α} {l : Lexeme} {ls : List Lexeme} {a : α}
    (h : value l.token = some a) : token? value (l :: ls) = .ok (some a, ls) :=
  token?_eq_ok.2 (.inl ⟨l, a, rfl, h, rfl⟩)

/-- A token without a value is left. -/
theorem token?_of_none {value : Token → Option α} {ls : List Lexeme}
    (h : ∀ l ∈ ls.head?, value l.token = none) : token? value ls = .ok (none, ls) :=
  token?_eq_ok.2 (.inr ⟨rfl, rfl, h⟩)

/-- A token that is looked for is never missed. -/
theorem exists_token?_eq_ok (value : Token → Option α) (ls : List Lexeme) :
    ∃ r, token? value ls = .ok r := by
  unfold token?
  split
  · exact ⟨_, rfl⟩
  · split <;> exact ⟨_, rfl⟩

/-- A demanded token is the first one. -/
theorem token_eq_ok {e : Expected} {value : Token → Option α} {ls rest : List Lexeme} {a : α} :
    token e value ls = .ok (a, rest) ↔ ∃ l, ls = l :: rest ∧ value l.token = some a := by
  unfold token
  rw [bind_eq_ok]
  constructor
  · rintro ⟨a?, mid, ha, h⟩
    obtain ⟨l, b, rfl, hl, rfl⟩ | ⟨rfl, -, -⟩ := token?_eq_ok.1 ha
    · obtain ⟨rfl, rfl⟩ := pure_eq_ok.1 h
      exact ⟨l, rfl, hl⟩
    · simp at h
  · rintro ⟨l, rfl, hl⟩
    exact ⟨some a, rest, token?_eq_ok.2 (.inl ⟨l, a, rfl, hl, rfl⟩), by simp⟩

/-- A demanded token is missed where it should stand. -/
theorem token_eq_error {e : Expected} {value : Token → Option α} {ls : List Lexeme} {f : Failure}
    (h : token e value ls = .error f) : f = ⟨e, ls⟩ := by
  obtain ⟨⟨a?, rest⟩, hvalue⟩ := exists_token?_eq_ok value ls
  rw [token, bind_of_ok hvalue] at h
  obtain ⟨l, a, rfl, -, rfl⟩ | ⟨rfl, rfl, -⟩ := token?_eq_ok.1 hvalue
  · cases h
  · exact (Except.error.inj h).symm

/-- The result of a parser is left out. -/
theorem discard_eq_ok {p : Parser α} {ls rest : List Lexeme} {u : Unit} :
    discard p ls = .ok (u, rest) ↔ ∃ a, p ls = .ok (a, rest) := by
  change (p >>= fun _ => pure ()) ls = .ok (u, rest) ↔ _
  rw [bind_eq_ok]
  simp

/-- A parser whose result is left out takes what it took. -/
theorem discard_of_ok {p : Parser α} {ls rest : List Lexeme} {a : α} (h : p ls = .ok (a, rest)) :
    discard p ls = .ok ((), rest) :=
  discard_eq_ok.2 ⟨a, h⟩

/-- A result that is left out is not needed behind the parser. -/
theorem discard_bind (p : Parser α) (q : Parser β) :
    (discard p >>= fun _ => q) = p >>= fun _ => q := by
  change ((p >>= fun _ => pure ()) >>= fun _ => q) = _
  rw [bind_assoc]
  rfl

/-- A function of the result of a parser. -/
theorem map_eq_ok {p : Parser α} {f : α → β} {ls rest : List Lexeme} {b : β} :
    (f <$> p) ls = .ok (b, rest) ↔ ∃ a, p ls = .ok (a, rest) ∧ f a = b := by
  change (p >>= fun a => pure (f a)) ls = .ok (b, rest) ↔ _
  rw [bind_eq_ok]
  constructor
  · rintro ⟨a, mid, hp, h⟩
    obtain ⟨rfl, rfl⟩ := pure_eq_ok.1 h
    exact ⟨a, hp, rfl⟩
  · rintro ⟨a, hp, rfl⟩
    exact ⟨a, rest, hp, pure_eq_ok.2 ⟨rfl, rfl⟩⟩

/-- A function of the result changes no failure. -/
theorem map_eq_error {p : Parser α} {g : α → β} {ls : List Lexeme} {f : Failure} :
    (g <$> p) ls = .error f ↔ p ls = .error f := by
  change (p >>= fun a => pure (g a)) ls = .error f ↔ _
  cases h : p ls with
  | error e =>
    rw [bind_of_error h]
    simp
  | ok r =>
    rw [bind_of_ok h]
    exact iff_of_false nofun nofun

/-- A parser that depends on a pattern is run exactly if the pattern comes next. -/
theorem ifAhead_eq_ok {pattern : List Terminal} {p : Parser α} {ls rest : List Lexeme}
    {a? : Option α} :
    ifAhead pattern p ls = .ok (a?, rest) ↔
      (Terminal.opens pattern ls = true ∧ ∃ a, p ls = .ok (a, rest) ∧ a? = some a) ∨
        (Terminal.opens pattern ls = false ∧ a? = none ∧ ls = rest) := by
  unfold ifAhead ahead
  rw [bind_of_ok (asks_ok _ _)]
  cases Terminal.opens pattern ls with
  | false =>
    change (pure none : Parser (Option α)) ls = .ok (a?, rest) ↔ _
    rw [pure_eq_ok, @eq_comm _ none]
    simp
  | true =>
    change (some <$> p) ls = .ok (a?, rest) ↔ _
    rw [map_eq_ok]
    simp [eq_comm]

/-- A parser after a pattern is run exactly if the pattern comes next. -/
theorem after_eq_ok {pattern : List Terminal} {p : Parser α} {ls rest : List Lexeme}
    {a? : Option α} :
    after pattern p ls = .ok (a?, rest) ↔
      (Terminal.opens pattern ls = true ∧
          ∃ a, p (ls.drop pattern.length) = .ok (a, rest) ∧ a? = some a) ∨
        (Terminal.opens pattern ls = false ∧ a? = none ∧ ls = rest) := by
  unfold after
  cases h : Terminal.opens pattern ls with
  | false =>
    rw [bind_of_ok (eatAll_eq_ok.2 ⟨h, rfl⟩)]
    change (pure none : Parser (Option α)) ls = .ok (a?, rest) ↔ _
    rw [pure_eq_ok, @eq_comm _ none]
    simp
  | true =>
    rw [bind_of_ok (eatAll_eq_ok.2 ⟨h, rfl⟩)]
    change (some <$> p) (ls.drop pattern.length) = .ok (a?, rest) ↔ _
    rw [map_eq_ok]
    simp [eq_comm]

/-- The tokens that a parser takes are those before what it leaves. -/
theorem taken_eq_ok {p : Parser Unit} {ls rest : List Lexeme} {ts : List Token} :
    taken p ls = .ok (ts, rest) ↔
      p ls = .ok ((), rest) ∧ ts = Lexeme.tokens (ls.take (ls.length - rest.length)) := by
  unfold taken
  cases p ls with
  | error e => simp
  | ok r =>
    obtain ⟨⟨⟩, mid⟩ := r
    constructor
    · intro h
      cases h
      exact ⟨rfl, rfl⟩
    · rintro ⟨h, rfl⟩
      cases h
      rfl

/-- The text of a parser is that of the tokens before what it leaves. -/
theorem glued_of_ok {p : Parser Unit} {ls rest : List Lexeme} {ts : List Token}
    (h : p ls = .ok ((), rest)) (hts : Lexeme.tokens ls = ts ++ Lexeme.tokens rest) :
    glued p ls = .ok (Token.glue ts, rest) := by
  -- How many tokens were taken is seen from how many are left.
  have hlength : ls.length - rest.length = ts.length := by
    have := congrArg List.length hts
    simp [Lexeme.tokens] at this
    omega
  have htake : Lexeme.tokens (ls.take (ls.length - rest.length)) = ts := by
    rw [hlength, Lexeme.tokens, List.map_take]
    exact (congrArg (List.take ts.length) hts).trans List.take_left
  rw [glued, bind_of_ok (taken_eq_ok.2 ⟨h, rfl⟩), htake]
  rfl

/-- The text of the parser is that of the tokens it takes. -/
theorem glued_eq_ok {p : Parser Unit} {ls rest : List Lexeme} {text : String} :
    glued p ls = .ok (text, rest) ↔ p ls = .ok ((), rest) ∧
      text = Token.glue (Lexeme.tokens (ls.take (ls.length - rest.length))) := by
  unfold glued
  rw [bind_eq_ok]
  constructor
  · rintro ⟨ts, mid, htaken, htext⟩
    obtain ⟨rfl, rfl⟩ := pure_eq_ok.1 htext
    obtain ⟨hp, rfl⟩ := taken_eq_ok.1 htaken
    exact ⟨hp, rfl⟩
  · rintro ⟨hp, rfl⟩
    exact ⟨_, rest, taken_eq_ok.2 ⟨hp, rfl⟩, pure_eq_ok.2 ⟨rfl, rfl⟩⟩

/-- A text fails where its parser does. -/
theorem glued_eq_error {p : Parser Unit} {ls : List Lexeme} {f : Failure} :
    glued p ls = .error f ↔ p ls = .error f := by
  change (taken p ls >>= fun r => (pure (Token.glue r.1) : Parser String) r.2) = .error f ↔ _
  unfold taken
  cases p ls with
  | error e => simp [bind, Except.bind]
  | ok r => exact iff_of_false nofun nofun

/-- The alternatives of a rule are tried by their openers, the first one first. -/
theorem choose?_cons (b : Branch α) (bs : List (Branch α)) (ls : List Lexeme) :
    choose? (b :: bs) ls =
      if Terminal.opens b.opener ls then (some <$> b.body) ls else choose? bs ls := by
  rw [choose?, ahead, bind_of_ok (asks_ok _ _)]
  cases Terminal.opens b.opener ls <;> rfl

/-- What is read behind a choice is read behind the first alternative whose opener comes next. -/
theorem choose?_cons_bind (b : Branch α) (bs : List (Branch α)) (f : Option α → Parser β)
    (ls : List Lexeme) :
    (choose? (b :: bs) >>= f) ls =
      if Terminal.opens b.opener ls then (b.body >>= fun a => f (some a)) ls
      else (choose? bs >>= f) ls := by
  change (choose? (b :: bs) ls >>= fun r => f r.1 r.2) = _
  rw [choose?_cons]
  split
  · change ((some <$> b.body) >>= f) ls = _
    rw [bind_map_left]
  · rfl

/-- An alternative whose opener does not come next is passed over. -/
theorem choose?_of_not_opens {b : Branch α} {bs : List (Branch α)} {ls : List Lexeme}
    (h : Terminal.opens b.opener ls = false) : choose? (b :: bs) ls = choose? bs ls := by
  rw [choose?_cons, h, if_neg Bool.false_ne_true]

/-- A choice is made by the first alternative if its opener comes next. -/
theorem choose?_of_opens {b : Branch α} {bs : List (Branch α)} {ls rest : List Lexeme} {a : α}
    (h : Terminal.opens b.opener ls = true) (hb : b.body ls = .ok (a, rest)) :
    choose? (b :: bs) ls = .ok (some a, rest) := by
  rw [choose?_cons, if_pos h]
  exact map_eq_ok.2 ⟨a, hb, rfl⟩

/-- A choice succeeds with the first alternative whose opener comes next, or takes nothing when
there is none. -/
theorem choose?_eq_ok {bs : List (Branch α)} {ls rest : List Lexeme} {a? : Option α}
    (h : choose? bs ls = .ok (a?, rest)) :
    (∃ b ∈ bs, Terminal.opens b.opener ls = true ∧ ∃ a, b.body ls = .ok (a, rest) ∧ a? = some a) ∨
      (a? = none ∧ ls = rest ∧ ∀ b ∈ bs, Terminal.opens b.opener ls = false) := by
  -- An opener that does not come next hands the choice on to the alternatives behind it.
  induction bs with
  | nil =>
    obtain ⟨rfl, rfl⟩ := pure_eq_ok.1 h
    exact .inr ⟨rfl, rfl, nofun⟩
  | cons b bs ih =>
    rw [choose?_cons] at h
    cases hopens : Terminal.opens b.opener ls with
    | true =>
      rw [hopens, if_pos rfl] at h
      obtain ⟨a, ha, rfl⟩ := map_eq_ok.1 h
      exact .inl ⟨b, List.mem_cons_self, hopens, a, ha, rfl⟩
    | false =>
      rw [hopens, if_neg Bool.false_ne_true] at h
      obtain ⟨b', hb', hchosen⟩ | ⟨rfl, rfl, hnone⟩ := ih h
      · exact .inl ⟨b', List.mem_cons_of_mem b hb', hchosen⟩
      · exact .inr ⟨rfl, rfl, List.forall_mem_cons.2 ⟨hopens, hnone⟩⟩

/-- A choice is not made where no opener comes next. -/
theorem choose?_of_forall {bs : List (Branch α)} {ls : List Lexeme}
    (h : ∀ b ∈ bs, Terminal.opens b.opener ls = false) : choose? bs ls = .ok (none, ls) := by
  induction bs with
  | nil => rfl
  | cons b bs ih =>
    obtain ⟨hb, hbs⟩ := List.forall_mem_cons.1 h
    exact (choose?_of_not_opens hb).trans (ih hbs)

/-- Between alternatives with one parser it does not matter which of the openers comes next. -/
theorem choose?_of_body_eq {bs : List (Branch α)} {p : Parser α} {ls : List Lexeme}
    (hbody : ∀ b ∈ bs, b.body = p) (hopens : ∃ b ∈ bs, Terminal.opens b.opener ls = true) :
    choose? bs ls = (some <$> p) ls := by
  induction bs with
  | nil => exact absurd hopens (by simp)
  | cons b bs ih =>
    obtain ⟨hb, hbs⟩ := List.forall_mem_cons.1 hbody
    rw [choose?_cons]
    split
    · rw [hb]
    · rename_i hfirst
      obtain ⟨b', hmem, hlater⟩ := hopens
      obtain rfl | hmem := List.mem_cons.1 hmem
      · exact absurd hlater hfirst
      · exact ih hbs ⟨b', hmem, hlater⟩

/-- A choice that has to be made is made by an opener that comes next. -/
theorem choose_eq_ok {e : Expected} {bs : List (Branch α)} {ls rest : List Lexeme} {a : α}
    (h : choose e bs ls = .ok (a, rest)) :
    ∃ b ∈ bs, Terminal.opens b.opener ls = true ∧ b.body ls = .ok (a, rest) := by
  obtain ⟨a?, mid, hchoice, h⟩ := bind_eq_ok.1 h
  obtain ⟨b, hb, hopens, a', ha', rfl⟩ | ⟨rfl, rfl, -⟩ := choose?_eq_ok hchoice
  · obtain ⟨rfl, rfl⟩ := pure_eq_ok.1 h
    exact ⟨b, hb, hopens, ha'⟩
  · exact absurd h fail_eq_ok.1

/-- A repetition ends when its step gives nothing, or goes on with what the step leaves. -/
theorem many_eq (step : Parser (Option α)) (ls : List Lexeme) :
    many step ls =
      match step ls with
      | .error e => .error e
      | .ok (none, rest) => .ok ([], rest)
      | .ok (some a, rest) =>
        if rest.length < ls.length then
          match many step rest with
          | .error e => .error e
          | .ok (as, rest) => .ok (a :: as, rest)
        else .ok ([a], rest) :=
  many.eq_def step ls

/-- A repetition ends when its step gives nothing. -/
theorem many_of_none {step : Parser (Option α)} {ls rest : List Lexeme}
    (h : step ls = .ok (none, rest)) : many step ls = .ok ([], rest) := by
  rw [many_eq, h]

/-- A repetition goes on when its step gives something and takes a lexeme. -/
theorem many_of_some {step : Parser (Option α)} {ls mid rest : List Lexeme} {a : α} {as : List α}
    (h : step ls = .ok (some a, mid)) (hlt : mid.length < ls.length)
    (hmany : many step mid = .ok (as, rest)) : many step ls = .ok (a :: as, rest) := by
  rw [many_eq, h]
  simp only [hlt, if_true, hmany]

/-- A repetition whose step takes no lexeme ends with what the step gives. -/
theorem many_of_stuck {step : Parser (Option α)} {ls rest : List Lexeme} {a : α}
    (h : step ls = .ok (some a, rest)) (hle : ls.length ≤ rest.length) :
    many step ls = .ok ([a], rest) := by
  rw [many_eq, h]
  simp only [Nat.not_lt.2 hle, if_false]

/-- A repetition fails when its step does. -/
theorem many_of_error {step : Parser (Option α)} {ls : List Lexeme} {e : Failure}
    (h : step ls = .error e) : many step ls = .error e := by
  rw [many_eq, h]

/-- A repetition fails when it does so behind what its step takes. -/
theorem many_of_some_error {step : Parser (Option α)} {ls mid : List Lexeme} {a : α} {e : Failure}
    (h : step ls = .ok (some a, mid)) (hlt : mid.length < ls.length)
    (hmany : many step mid = .error e) : many step ls = .error e := by
  rw [many_eq, h]
  simp only [hlt, if_true, hmany]

/-- There are three ways for a repetition to succeed: its step gives nothing, or it gives something
and takes a lexeme, or it gives something and takes none. -/
theorem many_eq_ok {step : Parser (Option α)} {ls rest : List Lexeme} {as : List α}
    (h : many step ls = .ok (as, rest)) :
    (as = [] ∧ step ls = .ok (none, rest)) ∨
      (∃ a later mid, as = a :: later ∧ step ls = .ok (some a, mid) ∧ mid.length < ls.length ∧
        many step mid = .ok (later, rest)) ∨
      (∃ a, as = [a] ∧ step ls = .ok (some a, rest) ∧ ls.length ≤ rest.length) := by
  rw [many_eq] at h
  cases hstep : step ls with
  | error e => simp [hstep] at h
  | ok r =>
    obtain ⟨a?, mid⟩ := r
    cases a? with
    | none =>
      obtain ⟨rfl, rfl⟩ : [] = as ∧ mid = rest := by simpa [hstep] using h
      exact .inl ⟨rfl, rfl⟩
    | some a =>
      -- A step that gives something without taking a lexeme ends the repetition.
      by_cases hlt : mid.length < ls.length
      · cases hmany : many step mid with
        | error e => simp [hstep, hlt, hmany] at h
        | ok r =>
          obtain ⟨later, behind⟩ := r
          obtain ⟨rfl, rfl⟩ : a :: later = as ∧ behind = rest := by
            simpa [hstep, hlt, hmany] using h
          exact .inr (.inl ⟨a, later, mid, rfl, rfl, hlt, hmany⟩)
      · obtain ⟨rfl, rfl⟩ : [a] = as ∧ mid = rest := by simpa [hstep, hlt] using h
        exact .inr (.inr ⟨a, rfl, rfl, Nat.not_lt.1 hlt⟩)

/-- What is left when lexemes are passed over up to a place is at their end. -/
theorem dropUntil_suffix (stop : List Lexeme → Bool) (depth : Nat) (ls : List Lexeme) :
    dropUntil stop depth ls <:+ ls := by
  induction ls generalizing depth with
  | nil => exact List.suffix_refl _
  | cons l ls ih =>
    -- The depth tells where to stop, but every place where that can be is at the end.
    have hcons : ∀ d, dropUntil stop d ls <:+ l :: ls :=
      fun d => (ih d).trans (List.suffix_cons l ls)
    rw [dropUntil]
    split
    · exact List.suffix_refl _
    split
    · exact hcons _
    split
    · exact hcons _
    · exact hcons _

/-! ## Runs -/

/-- A run of tokens with values is a repetition of one such token. -/
theorem tokenRun_eq (value : Token → Option α) : tokenRun value = many (token? value) := by
  funext ls
  induction ls with
  | nil => exact (many_of_none rfl).symm
  | cons l ls ih =>
    cases h : value l.token with
    | none =>
      rw [many_of_none (token?_of_none (by rintro _ ⟨⟩; exact h))]
      simp [tokenRun, tokenRun.run, h]
    | some a =>
      have hrun : tokenRun value (l :: ls) =
          .ok (a :: (tokenRun.run value ls).1, (tokenRun.run value ls).2) := by
        simp [tokenRun, tokenRun.run, h]
      exact hrun.trans (many_of_some (token?_cons h) (Nat.lt_succ_self _) ih.symm).symm

/-- A run ends in front of the first token without a value. -/
theorem tokenRun_eq_ok {value : Token → Option α} {ls rest : List Lexeme} {as : List α} :
    tokenRun value ls = .ok (as, rest) ↔
      ∃ front, ls = front ++ rest ∧ List.Forall₂ (fun l a => value l.token = some a) front as ∧
        ∀ l ∈ rest.head?, value l.token = none := by
  rw [tokenRun_eq]
  constructor
  · intro h
    -- The values are taken one by one; a token that has one is taken, so no step is stuck.
    induction as generalizing ls with
    | nil =>
      obtain ⟨-, hstep⟩ | ⟨_, _, _, hcons, -⟩ | ⟨_, hcons, -⟩ := many_eq_ok h
      · obtain ⟨_, _, -, -, hsome⟩ | ⟨-, rfl, hnone⟩ := token?_eq_ok.1 hstep
        · cases hsome
        · exact ⟨[], rfl, .nil, hnone⟩
      · cases hcons
      · cases hcons
    | cons a as ih =>
      obtain ⟨hnil, -⟩ | ⟨b, later, mid, hcons, hstep, -, hmany⟩ | ⟨b, -, hstep, hle⟩ :=
        many_eq_ok h
      · cases hnil
      · obtain ⟨rfl, rfl⟩ := List.cons.inj hcons
        obtain ⟨l, _, rfl, hl, ⟨⟩⟩ | ⟨hnone, -⟩ := token?_eq_ok.1 hstep
        · obtain ⟨front, rfl, hfront, hstop⟩ := ih hmany
          exact ⟨l :: front, rfl, .cons hl hfront, hstop⟩
        · cases hnone
      · obtain ⟨l, _, rfl, -, -⟩ | ⟨hnone, -⟩ := token?_eq_ok.1 hstep
        · exact absurd hle (Nat.not_le.2 (Nat.lt_succ_self _))
        · cases hnone
  · rintro ⟨front, rfl, hfront, hstop⟩
    induction hfront with
    | nil => exact many_of_none (token?_of_none hstop)
    | cons hl _ ih => exact many_of_some (token?_cons hl) (Nat.lt_succ_self _) ih

/-- What `readAll` accepts is taken in full. -/
theorem readAll_eq_ok {p : Parser α} {ls : List Lexeme} {a : α} :
    readAll p ls = .ok a ↔ p ls = .ok (a, []) := by
  -- Where the test for the end of the text succeeds, nothing is left.
  have hall : ∀ b rest, (p >>= fun b => atEnd >>= fun e =>
      if e then pure b else fail .endOfInput) ls = .ok (b, rest) ↔
        p ls = .ok (b, []) ∧ rest = [] := by
    intro b rest
    simp only [bind_eq_ok, atEnd, asks_eq_ok]
    constructor
    · rintro ⟨b', mid, hp, e, mid', ⟨he, rfl⟩, h⟩
      cases mid with
      | nil =>
        obtain ⟨rfl, rfl⟩ : b' = b ∧ [] = rest := by simpa [← he] using h
        exact ⟨hp, rfl⟩
      | cons l mid => simp [← he] at h
    · rintro ⟨hp, rfl⟩
      exact ⟨b, [], hp, true, [], ⟨rfl, rfl⟩, by simp⟩
  unfold readAll
  split
  · rename_i b rest h
    obtain ⟨hp, -⟩ := (hall b rest).1 h
    simp [hp]
  · rename_i f h
    constructor
    · simp
    · -- A parser that takes everything would have succeeded.
      intro hp
      have hok := (hall a []).2 ⟨hp, rfl⟩
      rw [hok] at h
      simp at h

/-- Where the parser fails, the failure is the error. -/
theorem readAll_of_error {p : Parser α} {ls : List Lexeme} {e : Failure} (h : p ls = .error e) :
    readAll p ls = .error (e.locate ls) := by
  rw [readAll, bind_of_error h]

/-- A text is read if it has lexemes that the parser takes in full. -/
theorem readString_eq_ok {p : Parser α} {text : String} {a : α} :
    p.readString text = .ok a ↔ ∃ ls, Lexeme.ofString text = .ok ls ∧ p ls = .ok (a, []) := by
  unfold readString
  cases Lexeme.ofString text with
  | error e =>
    change Except.error (Error.lexical e) = .ok a ↔ _
    simp
  | ok ls =>
    have hread : (p.readAll ls).mapError Error.grammar = .ok a ↔ p.readAll ls = .ok a := by
      cases p.readAll ls with
      | error e =>
        change Except.error (Error.grammar e) = .ok a ↔ _
        simp
      | ok b =>
        change Except.ok b = .ok a ↔ _
        simp
    change (p.readAll ls).mapError Error.grammar = .ok a ↔ _
    rw [hread, readAll_eq_ok]
    simp

/-- The parser gives no other values than those with the property. -/
def GivesOnly (p : Parser α) (Q : α → Prop) : Prop :=
  ∀ ls a rest, p ls = .ok (a, rest) → Q a

theorem GivesOnly.pure {a : α} {Q : α → Prop} (h : Q a) : GivesOnly (pure a) Q := by
  intro ls b rest hb
  obtain ⟨rfl, -⟩ := pure_eq_ok.1 hb
  exact h

theorem GivesOnly.ite {p q : Parser α} {Q : α → Prop} {c : Prop} [Decidable c]
    (hp : GivesOnly p Q) (hq : GivesOnly q Q) : GivesOnly (if c then p else q) Q := by
  split
  · exact hp
  · exact hq

/-- A sequence gives what its last part gives. -/
theorem GivesOnly.bind {β : Type} {p : Parser β} {f : β → Parser α} {Q : α → Prop}
    (hf : ∀ b, GivesOnly (f b) Q) : GivesOnly (p >>= f) Q := by
  intro ls a rest h
  obtain ⟨b, mid, -, ha⟩ := bind_eq_ok.1 h
  exact hf b mid a rest ha

end TableSchema.Parser
