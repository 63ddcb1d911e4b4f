import TableSchema.Proofs.Grammar.Outcome
import TableSchema.Proofs.Grammar.Terminal

/-!
# Seams

A text that a parser accepts can be continued: other tokens follow, and the parser is to take what
it took before and to leave the rest with the continuation behind it. A *seam* is a continuation
together with what is known where it begins. A parser is *steady* at a seam when everything it
accepts goes on to be accepted there, with the same result.

Optional text is where this can fail, since a rule that takes all it can might run across the seam.
It cannot when a mark stands before the seam or right behind it, which every seam promises.

## Main definitions

* `Seam`: a continuation, with conditions on the text before it;
* `Seam.Steady`, `Seam.SteadyAt`: the parser is steady at the seam, on all texts and on one;
* `Seam.enclosed`: the same continuation, seen from inside parentheses that close before it.

## Main results

* `Steady.bind`, `Steady.many`, `Steady.list` and the other lemmas here: steadiness of each way of
  putting parsers together, from that of the parts.
-/

namespace TableSchema.Parser

/-- A continuation of a text, with what is known of the text where a parser begins and where it
stops. -/
structure Seam where
  /-- The tokens that follow. -/
  tail : List Token
  /-- What is known of the tokens where a parser begins. -/
  inside : List Token → Prop
  /-- What is known of the tokens where a parser stops. -/
  left : List Token → Prop
  /-- What is known where a parser begins is known further on. -/
  inside_of_suffix : ∀ {ts us}, us <:+ ts → inside ts → inside us
  /-- What is known where a parser stops was known before. -/
  left_of_suffix : ∀ {ts us}, us <:+ ts → left us → left ts
  /-- A mark is left, or the continuation begins with one. -/
  mark_of_left : ∀ {ts}, left ts → (∃ u ∈ ts, u.isMark = true) ∨ ∀ u ∈ tail.head?, u.isMark = true

variable {α β : Type}

namespace Seam

/-- The lexemes `ls'` have the tokens of `ls` and then those of the continuation. -/
def Continues (s : Seam) (ls ls' : List Lexeme) : Prop :=
  Lexeme.tokens ls' = Lexeme.tokens ls ++ s.tail

/-- What the parser accepts of `ls` it accepts in front of the continuation, with the same result
and the continuation behind what is left. -/
def SteadyAt (s : Seam) (p : Parser α) (ls : List Lexeme) : Prop :=
  ∀ a rest, p ls = .ok (a, rest) → rest <:+ ls ∧
    (s.left (Lexeme.tokens rest) → ∀ ls', s.Continues ls ls' →
      ∃ rest', p ls' = .ok (a, rest') ∧ rest' <:+ ls' ∧ s.Continues rest rest')

/-- The parser is steady wherever it may begin. -/
def Steady (s : Seam) (p : Parser α) : Prop :=
  ∀ ls, s.inside (Lexeme.tokens ls) → s.SteadyAt p ls

/-- The seam in front of tokens that begin with a mark. -/
def before (tail : List Token) (h : ∀ u ∈ tail.head?, u.isMark = true) : Seam where
  tail := tail
  inside := fun _ => True
  left := fun _ => True
  inside_of_suffix := fun _ _ => trivial
  left_of_suffix := fun _ _ => trivial
  mark_of_left := fun _ => .inr h

/-- The seam at the end of a text, where nothing follows. -/
def textEnd : Seam :=
  before [] (by simp)

/-- The seam as it is seen from inside parentheses: the closing one is still left. -/
def enclosed (s : Seam) : Seam where
  tail := s.tail
  inside := s.inside
  left := fun ts => .symbol .closeParen ∈ ts
  inside_of_suffix := s.inside_of_suffix
  left_of_suffix := fun hsuffix hmem => hsuffix.subset hmem
  mark_of_left := fun hmem => .inl ⟨_, hmem, rfl⟩

/-- The seam in front of any tokens, seen from inside parentheses that close before it. -/
def inner (tail : List Token) : Seam where
  tail := tail
  inside := fun _ => True
  left := fun ts => .symbol .closeParen ∈ ts
  inside_of_suffix := fun _ _ => trivial
  left_of_suffix := fun hsuffix hmem => hsuffix.subset hmem
  mark_of_left := fun hmem => .inl ⟨_, hmem, rfl⟩

/-- The tokens of a suffix are a suffix of the tokens. -/
theorem tokens_suffix {ls rest : List Lexeme} (h : rest <:+ ls) :
    Lexeme.tokens rest <:+ Lexeme.tokens ls := by
  obtain ⟨front, rfl⟩ := h
  exact ⟨Lexeme.tokens front, by simp⟩

variable {s : Seam} {ls ls' rest rest' : List Lexeme} {p : Parser α}

/-- Whether a pattern without marks comes next is the same in front of the continuation. -/
theorem opens_eq {pattern : List Terminal} (hpattern : pattern.any Terminal.isMark = false)
    (hleft : s.left (Lexeme.tokens ls)) (h : s.Continues ls ls') :
    Terminal.opens pattern ls' = Terminal.opens pattern ls :=
  Terminal.opens_append hpattern h (s.mark_of_left hleft)

/-- Whether one of some patterns without marks comes next is the same in front of the
continuation. -/
theorem opensAny_eq {patterns : List (List Terminal)}
    (h : patterns.all (fun pattern => !pattern.any Terminal.isMark) = true)
    (hleft : s.left (Lexeme.tokens ls)) (hls' : s.Continues ls ls') :
    Terminal.opensAny patterns ls' = Terminal.opensAny patterns ls := by
  unfold Terminal.opensAny
  induction patterns with
  | nil => rfl
  | cons pattern patterns ih =>
    obtain ⟨hpattern, hpatterns⟩ := (Bool.and_eq_true _ _).mp h
    rw [List.any_cons, List.any_cons, opens_eq (by simpa using hpattern) hleft hls', ih hpatterns]

/-- Lexemes that go on do so after each of them. -/
theorem continues_cons {l : Lexeme} (h : s.Continues (l :: ls) ls') :
    ∃ l' ls'', ls' = l' :: ls'' ∧ l'.token = l.token ∧ s.Continues ls ls'' := by
  cases ls' with
  | nil => simp [Continues] at h
  | cons l' ls'' =>
    obtain ⟨hhead, htail⟩ := List.cons.inj h
    exact ⟨l', ls'', rfl, hhead, htail⟩

/-- Lexemes that go on are as many as before and those of the continuation. -/
theorem Continues.length_eq (h : s.Continues ls ls') :
    ls'.length = ls.length + s.tail.length := by
  have := congrArg List.length h
  simpa using this

/-- Where no mark is left, the continuation begins with one. -/
theorem isMark_of_tail {ts us : List Token} {u : Token} (hleft : s.left ts)
    (hts : ∀ t ∈ ts, t.isMark = false) (htail : u :: us = s.tail) : u.isMark = true := by
  obtain ⟨t, ht, hmark⟩ | hhead := s.mark_of_left hleft
  · simp [hts t ht] at hmark
  · exact hhead u (by simp [← htail])

/-- Leaving out lexemes leaves the continuation in its place. -/
theorem Continues.drop (h : s.Continues ls ls') {n : Nat} (hn : n ≤ ls.length) :
    s.Continues (ls.drop n) (ls'.drop n) := by
  unfold Continues at h ⊢
  rw [Lexeme.tokens, List.map_drop, ← Lexeme.tokens, h, Lexeme.tokens, Lexeme.tokens,
    List.map_drop, List.drop_append_of_le_length (by simpa using hn)]

/-- A steady parser that takes all of a text takes all of every text with the same tokens. -/
theorem Steady.ok_of_tokens (hp : textEnd.Steady p) {a : α} (h : p ls = .ok (a, []))
    (htokens : Lexeme.tokens ls' = Lexeme.tokens ls) : p ls' = .ok (a, []) := by
  -- The second text is the first one and a continuation by nothing.
  have hcontinues : textEnd.Continues ls ls' := by simp [Continues, textEnd, before, htokens]
  obtain ⟨-, hsteady⟩ := hp ls trivial a [] h
  obtain ⟨rest, hrest, -, hnil⟩ := hsteady trivial ls' hcontinues
  obtain rfl : rest = [] := List.map_eq_nil_iff.1 hnil
  exact hrest

/-! ## Sequences -/

/-- A sequence is steady on a text if its parts are, the second on what the first leaves. -/
theorem SteadyAt.bind {f : α → Parser β} (hp : s.SteadyAt p ls)
    (hf : ∀ a mid, p ls = .ok (a, mid) → s.SteadyAt (f a) mid) : s.SteadyAt (p >>= f) ls := by
  intro b rest h
  obtain ⟨a, mid, ha, hb⟩ := bind_eq_ok.1 h
  obtain ⟨hmid, hpsteady⟩ := hp a mid ha
  obtain ⟨hrest, hfsteady⟩ := hf a mid ha b rest hb
  refine ⟨hrest.trans hmid, fun hleft ls' hls' => ?_⟩
  -- What is known behind the second part is known behind the first one.
  obtain ⟨mid', ha', hmid', hpcontinues⟩ :=
    hpsteady (s.left_of_suffix (tokens_suffix hrest) hleft) ls' hls'
  obtain ⟨rest', hb', hrest', hfcontinues⟩ := hfsteady hleft mid' hpcontinues
  exact ⟨rest', by rw [bind_of_ok ha', hb'], hrest'.trans hmid', hfcontinues⟩

/-- A sequence of steady parsers is steady. -/
theorem Steady.bind {f : α → Parser β} (hp : s.Steady p) (hf : ∀ a, s.Steady (f a)) :
    s.Steady (p >>= f) := by
  intro ls hls
  refine (hp ls hls).bind fun a mid ha => hf a mid ?_
  -- The second part begins further on, where what is known inside is known as well.
  exact s.inside_of_suffix (tokens_suffix (hp ls hls a mid ha).1) hls

/-- A parser that succeeds as a steady one does, on the text and in front of the continuation. -/
theorem SteadyAt.of_imp {q : Parser α} (hq : s.SteadyAt q ls)
    (hls : ∀ r, p ls = .ok r → q ls = .ok r)
    (hls' : ∀ ls', s.left (Lexeme.tokens ls) → s.Continues ls ls' →
      ∀ r, q ls' = .ok r → p ls' = .ok r) : s.SteadyAt p ls := by
  intro a rest h
  obtain ⟨hrest, hsteady⟩ := hq a rest (hls _ h)
  refine ⟨hrest, fun hleft ls' hcontinues => ?_⟩
  obtain ⟨rest', hq', hrest'⟩ := hsteady hleft ls' hcontinues
  exact ⟨rest', hls' ls' (s.left_of_suffix (tokens_suffix hrest) hleft) hcontinues _ hq', hrest'⟩

/-- A parser that takes nothing and always succeeds. -/
theorem Steady.pure (a : α) : s.Steady (pure a) := by
  intro ls _ b rest h
  obtain ⟨rfl, rfl⟩ := pure_eq_ok.1 h
  exact ⟨List.suffix_refl ls, fun _ ls' hls' => ⟨ls', rfl, List.suffix_refl ls', hls'⟩⟩

/-- A parser that always fails. -/
theorem Steady.fail (e : Expected) : s.Steady (fail e : Parser α) := by
  intro ls _ b rest h
  exact absurd h fail_eq_ok.1

/-- A choice between steady parsers that looks at nothing. -/
theorem Steady.ite {q : Parser α} {c : Prop} [Decidable c] (hp : s.Steady p) (hq : s.Steady q) :
    s.Steady (if c then p else q) := by
  split
  · exact hp
  · exact hq

/-- A function of the result of a steady parser. -/
theorem SteadyAt.map (f : α → β) (hp : s.SteadyAt p ls) : s.SteadyAt (f <$> p) ls := by
  intro b rest h
  obtain ⟨a, ha, rfl⟩ := map_eq_ok.1 h
  obtain ⟨hrest, hsteady⟩ := hp a rest ha
  refine ⟨hrest, fun hleft ls' hls' => ?_⟩
  obtain ⟨rest', ha', hrest'⟩ := hsteady hleft ls' hls'
  exact ⟨rest', map_eq_ok.2 ⟨a, ha', rfl⟩, hrest'⟩

/-- A function of the result of a steady parser. -/
theorem Steady.map (f : α → β) (hp : s.Steady p) : s.Steady (f <$> p) :=
  fun ls hls => (hp ls hls).map f

/-- A steady parser whose result is left out. -/
theorem Steady.discard (hp : s.Steady p) : s.Steady (discard p) :=
  hp.bind fun _ => .pure ()

/-! ## Tests -/

/-- A question with the same answer in front of the continuation. -/
theorem Steady.asks {question : List Lexeme → Bool}
    (h : ∀ ls ls', s.left (Lexeme.tokens ls) → s.Continues ls ls' → question ls' = question ls) :
    s.Steady (asks question) := by
  intro ls _ b rest hb
  obtain ⟨rfl, rfl⟩ := asks_eq_ok.1 hb
  exact ⟨List.suffix_refl ls, fun hleft ls' hls' =>
    ⟨ls', asks_eq_ok.2 ⟨h ls ls' hleft hls', rfl⟩, List.suffix_refl ls', hls'⟩⟩

/-- A test for a pattern without marks. -/
theorem Steady.ahead {pattern : List Terminal} (h : pattern.any Terminal.isMark = false) :
    s.Steady (ahead pattern) :=
  .asks fun _ _ hleft hls' => opens_eq h hleft hls'

/-- A test for patterns without marks. -/
theorem Steady.aheadAny {patterns : List (List Terminal)}
    (h : patterns.all (fun pattern => !pattern.any Terminal.isMark) = true) :
    s.Steady (aheadAny patterns) :=
  .asks fun _ _ hleft hls' => opensAny_eq h hleft hls'

/-- A test for two tokens in a row, neither of which can be a mark. -/
theorem Steady.asks_pair {first second : Token → Bool}
    (hfirst : ∀ u, u.isMark = true → first u = false)
    (hsecond : ∀ u, u.isMark = true → second u = false) :
    s.Steady (Parser.asks fun
      | l :: m :: _ => first l.token && second m.token
      | _ => false) := by
  refine .asks fun ls ls' hleft hls' => ?_
  cases ls with
  | nil =>
    match ls', hls' with
    | [], _ => rfl
    | [l'], _ => rfl
    | l' :: m' :: ls', hls' => simp [hfirst _ (isMark_of_tail hleft nofun hls')]
  | cons l ls =>
    obtain ⟨l', ls'', rfl, hhead, htail⟩ := continues_cons hls'
    cases ls with
    | cons m ls =>
      obtain ⟨m', ls', rfl, hnext, -⟩ := continues_cons htail
      simp [hhead, hnext]
    | nil =>
      cases ls'' with
      | nil => rfl
      | cons m' ls'' =>
        -- If `l` fits it is no mark, so the continuation begins with one.
        cases hl : first l.token with
        | false => simp [hhead, hl]
        | true =>
          have hunmarked : ∀ t ∈ Lexeme.tokens [l], t.isMark = false := by
            intro t ht
            obtain rfl : t = l.token := by simpa using ht
            cases hmark : l.token.isMark with
            | false => rfl
            | true => simp [hfirst _ hmark] at hl
          simp [hsecond _ (isMark_of_tail hleft hunmarked htail)]

/-- A pattern that is taken if it comes next, when it comes next exactly if it did without the
continuation. -/
theorem Steady.eatAll_of_opens {pattern : List Terminal}
    (h : ∀ ls ls', s.left (Lexeme.tokens ls) → s.Continues ls ls' →
      Terminal.opens pattern ls' = Terminal.opens pattern ls) :
    s.Steady (eatAll pattern) := by
  intro ls _ b rest hb
  obtain ⟨hopens, rfl⟩ := eatAll_eq_ok.1 hb
  cases b with
  | false =>
    -- What does not come next here does not come next there, and nothing is taken.
    refine ⟨List.suffix_refl ls, fun hleft ls' hls' =>
      ⟨ls', eatAll_eq_ok.2 ⟨?_, rfl⟩, List.suffix_refl ls', hls'⟩⟩
    rw [h ls ls' hleft hls', hopens]
  | true =>
    -- The pattern is taken in full before the continuation begins.
    refine ⟨List.drop_suffix _ _, fun _ ls' hls' =>
      ⟨ls'.drop pattern.length, ?_, List.drop_suffix _ _, ?_⟩⟩
    · exact eatAll_eq_ok.2 ⟨Terminal.opens_of_append hls' hopens, rfl⟩
    · exact hls'.drop (Terminal.length_le_of_opens hopens)

/-- A pattern without marks that is taken if it comes next. -/
theorem Steady.eatAll {pattern : List Terminal} (h : pattern.any Terminal.isMark = false) :
    s.Steady (eatAll pattern) :=
  .eatAll_of_opens fun _ _ hleft hls' => opens_eq h hleft hls'

/-- A terminal that is no mark, taken if it comes next. -/
theorem Steady.eat {t : Terminal} (h : t.isMark = false) : s.Steady (eat t) :=
  .eatAll (by simp [h])

/-- Whether a terminal comes next is the same in front of a continuation that does not begin with
it, and wherever something is left. -/
theorem opens_singleton_eq {t : Terminal}
    (h : s.left [] → ∀ u ∈ s.tail.head?, t.accepts u = false)
    (hleft : s.left (Lexeme.tokens ls)) (hls' : s.Continues ls ls') :
    Terminal.opens [t] ls' = Terminal.opens [t] ls := by
  cases ls with
  | nil =>
    -- Only where nothing is left does the continuation itself decide.
    cases ls' with
    | nil => rfl
    | cons l' ls' =>
      have htail : l'.token :: Lexeme.tokens ls' = s.tail := hls'
      have hl' : t.accepts l'.token = false := h hleft l'.token (by simp [← htail])
      simp [Terminal.opens, hl']
  | cons l ls =>
    obtain ⟨l', ls'', rfl, hhead, -⟩ := continues_cons hls'
    simp [Terminal.opens, hhead]

/-- A terminal with which the continuation does not begin, taken if it comes next. -/
theorem Steady.eat_of_tail {t : Terminal}
    (h : s.left [] → ∀ u ∈ s.tail.head?, t.accepts u = false) :
    s.Steady (Parser.eat t) :=
  .eatAll_of_opens fun _ _ => opens_singleton_eq h

/-- A test for a terminal with which the continuation does not begin. -/
theorem Steady.ahead_of_tail {t : Terminal}
    (h : s.left [] → ∀ u ∈ s.tail.head?, t.accepts u = false) :
    s.Steady (Parser.ahead [t]) :=
  .asks fun _ _ => opens_singleton_eq h

/-! ## Demands -/

/-- Leaving out lexemes that are there. -/
theorem SteadyAt.skip {n : Nat} (h : n ≤ ls.length) : s.SteadyAt (skip n) ls := by
  intro a rest ha
  obtain rfl : ls.drop n = rest := by simpa [Parser.skip] using ha
  exact ⟨List.drop_suffix _ _, fun _ ls' hls' =>
    ⟨ls'.drop n, rfl, List.drop_suffix _ _, hls'.drop h⟩⟩

/-- A steady parser behind lexemes that are there and are left out. -/
theorem SteadyAt.skip_then {n : Nat} (h : n ≤ ls.length) (hls : s.inside (Lexeme.tokens ls))
    (hp : s.Steady p) : s.SteadyAt (do Parser.skip n; p) ls := by
  refine (SteadyAt.skip h).bind fun _ mid hmid => hp mid ?_
  obtain rfl : ls.drop n = mid := by simpa [Parser.skip] using hmid
  exact s.inside_of_suffix (tokens_suffix (List.drop_suffix _ _)) hls

/-- A demanded terminal stands before the continuation. -/
theorem Steady.expect (t : Terminal) : s.Steady (expect t) := by
  intro ls _ a rest ha
  obtain ⟨l, rfl, hl⟩ := expect_eq_ok.1 ha
  refine ⟨List.suffix_cons l rest, fun _ ls' hls' => ?_⟩
  obtain ⟨l', rest', rfl, hhead, hrest'⟩ := continues_cons hls'
  exact ⟨rest', expect_eq_ok.2 ⟨l', rfl, hhead ▸ hl⟩, List.suffix_cons l' rest', hrest'⟩

/-- A demanded token stands before the continuation. -/
theorem Steady.token (e : Expected) (value : Token → Option α) : s.Steady (token e value) := by
  intro ls _ a rest ha
  obtain ⟨l, rfl, hl⟩ := token_eq_ok.1 ha
  refine ⟨List.suffix_cons l rest, fun _ ls' hls' => ?_⟩
  obtain ⟨l', rest', rfl, hhead, hrest'⟩ := continues_cons hls'
  exact ⟨rest', token_eq_ok.2 ⟨l', rfl, hhead ▸ hl⟩, List.suffix_cons l' rest', hrest'⟩

/-- A demanded number. -/
theorem Steady.number : s.Steady number :=
  .token _ _

/-- A demanded string literal. -/
theorem Steady.stringLiteral : s.Steady stringLiteral :=
  .token _ _

/-- A demanded word. -/
theorem Steady.identifier : s.Steady identifier :=
  .token _ _

/-- One of some keywords, which is demanded. -/
theorem Steady.oneOf (words : List String) : s.Steady (oneOf words) :=
  .token _ _

/-- A token that is taken if it has a value, when no mark has one. -/
theorem Steady.token? {value : Token → Option α} (h : ∀ u, u.isMark = true → value u = none) :
    s.Steady (token? value) := by
  intro ls _ a? rest ha
  obtain ⟨l, a, rfl, hl, rfl⟩ | ⟨rfl, rfl, hnone⟩ := token?_eq_ok.1 ha
  · refine ⟨List.suffix_cons l rest, fun _ ls' hls' => ?_⟩
    obtain ⟨l', rest', rfl, hhead, hrest'⟩ := continues_cons hls'
    exact ⟨rest', token?_eq_ok.2 (.inl ⟨l', a, rfl, hhead ▸ hl, rfl⟩),
      List.suffix_cons l' rest', hrest'⟩
  · refine ⟨List.suffix_refl ls, fun hleft ls' hls' =>
      ⟨ls', token?_eq_ok.2 (.inr ⟨rfl, rfl, ?_⟩), List.suffix_refl ls', hls'⟩⟩
    cases ls with
    | nil =>
      cases ls' with
      | nil => nofun
      | cons l' ls' =>
        -- What comes next is the first token of the continuation, which is a mark.
        simpa using h l'.token (isMark_of_tail hleft nofun hls')
    | cons l ls =>
      obtain ⟨l', ls'', rfl, hhead, -⟩ := continues_cons hls'
      simpa [hhead] using hnone

/-! ## Repetitions -/

/-- A repeated step. -/
theorem Steady.many {step : Parser (Option α)} (h : s.Steady step) : s.Steady (many step) := by
  intro ls
  -- The induction is on how many lexemes are left. In front of the continuation there are more of
  -- them, but a step takes as many, so the repetition ends and goes on where it did.
  induction hn : ls.length using Nat.strongRecOn generalizing ls with
  | ind n ih =>
    intro hls as rest has
    obtain ⟨rfl, hstep⟩ | ⟨a, later, mid, rfl, hstep, hlt, hmany⟩ | ⟨a, rfl, hstep, hle⟩ :=
      many_eq_ok has
    · obtain ⟨hrest, hsteady⟩ := h ls hls none rest hstep
      refine ⟨hrest, fun hleft ls' hls' => ?_⟩
      obtain ⟨rest', hstep', hrest'⟩ := hsteady hleft ls' hls'
      exact ⟨rest', many_of_none hstep', hrest'⟩
    · obtain ⟨hmid, hsteady⟩ := h ls hls (some a) mid hstep
      obtain ⟨hrest, hsteady'⟩ := ih mid.length (hn ▸ hlt) mid rfl
        (s.inside_of_suffix (tokens_suffix hmid) hls) later rest hmany
      refine ⟨hrest.trans hmid, fun hleft ls' hls' => ?_⟩
      obtain ⟨mid', hstep', hmid', hcontinues⟩ :=
        hsteady (s.left_of_suffix (tokens_suffix hrest) hleft) ls' hls'
      obtain ⟨rest', hmany', hrest', hcontinues'⟩ := hsteady' hleft mid' hcontinues
      have hlt' : mid'.length < ls'.length := by
        rw [hcontinues.length_eq, hls'.length_eq]
        omega
      exact ⟨rest', many_of_some hstep' hlt' hmany', hrest'.trans hmid', hcontinues'⟩
    · obtain ⟨hrest, hsteady⟩ := h ls hls (some a) rest hstep
      refine ⟨hrest, fun hleft ls' hls' => ?_⟩
      obtain ⟨rest', hstep', hrest', hcontinues⟩ := hsteady hleft ls' hls'
      have hle' : ls'.length ≤ rest'.length := by
        rw [hcontinues.length_eq, hls'.length_eq]
        omega
      exact ⟨rest', many_of_stuck hstep' hle', hrest', hcontinues⟩

/-- A run of tokens that have a value, when no mark has one. -/
theorem Steady.tokenRun {value : Token → Option α} (h : ∀ u, u.isMark = true → value u = none) :
    s.Steady (tokenRun value) := by
  rw [tokenRun_eq]
  exact (Steady.token? h).many

/-! ## Alternatives -/

/-- The alternative of a rule is steady where its opener comes next, and the opener has no marks. -/
def SteadyBranch (s : Seam) (b : Branch α) : Prop :=
  b.opener.any Terminal.isMark = false ∧ ∀ ls, s.inside (Lexeme.tokens ls) →
    Terminal.opens b.opener ls = true → s.SteadyAt b.body ls

/-- An alternative that is steady wherever it may begin. -/
theorem SteadyBranch.mk {opener : List Terminal} (h : opener.any Terminal.isMark = false)
    (hp : s.Steady p) : s.SteadyBranch ⟨opener, p⟩ :=
  ⟨h, fun ls hls _ => hp ls hls⟩

/-- An alternative that begins by leaving out lexemes of its opener. -/
theorem SteadyBranch.mk_skip {opener : List Terminal} {n : Nat}
    (h : opener.any Terminal.isMark = false) (hn : n ≤ opener.length) (hp : s.Steady p) :
    s.SteadyBranch ⟨opener, do skip n; p⟩ := by
  refine ⟨h, fun ls hls hopens => ?_⟩
  have hle := Nat.le_trans hn (Terminal.length_le_of_opens hopens)
  exact .skip_then hle hls hp

/-- An alternative whose opener is left out. -/
theorem SteadyBranch.behind {opener : List Terminal} (h : opener.any Terminal.isMark = false)
    (hp : s.Steady p) : s.SteadyBranch (.behind opener p) :=
  .mk_skip h (Nat.le_refl _) hp

/-- The choice between steady alternatives. -/
theorem Steady.choose? {bs : List (Branch α)} (h : ∀ b ∈ bs, s.SteadyBranch b) :
    s.Steady (choose? bs) := by
  induction bs with
  | nil => exact Steady.pure none
  | cons b bs ih =>
    obtain ⟨hb, hbs⟩ := List.forall_mem_cons.1 h
    intro ls hls a? rest ha
    -- The same alternative is chosen in front of the continuation.
    have hchosen : ∀ ls', s.left (Lexeme.tokens ls) → s.Continues ls ls' →
        Terminal.opens b.opener ls' = Terminal.opens b.opener ls :=
      fun ls' hleft hls' => opens_eq hb.1 hleft hls'
    rw [choose?_cons] at ha
    cases hopens : Terminal.opens b.opener ls with
    | true =>
      rw [hopens, if_pos rfl] at ha
      obtain ⟨hrest, hsteady⟩ := (hb.2 ls hls hopens).map some a? rest ha
      refine ⟨hrest, fun hleft ls' hls' => ?_⟩
      rw [choose?_cons, hchosen ls' (s.left_of_suffix (tokens_suffix hrest) hleft) hls', hopens,
        if_pos rfl]
      exact hsteady hleft ls' hls'
    | false =>
      rw [hopens, if_neg Bool.false_ne_true] at ha
      obtain ⟨hrest, hsteady⟩ := ih hbs ls hls a? rest ha
      refine ⟨hrest, fun hleft ls' hls' => ?_⟩
      rw [choose?_cons, hchosen ls' (s.left_of_suffix (tokens_suffix hrest) hleft) hls', hopens,
        if_neg Bool.false_ne_true]
      exact hsteady hleft ls' hls'

/-- The choice between steady alternatives, one of which has to come next. -/
theorem Steady.choose {e : Expected} {bs : List (Branch α)} (h : ∀ b ∈ bs, s.SteadyBranch b) :
    s.Steady (choose e bs) := by
  refine (Steady.choose? h).bind fun a? => ?_
  cases a? with
  | none => exact .fail e
  | some a => exact .pure a

/-- A steady parser that is run if a pattern without marks comes next. -/
theorem Steady.ifAhead {pattern : List Terminal} (h : pattern.any Terminal.isMark = false)
    (hp : s.Steady p) : s.Steady (ifAhead pattern p) := by
  refine (Steady.ahead h).bind fun b => ?_
  cases b with
  | false => exact .pure none
  | true => exact hp.map some

/-- A steady parser that is run behind a pattern without marks. -/
theorem Steady.after {pattern : List Terminal} (h : pattern.any Terminal.isMark = false)
    (hp : s.Steady p) : s.Steady (after pattern p) := by
  refine (Steady.eatAll h).bind fun b => ?_
  cases b with
  | false => exact .pure none
  | true => exact hp.map some

end Seam

end TableSchema.Parser
