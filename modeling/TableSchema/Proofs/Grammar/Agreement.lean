import TableSchema.Proofs.Grammar.Enclosed
import TableSchema.Proofs.Grammar.Likeness

/-!
# Parsers that agree

A parser is run on two texts whose lexemes are alike one by one. It *agrees* with itself, or with
another parser, when both runs succeed or both fail, after as many lexemes in the one text as in the
other, and when the results look the same: failures expect the same, and a view of the results does
not tell them apart.

Agreement is kept by every way of putting parsers together. The results of two runs are not equal,
so what goes on with them are two parsers, and agreement is stated of two.

## Main definitions

* `AgreeAt`: the parsers agree on two texts;
* `Likeness.Agree`: the parsers agree on all texts that are alike;
* `TakesNoWord`: the text of what the parser takes is a content, since no bare word is taken.

## Main results

* `Agree.bind`, `Agree.many`, `Agree.choose?`, `Agree.glued` and the other lemmas here: agreement of
  each way of putting parsers together, from that of the parts;
* `Agree.readAll`: what agreement says of reading a whole text.
-/

namespace TableSchema.Parser

variable {α β γ δ : Type}

/-- The parsers both succeed with results that look the same, or both fail expecting the same, and
as many lexemes are behind them in both texts. -/
def AgreeAt (view : α → γ) (p p' : Parser α) (ls ls' : List Lexeme) : Prop :=
  (∃ n a a', view a = view a' ∧ p ls = .ok (a, ls.drop n) ∧ p' ls' = .ok (a', ls'.drop n)) ∨
    ∃ n e, p ls = .error ⟨e, ls.drop n⟩ ∧ p' ls' = .error ⟨e, ls'.drop n⟩

variable {view : α → γ} {p p' : Parser α} {ls ls' : List Lexeme}

/-- A sequence agrees if its parts do, the second ones behind what the first ones took. -/
theorem AgreeAt.bind {view' : β → δ} {f f' : α → Parser β} (hp : AgreeAt view p p' ls ls')
    (hf : ∀ n a a', view a = view a' → p ls = .ok (a, ls.drop n) →
      AgreeAt view' (f a) (f' a') (ls.drop n) (ls'.drop n)) :
    AgreeAt view' (p >>= f) (p' >>= f') ls ls' := by
  rcases hp with ⟨n, a, a', hview, hok, hok'⟩ | ⟨n, e, herror, herror'⟩
  · rcases hf n a a' hview hok with ⟨m, b, b', hview', hb, hb'⟩ | ⟨m, e, he, he'⟩
    · rw [List.drop_drop] at hb hb'
      exact .inl ⟨n + m, b, b', hview', by rw [bind_of_ok hok, hb], by rw [bind_of_ok hok', hb']⟩
    · rw [List.drop_drop] at he he'
      exact .inr ⟨n + m, e, by rw [bind_of_ok hok, he], by rw [bind_of_ok hok', he']⟩
  · exact .inr ⟨n, e, bind_of_error herror, bind_of_error herror'⟩

/-- As many lexemes are taken in both texts. -/
theorem AgreeAt.taken {p p' : Parser Unit} {look : List Token → γ} (hp : AgreeAt id p p' ls ls')
    (hlook : ∀ n, p ls = .ok ((), ls.drop n) →
      look (Lexeme.tokens (ls.take (ls.length - (ls.drop n).length))) =
        look (Lexeme.tokens (ls'.take (ls'.length - (ls'.drop n).length)))) :
    AgreeAt look (taken p) (taken p') ls ls' := by
  rcases hp with ⟨n, ⟨⟩, ⟨⟩, -, hok, hok'⟩ | ⟨n, e, herror, herror'⟩
  · exact .inl ⟨n, _, _, hlook n hok, taken_eq_ok.2 ⟨hok, rfl⟩, taken_eq_ok.2 ⟨hok', rfl⟩⟩
  · refine .inr ⟨n, e, ?_, ?_⟩
    · simp only [Parser.taken, herror]
    · simp only [Parser.taken, herror']

/-! ## Parsers that take no bare word -/

/-- None of the lexemes that the parser takes is a bare word. -/
def TakesNoWord (p : Parser α) : Prop :=
  ∀ ls a rest, p ls = .ok (a, rest) →
    ∃ front, ls = front ++ rest ∧ ∀ l ∈ front, l.token.bareWord? = none

/-- A sequence takes what its parts take. -/
theorem TakesNoWord.bind {f : α → Parser β} (hp : TakesNoWord p) (hf : ∀ a, TakesNoWord (f a)) :
    TakesNoWord (p >>= f) := by
  intro ls b rest h
  obtain ⟨a, mid, ha, hb⟩ := bind_eq_ok.1 h
  obtain ⟨front, rfl, hfront⟩ := hp ls a mid ha
  obtain ⟨back, rfl, hback⟩ := hf a mid b rest hb
  exact ⟨front ++ back, (List.append_assoc _ _ _).symm,
    fun l hl => (List.mem_append.1 hl).elim (hfront l) (hback l)⟩

/-- What takes nothing takes no word. -/
theorem TakesNoWord.pure (a : α) : TakesNoWord (pure a) := by
  intro ls b rest h
  obtain ⟨-, rfl⟩ := pure_eq_ok.1 h
  exact ⟨[], rfl, nofun⟩

/-- A number is no bare word. -/
theorem TakesNoWord.number : TakesNoWord number := by
  intro ls digits rest h
  obtain ⟨l, rfl, hl⟩ := token_eq_ok.1 h
  refine ⟨[l], rfl, List.forall_mem_singleton.2 ?_⟩
  -- A number is no word.
  cases htoken : l.token <;> simp_all [Token.numberText?, Token.bareWord?]

/-- A demanded symbol is no bare word. -/
theorem TakesNoWord.expect_symbol (s : Symbol) : TakesNoWord (expect (.symbol s)) := by
  intro ls u rest h
  obtain ⟨l, rfl, hl⟩ := expect_eq_ok.1 h
  have hsymbol : l.token = .symbol s := by simpa [Terminal.accepts] using hl
  exact ⟨[l], rfl, List.forall_mem_singleton.2 (by rw [hsymbol]; rfl)⟩

/-- A symbol that may be left out is no bare word. -/
theorem TakesNoWord.eat_symbol (s : Symbol) : TakesNoWord (eat (.symbol s)) := by
  intro ls b rest h
  obtain ⟨hopens, rfl⟩ := eatAll_eq_ok.1 h
  cases b with
  | false => exact ⟨[], rfl, nofun⟩
  | true =>
    obtain ⟨l, rest, rfl, hl, -⟩ := Terminal.opens_cons.1 hopens
    have hsymbol : l.token = .symbol s := by simpa [Terminal.accepts] using hl
    exact ⟨[l], rfl, List.forall_mem_singleton.2 (by rw [hsymbol]; rfl)⟩

/-- Leaving out the value takes the same lexemes. -/
theorem TakesNoWord.discard (hp : TakesNoWord p) : TakesNoWord (discard p) :=
  hp.bind fun _ => .pure ()

end TableSchema.Parser

namespace TableSchema.Likeness

open TableSchema.Parser

variable (k : Likeness) {α β γ δ : Type}

/-- The parsers agree on all texts that are alike. -/
def Agree (view : α → γ) (p p' : Parser α) : Prop :=
  ∀ ls ls', k.All ls ls' → AgreeAt view p p' ls ls'

/-- What the function gives of tokens that are alike looks the same. -/
def Shows (view : α → γ) (value : Token → Option α) : Prop :=
  ∀ l l', k.alike l l' → (value l.token).map view = (value l'.token).map view

variable {k} {view : α → γ} {view' : β → δ} {p p' : Parser α} {ls ls' : List Lexeme}

/-- Runs that are alike are equally long, behind any number of lexemes too. -/
theorem length_drop_eq (h : k.All ls ls') (n : Nat) :
    (ls.drop n).length = (ls'.drop n).length := by
  rw [List.length_drop, List.length_drop, h.length_eq]

/-! ## Sequences -/

/-- A sequence agrees if its parts do. -/
theorem Agree.bind {f f' : α → Parser β} (hp : k.Agree view p p')
    (hf : ∀ a a', view a = view a' → k.Agree view' (f a) (f' a')) :
    k.Agree view' (p >>= f) (p' >>= f') := by
  intro ls ls' hls
  refine (hp ls ls' hls).bind fun n a a' hview _ => ?_
  exact hf a a' hview _ _ (List.forall₂_drop n hls)

/-- A sequence agrees if its first part gives the same in both texts. -/
theorem Agree.bind_id {f f' : α → Parser β} (hp : k.Agree id p p')
    (hf : ∀ a, k.Agree view' (f a) (f' a)) : k.Agree view' (p >>= f) (p' >>= f') := by
  refine hp.bind fun a a' ha => ?_
  obtain rfl : a = a' := ha
  exact hf a

/-- A sequence agrees if its first part gives something in both texts or in none, and its second
part agrees in both cases. -/
theorem Agree.bind_option {q q' : Parser (Option α)} {f f' : Option α → Parser β}
    (hq : k.Agree (Option.map view) q q')
    (hsome : ∀ a a', view a = view a' → k.Agree view' (f (some a)) (f' (some a')))
    (hnone : k.Agree view' (f none) (f' none)) : k.Agree view' (q >>= f) (q' >>= f') := by
  refine hq.bind fun a? a?' ha => ?_
  cases a? with
  | none =>
    obtain rfl : a?' = none := Option.map_eq_none_iff.1 ha.symm
    exact hnone
  | some a =>
    obtain ⟨a', rfl, hview⟩ := Option.map_eq_some_iff.1 ha.symm
    exact hsome a a' hview.symm

/-- Parsers that take nothing and always succeed. -/
theorem Agree.pure {a a' : α} (h : view a = view a') : k.Agree view (pure a) (pure a') :=
  fun _ _ _ => .inl ⟨0, a, a', h, rfl, rfl⟩

/-- A parser that always fails. -/
theorem Agree.fail (e : Expected) : k.Agree view (fail e) (fail e) :=
  fun _ _ _ => .inr ⟨0, e, rfl, rfl⟩

/-- Functions of the results of parsers that agree. -/
theorem Agree.map {f f' : α → β} (hp : k.Agree view p p')
    (hf : ∀ a a', view a = view a' → view' (f a) = view' (f' a')) :
    k.Agree view' (f <$> p) (f' <$> p') :=
  hp.bind fun a a' ha => .pure (hf a a' ha)

/-- A choice that does not look at the text. -/
theorem Agree.ite {c : Prop} [Decidable c] {q q' : Parser α} (hp : k.Agree view p p')
    (hq : k.Agree view q q') : k.Agree view (if c then p else q) (if c then p' else q') := by
  split
  · exact hp
  · exact hq

/-- Parsers whose results are left out. -/
theorem Agree.discard (hp : k.Agree view p p') : k.Agree id (discard p) (discard p') :=
  hp.bind fun _ _ _ => .pure rfl

/-! ## Tests -/

/-- A question that has the same answer in both texts. -/
theorem Agree.asks {question : List Lexeme → Bool}
    (h : ∀ ls ls', k.All ls ls' → question ls = question ls') :
    k.Agree id (asks question) (asks question) := by
  intro ls ls' hls
  refine .inl ⟨0, question ls, question ls', h ls ls' hls, rfl, rfl⟩

/-- Both texts end at the same place. -/
theorem Agree.atEnd : k.Agree id atEnd atEnd := by
  refine .asks fun ls ls' hls => ?_
  cases hls <;> rfl

/-- A pattern comes next in both texts or in none. -/
theorem Agree.ahead (pattern : List Terminal) : k.Agree id (ahead pattern) (ahead pattern) :=
  .asks fun _ _ hls => opens_eq hls pattern

/-- One of several patterns comes next in both texts or in none. -/
theorem Agree.aheadAny (patterns : List (List Terminal)) :
    k.Agree id (aheadAny patterns) (aheadAny patterns) :=
  .asks fun _ _ hls => opensAny_eq hls patterns

/-- As many lexemes are skipped. -/
theorem Agree.skip (n : Nat) : k.Agree id (skip n) (skip n) :=
  fun _ _ _ => .inl ⟨n, (), (), rfl, rfl, rfl⟩

/-- The same words are taken, or none in both texts. -/
theorem Agree.eatAll (pattern : List Terminal) : k.Agree id (eatAll pattern) (eatAll pattern) := by
  intro ls ls' hls
  have hopens := opens_eq hls pattern
  cases h : Terminal.opens pattern ls with
  | true =>
    rw [h] at hopens
    exact .inl ⟨pattern.length, true, true, rfl, eatAll_eq_ok.2 ⟨h, rfl⟩,
      eatAll_eq_ok.2 ⟨hopens.symm, rfl⟩⟩
  | false =>
    rw [h] at hopens
    exact .inl ⟨0, false, false, rfl, eatAll_eq_ok.2 ⟨h, rfl⟩,
      eatAll_eq_ok.2 ⟨hopens.symm, rfl⟩⟩

theorem Agree.eat (t : Terminal) : k.Agree id (eat t) (eat t) :=
  .eatAll [t]

theorem Agree.expect (t : Terminal) : k.Agree id (expect t) (expect t) :=
  (Agree.eat t).bind_id fun _ => .ite (.pure rfl) (.fail _)

/-! ## Tokens -/

/-- What looks the same is there in both texts or in none. -/
theorem Shows.cases {value : Token → Option α} (h : k.Shows view value) {l l' : Lexeme}
    (hl : k.alike l l') : (value l.token = none ∧ value l'.token = none) ∨
      ∃ a a', value l.token = some a ∧ value l'.token = some a' ∧ view a = view a' := by
  have hmap := h l l' hl
  cases hvalue : value l.token with
  | none =>
    rw [hvalue, Option.map_none] at hmap
    exact .inl ⟨rfl, Option.map_eq_none_iff.1 hmap.symm⟩
  | some a =>
    rw [hvalue, Option.map_some] at hmap
    obtain ⟨a', ha', hview⟩ := Option.map_eq_some_iff.1 hmap.symm
    exact .inr ⟨a, a', rfl, ha', hview.symm⟩

/-- Tokens with values that look the same are read in both texts or in none. -/
theorem Agree.token? {value : Token → Option α} (h : k.Shows view value) :
    k.Agree (Option.map view) (token? value) (token? value) := by
  intro ls ls' hls
  cases hls with
  | nil => exact .inl ⟨0, none, none, rfl, rfl, rfl⟩
  | cons hl hls =>
    rcases h.cases hl with ⟨hnone, hnone'⟩ | ⟨a, a', ha, ha', hview⟩
    · refine .inl ⟨0, none, none, rfl, ?_, ?_⟩
      · simp only [Parser.token?, hnone, List.drop_zero]
      · simp only [Parser.token?, hnone', List.drop_zero]
    · refine .inl ⟨1, some a, some a', congrArg some hview, ?_, ?_⟩
      · simp only [Parser.token?, ha, List.drop_one, List.tail_cons]
      · simp only [Parser.token?, ha', List.drop_one, List.tail_cons]

/-- A token is demanded of tokens that look the same. -/
theorem Agree.token {value : Token → Option α} (e : Expected) (h : k.Shows view value) :
    k.Agree view (token e value) (token e value) :=
  (Agree.token? h).bind_option (fun _ _ hview => .pure hview) (.fail e)

/-- A test of tokens that are alike has the same answer. -/
theorem shows_guard {test : Token → Bool}
    (h : ∀ l l', k.alike l l' → test l.token = test l'.token) :
    k.Shows (fun _ => ()) (Option.guard test) := by
  intro l l' hl
  simp only [Option.guard, h l l' hl]
  cases test l'.token <;> rfl

/-- Numbers are seen as contents. -/
theorem Agree.number : k.Agree k.content number number :=
  .token _ fun _ _ hl => map_content Token.readsText_number (fun _ => rfl) hl

/-- String literals are seen as contents. -/
theorem shows_string : k.Shows k.content Token.stringText? :=
  fun _ _ hl => map_content Token.readsText_string (fun _ => rfl) hl

theorem Agree.stringLiteral : k.Agree k.content stringLiteral stringLiteral :=
  .token _ shows_string

/-- Identifiers are seen as names. -/
theorem Agree.identifier : k.Agree k.name identifier identifier :=
  .token _ fun _ _ hl => map_name Token.readsText_word hl

/-- One of the keywords is the same in both texts. -/
theorem Agree.oneOf (words : List String) : k.Agree id (oneOf words) (oneOf words) := by
  refine .token _ fun l l' hl => ?_
  simp only [accepts_eq hl]

/-! ## Repetition -/

/-- A repetition agrees if its step does. -/
theorem Agree.many {step step' : Parser (Option α)} (h : k.Agree (Option.map view) step step') :
    k.Agree (List.map view) (many step) (many step') := by
  -- The induction is on how many lexemes are left, since each step that goes on takes one.
  intro ls
  induction hn : ls.length using Nat.strongRecOn generalizing ls with
  | ind n ih =>
    intro ls' hls
    rcases h ls ls' hls with ⟨m, a?, a?', hview, hok, hok'⟩ | ⟨m, e, herror, herror'⟩
    · cases a? with
      | none =>
        obtain rfl : a?' = none := Option.map_eq_none_iff.1 hview.symm
        exact .inl ⟨m, [], [], rfl, many_of_none hok, many_of_none hok'⟩
      | some a =>
        obtain ⟨a', rfl, ha⟩ := Option.map_eq_some_iff.1 hview.symm
        by_cases hlt : (ls.drop m).length < ls.length
        · have hlt' : (ls'.drop m).length < ls'.length := by
            rwa [← length_drop_eq hls, ← hls.length_eq]
          rcases ih _ (hn ▸ hlt) (ls.drop m) rfl _ (List.forall₂_drop m hls) with
            ⟨i, as, as', has, hmany, hmany'⟩ | ⟨i, e, herror, herror'⟩
          · rw [List.drop_drop] at hmany hmany'
            exact .inl ⟨m + i, a :: as, a' :: as', by simp [ha, has],
              many_of_some hok hlt hmany, many_of_some hok' hlt' hmany'⟩
          · rw [List.drop_drop] at herror herror'
            exact .inr ⟨m + i, e, many_of_some_error hok hlt herror,
              many_of_some_error hok' hlt' herror'⟩
        · have hle : ls.length ≤ (ls.drop m).length := Nat.not_lt.1 hlt
          have hle' : ls'.length ≤ (ls'.drop m).length := by
            rwa [← length_drop_eq hls, ← hls.length_eq]
          exact .inl ⟨m, [a], [a'], by simp [ha], many_of_stuck hok hle,
            many_of_stuck hok' hle'⟩
    · exact .inr ⟨m, e, many_of_error herror, many_of_error herror'⟩

/-- A run of tokens with values. -/
theorem Agree.tokenRun {value : Token → Option α} (h : k.Shows view value) :
    k.Agree (List.map view) (tokenRun value) (tokenRun value) := by
  rw [tokenRun_eq]
  exact (Agree.token? h).many

/-- Items with commas between them. -/
theorem Agree.separated {item item' : Parser α} (h : k.Agree view item item') :
    k.Agree (List.map view) (separated item) (separated item') := by
  refine h.bind fun first first' hfirst => Agree.bind (Agree.many ?_) fun others others' hothers =>
    .pure (by rw [List.map_cons, List.map_cons, hfirst, hothers])
  refine (Agree.eat _).bind_id fun comma => ?_
  exact .ite (h.map fun a a' ha => congrArg some ha) (.pure rfl)

/-- Items between parentheses. -/
theorem Agree.list {item item' : Parser α} (h : k.Agree view item item') :
    k.Agree (List.map view) (list item) (list item') := by
  refine (Agree.expect _).bind_id fun _ => h.separated.bind fun items items' hitems => ?_
  exact (Agree.expect _).bind_id fun _ => .pure hitems

/-! ## Choices -/

/-- A parser that is run where its pattern comes next is run in both texts or in none. -/
theorem Agree.ifAhead {pattern : List Terminal} (h : k.Agree view p p') :
    k.Agree (Option.map view) (ifAhead pattern p) (ifAhead pattern p') :=
  (Agree.ahead pattern).bind_id fun _ => .ite (h.map fun _ _ ha => congrArg some ha) (.pure rfl)

/-- What stands behind a pattern is read in both texts or in none. -/
theorem Agree.after {pattern : List Terminal} (h : k.Agree view p p') :
    k.Agree (Option.map view) (after pattern p) (after pattern p') :=
  (Agree.eatAll pattern).bind_id fun _ => .ite (h.map fun _ _ ha => congrArg some ha) (.pure rfl)

variable (k) in
/-- The alternatives begin with the same words and agree. -/
structure AgreeBranch (view : α → γ) (b b' : Branch α) : Prop where
  /-- The alternatives begin with the same words. -/
  opener_eq : b.opener = b'.opener
  /-- The alternatives agree. -/
  agree : k.Agree view b.body b'.body

/-- Alternatives behind the same words. -/
theorem AgreeBranch.behind {opener : List Terminal} (h : k.Agree view p p') :
    k.AgreeBranch view (.behind opener p) (.behind opener p') :=
  ⟨rfl, (Agree.skip opener.length).bind_id fun _ => h⟩

/-- The same alternative is chosen in both texts. -/
theorem Agree.choose? {bs bs' : List (Branch α)} (h : List.Forall₂ (k.AgreeBranch view) bs bs') :
    k.Agree (Option.map view) (choose? bs) (choose? bs') := by
  induction h with
  | nil => exact .pure rfl
  | cons hb hbs ih =>
    rw [Parser.choose?, Parser.choose?, hb.opener_eq]
    exact (Agree.ahead _).bind_id fun _ =>
      .ite (hb.agree.map fun _ _ ha => congrArg some ha) ih

/-- The same alternative has to be chosen in both texts. -/
theorem Agree.choose {bs bs' : List (Branch α)} (e : Expected)
    (h : List.Forall₂ (k.AgreeBranch view) bs bs') :
    k.Agree view (choose e bs) (choose e bs') :=
  (Agree.choose? h).bind_option (fun _ _ hview => .pure hview) (.fail e)

/-! ## Texts -/

/-- The lexemes before the same place in both texts are alike. -/
theorem all_take (hls : k.All ls ls') (n : Nat) :
    k.All (ls.take (ls.length - (ls.drop n).length))
      (ls'.take (ls'.length - (ls'.drop n).length)) := by
  rw [← hls.length_eq, ← length_drop_eq hls]
  exact List.forall₂_take _ hls

/-- The text of a rule looks the same as a name. -/
theorem Agree.glued {p p' : Parser Unit} (hp : k.Agree id p p') :
    k.Agree k.name (glued p) (glued p') := by
  have htaken : k.Agree (k.name ∘ Token.glue) (Parser.taken p) (Parser.taken p') :=
    fun ls ls' hls => (hp ls ls' hls).taken fun n _ => name_glue (all_take hls n)
  exact htaken.bind fun _ _ h => .pure h

/-- So does its text with spaces. -/
theorem agreeAt_spaced {p p' : Parser Unit} (hp : AgreeAt id p p' ls ls') (hls : k.All ls ls') :
    AgreeAt k.name (spaced p) (spaced p') ls ls' := by
  have htaken : AgreeAt (k.name ∘ Token.spaced) (Parser.taken p) (Parser.taken p') ls ls' :=
    hp.taken fun n _ => name_spaced (all_take hls n)
  exact htaken.bind fun n _ _ h _ => .inl ⟨0, _, _, h, rfl, rfl⟩

/-- A text that is kept with blanks between its words is seen as a name. -/
theorem Agree.spaced {p p' : Parser Unit} (hp : k.Agree id p p') :
    k.Agree k.name (spaced p) (spaced p') :=
  fun ls ls' hls => agreeAt_spaced (hp ls ls' hls) hls

/-- The text of a rule that takes no bare word looks the same as a content. -/
theorem Agree.glued_content {p p' : Parser Unit} (hp : k.Agree id p p') (hbare : TakesNoWord p) :
    k.Agree k.content (Parser.glued p) (Parser.glued p') := by
  have htaken : k.Agree (k.content ∘ Token.glue) (Parser.taken p) (Parser.taken p') := by
    refine fun ls ls' hls => (hp ls ls' hls).taken fun n hok => content_glue (all_take hls n) ?_
    obtain ⟨front, hfront, hwords⟩ := hbare ls () _ hok
    -- What is taken is what stands in front of the rest.
    have htake : (front ++ ls.drop n).take ((front ++ ls.drop n).length - (ls.drop n).length) =
        front := by
      rw [List.length_append, Nat.add_sub_cancel, List.take_left]
    rw [← hfront] at htake
    rwa [htake]
  exact htaken.bind fun _ _ h => .pure h

/-! ## Parentheses -/

/-- The parenthesis that closes is at the same place in both texts, or in neither. -/
theorem closeParens_alike (h : k.All ls ls') (depth : Nat) :
    (∃ n, closeParens depth ls = some (ls.drop n) ∧ closeParens depth ls' = some (ls'.drop n)) ∨
      (closeParens depth ls = none ∧ closeParens depth ls' = none) := by
  induction h generalizing depth with
  | nil => exact .inr ⟨rfl, rfl⟩
  | @cons l l' ls ls' hl hls ih =>
    -- Behind the first lexeme the search goes on at the same depth in both texts.
    have hgo : ∀ d, closeParens depth (l :: ls) = closeParens d ls →
        closeParens depth (l' :: ls') = closeParens d ls' →
        (∃ n, closeParens depth (l :: ls) = some ((l :: ls).drop n) ∧
            closeParens depth (l' :: ls') = some ((l' :: ls').drop n)) ∨
          (closeParens depth (l :: ls) = none ∧ closeParens depth (l' :: ls') = none) := by
      intro d hstep hstep'
      rw [hstep, hstep']
      exact (ih d).imp_left fun ⟨n, hn, hn'⟩ => ⟨n + 1, hn, hn'⟩
    have hopen := symbol_iff hl .openParen
    have hclose := symbol_iff hl .closeParen
    by_cases ho : l.token = .symbol .openParen
    · exact hgo (depth + 1) (by rw [Seam.closeParens_cons, if_pos ho])
        (by rw [Seam.closeParens_cons, if_pos (hopen.1 ho)])
    · by_cases hc : l.token = .symbol .closeParen
      · cases depth with
        | zero =>
          refine .inl ⟨1, ?_, ?_⟩
          · rw [Seam.closeParens_cons, if_neg ho, if_pos hc]
            rfl
          · rw [Seam.closeParens_cons, if_neg (mt hopen.2 ho), if_pos (hclose.1 hc)]
            rfl
        | succ outer =>
          exact hgo outer (by rw [Seam.closeParens_cons, if_neg ho, if_pos hc])
            (by rw [Seam.closeParens_cons, if_neg (mt hopen.2 ho), if_pos (hclose.1 hc)])
      · exact hgo depth (by rw [Seam.closeParens_cons, if_neg ho, if_neg hc])
          (by rw [Seam.closeParens_cons, if_neg (mt hopen.2 ho), if_neg (mt hclose.2 hc)])

/-- A parenthesis with everything up to the one that closes it. -/
theorem Agree.parenthesized : k.Agree id parenthesized parenthesized := by
  refine (Agree.expect _).bind_id fun _ ls ls' hls => ?_
  rcases closeParens_alike hls 0 with ⟨n, hn, hn'⟩ | ⟨hnone, hnone'⟩
  · exact .inl ⟨n, (), (), rfl, by simp only [hn], by simp only [hn']⟩
  · -- Without a closing parenthesis both texts are read to their ends.
    refine .inr ⟨ls.length, .terminal (.symbol .closeParen), ?_, ?_⟩
    · simp only [hnone, List.drop_length]
    · simp only [hnone', hls.length_eq, List.drop_length]

/-- The place where a statement or a clause stops is the same in both texts. -/
theorem dropUntil_alike {stop : List Lexeme → Bool}
    (hstop : ∀ ls ls', k.All ls ls' → stop ls = stop ls') (h : k.All ls ls') (depth : Nat) :
    ∃ n, dropUntil stop depth ls = ls.drop n ∧ dropUntil stop depth ls' = ls'.drop n := by
  induction h generalizing depth with
  | nil => exact ⟨0, rfl, rfl⟩
  | @cons l l' ls ls' hl hls ih =>
    have hopen := symbol_iff hl .openParen
    have hclose := symbol_iff hl .closeParen
    have hcond := hstop _ _ (List.Forall₂.cons hl hls)
    simp only [dropUntil, ← hopen, ← hclose, ← hcond]
    split
    · exact ⟨0, rfl, rfl⟩
    -- Otherwise the first lexeme is left out, whatever the depth behind it.
    split
    · obtain ⟨n, hn, hn'⟩ := ih (depth + 1)
      exact ⟨n + 1, hn, hn'⟩
    split
    · obtain ⟨n, hn, hn'⟩ := ih (depth - 1)
      exact ⟨n + 1, hn, hn'⟩
    · obtain ⟨n, hn, hn'⟩ := ih depth
      exact ⟨n + 1, hn, hn'⟩

/-- Skipping stops at the same place if the stop looks the same. -/
theorem Agree.skipUntil {stop : List Lexeme → Bool}
    (hstop : ∀ ls ls', k.All ls ls' → stop ls = stop ls') :
    k.Agree id (skipUntil stop) (skipUntil stop) := by
  intro ls ls' hls
  obtain ⟨n, hn, hn'⟩ := dropUntil_alike hstop hls 0
  refine .inl ⟨n, (), (), rfl, ?_, ?_⟩
  · rw [Parser.skipUntil, hn]
  · rw [Parser.skipUntil, hn']

/-- The rest of a statement that is not read is equally long. -/
theorem Agree.skipStatement : k.Agree id skipStatement skipStatement :=
  .skipUntil fun _ _ hls => opens_eq hls _

/-! ## Whole texts -/

/-- Reading two texts that are alike as a whole gives results that look the same, or fails at the
same lexeme. -/
theorem Agree.readAll (hp : k.Agree view p p) (hls : k.All ls ls') :
    (∃ a a', view a = view a' ∧ p.readAll ls = .ok a ∧ p.readAll ls' = .ok a') ∨
      ∃ n e, p.readAll ls = .error (Failure.locate ⟨e, ls.drop n⟩ ls) ∧
        p.readAll ls' = .error (Failure.locate ⟨e, ls'.drop n⟩ ls') := by
  have hwhole : k.Agree view (do let a ← p; if ← Parser.atEnd then return a else Parser.fail .endOfInput)
      (do let a ← p; if ← Parser.atEnd then return a else Parser.fail .endOfInput) :=
    hp.bind fun a a' ha => Agree.atEnd.bind_id fun _ => .ite (.pure ha) (.fail _)
  unfold Parser.readAll
  rcases hwhole ls ls' hls with ⟨n, a, a', hview, hok, hok'⟩ | ⟨n, e, herror, herror'⟩
  · exact .inl ⟨a, a', hview, by rw [hok], by rw [hok']⟩
  · exact .inr ⟨n, e, by rw [herror], by rw [herror']⟩

end TableSchema.Likeness
