import TableSchema.Proofs.Grammar.Enclosed

/-!
# What parsers give of a text

A parser *yields* values with a property if it gives no other ones wherever it begins in a text, and
it leaves the end of the text. The property may be about the text: that its tokens were read, or
that the value is written in it. The property of the values of a rule follows from those of its
parts, and rules of which only the tokens matter that they leave yield whatever they give.

## Main definitions

* `Yields`, `YieldsBranch`: what a parser gives, and an alternative where it is begun.

## Main results

* `Yields.token`: the value of a token is that of a token of the text;
* `Yields.bind`, `Yields.many`, `Yields.choose?`, `Yields.list`: what is yielded by each way of
  putting parsers together;
* `Yields.of_steady`: a steady parser leaves the last tokens.
-/

namespace TableSchema.Parser

variable {α β : Type} {text : List Lexeme} {p : Parser α} {Q : α → Prop} {R : β → Prop}

/-- Of the lexemes, if the text ends with them, the parser leaves the last ones and gives a value
with the property. -/
def YieldsAt (text : List Lexeme) (p : Parser α) (Q : α → Prop) (ls : List Lexeme) : Prop :=
  ls <:+ text → ∀ a rest, p ls = .ok (a, rest) → rest <:+ ls ∧ Q a

/-- The parser gives only values with the property, wherever in the text it begins. -/
def Yields (text : List Lexeme) (p : Parser α) (Q : α → Prop) : Prop :=
  ∀ ls, YieldsAt text p Q ls

/-- The alternative gives only values with the property, wherever in the text it is begun. -/
def YieldsBranch (text : List Lexeme) (b : Branch α) (Q : α → Prop) : Prop :=
  ∀ ls, Terminal.opens b.opener ls = true → YieldsAt text b.body Q ls

namespace Yields

theorem mono {Q' : α → Prop} (hp : Yields text p Q) (h : ∀ a, Q a → Q' a) :
    Yields text p Q' := by
  intro ls hls a rest ha
  obtain ⟨hrest, hQ⟩ := hp ls hls a rest ha
  exact ⟨hrest, h a hQ⟩

/-- A parser that leaves the last lexemes may give anything. -/
theorem of_suffix (h : ∀ ls a rest, p ls = .ok (a, rest) → rest <:+ ls) :
    Yields text p fun _ => True :=
  fun ls _ a rest ha => ⟨h ls a rest ha, trivial⟩

/-- A steady parser leaves the last lexemes. -/
theorem of_steady (h : Seam.textEnd.Steady p) : Yields text p fun _ => True :=
  of_suffix fun ls a rest ha => (h ls trivial a rest ha).1

theorem pure {a : α} (h : Q a) : Yields text (pure a) Q := by
  intro ls _ b rest hb
  obtain ⟨rfl, rfl⟩ := pure_eq_ok.1 hb
  exact ⟨List.suffix_refl ls, h⟩

theorem fail (e : Expected) : Yields text (Parser.fail e) Q :=
  fun _ _ _ _ h => absurd h fail_eq_ok.1

theorem ite {q : Parser α} {c : Prop} [Decidable c] (hp : c → Yields text p Q)
    (hq : ¬ c → Yields text q Q) : Yields text (if c then p else q) Q := by
  split
  · exact hp ‹_›
  · exact hq ‹_›

/-- The second part of a sequence may use what the first part gives. -/
theorem bind {f : α → Parser β} (hp : Yields text p Q) (hf : ∀ a, Q a → Yields text (f a) R) :
    Yields text (p >>= f) R := by
  intro ls hls b rest h
  obtain ⟨a, mid, ha, hb⟩ := bind_eq_ok.1 h
  obtain ⟨hmid, hQ⟩ := hp ls hls a mid ha
  obtain ⟨hrest, hR⟩ := hf a hQ mid (hmid.trans hls) b rest hb
  exact ⟨hrest.trans hmid, hR⟩

theorem map {f : α → β} (hp : Yields text p Q) (h : ∀ a, Q a → R (f a)) :
    Yields text (f <$> p) R := by
  intro ls hls b rest hb
  obtain ⟨a, ha, rfl⟩ := map_eq_ok.1 hb
  obtain ⟨hrest, hQ⟩ := hp ls hls a rest ha
  exact ⟨hrest, h a hQ⟩

/-- What is given is there. -/
theorem map_some (hp : Yields text p Q) : Yields text (some <$> p) fun a? => ∀ a ∈ a?, Q a :=
  hp.map fun _ ha _ ha' => Option.some.inj ha' ▸ ha

/-- A question takes nothing. -/
theorem asks (question : List Lexeme → Bool) :
    Yields text (Parser.asks question) fun _ => True := by
  refine of_suffix fun ls b rest h => ?_
  obtain ⟨-, rfl⟩ := asks_eq_ok.1 h
  exact List.suffix_refl ls

/-- Looking at what is left takes nothing. -/
theorem get : Yields text (get : Parser (List Lexeme)) fun _ => True := by
  refine of_suffix fun ls ls' rest h => ?_
  obtain ⟨-, rfl⟩ := get_eq_ok.1 h
  exact List.suffix_refl ls

theorem skip (n : Nat) : Yields text (Parser.skip n) fun _ => True := by
  refine of_suffix fun ls u rest h => ?_
  obtain rfl : ls.drop n = rest := by simpa [Parser.skip] using h
  exact List.drop_suffix n ls

theorem eat (t : Terminal) : Yields text (Parser.eat t) fun _ => True := by
  refine of_suffix fun ls b rest h => ?_
  obtain ⟨-, rfl⟩ := eatAll_eq_ok.1 h
  cases b with
  | false => exact List.suffix_refl ls
  | true => exact List.drop_suffix _ ls

/-- The value of a token is that of a token of the text. -/
theorem token? {value : Token → Option α} (h : ∀ l ∈ text, ∀ a ∈ value l.token, Q a) :
    Yields text (Parser.token? value) fun a? => ∀ a ∈ a?, Q a := by
  intro ls hls a? rest ha
  obtain ⟨l, a, rfl, hl, rfl⟩ | ⟨rfl, rfl, -⟩ := token?_eq_ok.1 ha
  · refine ⟨List.suffix_cons l rest, fun a' ha' => ?_⟩
    exact Option.some.inj ha' ▸ h l (hls.subset List.mem_cons_self) a hl
  · exact ⟨List.suffix_refl ls, nofun⟩

theorem token {e : Expected} {value : Token → Option α}
    (h : ∀ l ∈ text, ∀ a ∈ value l.token, Q a) : Yields text (Parser.token e value) Q := by
  refine (token? h).bind fun a? ha => ?_
  cases a? with
  | none => exact fail e
  | some a => exact pure (ha a rfl)

theorem discard (hp : Yields text p Q) : Yields text (discard p) fun _ => True :=
  hp.map fun _ _ => trivial

/-- The text of a parser: the tokens that it takes are those that it does not leave. -/
theorem spaced {p : Parser Unit} (hp : Yields text p fun _ => True) :
    Yields text (spaced p) fun _ => True := by
  refine bind (Q := fun _ => True) ?_ fun _ _ => pure trivial
  intro ls hls ts rest h
  exact hp ls hls () rest (taken_eq_ok.1 h).1

/-- Each of the values of a repetition is given by its step. -/
theorem many {step : Parser (Option α)} (h : Yields text step fun a? => ∀ a ∈ a?, Q a) :
    Yields text (many step) fun as => ∀ a ∈ as, Q a := by
  intro ls
  -- The induction is on how many lexemes are left.
  induction hn : ls.length using Nat.strongRecOn generalizing ls with
  | ind n ih =>
    intro hls as rest has
    obtain ⟨rfl, hstep⟩ | ⟨a, later, mid, rfl, hstep, hlt, hmany⟩ | ⟨a, rfl, hstep, -⟩ :=
      many_eq_ok has
    · exact ⟨(h ls hls none rest hstep).1, nofun⟩
    · obtain ⟨hmid, ha⟩ := h ls hls (some a) mid hstep
      obtain ⟨hrest, hlater⟩ := ih mid.length (hn ▸ hlt) mid rfl
        (hmid.trans hls) later rest hmany
      exact ⟨hrest.trans hmid, List.forall_mem_cons.2 ⟨ha a rfl, hlater⟩⟩
    · obtain ⟨hrest, ha⟩ := h ls hls (some a) rest hstep
      exact ⟨hrest, List.forall_mem_singleton.2 (ha a rfl)⟩

/-- An alternative is begun where its opener comes next. -/
theorem choose? {bs : List (Branch α)} (h : ∀ b ∈ bs, YieldsBranch text b Q) :
    Yields text (choose? bs) fun a? => ∀ a ∈ a?, Q a := by
  intro ls hls a? rest ha
  obtain ⟨b, hb, hopens, a, hbody, rfl⟩ | ⟨rfl, rfl, -⟩ := choose?_eq_ok ha
  · obtain ⟨hrest, hQ⟩ := h b hb ls hopens hls a rest hbody
    exact ⟨hrest, fun a' ha' => Option.some.inj ha' ▸ hQ⟩
  · exact ⟨List.suffix_refl ls, nofun⟩

/-- One of the alternatives is begun. -/
theorem choose {e : Expected} {bs : List (Branch α)} (h : ∀ b ∈ bs, YieldsBranch text b Q) :
    Yields text (choose e bs) Q := by
  refine (choose? h).bind fun a? ha => ?_
  cases a? with
  | none => exact fail e
  | some a => exact pure (ha a rfl)

/-- Items with commas between them. -/
theorem separated {item : Parser α} (h : Yields text item Q) :
    Yields text (separated item) fun as => ∀ a ∈ as, Q a := by
  refine h.bind fun first hfirst => ?_
  have hothers : Yields text (Parser.many do
      if ← Parser.eat (.symbol .comma) then return some (← item) else return none)
      fun as => ∀ a ∈ as, Q a := by
    refine many ((eat _).bind fun comma _ => ?_)
    cases comma with
    | false => exact pure nofun
    | true => exact h.map_some
  exact hothers.bind fun others hothers => pure (List.forall_mem_cons.2 ⟨hfirst, hothers⟩)

/-- Items between parentheses. -/
theorem list {item : Parser α} (h : Yields text item Q) :
    Yields text (list item) fun as => ∀ a ∈ as, Q a :=
  (of_steady (.expect _)).bind fun _ _ => (separated h).bind fun _ has =>
    (of_steady (.expect _)).bind fun _ _ => pure has

end Yields

/-- An alternative gives what stands behind its words. -/
theorem YieldsBranch.behind {opener : List Terminal} (hp : Yields text p Q) :
    YieldsBranch text (.behind opener p) Q :=
  fun ls _ => ((Yields.skip opener.length).bind fun _ _ => hp) ls

end TableSchema.Parser
