import TableSchema.Proofs.Grammar.Forward
import TableSchema.Proofs.Grammar.Parenthesis

/-!
# Alternatives

Most decisions of the grammar have one form: the parser looks at the first lexemes, and what it does
depends on the first pattern that comes next. Tests, texts that may be left out and choices are
written in this form here, so that what is proved about it holds of all of them.

A pattern of several terminals is looked at before any of them is taken. The parser that is run then
takes them, or skips them, so that it never stops inside the pattern.

## Main definitions

* `firstOf`: the first of some alternatives whose opener comes next, or else another parser;
* `Reaches`: where the pattern comes next, the parser stops behind it.

## Main results

* `choose?_bind_eq`, `choose_eq`, `eat_bind_eq`, `after_bind_eq` and the other equations: the
  decisions of the grammar are alternatives;
* `firstOf_cases`: one of the alternatives is run, or the other parser.
-/

set_option autoImplicit false

namespace TableSchema

/-! ## Patterns in front of other text -/

namespace Terminal

variable {ls : List Lexeme}

/-- A pattern that is not longer than the text does not see what stands behind it. -/
theorem opens_append_of_le {pattern : List Terminal} (h : pattern.length ≤ ls.length)
    (more : List Lexeme) : opens pattern (ls ++ more) = opens pattern ls := by
  induction pattern generalizing ls with
  | nil => rfl
  | cons t pattern ih =>
    cases ls with
    | nil => exact absurd h (by simp)
    | cons l ls => rw [List.cons_append, opens, opens, ih (Nat.le_of_succ_le_succ h)]

/-- A pattern that comes next is there when something is added. -/
theorem opens_append_of_opens {pattern : List Terminal} (h : opens pattern ls = true)
    (more : List Lexeme) : opens pattern (ls ++ more) = true :=
  (opens_append_of_le (length_le_of_opens h) more).trans h

/-- The end of a pattern comes next behind its front. -/
theorem opens_drop {pattern : List Terminal} (h : opens pattern ls = true) (n : Nat) :
    opens (pattern.drop n) (ls.drop n) = true := by
  induction n generalizing pattern ls with
  | zero => exact h
  | succ n ih =>
    cases pattern with
    | nil => rfl
    | cons t pattern =>
      obtain ⟨l, ls, rfl, -, h⟩ := opens_cons.1 h
      exact ih h

end Terminal

namespace Parser

open Lexeme

variable {α β : Type} {p q : Parser α} {bs : List (Branch α)} {t : Terminal}
  {pattern : List Terminal} {ls bad : List Lexeme}

/-! ## The first alternative -/

/-- The first of the alternatives whose opener comes next, or else the other parser. -/
def firstOf (bs : List (Branch α)) (q : Parser α) : Parser α :=
  match bs with
  | [] => q
  | b :: bs => fun ls => if Terminal.opens b.opener ls then b.body ls else firstOf bs q ls

theorem firstOf_cons (b : Branch α) (bs : List (Branch α)) (q : Parser α) (ls : List Lexeme) :
    firstOf (b :: bs) q ls = if Terminal.opens b.opener ls then b.body ls else firstOf bs q ls :=
  rfl

/-- One of the alternatives is run, or the other parser where no opener comes next. -/
theorem firstOf_cases (bs : List (Branch α)) (q : Parser α) (ls : List Lexeme) :
    (∃ b ∈ bs, Terminal.opens b.opener ls = true ∧ firstOf bs q ls = b.body ls) ∨
      ((∀ b ∈ bs, Terminal.opens b.opener ls = false) ∧ firstOf bs q ls = q ls) := by
  induction bs with
  | nil => exact .inr ⟨nofun, rfl⟩
  | cons b bs ih =>
    rw [firstOf_cons]
    cases hopens : Terminal.opens b.opener ls with
    | true => exact .inl ⟨b, List.mem_cons_self, hopens, if_pos rfl⟩
    | false =>
      rw [if_neg Bool.false_ne_true]
      rcases ih with ⟨b', hmem, hb'⟩ | ⟨hnone, hq⟩
      · exact .inl ⟨b', List.mem_cons_of_mem b hmem, hb'⟩
      · exact .inr ⟨List.forall_mem_cons.2 ⟨hopens, hnone⟩, hq⟩

/-- Where no opener comes next, the other parser is run. -/
theorem firstOf_of_not_opens (h : ∀ b ∈ bs, Terminal.opens b.opener ls = false) :
    firstOf bs q ls = q ls := by
  rcases firstOf_cases bs q ls with ⟨b, hb, hopens, -⟩ | ⟨-, hq⟩
  · exact absurd hopens (by simp [h b hb])
  · exact hq

/-- A choice between parsers that go forward goes forward. -/
theorem Forward.firstOf (hbs : ∀ b ∈ bs, Forward b.body) (hq : Forward q) :
    Forward (firstOf bs q) := by
  intro ls
  unfold leaves
  rcases firstOf_cases bs q ls with ⟨b, hb, -, heq⟩ | ⟨-, heq⟩
  · exact heq ▸ hbs b hb ls
  · exact heq ▸ hq ls

/-- A choice takes a lexeme if every alternative does where its opener comes next. -/
theorem Consumes.firstOf (hbs : ∀ b ∈ bs, b.Consumes) (hq : Consumes q) :
    Consumes (firstOf bs q) := by
  intro ls a rest h
  rcases firstOf_cases bs q ls with ⟨b, hb, hopens, heq⟩ | ⟨-, heq⟩
  · exact hbs b hb ls a rest hopens (heq ▸ h)
  · exact hq ls a rest (heq ▸ h)

/-! ## Decisions as alternatives -/

/-- What stands behind a choice that may be left out is run at the end of each alternative. -/
theorem choose?_bind_eq (bs : List (Branch α)) (f : Option α → Parser β) :
    choose? bs >>= f =
      firstOf (bs.map fun b => ⟨b.opener, b.body >>= fun a => f (some a)⟩) (f none) := by
  funext ls
  induction bs with
  | nil => rfl
  | cons b bs ih => rw [choose?_cons_bind, ih]; rfl

/-- A choice that may be left out takes nothing where no opener comes next. -/
theorem choose?_eq (bs : List (Branch α)) :
    choose? bs = firstOf (bs.map fun b => ⟨b.opener, some <$> b.body⟩) (pure none) := by
  rw [← bind_pure (choose? bs)]
  exact choose?_bind_eq bs Pure.pure

/-- Alternatives that may be left out, in front of a parser that is run instead. -/
theorem choose?_or_eq {f : Option α → Parser α} (hf : ∀ a, f (some a) = pure a) :
    choose? bs >>= f = firstOf bs (f none) := by
  rw [choose?_bind_eq]
  simp only [hf, bind_pure]
  exact congrArg (firstOf · (f none)) (List.map_id' bs)

/-- A choice that is demanded fails where no opener comes next. -/
theorem choose_eq (e : Expected) (bs : List (Branch α)) :
    choose e bs = firstOf bs (fail e) :=
  choose?_or_eq fun _ => rfl

/-- Words that may be left out decide what is run behind them. -/
theorem eatAll_bind_eq (pattern : List Terminal) (f : Bool → Parser β) :
    eatAll pattern >>= f = firstOf [.behind pattern (f true)] (f false) := by
  funext ls
  change _ = if Terminal.opens pattern ls then f true (ls.drop pattern.length) else f false ls
  cases h : Terminal.opens pattern ls with
  | true => exact bind_of_ok (eatAll_eq_ok.2 ⟨h, rfl⟩)
  | false => exact bind_of_ok (eatAll_eq_ok.2 ⟨h, rfl⟩)

/-- A terminal that may be left out decides what is run behind it. -/
theorem eat_bind_eq (t : Terminal) (f : Bool → Parser β) :
    eat t >>= f = firstOf [.behind [t] (f true)] (f false) :=
  eatAll_bind_eq [t] f

/-- A demanded terminal is an alternative to a failure. -/
theorem expect_eq (t : Terminal) :
    expect t = firstOf [.behind [t] (pure ())] (fail (.terminal t)) :=
  eat_bind_eq t _

/-- A test takes nothing: what is run behind it still sees the pattern. -/
theorem ahead_bind_eq (pattern : List Terminal) (f : Bool → Parser β) :
    ahead pattern >>= f = firstOf [⟨pattern, f true⟩] (f false) := by
  funext ls
  rw [firstOf_cons, ahead, bind_of_ok (asks_ok _ _)]
  cases Terminal.opens pattern ls <;> rfl

/-- A test for several patterns is a choice in which all of them lead to the same. -/
theorem aheadAny_bind_eq (patterns : List (List Terminal)) (f : Bool → Parser β) :
    aheadAny patterns >>= f =
      firstOf (patterns.map fun pattern => ⟨pattern, f true⟩) (f false) := by
  funext ls
  rw [aheadAny, bind_of_ok (asks_ok _ _)]
  induction patterns with
  | nil => rfl
  | cons pattern patterns ih =>
    rw [List.map_cons, firstOf_cons, ← ih, Terminal.opensAny, List.any_cons]
    cases Terminal.opens pattern ls <;> rfl

/-- A parser behind a pattern is run once the pattern is skipped. -/
theorem after_bind_eq (pattern : List Terminal) (p : Parser α) (f : Option α → Parser β) :
    after pattern p >>= f =
      firstOf [.behind pattern (p >>= fun a => f (some a))] (f none) := by
  rw [after, bind_assoc, eatAll_bind_eq]
  simp

/-- A parser that is run where its pattern comes next sees the pattern itself. -/
theorem ifAhead_bind_eq (pattern : List Terminal) (p : Parser α) (f : Option α → Parser β) :
    ifAhead pattern p >>= f = firstOf [⟨pattern, p >>= fun a => f (some a)⟩] (f none) := by
  rw [ifAhead, bind_assoc, ahead_bind_eq]
  simp

/-- What is behind a pattern is read, or nothing is. -/
theorem after_eq (pattern : List Terminal) (p : Parser α) :
    after pattern p = firstOf [.behind pattern (some <$> p)] (pure none) :=
  eatAll_bind_eq pattern _

/-- What begins with a pattern is read, or nothing is. -/
theorem ifAhead_eq (pattern : List Terminal) (p : Parser α) :
    ifAhead pattern p = firstOf [⟨pattern, some <$> p⟩] (pure none) :=
  ahead_bind_eq pattern _

/-! ## Behind a pattern -/

/-- Where the pattern comes next, the parser stops behind it. -/
def Reaches (pattern : List Terminal) (p : Parser α) : Prop :=
  ∀ ls, Terminal.opens pattern ls = true → p.leaves ls <:+ ls.drop pattern.length

namespace Reaches

/-- A pattern that begins in front of `bad` and ends in it is left behind, so the parser does not
stop in front of `bad`. -/
theorem ne_append (h : Reaches pattern p) (hopens : Terminal.opens pattern (ls ++ bad) = true)
    (hlt : ls.length < pattern.length) (mid : List Lexeme) : p.leaves (ls ++ bad) ≠ mid ++ bad := by
  intro hleaves
  have hle := (h _ hopens).length_le
  have hpattern := Terminal.length_le_of_opens hopens
  rw [hleaves, List.length_append, List.length_drop] at hle
  rw [List.length_append] at hle hpattern
  omega

/-- A parser that goes forward reaches the empty pattern. -/
theorem nil (hp : Forward p) : Reaches [] p :=
  fun ls _ => hp ls

/-- What goes forward from behind the pattern stays behind it. -/
theorem bind {f : α → Parser β} (hp : Reaches pattern p) (hf : ∀ a, Forward (f a)) :
    Reaches pattern (p >>= f) := by
  intro ls hopens
  have hleaves := hp ls hopens
  cases h : p ls with
  | error e =>
    rw [leaves_of_error (bind_of_error h)]
    rwa [leaves_of_error h] at hleaves
  | ok r =>
    obtain ⟨a, mid⟩ := r
    rw [leaves_of_ok h] at hleaves
    rw [leaves_bind_of_ok h]
    exact (hf a mid).trans hleaves

theorem map (hp : Reaches pattern p) (g : α → β) : Reaches pattern (g <$> p) :=
  have h : Reaches pattern (p >>= fun a => Pure.pure (g a)) := hp.bind fun _ => .pure _
  h

theorem glued {p : Parser Unit} (hp : Reaches pattern p) : Reaches pattern (glued p) := by
  intro ls hopens
  rw [leaves_glued]
  exact hp ls hopens

/-- A parser that is run where the pattern comes next stops behind it then. -/
theorem ifAhead (hp : Reaches pattern p) : Reaches pattern (ifAhead pattern p) := by
  intro ls hopens
  rw [ifAhead_eq]
  unfold leaves
  rw [firstOf_cons, if_pos hopens]
  exact hp.map some ls hopens

/-- A parser that is run behind the skipped pattern stops there or later. -/
theorem behind (hp : Forward p) : Reaches pattern (Branch.behind pattern p).body := by
  intro ls _
  exact hp (ls.drop pattern.length)

/-- Skipping the front of a pattern leaves its end to be reached. -/
theorem skip_bind {n : Nat} (hle : n ≤ pattern.length) (hp : Reaches (pattern.drop n) p) :
    Reaches pattern (skip n >>= fun _ => p) := by
  intro ls hopens
  have hleaves : (skip n >>= fun _ => p).leaves ls <:+ (ls.drop n).drop (pattern.drop n).length :=
    hp (ls.drop n) (Terminal.opens_drop hopens n)
  rwa [List.drop_drop, List.length_drop, Nat.add_sub_cancel' hle] at hleaves

/-- A parser that takes what the first terminal accepts, and goes on behind it. -/
theorem of_taken {f : α → Parser β} (hp : ∀ l ls, t.accepts l.token = true →
    ∃ a, p (l :: ls) = .ok (a, ls) ∧ Reaches pattern (f a)) : Reaches (t :: pattern) (p >>= f) := by
  intro ls hopens
  obtain ⟨l, ls, rfl, hl, hpattern⟩ := Terminal.opens_cons.1 hopens
  obtain ⟨a, hok, hf⟩ := hp l ls hl
  rw [leaves_bind_of_ok hok]
  exact hf ls hpattern

/-- A demanded terminal is there where the pattern begins with it. -/
theorem expect_bind {f : Unit → Parser β} (hf : Reaches pattern (f ())) :
    Reaches (t :: pattern) (expect t >>= f) :=
  .of_taken fun _ _ hl => ⟨(), expect_cons hl, hf⟩

/-- A terminal that may be left out is there where the pattern begins with it. -/
theorem eat_bind {f : Bool → Parser β} (hf : Reaches pattern (f true)) :
    Reaches (t :: pattern) (eat t >>= f) :=
  .of_taken fun _ _ hl => ⟨true, eat_cons hl, hf⟩

/-- A test for another terminal takes nothing. -/
theorem eat_bind_other {u : Terminal} {f : Bool → Parser β}
    (h : ∀ v, t.accepts v = true → u.accepts v = false) (hf : Reaches (t :: pattern) (f false)) :
    Reaches (t :: pattern) (eat u >>= f) := by
  intro ls hopens
  obtain ⟨l, rest, rfl, hl, -⟩ := Terminal.opens_cons.1 hopens
  rw [leaves_bind_of_ok (eat_cons_other (h _ hl))]
  exact hf _ hopens

/-- A token that is read by its value is taken if the terminal accepts only tokens with a value. -/
theorem token_bind {value : Token → Option α} {e : Expected} {f : α → Parser β}
    (hvalue : ∀ u, t.accepts u = true → ∃ a, value u = some a) (hf : ∀ a, Reaches pattern (f a)) :
    Reaches (t :: pattern) (token e value >>= f) := by
  refine .of_taken fun l ls hl => ?_
  obtain ⟨a, ha⟩ := hvalue _ hl
  exact ⟨a, token_eq_ok.2 ⟨l, rfl, ha⟩, hf a⟩

/-- The text behind an open parenthesis is left behind up to the closing one. -/
theorem parenthesized : Reaches [.symbol .openParen] parenthesized := by
  intro ls hopens
  obtain ⟨l, ls, rfl, hl, -⟩ := Terminal.opens_cons.1 hopens
  have hl : l.token = .symbol .openParen := by simpa [Terminal.accepts] using hl
  unfold leaves
  rw [parenthesized_cons hl]
  cases h : closeParens 0 ls with
  | none => exact List.nil_suffix
  | some rest => exact (Seam.closeParens_continues (s := Seam.textEnd) h).1

end Reaches

end Parser

end TableSchema
