import TableSchema.Proofs.Grammar.Agreement

/-!
# Where parsers stop

A parser stops at a place of its text: behind what it took when it succeeds, and in front of the
lexeme that does not fit when it fails. It never goes back behind the place where it began. That two
runs on one text agree says so already: as many lexemes are behind both, wherever they stop.

## Main definitions

* `leaves`: the lexemes left where a parser stops;
* `Forward`: the parser stops at a place of its text, and not before it began;
* `Consumes`, `Advances`: the parser takes a lexeme when it succeeds, or when it gives something.

## Main results

* `Agree.forward`: a parser that agrees with itself goes forward;
* `Forward.exists_index`, `Forward.taken`: its places and its slices, counted in the whole text;
* `many_of_advances`: a repetition whose step advances is a plain one.
-/

namespace TableSchema

namespace Parser

variable {α β : Type} {p : Parser α} {ls rest : List Lexeme}

/-- The lexemes left where the parser stops, behind what it took or at its failure. -/
def leaves (p : Parser α) (ls : List Lexeme) : List Lexeme :=
  match p ls with
  | .ok (_, rest) => rest
  | .error f => f.rest

/-- The parser stops where it began or behind that place. -/
def Forward (p : Parser α) : Prop :=
  ∀ ls, p.leaves ls <:+ ls

/-- The parser takes a lexeme when it succeeds. -/
def Consumes (p : Parser α) : Prop :=
  ∀ ls a rest, p ls = .ok (a, rest) → rest.length < ls.length

/-- The parser takes a lexeme when it gives something. -/
def Advances (step : Parser (Option α)) : Prop :=
  ∀ ls a rest, step ls = .ok (some a, rest) → rest.length < ls.length

/-- What a successful run leaves is behind what it took. -/
theorem leaves_of_ok {a : α} (h : p ls = .ok (a, rest)) : p.leaves ls = rest := by
  rw [leaves, h]

/-- A run that fails leaves what begins at the place of the failure. -/
theorem leaves_of_error {f : Failure} (h : p ls = .error f) : p.leaves ls = f.rest := by
  rw [leaves, h]

/-- A sequence stops where its second part does, if the first one succeeds. -/
theorem leaves_bind_of_ok {f : α → Parser β} {a : α} {mid : List Lexeme} (h : p ls = .ok (a, mid)) :
    (p >>= f).leaves ls = (f a).leaves mid := by
  rw [leaves, bind_of_ok h, leaves]

/-! ## Forward -/

/-- What is left behind a parser is the end of what it was given. -/
theorem Forward.suffix_of_ok (h : Forward p) {a : α} (hok : p ls = .ok (a, rest)) : rest <:+ ls :=
  leaves_of_ok hok ▸ h ls

/-- What is left at a failure is the end of what the parser was given. -/
theorem Forward.suffix_of_error (h : Forward p) {f : Failure} (herror : p ls = .error f) :
    f.rest <:+ ls :=
  leaves_of_error herror ▸ h ls

/-- Counted from the front of the whole text, a parser stops between the place where it began and
the end. -/
theorem Forward.exists_index (h : Forward p) {text : List Lexeme} {k : Nat} (hk : k ≤ text.length) :
    ∃ n, k ≤ n ∧ n ≤ text.length ∧ p.leaves (text.drop k) = text.drop n := by
  obtain ⟨front, hfront⟩ := h (text.drop k)
  have hlength := congrArg List.length hfront
  rw [List.length_append, List.length_drop] at hlength
  refine ⟨k + front.length, Nat.le_add_right _ _, by omega, ?_⟩
  rw [← List.drop_drop]
  conv_rhs => rw [← hfront, List.drop_left]

/-- The tokens taken are those between the two places. -/
theorem Forward.taken {p : Parser Unit} (h : Forward p) {text : List Lexeme} {k : Nat}
    (hk : k ≤ text.length) (hok : p (text.drop k) = .ok ((), rest)) :
    ∃ n, k ≤ n ∧ n ≤ text.length ∧ rest = text.drop n ∧
      taken p (text.drop k) = .ok (Lexeme.tokens ((text.take n).drop k), rest) := by
  obtain ⟨n, hkn, hn, hleaves⟩ := h.exists_index hk
  rw [leaves_of_ok hok] at hleaves
  refine ⟨n, hkn, hn, hleaves, taken_eq_ok.2 ⟨hok, ?_⟩⟩
  have hcount : (text.drop k).length - rest.length = n - k := by
    rw [hleaves, List.length_drop, List.length_drop]
    omega
  rw [hcount, List.take_drop, Nat.add_sub_cancel' hkn]

theorem Forward.pure (a : α) : Forward (pure a : Parser α) :=
  fun ls => List.suffix_refl ls

/-- A sequence goes forward if its parts do. -/
theorem Forward.bind {f : α → Parser β} (hp : Forward p) (hf : ∀ a, Forward (f a)) :
    Forward (p >>= f) := by
  intro ls
  cases h : p ls with
  | error e =>
    rw [leaves_of_error (bind_of_error h)]
    exact hp.suffix_of_error h
  | ok r =>
    obtain ⟨a, mid⟩ := r
    have hbind : (p >>= f).leaves ls = (f a).leaves mid := by
      rw [leaves, bind_of_ok h, leaves]
    rw [hbind]
    exact (hf a mid).trans (hp.suffix_of_ok h)

/-- Leaving out the value does not change where a parser stops. -/
theorem Forward.discard (hp : Forward p) : Forward (discard p) :=
  hp.bind fun _ => .pure ()

/-- A function of the value does not change where a parser stops. -/
theorem Forward.map {g : α → β} (hp : Forward p) : Forward (g <$> p) :=
  have h : Forward (p >>= fun a => Pure.pure (g a)) := hp.bind fun _ => .pure _
  h

/-- The text of a rule is taken where the rule is. -/
theorem leaves_glued (p : Parser Unit) (ls : List Lexeme) : (glued p).leaves ls = p.leaves ls := by
  unfold leaves
  cases hp : p ls with
  | error e => rw [glued_eq_error.2 hp]
  | ok r => rw [glued_eq_ok.2 ⟨hp, rfl⟩]

/-- Keeping the text of what is taken does not change where a parser stops. -/
theorem Forward.glued {p : Parser Unit} (hp : Forward p) : Forward (glued p) :=
  fun ls => leaves_glued p ls ▸ hp ls

/-- The text with blanks between its words is kept where the parser stops. -/
theorem Forward.spaced {p : Parser Unit} (hp : Forward p) : Forward (spaced p) := by
  have htaken : Forward (Parser.taken p) := by
    intro ls
    have hleaves : (Parser.taken p).leaves ls = p.leaves ls := by
      simp only [leaves, Parser.taken]
      cases p ls <;> rfl
    exact hleaves ▸ hp ls
  exact htaken.bind fun _ => .pure _

/-- What passes over lexemes stops at one of them, or at the end. -/
theorem Forward.skipUntil (stop : List Lexeme → Bool) : Forward (skipUntil stop) :=
  dropUntil_suffix stop 0

/-! ## Consumes and advances -/

/-- What takes a lexeme does not leave the text as it is. -/
theorem Consumes.ne_ok_self (hp : Consumes p) (a : α) (ls : List Lexeme) : p ls ≠ .ok (a, ls) :=
  fun h => Nat.lt_irrefl _ (hp ls a ls h)

/-- A demanded terminal is a lexeme. -/
theorem Consumes.expect (t : Terminal) : Consumes (expect t) := by
  intro ls u rest h
  obtain ⟨l, rfl, -⟩ := expect_eq_ok.1 h
  exact Nat.lt_succ_self _

/-- A demanded token is a lexeme. -/
theorem Consumes.token (e : Expected) (value : Token → Option α) : Consumes (token e value) := by
  intro ls a rest h
  obtain ⟨l, rfl, -⟩ := token_eq_ok.1 h
  exact Nat.lt_succ_self _

/-- A sequence takes a lexeme if its first part does. -/
theorem Consumes.bind {f : α → Parser β} (hp : Consumes p) (hf : ∀ a, Forward (f a)) :
    Consumes (p >>= f) := by
  intro ls b rest h
  obtain ⟨a, mid, ha, hb⟩ := bind_eq_ok.1 h
  exact Nat.lt_of_le_of_lt ((hf a).suffix_of_ok hb).length_le (hp ls a mid ha)

/-- A sequence takes a lexeme if its second part does. -/
theorem Consumes.of_bind {f : α → Parser β} (hp : Forward p) (hf : ∀ a, Consumes (f a)) :
    Consumes (p >>= f) := by
  intro ls b rest h
  obtain ⟨a, mid, ha, hb⟩ := bind_eq_ok.1 h
  exact Nat.lt_of_lt_of_le (hf a mid b rest hb) (hp.suffix_of_ok ha).length_le

/-- The text that is kept is that of a lexeme at least. -/
theorem Consumes.glued {p : Parser Unit} (hp : Consumes p) : Consumes (glued p) :=
  fun ls _ rest h => hp ls () rest (glued_eq_ok.1 h).1

/-- A parenthesis is not empty. -/
theorem Consumes.parenthesized : Consumes parenthesized :=
  (Consumes.expect _).bind fun _ ls => by
    cases h : closeParens 0 ls with
    | none => simp [leaves, h]
    | some rest => simpa [leaves, h] using (Seam.closeParens_continues (s := Seam.textEnd) h).1

/-- The alternative takes a lexeme where its opener comes next. -/
def Branch.Consumes (b : Branch α) : Prop :=
  ∀ ls a rest, Terminal.opens b.opener ls = true → b.body ls = .ok (a, rest) →
    rest.length < ls.length

/-- An alternative that leaves out part of its opener takes a lexeme. -/
theorem Branch.Consumes.of_skip {opener : List Terminal} {n : Nat} {f : Unit → Parser α}
    (hne : opener ≠ []) (hn : 0 < n) (hf : ∀ u, Forward (f u)) :
    (Branch.mk opener (skip n >>= f)).Consumes := by
  intro ls a rest hopens h
  obtain ⟨t, ts, rfl⟩ := List.exists_cons_of_ne_nil hne
  obtain ⟨l, ls, rfl, -, -⟩ := Terminal.opens_cons.1 hopens
  obtain ⟨u, mid, hskip, h⟩ := bind_eq_ok.1 h
  obtain rfl : (l :: ls).drop n = mid := congrArg Prod.snd (Except.ok.inj hskip)
  calc rest.length ≤ ((l :: ls).drop n).length := ((hf u).suffix_of_ok h).length_le
    _ = (l :: ls).length - n := List.length_drop
    _ < (l :: ls).length := Nat.sub_lt (Nat.succ_pos _) hn

/-- An alternative that leaves its opener out takes a lexeme. -/
theorem Branch.Consumes.behind {opener : List Terminal} (hne : opener ≠ []) (hp : Forward p) :
    (Branch.behind opener p).Consumes :=
  .of_skip hne (List.length_pos_iff.2 hne) fun _ => hp

/-- An alternative whose parser takes a lexeme does so. -/
theorem Branch.Consumes.of_body {opener : List Terminal} (hp : Parser.Consumes p) :
    (Branch.mk opener p).Consumes :=
  fun ls a rest _ h => hp ls a rest h

/-- A token that may be left out is given only if it is there. -/
theorem Advances.token? (value : Token → Option α) : Advances (token? value) := by
  intro ls a rest h
  obtain ⟨l, -, rfl, -, -⟩ | ⟨hnone, -⟩ := token?_eq_ok.1 h
  · exact Nat.lt_succ_self _
  · cases hnone

/-- What stands behind a pattern is given together with the pattern. -/
theorem Advances.after {pattern : List Terminal} (hne : pattern ≠ []) (hp : Forward p) :
    Advances (after pattern p) := by
  intro ls a rest h
  obtain ⟨hopens, a', ha', -⟩ | ⟨-, hnone, -⟩ := after_eq_ok.1 h
  · have hle := (hp.suffix_of_ok ha').length_le
    have hpattern := Terminal.length_le_of_opens hopens
    have hpos := List.length_pos_iff.2 hne
    rw [List.length_drop] at hle
    omega
  · cases hnone

/-- A choice between alternatives that take a lexeme takes one, if it is made. -/
theorem Advances.choose? {bs : List (Branch α)} (h : ∀ b ∈ bs, b.Consumes) :
    Advances (choose? bs) := by
  intro ls a rest hok
  obtain ⟨b, hb, hopens, a', ha', -⟩ | ⟨hnone, -⟩ := choose?_eq_ok hok
  · exact h b hb ls a' rest hopens ha'
  · cases hnone

/-- A choice that has to be made takes a lexeme. -/
theorem Consumes.choose {bs : List (Branch α)} {e : Expected} (h : ∀ b ∈ bs, b.Consumes) :
    Consumes (choose e bs) := by
  intro ls a rest hok
  obtain ⟨b, hb, hopens, ha⟩ := choose_eq_ok hok
  exact h b hb ls a rest hopens ha

/-- A repetition whose step advances is a plain one: as long as the step gives something it goes on
behind it. -/
theorem many_of_advances {step : Parser (Option α)} (h : Advances step) (ls : List Lexeme) :
    many step ls =
      match step ls with
      | .error e => .error e
      | .ok (none, rest) => .ok ([], rest)
      | .ok (some a, rest) =>
        match many step rest with
        | .error e => .error e
        | .ok (as, rest) => .ok (a :: as, rest) := by
  -- A step that gives something has left fewer lexemes, so the guard of the repetition holds.
  rw [many_eq]
  cases hstep : step ls with
  | error e => rfl
  | ok r =>
    obtain ⟨a?, rest⟩ := r
    cases a? with
    | none => rfl
    | some a => exact if_pos (h ls a rest hstep)

/-- So a repetition is its step and then the repetition again. -/
theorem many_eq_bind {step : Parser (Option α)} (h : Advances step) :
    many step = step >>= fun a? =>
      match a? with
      | none => pure []
      | some a => (a :: ·) <$> many step := by
  funext ls
  rw [many_of_advances h]
  cases hstep : step ls with
  | error e => exact (bind_of_error hstep).symm
  | ok r =>
    rw [bind_of_ok hstep]
    obtain ⟨_ | a, rest⟩ := r
    · rfl
    · dsimp only
      cases hmany : many step rest with
      | error e => exact (map_eq_error.2 hmany).symm
      | ok r => exact (map_eq_ok.2 ⟨_, hmany, rfl⟩).symm

/-- A repetition goes forward as its step does. -/
theorem Forward.many {step : Parser (Option α)} (h : Forward step) : Forward (many step) := by
  -- The induction is on how many lexemes are left, since a repetition goes on only with fewer.
  intro ls
  induction hn : ls.length using Nat.strongRecOn generalizing ls with
  | ind n ih =>
    cases hstep : step ls with
    | error e =>
      rw [leaves_of_error (many_of_error hstep)]
      exact h.suffix_of_error hstep
    | ok r =>
      obtain ⟨_ | a, rest⟩ := r
      · rw [leaves_of_ok (many_of_none hstep)]
        exact h.suffix_of_ok hstep
      · have hrest := h.suffix_of_ok hstep
        by_cases hlt : rest.length < ls.length
        · have hlater := (ih rest.length (hn ▸ hlt) rest rfl).trans hrest
          cases hmany : Parser.many step rest with
          | error e =>
            rw [leaves_of_error (many_of_some_error hstep hlt hmany)]
            rwa [leaves_of_error hmany] at hlater
          | ok r =>
            rw [leaves_of_ok (many_of_some hstep hlt hmany)]
            rwa [leaves_of_ok hmany] at hlater
        · rw [leaves_of_ok (many_of_stuck hstep (Nat.not_lt.1 hlt))]
          exact hrest

end Parser

namespace Likeness

open TableSchema.Parser

variable {α γ : Type}

/-- A text that is kept as it is is seen part by part. -/
theorem id_append {s s' t t' : String} (h : id s = id s') (h' : id t = id t') :
    id (s ++ t) = id (s' ++ t') :=
  congrArg₂ (· ++ ·) h h'

/-- Equal lexemes are alike. -/
def same : Likeness where
  alike := (· = ·)
  name := id
  content := id
  shape_eq := fun h => by rw [h]
  bareWord_eq := fun h => by rw [h]
  name_text := fun h => by rw [h]
  content_text := fun h _ => by rw [h]
  name_append := @id_append
  content_append := @id_append
  line_iff := fun hl hm _ => by rw [hl, hm]

/-- A parser that agrees with itself goes forward. -/
theorem Agree.forward {view : α → γ} {p : Parser α} (h : same.Agree view p p) : Forward p := by
  intro ls
  rcases h ls ls (List.forall₂_same.2 fun _ _ => rfl) with ⟨n, a, -, -, hok, -⟩ | ⟨n, e, herror, -⟩
  · rw [leaves_of_ok hok]
    exact List.drop_suffix n ls
  · rw [leaves_of_error herror]
    exact List.drop_suffix n ls

end Likeness

namespace Parser

open TableSchema.Likeness

variable {α β : Type} {p : Parser α}

/-- A failure stops where it began. -/
theorem Forward.fail (e : Expected) : Forward (fail e : Parser α) :=
  have h : same.Agree id (Parser.fail e : Parser α) (Parser.fail e) := .fail e
  h.forward

/-- A question about the text takes nothing of it. -/
theorem Forward.asks (question : List Lexeme → Bool) : Forward (asks question) :=
  fun ls => List.suffix_refl ls

/-- Skipping stops at the end of the text at the latest. -/
theorem Forward.skip (n : Nat) : Forward (skip n) :=
  (Agree.skip n).forward

/-- A pattern is skipped, or nothing is. -/
theorem Forward.eatAll (pattern : List Terminal) : Forward (eatAll pattern) :=
  (Agree.eatAll pattern).forward

theorem Forward.expect (t : Terminal) : Forward (expect t) :=
  (Agree.expect t).forward

theorem Forward.token? (value : Token → Option α) : Forward (token? value) :=
  have h : same.Agree (Option.map id) (Parser.token? value) (Parser.token? value) :=
    .token? fun _ _ h => by rw [h]
  h.forward

theorem Forward.token (e : Expected) (value : Token → Option α) : Forward (token e value) :=
  have h : same.Agree id (Parser.token e value) (Parser.token e value) :=
    .token e fun _ _ h => by rw [h]
  h.forward

/-- A run of tokens stops behind the last one. -/
theorem Forward.tokenRun (value : Token → Option α) : Forward (tokenRun value) :=
  have h : same.Agree (List.map id) (Parser.tokenRun value) (Parser.tokenRun value) :=
    .tokenRun fun _ _ h => by rw [h]
  h.forward

/-- A text in parentheses stops behind its closing parenthesis, or at the end. -/
theorem Forward.parenthesized : Forward parenthesized :=
  Agree.parenthesized.forward

/-- Both branches of a decision that does not look at the text go forward. -/
theorem Forward.ite {c : Prop} [Decidable c] {q : Parser α} (hp : Forward p) (hq : Forward q) :
    Forward (if c then p else q) := by
  split
  · exact hp
  · exact hq

end Parser

end TableSchema
