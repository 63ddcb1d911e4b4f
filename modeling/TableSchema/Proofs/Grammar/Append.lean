import TableSchema.Proofs.Grammar.Enclosed

/-!
# Text in front of other text

A parser reads a text in front of other lexemes as it reads the text alone, if what it takes cannot
run on into those lexemes. At a seam a mark prevents this. Here the lexemes that follow begin with a
word instead, and it is none of the words that the parser looks for.

## Main definitions

* `Terminal.Apart`: a pattern that cannot run into the lexemes that follow;
* `Lexeme.LedOutside`: lexemes that begin with a word that is none of the given ones;
* `Parser.Appends`, `Parser.AppendsIf`: the parser leaves the lexemes that follow one text, with
  every outcome or with those of interest;
* `Parser.Ends`: it leaves them behind every text.

## Main results

* `Lexeme.LedOutside.apart`: patterns of the given words cannot run into the lexemes;
* `Ends.bind`, `Ends.many`, `Ends.list` and the other lemmas here: each way of putting parsers
  together leaves what its parts leave.
-/

namespace TableSchema

namespace Terminal

variable {pattern : List Terminal} {tail : List Lexeme}

/-- No end of the pattern comes next, so the pattern cannot run into these lexemes. -/
def Apart (pattern : List Terminal) (tail : List Lexeme) : Prop :=
  ∀ later, later <:+ pattern → later ≠ [] → opens later tail = false

/-- The end of a pattern that is apart from the text is so too. -/
theorem Apart.of_cons {t : Terminal} (h : Apart (t :: pattern) tail) : Apart pattern tail :=
  fun later hlater => h later (hlater.trans (List.suffix_cons t pattern))

theorem Apart.cons {t : Terminal} (ht : opens (t :: pattern) tail = false)
    (h : Apart pattern tail) : Apart (t :: pattern) tail := by
  intro later hlater hne
  obtain rfl | hlater := List.suffix_cons_iff.1 hlater
  · exact ht
  · exact h later hlater hne

theorem Apart.nil : Apart [] tail := by
  intro later hlater hne
  exact absurd (List.suffix_nil.1 hlater) hne

theorem Apart.of_tail (h : opens pattern tail = false) (hlater : Apart pattern.tail tail) :
    Apart pattern tail := by
  cases pattern with
  | nil => exact .nil
  | cons t pattern => exact .cons h hlater

/-- A pattern that cannot run into what follows comes next as it does without it. -/
theorem Apart.opens_append (h : Apart pattern tail) (ls : List Lexeme) :
    opens pattern (ls ++ tail) = opens pattern ls := by
  induction pattern generalizing ls with
  | nil => rfl
  | cons t pattern ih =>
    cases ls with
    | nil => exact h _ (List.suffix_refl _) (List.cons_ne_nil t pattern)
    | cons l ls => rw [List.cons_append, opens, opens, ih h.of_cons]

/-- In front of a lexeme only the terminals behind the first one can run into what follows. -/
theorem Apart.opens_cons_append (h : Apart pattern.tail tail) (l : Lexeme) (ls : List Lexeme) :
    opens pattern (l :: ls ++ tail) = opens pattern (l :: ls) := by
  cases pattern with
  | nil => rfl
  | cons t pattern =>
    have hlater : Apart pattern tail := h
    rw [List.cons_append, opens, opens, hlater.opens_append]

/-- The terminal is one of the words, or a symbol. -/
def within (words : List String) : Terminal → Bool
  | keyword spelling => words.contains spelling
  | word spelling => decide (Text.IsSpelling spelling) && words.contains spelling
  | symbol _ => true

/-- The terminal is a word, and it is none of the given ones. -/
def outside (words : List String) : Terminal → Bool
  | keyword spelling => !words.contains spelling
  | word spelling => decide (Text.IsSpelling spelling) && !words.contains spelling
  | symbol _ => false

end Terminal

/-- The lexemes begin with a bare word that is none of the given ones, if they begin at all. -/
def Lexeme.LedOutside (words : List String) (ls : List Lexeme) : Prop :=
  ∀ l ∈ ls.head?, (∃ value, l.token = .word none value) ∧
    ∀ word ∈ words, (Terminal.keyword word).accepts l.token = false

namespace Lexeme.LedOutside

variable {words others : List String} {tail : List Lexeme}

/-- Where nothing follows, no word does. -/
theorem nil : LedOutside words [] :=
  nofun

/-- A pattern that begins with another word does not come next with one of the words. -/
theorem of_opens {pattern : List Terminal}
    (hpattern : pattern.head?.any (Terminal.outside words) = true)
    (h : Terminal.opens pattern tail = true) : LedOutside words tail := by
  obtain ⟨t, hhead, ht⟩ := (Option.any_eq_true _ _).1 hpattern
  obtain ⟨pattern, rfl⟩ := List.head?_eq_some_iff.1 hhead
  obtain ⟨l, tail, rfl, hl, -⟩ := Terminal.opens_cons.1 h
  obtain ⟨word, hword, haccepts⟩ :
      ∃ word, word ∉ words ∧ (Terminal.keyword word).accepts l.token = true := by
    -- The first terminal is a word that is not among the given ones.
    cases t with
    | keyword spelling => exact ⟨spelling, by simpa [Terminal.outside] using ht, hl⟩
    | word spelling =>
      obtain ⟨hspelling, hmem⟩ : Text.IsSpelling spelling ∧ spelling ∉ words := by
        simpa [Terminal.outside] using ht
      exact ⟨spelling, hmem, Terminal.keyword_accepts_of_word hspelling hl⟩
    | symbol s => exact absurd ht Bool.false_ne_true
  rintro _ ⟨⟩
  refine ⟨Terminal.bareWord_of_accepts haccepts nofun, fun other hother => ?_⟩
  exact Terminal.keyword_accepts_other haccepts fun heq => hword (heq ▸ hother)

/-- What begins with none of some words begins with none of fewer. -/
theorem mono (h : LedOutside words tail) (hsub : others ⊆ words) : LedOutside others tail :=
  fun l hl => ⟨(h l hl).1, fun word hword => (h l hl).2 word (hsub hword)⟩

/-- None of the words, in any of its forms, and no symbol comes next. -/
theorem not_accepts (h : LedOutside words tail) {t : Terminal} (ht : t.within words = true) :
    ∀ l ∈ tail.head?, t.accepts l.token = false := by
  intro l hl
  obtain ⟨⟨value, hvalue⟩, hwords⟩ := h l hl
  cases t with
  | keyword spelling => exact hwords spelling (by simpa [Terminal.within] using ht)
  | word spelling =>
    obtain ⟨hspelling, hmem⟩ : Text.IsSpelling spelling ∧ spelling ∈ words := by
      simpa [Terminal.within] using ht
    -- What is accepted letter by letter is accepted by its upper case.
    refine Bool.eq_false_iff.2 fun haccepts => ?_
    have hkeyword := Terminal.keyword_accepts_of_word hspelling haccepts
    rw [hwords spelling hmem] at hkeyword
    exact Bool.false_ne_true hkeyword
  | symbol s =>
    rw [hvalue]
    rfl

/-- A pattern of the words does not run into the lexemes. -/
theorem apart (h : LedOutside words tail) {pattern : List Terminal}
    (hpattern : pattern.all (Terminal.within words) = true) : Terminal.Apart pattern tail := by
  induction pattern with
  | nil => exact .nil
  | cons t pattern ih =>
    obtain ⟨ht, hpattern⟩ := (Bool.and_eq_true _ _).mp hpattern
    refine .cons ?_ (ih hpattern)
    cases tail with
    | nil => rfl
    | cons l tail => rw [Terminal.opens, h.not_accepts ht l rfl, Bool.false_and]

/-- A value that no bare word has does not come next. -/
theorem value_eq_none {α : Type} (h : LedOutside words tail) {value : Token → Option α}
    (hvalue : ∀ text, value (.word none text) = none) : ∀ l ∈ tail.head?, value l.token = none := by
  intro l hl
  obtain ⟨text, htext⟩ := (h l hl).1
  rw [htext, hvalue]

end Lexeme.LedOutside

namespace Parser

variable {α β : Type} {tail ls rest : List Lexeme}

/-! ## One text -/

/-- What the parser accepts of `ls` it accepts in front of `tail`, which it leaves. -/
def Appends (p : Parser α) (ls tail : List Lexeme) : Prop :=
  ∀ a rest, p ls = .ok (a, rest) → rest <:+ ls ∧ p (ls ++ tail) = .ok (a, rest ++ tail)

/-- What the parser accepts of `ls` with an outcome of interest, it accepts in front of `tail`. -/
def AppendsIf (outcome : α → List Lexeme → Prop) (p : Parser α) (ls tail : List Lexeme) : Prop :=
  ∀ a rest, p ls = .ok (a, rest) → outcome a rest →
    rest <:+ ls ∧ p (ls ++ tail) = .ok (a, rest ++ tail)

namespace Appends

variable {p : Parser α}

/-- There is one outcome only. -/
theorem of_ok {a : α} (h : p ls = .ok (a, rest)) (hrest : rest <:+ ls)
    (h' : p (ls ++ tail) = .ok (a, rest ++ tail)) : Appends p ls tail := by
  intro b rest' hb
  obtain ⟨rfl, rfl⟩ := Prod.mk.inj (Except.ok.inj (h.symm.trans hb))
  exact ⟨hrest, h'⟩

/-- Parsers one after the other. -/
theorem bind {f : α → Parser β} (hp : Appends p ls tail)
    (hf : ∀ a mid, p ls = .ok (a, mid) → Appends (f a) mid tail) :
    Appends (p >>= f) ls tail := by
  intro b rest h
  obtain ⟨a, mid, ha, hb⟩ := bind_eq_ok.1 h
  obtain ⟨hmid, ha'⟩ := hp a mid ha
  obtain ⟨hrest, hb'⟩ := hf a mid ha b rest hb
  exact ⟨hrest.trans hmid, by rw [bind_of_ok ha', hb']⟩

/-- A parser that takes nothing and always succeeds. -/
theorem pure (a : α) (ls tail : List Lexeme) : Appends (pure a) ls tail := by
  intro b rest h
  obtain ⟨rfl, rfl⟩ := pure_eq_ok.1 h
  exact ⟨List.suffix_refl _, rfl⟩

/-- A function of the result. -/
theorem map (f : α → β) (hp : Appends p ls tail) : Appends (f <$> p) ls tail := by
  intro b rest h
  obtain ⟨a, ha, rfl⟩ := map_eq_ok.1 h
  obtain ⟨hrest, ha'⟩ := hp a rest ha
  exact ⟨hrest, map_eq_ok.2 ⟨a, ha', rfl⟩⟩

/-- The result is left out. -/
theorem discard (hp : Appends p ls tail) : Appends (discard p) ls tail :=
  hp.bind fun _ _ _ => .pure _ _ _

/-- A question with the same answer in front of the lexemes that follow. -/
theorem asks {question : List Lexeme → Bool} (h : question (ls ++ tail) = question ls) :
    Appends (asks question) ls tail := by
  intro b rest hb
  obtain ⟨rfl, rfl⟩ := asks_eq_ok.1 hb
  exact ⟨List.suffix_refl _, asks_eq_ok.2 ⟨h, rfl⟩⟩

/-- A pattern that is taken if it comes next, when it does so exactly if it did before. -/
theorem eatAll {pattern : List Terminal}
    (h : Terminal.opens pattern (ls ++ tail) = Terminal.opens pattern ls) :
    Appends (eatAll pattern) ls tail := by
  intro b rest hb
  obtain ⟨hopens, rfl⟩ := eatAll_eq_ok.1 hb
  cases b with
  | false => exact ⟨List.suffix_refl _, eatAll_eq_ok.2 ⟨h.trans hopens, rfl⟩⟩
  | true =>
    refine ⟨List.drop_suffix _ _, eatAll_eq_ok.2 ⟨h.trans hopens, ?_⟩⟩
    rw [if_pos rfl, if_pos rfl, List.drop_append_of_le_length (Terminal.length_le_of_opens hopens)]

/-- Lexemes that are there are left out. -/
theorem skip {n : Nat} (h : n ≤ ls.length) : Appends (skip n) ls tail := by
  intro a rest ha
  obtain rfl : ls.drop n = rest := by simpa [Parser.skip] using ha
  refine ⟨List.drop_suffix _ _, ?_⟩
  rw [← List.drop_append_of_le_length h]
  rfl

/-- A token that is looked for in front of another text than one that has it. -/
theorem token? {value : Token → Option α} (h : ls = [] → ∀ l ∈ tail.head?, value l.token = none) :
    Appends (token? value) ls tail := by
  intro a? rest ha
  obtain ⟨l, a, rfl, hl, rfl⟩ | ⟨rfl, rfl, hnone⟩ := token?_eq_ok.1 ha
  · exact ⟨List.suffix_cons l rest, token?_eq_ok.2 (.inl ⟨l, a, rfl, hl, rfl⟩)⟩
  · refine ⟨List.suffix_refl _, token?_eq_ok.2 (.inr ⟨rfl, rfl, ?_⟩)⟩
    cases ls with
    | nil => exact h rfl
    | cons l ls => exact hnone

/-- An alternative whose opener comes next and is left out. -/
theorem behind {opener : List Terminal} (hopens : Terminal.opens opener ls = true)
    (hp : ∀ ls, Appends p ls tail) : Appends (Branch.behind opener p).body ls tail :=
  (Appends.skip (Terminal.length_le_of_opens hopens)).bind fun _ mid _ => hp mid

/-- An alternative whose opener is the first token, which is left out. -/
theorem behind_cons {t : Terminal} {l : Lexeme} (hp : Appends p ls tail) :
    Appends (Branch.behind [t] p).body (l :: ls) tail := by
  refine Appends.bind (.skip (by simp)) fun _ mid hmid => ?_
  obtain rfl : ls = mid := by simpa [Parser.skip] using hmid
  exact hp

/-- The tokens that are taken do not depend on what is left. -/
theorem taken {p : Parser Unit} (hp : Appends p ls tail) : Appends (taken p) ls tail := by
  intro ts mid htaken
  obtain ⟨hrun, rfl⟩ := taken_eq_ok.1 htaken
  obtain ⟨hrest, hrun'⟩ := hp () mid hrun
  refine ⟨hrest, ?_⟩
  -- What is taken is told by the lengths, to which the tail adds the same on both sides.
  have hle := hrest.length_le
  have htake : (ls ++ tail).take ((ls ++ tail).length - (mid ++ tail).length) =
      ls.take (ls.length - mid.length) := by
    rw [List.length_append, List.length_append,
      show ls.length + tail.length - (mid.length + tail.length) = ls.length - mid.length by omega,
      List.take_append_of_le_length (by omega)]
  exact taken_eq_ok.2 ⟨hrun', by rw [htake]⟩

/-- The text of what is taken. -/
theorem glued {p : Parser Unit} (hp : Appends p ls tail) : Appends (glued p) ls tail :=
  hp.taken.bind fun _ _ _ => .pure _ _ _

/-- The text of what is taken, with spaces. -/
theorem spaced {p : Parser Unit} (hp : Appends p ls tail) : Appends (spaced p) ls tail :=
  hp.taken.bind fun _ _ _ => .pure _ _ _

end Appends

namespace AppendsIf

variable {p : Parser α} {outcome : α → List Lexeme → Prop}

/-- What is read in front of any text is read under any condition. -/
theorem of_appends (hp : Appends p ls tail) : AppendsIf outcome p ls tail :=
  fun a rest h _ => hp a rest h

/-- Only the last of the parsers decides on the outcome. -/
theorem bind {q : Parser β} {f : β → Parser α} (hq : Appends q ls tail)
    (hf : ∀ b mid, mid <:+ ls → AppendsIf outcome (f b) mid tail) :
    AppendsIf outcome (q >>= f) ls tail := by
  intro a rest h houtcome
  obtain ⟨b, mid, hb, ha⟩ := bind_eq_ok.1 h
  obtain ⟨hmid, hb'⟩ := hq b mid hb
  obtain ⟨hrest, ha'⟩ := hf b mid hmid a rest ha houtcome
  exact ⟨hrest.trans hmid, by rw [bind_of_ok hb', ha']⟩

/-- A repeated step, on texts whose ends are such texts. How the step ends the repetition matters
only where the repetition is to end. -/
theorem many {step : Parser (Option α)} {inside final : List Lexeme → Prop}
    (hinside : ∀ {ls rest}, rest <:+ ls → inside ls → inside rest)
    (h : ∀ ls, inside ls → AppendsIf (fun a? rest => a? = none → final rest) step ls tail)
    (hls : inside ls) : AppendsIf (fun _ rest => final rest) (many step) ls tail := by
  -- The induction is on how many lexemes are left before the tail.
  induction hn : ls.length using Nat.strongRecOn generalizing ls with
  | ind n ih =>
    intro as rest has hfinal
    obtain ⟨rfl, hstep⟩ | ⟨a, later, mid, rfl, hstep, hlt, hmany⟩ | ⟨a, rfl, hstep, hle⟩ :=
      many_eq_ok has
    · obtain ⟨hrest, hstep'⟩ := h ls hls none rest hstep fun _ => hfinal
      exact ⟨hrest, many_of_none hstep'⟩
    · obtain ⟨hmid, hstep'⟩ := h ls hls (some a) mid hstep nofun
      obtain ⟨hrest, hmany'⟩ :=
        ih mid.length (hn ▸ hlt) (hinside hmid hls) rfl later rest hmany hfinal
      refine ⟨hrest.trans hmid, many_of_some hstep' ?_ hmany'⟩
      rw [List.length_append, List.length_append]
      omega
    · obtain ⟨hrest, hstep'⟩ := h ls hls (some a) rest hstep nofun
      refine ⟨hrest, many_of_stuck hstep' ?_⟩
      rw [List.length_append, List.length_append]
      omega

end AppendsIf

/-- The same alternative is chosen in front of the tail, and it leaves the tail if it does so where
it is chosen. -/
theorem choose?_append {bs : List (Branch α)} {a? : Option α}
    (hrun : choose? bs ls = .ok (a?, rest))
    (h : ∀ b ∈ bs, Terminal.opens b.opener (ls ++ tail) = Terminal.opens b.opener ls ∧
      (Terminal.opens b.opener ls = true → ∀ a, a? = some a → b.body ls = .ok (a, rest) →
        rest <:+ ls ∧ b.body (ls ++ tail) = .ok (a, rest ++ tail))) :
    rest <:+ ls ∧ choose? bs (ls ++ tail) = .ok (a?, rest ++ tail) := by
  -- The same alternative is chosen in front of the tail, as no opener runs into it.
  induction bs with
  | nil => exact Appends.pure none ls tail a? rest hrun
  | cons b bs ih =>
    obtain ⟨⟨hopener, hb⟩, hbs⟩ := List.forall_mem_cons.1 h
    rw [choose?_cons] at hrun ⊢
    rw [hopener]
    cases hopens : Terminal.opens b.opener ls with
    | true =>
      rw [hopens, if_pos rfl] at hrun
      obtain ⟨a, ha, rfl⟩ := map_eq_ok.1 hrun
      obtain ⟨hrest, ha'⟩ := hb hopens a rfl ha
      exact ⟨hrest, map_eq_ok.2 ⟨a, ha', rfl⟩⟩
    | false =>
      rw [hopens, if_neg Bool.false_ne_true] at hrun
      exact ih hrun hbs

/-- The same holds of a choice that has to be made. -/
theorem choose_append {e : Expected} {bs : List (Branch α)} {a : α}
    (hrun : choose e bs ls = .ok (a, rest))
    (h : ∀ b ∈ bs, Terminal.opens b.opener (ls ++ tail) = Terminal.opens b.opener ls ∧
      (Terminal.opens b.opener ls = true → b.body ls = .ok (a, rest) →
        rest <:+ ls ∧ b.body (ls ++ tail) = .ok (a, rest ++ tail))) :
    rest <:+ ls ∧ choose e bs (ls ++ tail) = .ok (a, rest ++ tail) := by
  obtain ⟨a?, mid, hchoice, hrun⟩ := bind_eq_ok.1 hrun
  cases a? with
  | none => exact absurd hrun fail_eq_ok.1
  | some a =>
    obtain ⟨rfl, rfl⟩ := pure_eq_ok.1 hrun
    have hbody : ∀ b ∈ bs, Terminal.opens b.opener ls = true → ∀ a', some a = some a' →
        b.body ls = .ok (a', mid) → mid <:+ ls ∧ b.body (ls ++ tail) = .ok (a', mid ++ tail) := by
      rintro b hb hopens _ ⟨⟩
      exact (h b hb).2 hopens
    obtain ⟨hrest, hchoice'⟩ := choose?_append hchoice fun b hb => ⟨(h b hb).1, hbody b hb⟩
    exact ⟨hrest, by rw [choose, bind_of_ok hchoice']; rfl⟩

/-! ## Seams -/

namespace Seam

/-- Lexemes with other lexemes behind them go on with the tokens of these. -/
theorem continues_append {s : Seam} (hs : s.tail = Lexeme.tokens tail) (ls : List Lexeme) :
    s.Continues ls (ls ++ tail) := by
  rw [Continues, hs, Lexeme.tokens_append]

/-- What is left of lexemes with others behind them are these others behind what was left. A seam
speaks of tokens only, but ends of one list are equal if they are as long. -/
theorem Continues.eq_append {s : Seam} {rest' : List Lexeme} (h : s.Continues rest rest')
    (hs : s.tail = Lexeme.tokens tail) (hrest : rest <:+ ls) (hrest' : rest' <:+ ls ++ tail) :
    rest' = rest ++ tail := by
  have hsuffix : rest ++ tail <:+ ls ++ tail := by
    obtain ⟨front, rfl⟩ := hrest
    exact ⟨front, (List.append_assoc _ _ _).symm⟩
  have hlength : rest'.length = (rest ++ tail).length := by
    rw [h.length_eq, hs]
    simp
  exact (List.suffix_of_suffix_length_le hrest' hsuffix (Nat.le_of_eq hlength)).eq_of_length hlength

/-- A parser that is steady on a text leaves the lexemes that follow, if what it leaves of the text
is known to the seam. -/
theorem SteadyAt.append {s : Seam} {p : Parser α} (hp : s.SteadyAt p ls)
    (hs : s.tail = Lexeme.tokens tail) {a : α} (h : p ls = .ok (a, rest))
    (hleft : s.left (Lexeme.tokens rest)) :
    rest <:+ ls ∧ p (ls ++ tail) = .ok (a, rest ++ tail) := by
  obtain ⟨hrest, hsteady⟩ := hp a rest h
  obtain ⟨rest', h', hrest', hcontinues⟩ := hsteady hleft _ (continues_append hs ls)
  obtain rfl := hcontinues.eq_append hs hrest hrest'
  exact ⟨hrest, h'⟩

end Seam

/-! ## All texts -/

/-- The parser leaves the lexemes that follow, whatever text stands before them. -/
def Ends (tail : List Lexeme) (p : Parser α) : Prop :=
  ∀ ls, Appends p ls tail

/-- The alternative does not run into what follows: neither its opener does nor what it reads where
the opener comes next. -/
def EndsBranch (tail : List Lexeme) (b : Branch α) : Prop :=
  Terminal.Apart b.opener tail ∧ ∀ ls, Terminal.opens b.opener ls = true → Appends b.body ls tail

namespace EndsBranch

variable {p : Parser α} {pattern : List Terminal}

/-- An alternative that begins by leaving out lexemes of its opener. -/
theorem mk_skip {n : Nat} (h : Terminal.Apart pattern tail) (hn : n ≤ pattern.length)
    (hp : Ends tail p) : EndsBranch tail ⟨pattern, do skip n; p⟩ := by
  refine ⟨h, fun ls hopens => ?_⟩
  have hle := Nat.le_trans hn (Terminal.length_le_of_opens hopens)
  exact (Appends.skip hle).bind fun _ mid _ => hp mid

/-- An alternative whose opener is left out. -/
theorem behind (h : Terminal.Apart pattern tail) (hp : Ends tail p) :
    EndsBranch tail (.behind pattern p) :=
  mk_skip h (Nat.le_refl _) hp

end EndsBranch

namespace Ends

variable {p q : Parser α} {pattern : List Terminal}

/-- A sequence ends where its parts do. -/
theorem bind {f : α → Parser β} (hp : Ends tail p) (hf : ∀ a, Ends tail (f a)) :
    Ends tail (p >>= f) :=
  fun ls => (hp ls).bind fun a mid _ => hf a mid

theorem pure (a : α) : Ends tail (pure a) :=
  fun ls => .pure a ls tail

theorem fail (e : Expected) : Ends tail (fail e : Parser α) :=
  fun _ _ _ h => absurd h fail_eq_ok.1

theorem ite {c : Prop} [Decidable c] (hp : Ends tail p) (hq : Ends tail q) :
    Ends tail (if c then p else q) := by
  split
  · exact hp
  · exact hq

theorem map (f : α → β) (hp : Ends tail p) : Ends tail (f <$> p) :=
  fun ls => (hp ls).map f

theorem discard (hp : Ends tail p) : Ends tail (discard p) :=
  fun ls => (hp ls).discard

/-- The text that is kept does not reach into what follows. -/
theorem glued {p : Parser Unit} (hp : Ends tail p) : Ends tail (glued p) :=
  fun ls => (hp ls).glued

/-! ### Tests and demands -/

/-- A test for a pattern that does not run into what follows. -/
theorem ahead (h : Terminal.Apart pattern tail) : Ends tail (ahead pattern) :=
  fun ls => .asks (h.opens_append ls)

/-- A test for patterns that do not run into what follows. -/
theorem aheadAny {patterns : List (List Terminal)}
    (h : ∀ pattern ∈ patterns, Terminal.Apart pattern tail) : Ends tail (aheadAny patterns) := by
  refine fun ls => .asks ?_
  unfold Terminal.opensAny
  induction patterns with
  | nil => rfl
  | cons pattern patterns ih =>
    obtain ⟨hpattern, hpatterns⟩ := List.forall_mem_cons.1 h
    rw [List.any_cons, List.any_cons, hpattern.opens_append, ih hpatterns]

/-- A pattern that does not run into what follows, taken if it comes next. -/
theorem eatAll (h : Terminal.Apart pattern tail) : Ends tail (eatAll pattern) :=
  fun ls => .eatAll (h.opens_append ls)

/-- A terminal that does not come next behind the text, taken if it comes next. -/
theorem eat {t : Terminal} (h : Terminal.Apart [t] tail) : Ends tail (eat t) :=
  .eatAll h

/-- A demanded terminal. -/
theorem expect (t : Terminal) : Ends tail (expect t) := by
  intro ls u rest h
  obtain ⟨l, rfl, hl⟩ := expect_eq_ok.1 h
  exact ⟨List.suffix_cons l rest, expect_eq_ok.2 ⟨l, rfl, hl⟩⟩

/-- A token that is looked for and does not come next behind the text. -/
theorem token? {value : Token → Option α} (h : ∀ l ∈ tail.head?, value l.token = none) :
    Ends tail (token? value) :=
  fun _ => .token? fun _ => h

/-- A demanded token. -/
theorem token (e : Expected) (value : Token → Option α) : Ends tail (token e value) := by
  intro ls a rest h
  obtain ⟨l, rfl, hl⟩ := token_eq_ok.1 h
  exact ⟨List.suffix_cons l rest, token_eq_ok.2 ⟨l, rfl, hl⟩⟩

/-! ### Repetitions and alternatives -/

/-- A repeated step. -/
theorem many {step : Parser (Option α)} (h : Ends tail step) : Ends tail (many step) := by
  have hstep : ∀ ls, True → AppendsIf (fun a? _ => a? = none → True) step ls tail :=
    fun ls _ => .of_appends (h ls)
  exact fun ls as rest has => AppendsIf.many (fun _ _ => trivial) hstep trivial as rest has trivial

/-- A run of tokens that ends in front of the tail. -/
theorem tokenRun {value : Token → Option α} (h : ∀ l ∈ tail.head?, value l.token = none) :
    Ends tail (tokenRun value) := by
  rw [tokenRun_eq]
  exact (Ends.token? h).many

/-- A parser that is run if a pattern comes next that does not run into what follows. -/
theorem ifAhead (h : Terminal.Apart pattern tail) (hp : Ends tail p) :
    Ends tail (ifAhead pattern p) := by
  refine (Ends.ahead h).bind fun b => ?_
  cases b with
  | false => exact .pure none
  | true => exact hp.map some

/-- A parser behind a pattern that does not run into what follows. -/
theorem after (h : Terminal.Apart pattern tail) (hp : Ends tail p) :
    Ends tail (after pattern p) := by
  refine (Ends.eatAll h).bind fun b => ?_
  cases b with
  | false => exact .pure none
  | true => exact hp.map some

/-- The choice between alternatives that leave what follows. -/
theorem choose? {bs : List (Branch α)} (h : ∀ b ∈ bs, EndsBranch tail b) :
    Ends tail (choose? bs) :=
  fun ls _ rest hrun => choose?_append hrun fun b hb =>
    ⟨(h b hb).1.opens_append ls, fun hopens a _ => (h b hb).2 ls hopens a rest⟩

/-! ### Parentheses -/

/-- A parenthesis with everything up to the one that closes it. -/
theorem parenthesized : Ends tail parenthesized := by
  refine (Ends.expect _).bind fun _ ls a rest h => ?_
  split at h
  · rename_i closed hclosed
    obtain rfl : closed = rest := by simpa using h
    obtain ⟨hrest, hsteady⟩ :=
      Seam.closeParens_continues (s := .inner (Lexeme.tokens tail)) hclosed
    obtain ⟨rest', hclose', hrest', hcontinues⟩ :=
      hsteady (ls ++ tail) (Seam.continues_append rfl ls)
    obtain rfl := hcontinues.eq_append rfl hrest hrest'
    exact ⟨hrest, by simp [hclose']⟩
  · simp at h

/-- Items between parentheses, which are steady inside them. -/
theorem list {item : Parser α} (h : (Seam.inner (Lexeme.tokens tail)).Steady item) :
    Ends tail (list item) := by
  refine (Ends.expect _).bind fun _ ls as rest has => ?_
  obtain ⟨items, mid, hitems, hmid⟩ := bind_eq_ok.1 has
  -- The parenthesis that closes the list is still left where the items end.
  have hleft : (Seam.inner (Lexeme.tokens tail)).left (Lexeme.tokens mid) :=
    closes_expect _ mid as rest hmid
  have hseparated := Seam.Steady.separated (by simp [Seam.inner]) h ls trivial
  obtain ⟨hsuffix, hitems'⟩ := hseparated.append rfl hitems hleft
  have hends : Ends tail (do Parser.expect (.symbol .closeParen); return items) :=
    (Ends.expect _).bind fun _ => .pure items
  obtain ⟨hrest, hclose⟩ := hends mid as rest hmid
  exact ⟨hrest.trans hsuffix, by rw [bind_of_ok hitems', hclose]⟩

end Ends

end Parser

end TableSchema
