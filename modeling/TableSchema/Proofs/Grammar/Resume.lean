import TableSchema.Proofs.Grammar.Forward
import TableSchema.Proofs.Grammar.Parenthesis

/-!
# Texts that are given up

A text is given up at the first lexeme that does not fit. Everything in front of that lexeme can
then be completed: it is the beginning of a text that is read to its end.

This is said of a rule at every place of every text. Let `ls` stand in front of the place, and `bad`
from there on. If the rule succeeds and leaves an end of `ls` in front of `bad`, it reads the same
in front of other lexemes. If it misses something at `bad`, there are tokens with which it succeeds
there, in front of whatever comes then. So what a sequence has read stays read when `bad` is
replaced by what the rest of the sequence needs.

A rule may look at the lexeme behind what it takes, and take that too. So what comes there has to be
one of the tokens that may follow the rule, unless the rule has stopped earlier. A rule is described
by these tokens, and by the first of the tokens that make up for the whole of it where nothing of it
is there. A rule that may be left out is never missed and has no such token.

## Main definitions

* `fillers`, `closers`: the tokens that a text is completed with, and those of them that may follow
  a rule whose end may be left out;
* `ResumableAt`: the rule is resumed at one place of one text;
* `Startable`: there are tokens that the rule succeeds on;
* `Resumable`: the rule is resumed at every place of every text.

## Main results

* `ResumableAt.bind`, `Resumable.bind`: a sequence is resumed as its parts are;
* `Resumable.token`, `Resumable.many`, `Resumable.parenthesized`, `Resumable.glued`: single tokens,
  repetitions, text in parentheses and kept texts.
-/

set_option autoImplicit false

namespace TableSchema

namespace Lexeme

/-- The lexemes begin with one of the tokens, if there are any. -/
def LedBy (samples : List Token) (ls : List Lexeme) : Prop :=
  ∀ l ∈ ls.head?, l.token ∈ samples

namespace LedBy

variable {samples others : List Token} {ls : List Lexeme}

/-- The empty text does not begin with anything else. -/
theorem nil : LedBy samples [] :=
  nofun

theorem cons {l : Lexeme} (h : l.token ∈ samples) : LedBy samples (l :: ls) := by
  rintro _ ⟨⟩
  exact h

/-- What begins with one of some tokens begins with one of more tokens. -/
theorem mono (h : LedBy samples ls) (hsub : samples ⊆ others) : LedBy others ls :=
  fun l hl => hsub (h l hl)

/-- A text that may begin with no token is empty. -/
theorem eq_nil (h : LedBy [] ls) : ls = [] := by
  cases ls with
  | nil => rfl
  | cons l ls => exact absurd (h l rfl) List.not_mem_nil

/-- A completed text begins with the first token of the completion, if there is one. -/
theorem ofTokens_append {ts : List Token} (hts : ∀ t ∈ ts.head?, t ∈ samples)
    (h : ts = [] → LedBy samples ls) : LedBy samples (ofTokens ts ++ ls) := by
  cases ts with
  | nil => exact h rfl
  | cons t ts => exact .cons (hts t rfl)

/-- A completion from the same tokens may stand in front. -/
theorem ofTokens_append_of_subset {ts : List Token} (hts : ts ⊆ samples) (h : LedBy samples ls) :
    LedBy samples (ofTokens ts ++ ls) :=
  .ofTokens_append (fun _ ht => hts (List.mem_of_mem_head? ht)) fun _ => h

end LedBy

end Lexeme

namespace Parser

open Lexeme

variable {α β : Type}

/-! ## Resuming -/

/-- The tokens that may follow a rule whose end may be left out. -/
def closers : List Token := [
  .word none "NULL",
  .symbol .closeParen]

/-- The tokens that a text is completed with. -/
def fillers : List Token := closers ++ [
  .symbol .openParen,
  .symbol .comma,
  .number "0",
  .literal .double "",
  .word (some '\x60') "x",
  .word none "KEY",
  .word none "AS",
  .word none "ALWAYS",
  .word none "CHECK",
  .word none "DEFAULT",
  .word none "VALUE",
  .word none "PARSER",
  .word none "ACTION",
  .word none "REFERENCES",
  .word none "CURRENT_TIMESTAMP",
  .word none "BTREE",
  .word none "FULL",
  .word none "FIXED",
  .word none "DISK",
  .word none "CHAR",
  .word none "NATIONAL"]

/-- The rule is resumed behind `ls` when the lexemes from `bad` on are replaced. What makes up for
the whole rule begins with `start`. -/
structure ResumableAt (start : Option Token) (follows : List Token) (p : Parser α)
    (ls bad : List Lexeme) : Prop where
  /-- What is read in front of `bad` is read in front of other lexemes. -/
  swaps : ∀ a mid, p (ls ++ bad) = .ok (a, mid ++ bad) → ∀ new, LedBy fillers new →
    (mid = [] → LedBy follows new) → p (ls ++ new) = .ok (a, mid ++ new)
  /-- What is missed at `bad` can be supplied. -/
  completes : ∀ e, p (ls ++ bad) = .error ⟨e, bad⟩ → ∃ more a, more ≠ [] ∧ more ⊆ fillers ∧
    (ls = [] → more.head? = start) ∧
    ∀ us, LedBy fillers us → LedBy follows us → p (ls ++ (ofTokens more ++ us)) = .ok (a, us)

/-- Some tokens, with `start` as the first one if there are any, are what the rule needs. -/
def Startable (start : Option Token) (follows : List Token) (p : Parser α) : Prop :=
  ∃ more a, more ⊆ fillers ∧ (more ≠ [] → more.head? = start) ∧
    ∀ us, LedBy fillers us → LedBy follows us → p (ofTokens more ++ us) = .ok (a, us)

/-- The rule is resumed at every place of every text. -/
structure Resumable (start : Option Token) (follows : List Token) (p : Parser α) : Prop where
  /-- The rule goes forward. -/
  forward : Forward p
  /-- A rule that can be missed takes a lexeme. -/
  consumes : start ≠ none → Consumes p
  /-- It is resumed wherever its text is given up. -/
  resumes : ∀ ls bad, ResumableAt start follows p ls bad

variable {start y : Option Token} {x : Token} {follows others : List Token} {p q : Parser α}
  {l : Lexeme} {ls bad rest : List Lexeme}

/-- What is left in front of `bad` is the end of what was there. -/
theorem exists_of_suffix {mid : List Lexeme} (h : mid ++ bad <:+ rest) :
    ∃ front, rest = front ++ mid ++ bad := by
  obtain ⟨front, rfl⟩ := h
  exact ⟨front, (List.append_assoc _ _ _).symm⟩

/-- Nothing in front of `bad` leaves nothing in front of it. -/
theorem eq_nil_of_suffix {mid : List Lexeme} (h : mid ++ bad <:+ [] ++ bad) : mid = [] := by
  have hle := h.length_le
  simp only [List.length_append, List.length_nil] at hle
  exact List.length_eq_zero_iff.1 (by omega)

/-- At the end of the empty text, what a rule needs is all of it. -/
theorem Resumable.startable (h : Resumable start follows p) : Startable start follows p := by
  -- At the end of the empty text the rule either needs nothing or misses its first token.
  cases hp : p [] with
  | ok r =>
    obtain ⟨a, rest⟩ := r
    obtain rfl : rest = [] := List.suffix_nil.1 (h.forward.suffix_of_ok hp)
    exact ⟨[], a, List.nil_subset _, fun hne => absurd rfl hne,
      fun us hus hfollow => (h.resumes [] []).swaps a [] hp us hus fun _ => hfollow⟩
  | error f =>
    obtain ⟨e, rest⟩ := f
    obtain rfl : rest = [] := List.suffix_nil.1 (h.forward.suffix_of_error hp)
    obtain ⟨more, a, -, hsub, hhead, hmore⟩ := (h.resumes [] []).completes e hp
    exact ⟨more, a, hsub, fun _ => hhead rfl, hmore⟩

/-- A rule that takes a lexeme is made up for by one at least. -/
theorem Startable.exists_cons (h : Startable start follows p) (hconsumes : Consumes p) :
    ∃ t more a, start = some t ∧ t :: more ⊆ fillers ∧
      ∀ us, LedBy fillers us → LedBy follows us → p (ofTokens (t :: more) ++ us) = .ok (a, us) := by
  obtain ⟨more, a, hsub, hhead, hok⟩ := h
  cases more with
  | nil => exact absurd (hok [] .nil .nil) (hconsumes.ne_ok_self _ _)
  | cons t more => exact ⟨t, more, a, (hhead (List.cons_ne_nil t more)).symm, hsub, hok⟩

/-- What may be left out is never missed. -/
theorem Resumable.not_missed (h : Resumable none follows p) (ls : List Lexeme) (e : Expected) :
    p ls ≠ .error ⟨e, ls⟩ := by
  intro herror
  obtain ⟨more, a, hne, -, hhead, -⟩ := (h.resumes [] ls).completes e herror
  exact hne (List.head?_eq_none_iff.1 (hhead rfl))

/-- The token that begins what makes up for a rule is one of those at hand. -/
theorem Resumable.mem_fillers (h : Resumable (some x) follows p) : x ∈ fillers := by
  obtain ⟨_, _, _, ⟨⟩, hsub, -⟩ := h.startable.exists_cons (h.consumes nofun)
  exact hsub List.mem_cons_self

/-- A rule that reads what begins with the token as another rule does can be begun as that one. -/
theorem Startable.of_eq (h : Startable (some x) follows q) (hconsumes : Consumes q)
    (heq : ∀ l ls, l.token = x → p (l :: ls) = q (l :: ls)) : Startable (some x) follows p := by
  obtain ⟨_, more, a, ⟨⟩, hsub, hok⟩ := h.exists_cons hconsumes
  refine ⟨x :: more, a, hsub, fun _ => rfl, fun us hus hfollow => ?_⟩
  rw [← hok us hus hfollow]
  exact heq _ _ rfl

/-- Where nothing of a rule that is missed is there, all of it is supplied. -/
theorem Resumable.of_startable (hforward : Forward p) (hconsumes : Consumes p)
    (hstart : Startable (some x) follows p)
    (hne : ∀ ls bad, ls ≠ [] → ResumableAt (some x) follows p ls bad) :
    Resumable (some x) follows p where
  forward := hforward
  consumes _ := hconsumes
  resumes ls bad := by
    by_cases hls : ls = []
    · obtain rfl := hls
      constructor
      · intro a mid h
        obtain rfl := eq_nil_of_suffix (hforward.suffix_of_ok h)
        exact absurd h (hconsumes.ne_ok_self _ _)
      · intro e _
        obtain ⟨_, more, a, ⟨⟩, hsub, hok⟩ := hstart.exists_cons hconsumes
        exact ⟨x :: more, a, List.cons_ne_nil x more, hsub, fun _ => rfl, hok⟩
    · exact hne ls bad hls

/-! ## Places of a text -/

namespace ResumableAt

/-- Behind something it does not matter what would make up for the whole rule. -/
theorem of_ne_nil {other : Option Token} (hls : ls ≠ [])
    (h : ResumableAt start follows p ls bad) : ResumableAt other follows p ls bad where
  swaps := h.swaps
  completes e herror := by
    obtain ⟨more, a, hne, hsub, -, hmore⟩ := h.completes e herror
    exact ⟨more, a, hne, hsub, fun hnil => absurd hnil hls, hmore⟩

/-- A rule that is another one on the texts in question. -/
theorem of_eq (hbad : p (ls ++ bad) = q (ls ++ bad))
    (hnew : ∀ new, LedBy fillers new → p (ls ++ new) = q (ls ++ new))
    (hq : ResumableAt start follows q ls bad) : ResumableAt start follows p ls bad where
  swaps a mid hok new hled hfollow := by
    rw [hbad] at hok
    rw [hnew new hled, hq.swaps a mid hok new hled hfollow]
  completes e herror := by
    rw [hbad] at herror
    obtain ⟨more, a, hne, hsub, hhead, hok⟩ := hq.completes e herror
    refine ⟨more, a, hne, hsub, hhead, fun us hus hfollow => ?_⟩
    have hled : LedBy fillers (ofTokens more ++ us) :=
      .ofTokens_append_of_subset hsub hus
    rw [hnew _ hled, hok us hus hfollow]

/-- A rule that takes the front and goes on as another one. -/
theorem behind {front : List Lexeme} (hne : front ≠ [])
    (h : ∀ rest, p (front ++ (ls ++ rest)) = q (ls ++ rest))
    (hq : ResumableAt start follows q ls bad) :
    ResumableAt y follows p (front ++ ls) bad where
  swaps a mid hok new hnew hled := by
    rw [List.append_assoc, h] at hok ⊢
    exact hq.swaps a mid hok new hnew hled
  completes e herror := by
    rw [List.append_assoc, h] at herror
    obtain ⟨more, a, hmore, hsub, -, hok⟩ := hq.completes e herror
    refine ⟨more, a, hmore, hsub, fun hnil => ?_, fun us hus hfollow => ?_⟩
    · exact absurd (List.append_eq_nil_iff.1 hnil).1 hne
    · rw [List.append_assoc, h, hok us hus hfollow]

/-- A rule that takes one lexeme and goes on as another one. -/
theorem behind_cons (h : ∀ rest, p (l :: (ls ++ rest)) = q (ls ++ rest))
    (hq : ResumableAt start follows q ls bad) : ResumableAt y follows p (l :: ls) bad :=
  have hfront : ResumableAt y follows p ([l] ++ ls) bad := .behind (List.cons_ne_nil l []) h hq
  hfront

/-- A rule that stops inside `bad`. -/
theorem of_leaves (h : ∀ mid, p.leaves (ls ++ bad) ≠ mid ++ bad) :
    ResumableAt start follows p ls bad where
  swaps _ mid hok := absurd (leaves_of_ok hok) (h mid)
  completes _ herror := absurd (leaves_of_error herror) (h [])

/-- A rule that stops inside `bad`, as another one does on this text. -/
theorem of_leaves_of_eq (heq : p (ls ++ bad) = q (ls ++ bad))
    (h : ∀ mid, q.leaves (ls ++ bad) ≠ mid ++ bad) : ResumableAt start follows p ls bad := by
  refine .of_leaves fun mid => ?_
  rw [leaves, heq]
  exact h mid

/-- A rule that misses something earlier. -/
theorem of_missed {e : Expected} (hls : ls ≠ [])
    (h : p (ls ++ bad) = .error ⟨e, ls ++ bad⟩) : ResumableAt start follows p ls bad where
  swaps _ _ hok := nomatch h.symm.trans hok
  completes _ herror := by
    have hrest : ls ++ bad = bad := congrArg Failure.rest (Except.error.inj (h.symm.trans herror))
    exact absurd (List.append_left_eq_self.1 hrest) hls

/-- The fewer tokens may follow, the less is asked of a rule. -/
theorem mono (h : ResumableAt start others p ls bad) (hsub : follows ⊆ others) :
    ResumableAt start follows p ls bad where
  swaps a mid hok new hnew hled := h.swaps a mid hok new hnew fun hnil => (hled hnil).mono hsub
  completes e herror := by
    obtain ⟨more, a, hne, hmore, hhead, hok⟩ := h.completes e herror
    exact ⟨more, a, hne, hmore, hhead, fun us hus hfollow => hok us hus (hfollow.mono hsub)⟩

/-- What is done with the value does not change where the rule is resumed. -/
theorem map (g : α → β) (h : ResumableAt start follows p ls bad) :
    ResumableAt start follows (g <$> p) ls bad where
  swaps b mid hok new hnew hled := by
    obtain ⟨a, ha, rfl⟩ := map_eq_ok.1 hok
    exact map_eq_ok.2 ⟨a, h.swaps a mid ha new hnew hled, rfl⟩
  completes e herror := by
    obtain ⟨more, a, hne, hsub, hhead, hmore⟩ := h.completes e (map_eq_error.1 herror)
    exact ⟨more, g a, hne, hsub, hhead, fun us hus hfollow =>
      map_eq_ok.2 ⟨a, hmore us hus hfollow, rfl⟩⟩

/-- The text that a rule takes is kept wherever the rule is resumed. -/
theorem glued {p : Parser Unit} (hforward : Forward p) (h : ResumableAt start follows p ls bad) :
    ResumableAt start follows (glued p) ls bad where
  swaps text mid hok new hnew hled := by
    obtain ⟨hp, -⟩ := glued_eq_ok.1 hok
    -- The text is that of the lexemes in front of what is left.
    obtain ⟨front, hfront⟩ := exists_of_suffix (hforward.suffix_of_ok hp)
    obtain rfl := List.append_cancel_right hfront
    have htokens : tokens (front ++ mid ++ bad) = tokens front ++ tokens (mid ++ bad) := by simp
    have htext := glued_of_ok hp htokens
    obtain ⟨rfl, -⟩ := Prod.mk.inj (Except.ok.inj (hok.symm.trans htext))
    exact glued_of_ok (h.swaps () mid hp new hnew hled) (by simp)
  completes e herror := by
    obtain ⟨more, ⟨⟩, hne, hsub, hhead, hmore⟩ := h.completes e (glued_eq_error.1 herror)
    exact ⟨more, Token.glue (tokens ls ++ more), hne, hsub, hhead, fun us hus hfollow =>
      glued_of_ok (hmore us hus hfollow) (by simp)⟩

section Bind

variable {f : α → Parser β} {a : α}

/-- What may follow the second part of a sequence may follow the first one if nothing of the second
part is there. -/
theorem ledBy_of_bind {b : β} {us : List Lexeme}
    (hfollows : (∀ us, LedBy fillers us → LedBy follows us → LedBy others us) ∨
      ∀ a, Consumes (f a))
    (hb : f a rest = .ok (b, rest)) (hus : LedBy fillers us) (hfollow : LedBy follows us) :
    LedBy others us := by
  rcases hfollows with hfollows | hconsumes
  · exact hfollows us hus hfollow
  · exact absurd hb ((hconsumes a).ne_ok_self _ _)

/-- What the second part of a sequence misses is supplied behind what the first one takes. -/
theorem completes_bind_of_ok {mid : List Lexeme} {e : Expected}
    (hp : ResumableAt start others p ls bad) (hpforward : Forward p)
    (hpconsumes : start ≠ none → Consumes p) (hok : p (ls ++ bad) = .ok (a, mid ++ bad))
    (hf : ResumableAt y follows (f a) mid bad) (hnext : ∀ t ∈ y, t ∈ others)
    (herror : f a (mid ++ bad) = .error ⟨e, bad⟩) :
    ∃ more b, more ≠ [] ∧ more ⊆ fillers ∧ (ls = [] → more.head? = start.or y) ∧
      ∀ us, LedBy fillers us → LedBy follows us →
        (p >>= f) (ls ++ (ofTokens more ++ us)) = .ok (b, us) := by
  obtain ⟨more, b, hne, hsub, hhead, hmore⟩ := hf.completes e herror
  refine ⟨more, b, hne, hsub, ?_, fun us hus hfollow => ?_⟩
  · rintro rfl
    obtain rfl := eq_nil_of_suffix (hpforward.suffix_of_ok hok)
    obtain rfl : start = none := by
      by_contra hsome
      exact (hpconsumes hsome).ne_ok_self _ _ hok
    exact hhead rfl
  · -- The first part reads the same in front of what is supplied.
    have hok' : p (ls ++ (ofTokens more ++ us)) = .ok (a, mid ++ (ofTokens more ++ us)) :=
      hp.swaps a mid hok _ (.ofTokens_append_of_subset hsub hus) fun hnil =>
        .ofTokens_append (by rw [hhead hnil]; exact hnext) fun hnone => absurd hnone hne
    rw [bind_of_ok hok', hmore us hus hfollow]

/-- What the first part of a sequence misses is supplied with all of the second part behind it. -/
theorem completes_bind_of_error {e : Expected} (hp : ResumableAt start others p ls bad)
    (hstart : ∀ a, Startable y follows (f a)) (hnext : ∀ t ∈ y, t ∈ others)
    (hfollows : (∀ us, LedBy fillers us → LedBy follows us → LedBy others us) ∨
      ∀ a, Consumes (f a))
    (herror : p (ls ++ bad) = .error ⟨e, bad⟩) :
    ∃ more b, more ≠ [] ∧ more ⊆ fillers ∧ (ls = [] → more.head? = start.or y) ∧
      ∀ us, LedBy fillers us → LedBy follows us →
        (p >>= f) (ls ++ (ofTokens more ++ us)) = .ok (b, us) := by
  obtain ⟨first, a, hne, hfirst, hhead, hok⟩ := hp.completes e herror
  obtain ⟨later, b, hlater, hlaterHead, hmore⟩ := hstart a
  refine ⟨first ++ later, b, by simp [hne], List.append_subset.2 ⟨hfirst, hlater⟩,
    fun hnil => ?_, fun us hus hfollow => ?_⟩
  · obtain ⟨t, first, rfl⟩ := List.exists_cons_of_ne_nil hne
    rw [← hhead hnil]
    rfl
  · have hothers : LedBy others (ofTokens later ++ us) := by
      by_cases hnil : later = []
      · obtain rfl := hnil
        exact ledBy_of_bind hfollows (hmore us hus hfollow) hus hfollow
      · exact .ofTokens_append (by rw [hlaterHead hnil]; exact hnext) fun h => absurd h hnil
    have hok' := hok (ofTokens later ++ us) (.ofTokens_append_of_subset hlater hus) hothers
    rw [ofTokens_append, List.append_assoc, bind_of_ok hok', hmore us hus hfollow]

/-- A sequence is resumed in its first part if that is where it misses something, with all of the
second part supplied too, and otherwise in its second part. -/
theorem bind (hp : ResumableAt start others p ls bad)
    (hpforward : Forward p) (hpconsumes : start ≠ none → Consumes p)
    (hforward : ∀ a, Forward (f a)) (hstart : ∀ a, Startable y follows (f a))
    (hf : ∀ a mid, p (ls ++ bad) = .ok (a, mid ++ bad) → ResumableAt y follows (f a) mid bad)
    (hnext : ∀ t ∈ y, t ∈ others)
    (hfollows : (∀ us, LedBy fillers us → LedBy follows us → LedBy others us) ∨
      ∀ a, Consumes (f a)) :
    ResumableAt (start.or y) follows (p >>= f) ls bad where
  -- What both parts leave in front of `bad` is an end of what the first one leaves.
  swaps b mid h new hnew hled := by
    obtain ⟨a, rest, ha, hb⟩ := bind_eq_ok.1 h
    obtain ⟨front, rfl⟩ := exists_of_suffix ((hforward a).suffix_of_ok hb)
    have ha' : p (ls ++ new) = .ok (a, front ++ mid ++ new) := by
      refine hp.swaps a _ ha new hnew fun hnil => ?_
      obtain ⟨rfl, rfl⟩ := List.append_eq_nil_iff.1 hnil
      exact ledBy_of_bind hfollows hb hnew (hled rfl)
    rw [bind_of_ok ha']
    exact (hf a _ ha).swaps b mid hb new hnew hled
  -- The second part is missed at `bad`, or the first one is and nothing of the second is there.
  completes e h := by
    cases hok : p (ls ++ bad) with
    | ok r =>
      obtain ⟨a, rest⟩ := r
      rw [bind_of_ok hok] at h
      obtain ⟨mid, rfl⟩ := (hforward a).suffix_of_error h
      exact completes_bind_of_ok hp hpforward hpconsumes hok (hf a mid hok) hnext h
    | error f =>
      rw [bind_of_error hok] at h
      obtain rfl : f = ⟨e, bad⟩ := Except.error.inj h
      exact completes_bind_of_error hp hstart hnext hfollows hok

end Bind

end ResumableAt

/-! ## Sequences -/

namespace Resumable

/-- A sequence is resumed where its parts are, if what the second one begins with may follow the
first one. -/
theorem bind {f : α → Parser β} (hp : Resumable start others p)
    (hf : ∀ a, Resumable y follows (f a)) (hnext : ∀ t ∈ y, t ∈ others)
    (hfollows : y = none → ∀ us, LedBy fillers us → LedBy follows us → LedBy others us) :
    Resumable (start.or y) follows (p >>= f) where
  forward := hp.forward.bind fun a => (hf a).forward
  consumes h := by
    cases start with
    | some x => exact (hp.consumes (Option.some_ne_none x)).bind fun a => (hf a).forward
    | none => exact .of_bind hp.forward fun a => (hf a).consumes h
  resumes ls bad := by
    refine (hp.resumes ls bad).bind hp.forward hp.consumes (fun a => (hf a).forward)
      (fun a => (hf a).startable) (fun a mid _ => (hf a).resumes mid bad) hnext ?_
    cases y with
    | none => exact .inl (hfollows rfl)
    | some x => exact .inr fun a => (hf a).consumes (Option.some_ne_none x)

/-- Anything may follow a rule that ends with a fixed token. -/
theorem firm_bind {f : α → Parser β} (hp : Resumable (some x) fillers p)
    (hf : ∀ a, Resumable y follows (f a)) : Resumable (some x) follows (p >>= f) := by
  obtain ⟨-, a, -⟩ := hp.startable
  refine hp.bind hf (fun t ht => ?_) fun _ us hus _ => hus
  obtain rfl : y = some t := ht
  exact (hf a).mem_fillers

/-- A rule and then one that may be left out. -/
theorem bind_spare {f : α → Parser β} (hp : Resumable start follows p)
    (hf : ∀ a, Resumable none follows (f a)) : Resumable start follows (p >>= f) :=
  Option.or_none (o := start) ▸ hp.bind hf nofun fun _ _ _ hfollow => hfollow

/-- A rule and then one that is demanded. -/
theorem bind_demand {f : α → Parser β} (hp : Resumable start others p)
    (hf : ∀ a, Resumable (some x) follows (f a)) (hx : x ∈ others) :
    Resumable (start.or (some x)) follows (p >>= f) :=
  hp.bind hf (by rintro _ ⟨⟩; exact hx) nofun

/-- The fewer tokens may follow, the less is asked of a rule. -/
theorem mono (h : Resumable start others p) (hsub : follows ⊆ others) :
    Resumable start follows p where
  forward := h.forward
  consumes := h.consumes
  resumes ls bad := (h.resumes ls bad).mono hsub

/-- A rule that takes nothing misses nothing. -/
theorem pure (a : α) : Resumable none follows (pure a : Parser α) where
  forward := .pure a
  consumes := nofun
  resumes ls bad := {
    swaps := fun b mid h new _ _ => by
      obtain ⟨rfl, hrest⟩ := pure_eq_ok.1 h
      rw [List.append_cancel_right hrest]
      rfl
    completes := nofun }

theorem map (g : α → β) (h : Resumable start follows p) : Resumable start follows (g <$> p) :=
  have hbind : Resumable start follows (p >>= fun a => Pure.pure (g a)) :=
    h.bind_spare fun a => .pure (g a)
  hbind

/-- A rule whose value is not kept. -/
theorem discard (h : Resumable start follows p) : Resumable start follows (discard p) :=
  h.bind_spare fun _ => .pure ()

theorem glued {p : Parser Unit} (h : Resumable start follows p) :
    Resumable start follows (glued p) where
  forward := h.forward.glued
  consumes hstart := (h.consumes hstart).glued
  resumes ls bad := (h.resumes ls bad).glued h.forward

/-- Both branches of a decision that does not look at the text are resumed alike. -/
theorem ite {c : Prop} [Decidable c] (hp : Resumable start follows p)
    (hq : Resumable start follows q) : Resumable start follows (if c then p else q) := by
  split
  · exact hp
  · exact hq

end Resumable

/-! ## Tokens -/

variable {value : Token → Option α}

/-- A token that may be left out, and what stands behind it. -/
theorem ResumableAt.token?_bind {f : Option α → Parser β} (hls : ls ≠ [])
    (hsome : ∀ a ls, ResumableAt start follows (f (some a)) ls bad)
    (hnone : ResumableAt y follows (f none) ls bad) :
    ResumableAt y follows (token? value >>= f) ls bad := by
  obtain ⟨l, ls, rfl⟩ := List.exists_cons_of_ne_nil hls
  cases h : value l.token with
  | some a => exact .behind_cons (fun rest => bind_of_ok (token?_cons h)) (hsome a ls)
  | none =>
    have heq : ∀ rest, (token? value >>= f) (l :: ls ++ rest) = f none (l :: ls ++ rest) :=
      fun rest => bind_of_ok (token?_of_none (by rintro _ ⟨⟩; exact h))
    exact .of_eq (heq bad) (fun new _ => heq new) hnone

/-- A demanded token is read in front of `bad` or missed there, so it is not missed at `bad`. -/
theorem ResumableAt.token (e : Expected) (hls : ls ≠ []) :
    ResumableAt start follows (token e value) ls bad :=
  .token?_bind hls (fun a ls => (Resumable.pure a).resumes ls bad) (.of_missed hls rfl)

namespace Resumable

/-- A token that may be left out in front of a rule that can be missed: it is made up for by what
the rule needs. -/
theorem token?_bind {f : Option α → Parser β} (hx : value x = none)
    (hsome : ∀ a, Resumable start follows (f (some a)))
    (hnone : Resumable (some x) follows (f none)) :
    Resumable (some x) follows (token? value >>= f) := by
  have hforward : ∀ a?, Forward (f a?) := by
    rintro (_ | a)
    · exact hnone.forward
    · exact (hsome a).forward
  have hconsumes : Consumes (f none) := hnone.consumes (Option.some_ne_none x)
  refine .of_startable ((Forward.token? value).bind hforward) ?_ ?_ fun ls bad hls => ?_
  · intro ls b rest h
    obtain ⟨a?, mid, ha, hb⟩ := bind_eq_ok.1 h
    obtain ⟨l, a, rfl, -, rfl⟩ | ⟨rfl, rfl, -⟩ := token?_eq_ok.1 ha
    · exact Nat.lt_succ_of_le ((hforward _).suffix_of_ok hb).length_le
    · exact hconsumes _ _ _ hb
  · refine hnone.startable.of_eq hconsumes fun l ls hl => ?_
    exact bind_of_ok (token?_of_none (by rintro _ ⟨⟩; rw [hl, hx]))
  · exact .token?_bind hls (fun a ls => (hsome a).resumes ls bad) (hnone.resumes ls bad)

/-- A token that may be left out, if none of the tokens that may follow is one. -/
theorem token? (hvalue : ∀ x ∈ follows, value x = none) :
    Resumable none follows (token? value) where
  forward := .token? value
  consumes := nofun
  resumes ls bad := by
    by_cases hls : ls = []
    · obtain rfl := hls
      constructor
      · intro a? mid h new _ hfollow
        obtain rfl := eq_nil_of_suffix ((Forward.token? value).suffix_of_ok h)
        obtain ⟨l, a, hl, -, -⟩ | ⟨rfl, -, -⟩ := token?_eq_ok.1 h
        · exact absurd (congrArg List.length hl) (by simp)
        · exact token?_of_none fun l hl => hvalue _ (hfollow rfl l hl)
      · intro e h
        obtain ⟨r, hok⟩ := exists_token?_eq_ok value ([] ++ bad)
        exact nomatch hok.symm.trans h
    · rw [← bind_pure (Parser.token? value)]
      exact .token?_bind hls (fun a ls => (Resumable.pure (some a)).resumes ls bad)
        ((Resumable.pure none).resumes ls bad)

/-- A demanded token is supplied by one that has a value. -/
theorem token (e : Expected) (hx : x ∈ fillers) (hvalue : (value x).isSome) :
    Resumable (some x) fillers (token e value) := by
  refine .of_startable (.token e value) (.token e value) ?_ fun ls bad hls => .token e hls
  obtain ⟨a, ha⟩ := Option.isSome_iff_exists.1 hvalue
  refine ⟨[x], a, List.cons_subset.2 ⟨hx, List.nil_subset _⟩, fun _ => rfl, fun us _ _ => ?_⟩
  exact token_eq_ok.2 ⟨_, rfl, ha⟩

/-- A missing number is supplied by zero. -/
theorem number : Resumable (some (.number "0")) fillers number :=
  .token _ (by decide) rfl

/-- A missing identifier is supplied by a quoted name. -/
theorem identifier : Resumable (some (.word (some '\x60') "x")) fillers identifier :=
  .token _ (by decide) rfl

/-- A missing string literal is supplied by an empty one. -/
theorem stringLiteral : Resumable (some (.literal .double "")) fillers stringLiteral :=
  .token _ (by decide) rfl

/-- One of the keywords is supplied by any of them that is at hand. -/
theorem oneOf {words : List String} {word : String} (hmem : Token.word none word ∈ fillers)
    (h : word ∈ words) (hword : (Terminal.keyword word).accepts (.word none word) = true) :
    Resumable (some (.word none word)) fillers (oneOf words) :=
  .token _ hmem (List.find?_isSome.2 ⟨word, h, hword⟩)

/-! ## Repetitions and parentheses -/

/-- A repetition is resumed in the step that gives up, and ends where what follows is no step. -/
theorem many {step : Parser (Option α)} (h : Resumable none follows step)
    (hadvances : Advances step) : Resumable none follows (many step) := by
  have hforward : Forward (Parser.many step) := h.forward.many
  have hnone : ∀ us, LedBy fillers us → LedBy follows us → step us = .ok (none, us) := by
    obtain ⟨more, a?, -, hhead, hok⟩ := h.startable
    obtain rfl : more = [] := by
      by_contra hne
      exact hne (List.head?_eq_none_iff.1 (hhead hne))
    intro us hus hfollow
    have hstep := hok us hus hfollow
    cases a? with
    | none => exact hstep
    | some a => exact absurd (hadvances _ _ _ hstep) (Nat.lt_irrefl _)
  refine ⟨hforward, nofun, fun ls bad => ?_⟩
  -- The induction is on what stands in front of `bad`, of which every step takes something.
  induction hn : ls.length using Nat.strongRecOn generalizing ls with
  | ind n ih =>
    rw [many_eq_bind hadvances]
    refine (h.resumes ls bad).bind h.forward h.consumes ?_ ?_ ?_ nofun
      (.inl fun _ _ hfollow => hfollow)
    · rintro (_ | a)
      · exact .pure []
      · exact hforward.map
    · rintro (_ | a)
      · exact (Resumable.pure []).startable
      · exact ⟨[], [a], List.nil_subset _, nofun, fun us hus hfollow =>
          map_eq_ok.2 ⟨[], many_of_none (hnone us hus hfollow), rfl⟩⟩
    · rintro (_ | a) mid hok
      · exact (Resumable.pure []).resumes mid bad
      · have hlt := hadvances _ _ _ hok
        rw [List.length_append, List.length_append] at hlt
        exact (ih mid.length (by omega) mid rfl).map _

/-- A run of tokens ends in front of the tokens that may follow. -/
theorem tokenRun (hvalue : ∀ x ∈ follows, value x = none) :
    Resumable none follows (tokenRun value) := by
  rw [tokenRun_eq]
  exact (Resumable.token? hvalue).many (.token? value)

/-- In a parenthesis anything may stand, and what is open is closed. -/
theorem parenthesized : Resumable (some (.symbol .openParen)) fillers parenthesized := by
  refine .of_startable .parenthesized .parenthesized ?_ fun ls bad hls => ?_
  · exact ⟨[.symbol .openParen, .symbol .closeParen], (), by decide, fun _ => rfl,
      fun us _ _ => rfl⟩
  · constructor
    · rintro ⟨⟩ mid h new - -
      obtain ⟨front, hsplit, hfront⟩ := exists_of_parenthesized h
      rw [← List.append_assoc] at hsplit
      obtain rfl := List.append_cancel_right hsplit
      rw [List.append_assoc]
      exact hfront.parenthesized_append (mid ++ new)
    · intro e h
      obtain ⟨l, ls, rfl⟩ := List.exists_cons_of_ne_nil hls
      -- Reading comes to the end of the text only if a parenthesis is open there, which can be
      -- closed.
      by_cases hopen : l.token = .symbol .openParen
      · rw [List.cons_append, parenthesized_cons hopen] at h
        split at h
        · cases h
        · rename_i hclose
          obtain rfl : [] = bad := congrArg Failure.rest (Except.error.inj h)
          rw [List.append_nil] at hclose
          obtain ⟨more, hne, hsub, hmore⟩ := exists_closing hclose
          refine ⟨more, (), hne, List.Subset.trans hsub (by decide), nofun, fun us _ _ => ?_⟩
          rw [List.cons_append, parenthesized_cons hopen, hmore us]
      · have hnot : Terminal.opens [.symbol .openParen] (l :: ls ++ bad) = false := by
          simp [Terminal.opens, Terminal.accepts, hopen]
        rw [parenthesized_of_not_opens hnot] at h
        have hrest : l :: ls ++ bad = bad := congrArg Failure.rest (Except.error.inj h)
        exact absurd (List.append_left_eq_self.1 hrest) hls

end Resumable

end Parser

end TableSchema
