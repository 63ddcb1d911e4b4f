import TableSchema.Proofs.Grammar.Phrase

/-!
# Phrases that are taken in full

A parser may accept more than the phrases of a rule and still take every one of them in full. This
half of reading is put together by itself, part by part, as the parsers are.

## Main definitions

* `Token.Repeated`, `Token.Listed`: phrases one after the other, and in parentheses with commas;
* `Token.OneOf`: a word out of a list;
* `Parser.Completes`: a parser takes every phrase of a rule in full.

## Main results

* `Completes.bind_ok`: a sequence takes a phrase, and then what its second part takes;
* `Completes.many`, `Completes.list`: repetitions and lists take their phrases in full;
* `choose?_of_words`: a choice is made by the words that come next.
-/

namespace TableSchema

namespace Token

variable {α : Type}

/-- A terminal accepts a word in any case if it accepts its spelling. -/
theorem IsWord.accepts {t : Token} {spelling : String} (h : t.IsWord spelling) {o : Terminal}
    (ho : o.accepts (.word none spelling) = true) : o.accepts t = true :=
  (h.accepts_eq o).trans ho

/-- No pattern tells words from their spellings. -/
theorem opens_words {words : List String} {ts : List Token}
    (h : List.Forall₂ IsWord words ts) (pattern : List Terminal) (us : List Token) :
    Terminal.opens pattern (Lexeme.ofTokens (ts ++ us)) =
      Terminal.opens pattern (Lexeme.ofTokens (words.map (Token.word none) ++ us)) := by
  induction h generalizing pattern with
  | nil => rfl
  | @cons word t words ts hword _ ih =>
    cases pattern with
    | nil => rfl
    | cons o pattern => exact congrArg₂ (· && ·) (hword.accepts_eq o) (ih pattern)

/-- One of the words, with its spelling. -/
inductive OneOf (words : List String) : List Token → String → Prop
  | mk {t : Token} {word : String} (hmem : word ∈ words) (h : t.IsWord word) : OneOf words [t] word

/-- Phrases one after the other, as many as there are. -/
inductive Repeated (phrase : List Token → α → Prop) : List Token → List α → Prop
  | nil : Repeated phrase [] []
  | cons {ts us : List Token} {a : α} {as : List α} (h : phrase ts a)
      (hs : Repeated phrase us as) : Repeated phrase (ts ++ us) (a :: as)

/-- A phrase behind a comma. -/
inductive BehindComma (phrase : List Token → α → Prop) : List Token → α → Prop
  | mk {ts : List Token} {a : α} (h : phrase ts a) : BehindComma phrase (.symbol .comma :: ts) a

/-- One or more phrases in parentheses, with commas between them. -/
inductive Listed (phrase : List Token → α → Prop) : List Token → List α → Prop
  | mk {ts us : List Token} {a : α} {as : List α} (h : phrase ts a)
      (hs : Repeated (BehindComma phrase) us as) :
    Listed phrase (.symbol .openParen :: (ts ++ (us ++ [.symbol .closeParen]))) (a :: as)

/-- Repetitions may be put together. -/
theorem Repeated.append {phrase : List Token → α → Prop} {ts us : List Token} {as bs : List α}
    (has : Repeated phrase ts as) (hbs : Repeated phrase us bs) :
    Repeated phrase (ts ++ us) (as ++ bs) := by
  induction has with
  | nil => exact hbs
  | cons h hs ih => exact List.append_assoc _ _ us ▸ .cons h ih

/-- A phrase that may be left out is repeated at most once. -/
theorem Optional.repeated {β : Type} {phrase : List Token → α → Prop}
    {phrase' : List Token → β → Prop} {ts : List Token} {a? : Option α} {f : α → β}
    (h : Optional phrase ts a?) (hf : ∀ ts a, phrase ts a → phrase' ts (f a)) :
    Repeated phrase' ts (a?.toList.map f) := by
  cases h with
  | absent => exact .nil
  | present h => exact List.append_nil ts ▸ .cons (hf _ _ h) .nil

/-- No phrase is empty, and each begins with a token that no terminal tells from one of the
samples. -/
def Starts (samples : List Token) (phrase : List Token → α → Prop) : Prop :=
  ∀ ⦃ts a⦄, phrase ts a → ts ≠ [] ∧ Begins samples ts

section Starts

variable {phrase : List Token → α → Prop} {samples ts us : List Token}

/-- Phrases that begin with a word start with it. -/
theorem starts_of_isWord {spelling : String}
    (h : ∀ ts a, phrase ts a → ∃ t us, ts = t :: us ∧ t.IsWord spelling) :
    Starts [.word none spelling] phrase := by
  intro ts a hphrase
  obtain ⟨t, us, rfl, ht⟩ := h ts a hphrase
  exact ⟨List.cons_ne_nil t us, .word ht us⟩

theorem BehindComma.starts : Starts [.symbol .comma] (BehindComma phrase) := by
  rintro _ a ⟨-⟩
  exact ⟨List.cons_ne_nil _ _, .token _ _⟩

theorem Listed.starts : Starts [.symbol .openParen] (Listed phrase) := by
  rintro _ as ⟨-, -⟩
  exact ⟨List.cons_ne_nil _ _, .token _ _⟩

theorem OneOf.starts {words : List String} :
    Starts (words.map (Token.word none)) (OneOf words) := by
  rintro _ word ⟨hmem, h⟩
  exact ⟨List.cons_ne_nil _ _, (Begins.word h []).mono (by simpa using hmem)⟩

variable {o : Terminal}

/-- A terminal that no phrase begins with comes next only behind the phrase that may be left out. -/
theorem Optional.avoids {a? : Option α} (h : Optional phrase ts a?)
    (hstarts : Starts samples phrase) (ho : ∀ s ∈ samples, o.accepts s = false)
    (hus : o.Avoids us) : o.Avoids (ts ++ us) := by
  cases h with
  | absent => exact hus
  | present h =>
    obtain ⟨hne, hbegins⟩ := hstarts h
    exact (hbegins.append_left hne us).avoids ho

/-- A terminal that no phrase begins with comes next only behind all of them. -/
theorem Repeated.avoids {as : List α} (h : Repeated phrase ts as) (hstarts : Starts samples phrase)
    (ho : ∀ s ∈ samples, o.accepts s = false) (hus : o.Avoids us) : o.Avoids (ts ++ us) := by
  cases h with
  | nil => exact hus
  | @cons ts vs a as h hs =>
    obtain ⟨hne, hbegins⟩ := hstarts h
    rw [List.append_assoc]
    exact (hbegins.append_left hne _).avoids ho

end Starts

end Token

namespace Parser

open Token Lexeme

variable {α β : Type} {p : Parser α} {f : α → Parser β} {phrase : List Token → α → Prop}
  {stop : α → List Terminal} {rest : List Lexeme} {ts us : List Token} {a : α} {b : β}

/-- The parser takes the phrases of the rule in full, with the values that they stand for, where
they do not go on with one of the terminals `stop`. -/
def Completes (p : Parser α) (phrase : List Token → α → Prop) (stop : α → List Terminal) : Prop :=
  ∀ ⦃ts us a⦄, phrase ts a → (∀ o ∈ stop a, o.Avoids us) →
    p (ofTokens (ts ++ us)) = .ok (a, ofTokens us)

/-- Phrases that are read are taken in full. -/
theorem Reads.completes (hp : Reads p phrase stop) : Completes p phrase stop :=
  fun _ _ _ => hp.complete

/-- A sequence takes a phrase in full, and then what its second part takes. -/
theorem Completes.bind_ok (hp : Completes p phrase stop) (hphrase : phrase ts a)
    (hstop : ∀ o ∈ stop a, o.Avoids us) (hf : f a (ofTokens us) = .ok (b, rest)) :
    (p >>= f) (ofTokens (ts ++ us)) = .ok (b, rest) := by
  rw [bind_of_ok (hp hphrase hstop), hf]

/-- A phrase is taken in full at the end. -/
theorem Completes.alone (hp : Completes p phrase stop) (hphrase : phrase ts a) :
    p (ofTokens ts) = .ok (a, []) := by
  have h : p (ofTokens (ts ++ [])) = .ok (a, []) := hp hphrase fun _ _ => nofun
  rwa [List.append_nil] at h

/-- A word out of a list is taken if each of them is the first one that accepts its own spelling. -/
theorem completes_oneOf {words : List String} (hwords : ∀ word ∈ words,
    (words.find? fun w => (Terminal.keyword w).accepts (.word none word)) = some word) :
    Completes (oneOf words) (OneOf words) fun _ => [] := by
  rintro _ us word ⟨hmem, ht⟩ -
  refine token_eq_ok.2 ⟨_, rfl, ?_⟩
  simp only [ht.accepts_eq, hwords _ hmem]

/-- A clause that is a phrase behind a terminal may be left out where the terminal does not come
next. -/
theorem Completes.after {o : Terminal} {clause : List Token → α → Prop} {ends : List Terminal}
    (hp : Completes p phrase fun _ => ends)
    (hclause : ∀ ts a, clause ts a → ∃ t us, ts = t :: us ∧ o.accepts t = true ∧ phrase us a) :
    Completes (after [o] p) (Optional clause) fun a? => if a?.isSome then ends else [o] := by
  rintro _ us _ (_ | @⟨ts, a, h⟩) hstop
  · exact after_eq_ok.2 (.inr ⟨(hstop _ (List.mem_singleton_self _)).opens [], rfl, rfl⟩)
  · obtain ⟨t, vs, rfl, ht, hphrase⟩ := hclause _ _ h
    exact after_eq_ok.2 (.inl ⟨Bool.and_eq_true_iff.2 ⟨ht, rfl⟩, a, hp hphrase hstop, rfl⟩)

/-- A phrase may be left out where its first token does not come next. -/
theorem Completes.ifAhead {o : Terminal} {ends : List Terminal}
    (hp : Completes p phrase fun _ => ends)
    (hopens : ∀ ts a, phrase ts a → ∃ t us, ts = t :: us ∧ o.accepts t = true) :
    Completes (ifAhead [o] p) (Optional phrase) fun a? => if a?.isSome then ends else [o] := by
  rintro _ us _ (_ | @⟨ts, a, h⟩) hstop
  · exact ifAhead_eq_ok.2 (.inr ⟨(hstop _ (List.mem_singleton_self _)).opens [], rfl, rfl⟩)
  · obtain ⟨t, vs, rfl, ht⟩ := hopens _ _ h
    exact ifAhead_eq_ok.2 (.inl ⟨Bool.and_eq_true_iff.2 ⟨ht, rfl⟩, a, hp h hstop, rfl⟩)

/-- A phrase that may be left out is taken in full where nothing comes next that it would begin
with. -/
theorem Completes.always {p? : Parser (Option α)} {ends : List Terminal}
    (h : Completes p? (Optional phrase) fun a? => if a?.isSome then [] else ends) :
    Completes p? (Optional phrase) fun _ => ends := by
  intro ts us a? hphrase hstop
  refine h hphrase ?_
  cases a? with
  | none => exact hstop
  | some a => exact nofun

/-- A repetition takes phrase after phrase, if none of them goes on with the first token of another
one. -/
theorem Completes.many {step : Parser (Option α)} {samples : List Token}
    {ends later : List Terminal}
    (hstep : Completes step (Optional phrase) fun a? => if a?.isSome then later else ends)
    (hstarts : Starts samples phrase)
    (hlater : ∀ o ∈ later, ∀ s ∈ samples, o.accepts s = false) :
    Completes (Parser.many step) (Repeated phrase) fun _ => ends ++ later := by
  intro ts us as h hstop
  obtain ⟨hends, hbehind⟩ := List.forall_mem_append.1 hstop
  clear hstop
  induction h with
  | nil =>
    have hnone : step (ofTokens us) = .ok (none, ofTokens us) := hstep .absent hends
    exact many_of_none hnone
  | @cons ts vs a as h hs ih =>
    -- Behind a phrase another one begins, or the text that follows them all.
    have hnext : ∀ o ∈ later, o.Avoids (vs ++ us) :=
      fun o ho => hs.avoids hstarts (hlater o ho) (hbehind o ho)
    rw [List.append_assoc]
    refine many_of_some (hstep (.present h) hnext) ?_ ih
    have hpos := List.length_pos_of_ne_nil (hstarts h).1
    simp only [length_ofTokens, List.length_append]
    omega

/-- A list takes one phrase and then the others behind their commas. -/
theorem Completes.list {ends : List Terminal} (hp : Completes p phrase fun _ => ends)
    (hcomma : ∀ o ∈ ends, o.accepts (.symbol .comma) = false)
    (hclose : ∀ o ∈ ends, o.accepts (.symbol .closeParen) = false) :
    Completes (Parser.list p) (Listed phrase) fun _ => [] := by
  have hnext : Completes (Parser.after [.symbol .comma] p) (Optional (BehindComma phrase))
      fun a? => if a?.isSome then ends else [.symbol .comma] := by
    refine hp.after ?_
    rintro _ a ⟨h⟩
    exact ⟨_, _, rfl, by simp [Terminal.accepts], h⟩
  -- A phrase goes on neither with the comma behind it nor with the closing parenthesis.
  have hothers := hnext.many BehindComma.starts fun o ho =>
    List.forall_mem_singleton.2 (hcomma o ho)
  rintro _ us _ ⟨h, hs⟩ -
  rename_i ts vs a as
  have hbehind : ∀ o ∈ ends, o.Avoids (.symbol .closeParen :: us) :=
    fun o ho => (Begins.token _ _).avoids (List.forall_mem_singleton.2 (hclose o ho))
  have hlater : ∀ o ∈ [Terminal.symbol .comma] ++ ends, o.Avoids (.symbol .closeParen :: us) :=
    List.forall_mem_cons.2 ⟨(Begins.token _ _).avoids (by decide), hbehind⟩
  have hseparated : separated p (ofTokens (ts ++ (vs ++ .symbol .closeParen :: us))) =
      .ok (a :: as, ofTokens (.symbol .closeParen :: us)) := by
    refine hp.bind_ok h ?_ (hothers.bind_ok hs hlater rfl)
    intro o ho
    exact hs.avoids BehindComma.starts (List.forall_mem_singleton.2 (hcomma o ho)) (hbehind o ho)
  have htokens : .symbol .openParen :: (ts ++ (vs ++ [.symbol .closeParen])) ++ us =
      Token.symbol .openParen :: (ts ++ (vs ++ .symbol .closeParen :: us)) := by simp
  rw [htokens]
  exact (bind_of_ok (expect_cons rfl)).trans ((bind_of_ok hseparated).trans
    (bind_of_ok (expect_cons rfl)))

/-- A choice is made by the words that come next. -/
theorem choose?_of_words {bs : List (Branch α)} {br : Branch α} {words : List String}
    (hwords : List.Forall₂ IsWord words ts)
    (hfind : bs.find? (fun br =>
      Terminal.opens br.opener (ofTokens (words.map (Token.word none) ++ us))) = some br)
    (hbody : br.body (ofTokens (ts ++ us)) = .ok (a, rest)) :
    choose? bs (ofTokens (ts ++ us)) = .ok (some a, rest) := by
  -- Words of any case open the same alternatives as their spellings.
  induction bs with
  | nil => simp at hfind
  | cons b bs ih =>
    rw [List.find?_cons, ← opens_words hwords] at hfind
    cases hopens : Terminal.opens b.opener (ofTokens (ts ++ us)) with
    | false =>
      rw [hopens] at hfind
      exact (choose?_of_not_opens hopens).trans (ih hfind)
    | true =>
      rw [hopens] at hfind
      obtain rfl := Option.some.inj hfind
      exact choose?_of_opens hopens hbody

/-- A choice is made by one word that comes next. -/
theorem choose?_of_word {bs : List (Branch α)} {o : Terminal} {t : Token} {spelling : String}
    (h : t.IsWord spelling)
    (hfind : bs.find? (fun br =>
      Terminal.opens br.opener (ofTokens (.word none spelling :: us))) = some (.behind [o] p))
    (hp : p (ofTokens us) = .ok (a, rest)) :
    choose? bs (ofTokens (t :: us)) = .ok (some a, rest) :=
  choose?_of_words (.cons h .nil) hfind hp

/-- A choice that may be left out takes its phrases in full if it takes those that are there. -/
theorem completes_choose? {bs : List (Branch α)} {ends : List Terminal}
    (hends : ∀ br ∈ bs, ∃ o ∈ br.opener.head?, o ∈ ends)
    (htaken : ∀ ⦃ts us a⦄, phrase ts a →
      choose? bs (ofTokens (ts ++ us)) = .ok (some a, ofTokens us)) :
    Completes (choose? bs) (Optional phrase) fun a? => if a?.isSome then [] else ends := by
  rintro _ us _ (_ | h) hstop
  · refine choose?_of_forall fun br hbr => ?_
    obtain ⟨o, ho, hmem⟩ := hends br hbr
    obtain ⟨pattern, hopener⟩ := List.head?_eq_some_iff.1 ho
    rw [hopener]
    exact (hstop o hmem).opens pattern
  · exact htaken h

end Parser

end TableSchema
