import TableSchema.Proofs.Grammar.Likeness
import TableSchema.Proofs.Grammar.Outcome

/-!
# Phrases

A rule of the grammar is a relation between runs of tokens, its *phrases*, and the values that are
read off them. A parser *reads* the phrases of a rule if what it takes is a phrase with the value
that it gives, and if it takes every phrase in full. A parser that takes all that it can does the
latter only where the phrase does not go on: none of certain terminals may come next.

What comes next are phrases too, and it is told from their first tokens that they do not go on with
what stands before them.

## Main definitions

* `Token.IsWord`: a word of the language;
* `Token.Marked`, `Token.Optional`: phrases that may be left out;
* `Parser.Reads`: the parser reads the phrases of a rule;
* `Token.Begins`: what the first token of a phrase can be.

## Main results

* `Reads.of_bind`, `Reads.bind_ok`: a sequence takes a phrase after the other;
* `Token.Begins.avoids`: a terminal does not come next where a phrase begins otherwise.
-/

namespace TableSchema

namespace Token

variable {α : Type} {t : Token} {ts us samples others : List Token} {spelling : String}

/-! ## Words -/

/-- The token is the bare word, in any case. -/
def IsWord (spelling : String) (t : Token) : Prop :=
  ∃ value, t = .word none value ∧ Text.sameAscii value spelling = true

/-- A word of the language is what its terminal accepts. -/
theorem isWord_iff : t.IsWord spelling ↔ (Terminal.word spelling).accepts t = true := by
  constructor
  · rintro ⟨value, rfl, hsame⟩
    exact hsame
  · intro h
    obtain ⟨value, rfl⟩ := Terminal.bareWord_of_accepts h nofun
    exact ⟨value, rfl, h⟩

/-- So is a keyword that no character beyond ASCII can spell. -/
theorem isWord_iff_keyword (hspelling : Text.IsSpelling spelling)
    (honly : Text.IsAsciiOnly spelling) :
    t.IsWord spelling ↔ (Terminal.keyword spelling).accepts t = true := by
  rw [Terminal.keyword_accepts]
  constructor
  · rintro ⟨value, rfl, hsame⟩
    exact ⟨value, rfl, Text.upper_eq_of_sameAscii hsame hspelling⟩
  · rintro ⟨value, rfl, hupper⟩
    exact ⟨value, rfl, Text.sameAscii_of_upper_eq hupper hspelling honly⟩

/-- No terminal tells a word from its spelling. -/
theorem IsWord.accepts_eq (h : t.IsWord spelling) (o : Terminal) :
    o.accepts t = o.accepts (.word none spelling) := by
  obtain ⟨value, rfl, hsame⟩ := h
  have hlower : (word none value).bareWord?.map Text.lower =
      (word none spelling).bareWord?.map Text.lower :=
    congrArg some (Text.sameAscii_iff.1 hsame)
  rw [o.accepts_eq_any, o.accepts_eq_any, hlower]
  rfl

/-! ## Phrases that may be left out -/

/-- The word stands there if the flag is set, and nothing stands there otherwise. -/
inductive Marked (spelling : String) : List Token → Bool → Prop
  | absent : Marked spelling [] false
  | present {t : Token} (h : t.IsWord spelling) : Marked spelling [t] true

/-- A phrase of the rule with its value, or nothing without a value. -/
inductive Optional (phrase : List Token → α → Prop) : List Token → Option α → Prop
  | absent : Optional phrase [] none
  | present {ts : List Token} {a : α} (h : phrase ts a) : Optional phrase ts (some a)

/-! ## First tokens -/

/-- The first of the tokens, if there are any, is one that no terminal tells from one of the
samples. -/
def Begins (samples ts : List Token) : Prop :=
  ∀ t ∈ ts.head?, ∃ s ∈ samples, ∀ o : Terminal, o.accepts t = o.accepts s

theorem Begins.nil : Begins samples [] :=
  nofun

theorem Begins.mono (h : Begins samples ts) (hsub : samples ⊆ others) : Begins others ts := by
  intro t ht
  obtain ⟨s, hs, haccepts⟩ := h t ht
  exact ⟨s, hsub hs, haccepts⟩

/-- A phrase that may be empty is followed by another one. -/
theorem Begins.append (hts : Begins samples ts) (hus : Begins others us) :
    Begins (samples ++ others) (ts ++ us) := by
  intro t ht
  cases ts with
  | nil =>
    obtain ⟨s, hs, haccepts⟩ := hus t ht
    exact ⟨s, List.mem_append_right samples hs, haccepts⟩
  | cons u ts =>
    obtain ⟨s, hs, haccepts⟩ := hts t ht
    exact ⟨s, List.mem_append_left others hs, haccepts⟩

/-- A phrase that is not empty hides what stands behind it. -/
theorem Begins.append_left (h : Begins samples ts) (hne : ts ≠ []) (us : List Token) :
    Begins samples (ts ++ us) := by
  obtain ⟨t, ts, rfl⟩ := List.exists_cons_of_ne_nil hne
  exact h

theorem Begins.word (h : t.IsWord spelling) (ts : List Token) :
    Begins [.word none spelling] (t :: ts) := by
  rintro u ⟨⟩
  exact ⟨_, List.mem_singleton_self _, h.accepts_eq⟩

theorem Begins.token (t : Token) (ts : List Token) : Begins [t] (t :: ts) := by
  rintro u ⟨⟩
  exact ⟨t, List.mem_singleton_self t, fun _ => rfl⟩

theorem Marked.begins {flag : Bool} (h : Marked spelling ts flag) :
    Begins [.word none spelling] ts := by
  cases h with
  | absent => exact .nil
  | present h => exact .word h []

theorem Optional.begins {phrase : List Token → α → Prop} {a? : Option α}
    (h : Optional phrase ts a?) (hphrase : ∀ ts a, phrase ts a → Begins samples ts) :
    Begins samples ts := by
  cases h with
  | absent => exact .nil
  | present h => exact hphrase _ _ h

end Token

/-- The tokens do not begin with an instance of the terminal. -/
def Terminal.Avoids (o : Terminal) (ts : List Token) : Prop :=
  ∀ t ∈ ts.head?, o.accepts t = false

/-- Tokens that begin otherwise do not begin with an instance of a terminal. -/
theorem Token.Begins.avoids {samples ts : List Token} (h : Begins samples ts) {o : Terminal}
    (ho : ∀ s ∈ samples, o.accepts s = false) : o.Avoids ts := by
  intro t ht
  obtain ⟨s, hs, haccepts⟩ := h t ht
  rw [haccepts, ho s hs]

/-- None of the terminals that a clause would go on with comes next. -/
theorem Token.Begins.stops {samples ts : List Token} (h : Begins samples ts) {stop : List Terminal}
    (hstop : ∀ o ∈ stop, ∀ s ∈ samples, o.accepts s = false) {there : Bool} :
    ∀ o ∈ if there then [] else stop, o.Avoids ts := by
  cases there with
  | false => exact fun o ho => h.avoids (hstop o ho)
  | true => exact nofun

/-- A pattern does not come next if its first terminal does not. -/
theorem Terminal.Avoids.opens {o : Terminal} {ts : List Token} (h : o.Avoids ts)
    (pattern : List Terminal) : Terminal.opens (o :: pattern) (Lexeme.ofTokens ts) = false := by
  cases ts with
  | nil => rfl
  | cons t ts =>
    have hhead : o.accepts t = false := h t rfl
    exact Bool.and_eq_false_imp.2 fun ht => absurd ht (by simp [hhead])

/-- Two terminals do not come next if the second does not behind the first token. -/
theorem Terminal.Avoids.opens_behind {o : Terminal} {ts : List Token} (h : o.Avoids ts)
    (first : Terminal) (t : Token) :
    Terminal.opens [first, o] (Lexeme.ofTokens (t :: ts)) = false :=
  Bool.and_eq_false_imp.2 fun _ => h.opens []

namespace Parser

open Token Lexeme

variable {α β : Type} {p : Parser α} {f : α → Parser β} {phrase : List Token → α → Prop}
  {stop : α → List Terminal} {ls rest : List Lexeme} {ts us : List Token} {a : α} {b : β}

/-! ## Reading -/

/-- The parser takes phrases of the rule, with the values that they stand for, and it takes them in
full where they do not go on with one of the terminals `stop`. -/
structure Reads (p : Parser α) (phrase : List Token → α → Prop) (stop : α → List Terminal) :
    Prop where
  /-- What the parser takes is a phrase. -/
  sound : ∀ {ls rest a}, p ls = .ok (a, rest) → ∃ ts, tokens ls = ts ++ tokens rest ∧ phrase ts a
  /-- A phrase is taken in full. -/
  complete : ∀ {ts us a}, phrase ts a → (∀ o ∈ stop a, o.Avoids us) →
    p (ofTokens (ts ++ us)) = .ok (a, ofTokens us)

/-- A sequence takes a phrase, and then what its second part takes. -/
theorem Reads.of_bind (hp : Reads p phrase stop) (h : (p >>= f) ls = .ok (b, rest)) :
    ∃ ts a mid, tokens ls = ts ++ tokens mid ∧ phrase ts a ∧ f a mid = .ok (b, rest) := by
  obtain ⟨a, mid, ha, hb⟩ := bind_eq_ok.1 h
  obtain ⟨ts, hts, hphrase⟩ := hp.sound ha
  exact ⟨ts, a, mid, hts, hphrase, hb⟩

/-- A sequence takes a phrase in full, and then what its second part takes. -/
theorem Reads.bind_ok (hp : Reads p phrase stop) (hphrase : phrase ts a)
    (hstop : ∀ o ∈ stop a, o.Avoids us) (hf : f a (ofTokens us) = .ok (b, rest)) :
    (p >>= f) (ofTokens (ts ++ us)) = .ok (b, rest) := by
  rw [bind_of_ok (hp.complete hphrase hstop), hf]

/-- A phrase is taken in full at the end. -/
theorem Reads.last_ok (hp : Reads p phrase stop) (hphrase : phrase ts a)
    (hf : f a [] = .ok (b, rest)) : (p >>= f) (ofTokens ts) = .ok (b, rest) := by
  rw [← List.append_nil ts]
  exact hp.bind_ok hphrase (fun _ _ => nofun) hf

/-- The phrases may be described in another way. -/
theorem Reads.congr {phrase' : List Token → α → Prop} (hp : Reads p phrase stop)
    (h : ∀ ts a, phrase ts a ↔ phrase' ts a) : Reads p phrase' stop where
  sound hok := by
    obtain ⟨ts, hts, hphrase⟩ := hp.sound hok
    exact ⟨ts, hts, (h _ _).1 hphrase⟩
  complete hphrase hstop := hp.complete ((h _ _).2 hphrase) hstop

/-- A token with a value is read. -/
theorem reads_token (e : Expected) (value : Token → Option α) :
    Reads (token e value) (fun ts a => ∃ t, ts = [t] ∧ value t = some a) fun _ => [] where
  sound h := by
    obtain ⟨l, rfl, hl⟩ := token_eq_ok.1 h
    exact ⟨[l.token], rfl, l.token, rfl, hl⟩
  complete := by
    rintro _ us a ⟨t, rfl, ht⟩ -
    exact token_eq_ok.2 ⟨_, rfl, ht⟩

/-- A word that may be left out is read where it does not come next. -/
theorem reads_eat (spelling : String) : Reads (eat (.word spelling)) (Marked spelling)
    fun flag => if flag then [] else [.word spelling] where
  sound {ls rest flag} h := by
    obtain ⟨hopens, rfl⟩ := eatAll_eq_ok.1 h
    cases flag with
    | false => exact ⟨[], rfl, .absent⟩
    | true =>
      obtain ⟨l, rest, rfl, hl, -⟩ := Terminal.opens_cons.1 hopens
      exact ⟨[l.token], rfl, .present (isWord_iff.2 hl)⟩
  complete {ts us flag} h hstop := by
    cases h with
    | absent => exact eatAll_eq_ok.2 ⟨(hstop _ (List.mem_singleton_self _)).opens [], rfl⟩
    | present ht => exact eat_cons (isWord_iff.1 ht)

/-- A word that is looked for on a condition stands there only if the condition holds. -/
theorem of_ite_eat {c : Prop} [Decidable c] {k : Bool → Parser β} {spelling : String}
    (h : (if c then eat (.word spelling) >>= k else pure false >>= k) ls = .ok (b, rest)) :
    ∃ ts flag mid, tokens ls = ts ++ tokens mid ∧ Marked spelling ts flag ∧ (flag = true → c) ∧
      k flag mid = .ok (b, rest) := by
  split at h
  · obtain ⟨ts, flag, mid, hts, hflag, h⟩ := (reads_eat spelling).of_bind h
    exact ⟨ts, flag, mid, hts, hflag, fun _ => ‹c›, h⟩
  · exact ⟨[], false, ls, rfl, .absent, nofun, h⟩

/-- A word that stands there only if the condition holds is taken, or passed over where it does not
come next. -/
theorem ite_eat_ok {c : Prop} [Decidable c] {k : Bool → Parser β} {spelling : String} {flag : Bool}
    (hmarked : Marked spelling ts flag) (hc : flag = true → c)
    (hstop : ∀ o ∈ if flag then [] else [Terminal.word spelling], o.Avoids us)
    (hk : k flag (ofTokens us) = .ok (b, rest)) :
    (if c then eat (.word spelling) >>= k else pure false >>= k) (ofTokens (ts ++ us)) =
      .ok (b, rest) := by
  split
  · exact (reads_eat spelling).bind_ok hmarked hstop hk
  · cases hmarked with
    | absent => exact hk
    | present => exact absurd (hc rfl) ‹¬ c›

/-- A clause that is a phrase behind a terminal may be left out where the terminal does not come
next. -/
theorem reads_after {o : Terminal} {clause : List Token → α → Prop}
    (hp : Reads p phrase fun _ => [])
    (hclause : ∀ ts a, clause ts a ↔ ∃ t us, ts = t :: us ∧ o.accepts t = true ∧ phrase us a) :
    Reads (after [o] p) (Optional clause) fun a? => if a?.isSome then [] else [o] where
  -- The terminal decides: with it there is a phrase, without it there is none.
  sound {ls rest a?} h := by
    obtain ⟨hopens, a, ha, rfl⟩ | ⟨-, rfl, rfl⟩ := after_eq_ok.1 h
    · obtain ⟨l, mid, rfl, hl, -⟩ := Terminal.opens_cons.1 hopens
      obtain ⟨ts, hts, hphrase⟩ := hp.sound ha
      have htokens : tokens mid = ts ++ tokens rest := hts
      exact ⟨l.token :: ts, by simp [htokens],
        .present ((hclause _ _).2 ⟨l.token, ts, rfl, hl, hphrase⟩)⟩
    · exact ⟨[], rfl, .absent⟩
  complete {ts us a?} h hstop := by
    cases h with
    | absent =>
      exact after_eq_ok.2 (.inr ⟨(hstop _ (List.mem_singleton_self _)).opens [], rfl, rfl⟩)
    | present h =>
      obtain ⟨t, vs, rfl, ht, hphrase⟩ := (hclause _ _).1 h
      have hok : p (ofTokens (vs ++ us)) = .ok (_, ofTokens us) := hp.complete hphrase nofun
      exact after_eq_ok.2 (.inl ⟨Bool.and_eq_true_iff.2 ⟨ht, rfl⟩, _, hok, rfl⟩)

end Parser

end TableSchema
