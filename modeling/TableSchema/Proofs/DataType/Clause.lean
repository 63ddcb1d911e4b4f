import TableSchema.Proofs.DataType.Form
import TableSchema.Proofs.Grammar.Completion

/-!
# Reading the clauses of a data type

Every clause of a data type is read as it is described by its phrases: names, lengths, attributes,
character sets, collations, and the members of an enumeration or a set. A clause that may be left
out is read where its first word does not come next.

## Main results

* `reads_typeName`, `reads_lengthClause`, `reads_numericModifiers`, `reads_charset`,
  `reads_collation`, `reads_srid`, `reads_list`: what the parser of a clause reads.
-/

namespace TableSchema

/-! ## Tokens with values -/

/-- A token names a type if it is a bare word that is its type word. -/
theorem TypeName.ofToken?_eq_some_iff {t : Token} {n : TypeName} :
    TypeName.ofToken? t = some n ↔ n.Names t := by
  obtain ⟨keyword, text⟩ := n
  cases t with
  | word quote value =>
    cases quote with
    | none =>
      rw [Names, ← TypeKeyword.ofWord?_eq_some_iff]
      constructor
      · intro h
        obtain ⟨k, hk, heq⟩ : ∃ k, TypeKeyword.ofWord? value = some k ∧
            (⟨k, value⟩ : TypeName) = ⟨keyword, text⟩ := by
          simpa [ofToken?, Token.bareWord?, Option.bind_eq_some_iff] using h
        cases heq
        exact ⟨rfl, hk⟩
      · rintro ⟨htoken, hk⟩
        cases htoken
        simp only at hk
        simp [ofToken?, Token.bareWord?, hk]
    | some quote => simp [ofToken?, Token.bareWord?, Names]
  | _ => simp [ofToken?, Token.bareWord?, Names]

namespace Token

variable {t : Token} {text : String}

theorem numberText?_eq_some_iff : t.numberText? = some text ↔ t = .number text := by
  cases t <;> simp [numberText?]

/-- A string literal is what has the text of one. -/
theorem stringText?_eq_some_iff : t.stringText? = some text ↔ t.IsString ∧ t.text = text := by
  cases t with
  | literal kind body => cases kind <;> simp [stringText?, IsString, Token.text]
  | _ => simp [stringText?, IsString]

/-- A name is what has the text of one. -/
theorem nameText?_eq_some_iff : t.nameText? = some text ↔ t.IsName ∧ t.text = text := by
  cases t with
  | word quote value => simp [nameText?, stringText?, wordText?, IsName, Token.text]
  | literal kind body =>
    cases kind <;> simp [nameText?, stringText?, wordText?, IsName, IsString, Token.text]
  | _ => simp [nameText?, stringText?, wordText?, IsName, IsString]

end Token

namespace Grammar

open TableSchema.Parser TableSchema.Lexeme TableSchema.Token TableSchema.TypeDecl

variable {ls rest : List Lexeme} {ts us : List Token}

/-- A type name is one token, a type word. -/
theorem reads_typeName :
    Reads typeName (fun ts n => ∃ t, ts = [t] ∧ n.Names t) fun _ => [] :=
  (reads_token _ _).congr fun _ _ => by simp only [TypeName.ofToken?_eq_some_iff]

theorem reads_nationalName : Reads nationalName (fun ts n => ∃ t, ts = [t] ∧ n.Names t ∧
    n.keyword ∈ [TypeKeyword.char, .character, .varchar]) fun _ => [] :=
  (reads_token _ _).congr fun _ _ => by
    simp only [Option.filter_eq_some_iff, TypeName.ofToken?_eq_some_iff, decide_eq_true_eq]

/-- The name of a character set is one token. -/
theorem reads_charsetName :
    Reads charsetName (fun ts name => ∃ t, ts = [t] ∧ t.IsName ∧ t.text = name) fun _ => [] :=
  (reads_token _ _).congr fun _ _ => by simp only [nameText?_eq_some_iff]

theorem reads_number : Reads number (fun ts n => ts = [.number n]) fun _ => [] :=
  (reads_token _ _).congr fun _ _ => by simp [numberText?_eq_some_iff]

theorem reads_stringLiteral :
    Reads stringLiteral (fun ts text => ∃ t, ts = [t] ∧ t.IsString ∧ t.text = text)
      fun _ => [] :=
  (reads_token _ _).congr fun _ _ => by simp only [stringText?_eq_some_iff]

theorem reads_expect (s : Symbol) :
    Reads (expect (.symbol s)) (fun ts _ => ts = [.symbol s]) fun _ => [] where
  sound h := by
    obtain ⟨l, rfl, hl⟩ := expect_eq_ok.1 h
    exact ⟨[l.token], rfl, congrArg ([·]) (by simpa [Terminal.accepts] using hl)⟩
  complete := by
    rintro _ us ⟨⟩ rfl -
    exact expect_cons (by simp [Terminal.accepts])

/-- A word that is demanded is read. -/
theorem reads_expect_word (spelling : String) :
    Reads (expect (.word spelling)) (fun ts _ => ∃ t, ts = [t] ∧ t.IsWord spelling)
      fun _ => [] where
  sound h := by
    obtain ⟨l, rfl, hl⟩ := expect_eq_ok.1 h
    exact ⟨[l.token], rfl, l.token, rfl, isWord_iff.2 hl⟩
  complete := by
    rintro _ us ⟨⟩ ⟨t, rfl, ht⟩ -
    exact expect_cons (isWord_iff.1 ht)

/-- `[BINARY]` -/
theorem reads_binary :
    Reads binary (Marked "BINARY") fun flag => if flag then [] else [.word "BINARY"] :=
  reads_eat "BINARY"

/-- `[VARYING]` -/
theorem reads_varying :
    Reads varying (Marked "VARYING") fun flag => if flag then [] else [.word "VARYING"] :=
  reads_eat "VARYING"

/-! ## Lengths -/

/-- The parser takes what may stand between the parentheses of a length clause. -/
def ReadsInside (numbers : Parser Unit) (inside : List Token → Prop) : Prop :=
  Reads numbers (fun ts _ => inside ts) fun _ => [.symbol .comma]

/-- A length clause is read with its text. -/
theorem reads_lengthClause {numbers : Parser Unit} {inside : List Token → Prop}
    {phrase : List Token → String → Prop} (hnumbers : ReadsInside numbers inside)
    (hphrase : ∀ ts text, phrase ts text ↔ ∃ us, inside us ∧
      ts = .symbol .openParen :: (us ++ [.symbol .closeParen]) ∧ text = glue ts) :
    Reads (lengthClause numbers) (Optional phrase)
      fun length => if length.isSome then [] else [.symbol .openParen] where
  sound {ls rest length} h := by
    obtain ⟨-, text, hglued, rfl⟩ | ⟨-, rfl, rfl⟩ := ifAhead_eq_ok.1 h
    · obtain ⟨ts, left, htaken, htext⟩ := bind_eq_ok.1 hglued
      obtain ⟨-, rfl⟩ := pure_eq_ok.1 htext
      -- The text is glued from the tokens that are taken, and these are a parenthesis around
      -- numbers.
      have hclause := (taken_eq_ok.1 htaken).1
      obtain ⟨_, _, mid₁, hopen, rfl, hinside⟩ := (reads_expect .openParen).of_bind hclause
      obtain ⟨us, _, mid₂, hus, hinsides, hclose⟩ := hnumbers.of_bind hinside
      obtain ⟨_, hend, rfl⟩ := (reads_expect .closeParen).sound hclose
      have htokens : tokens ls =
          .symbol .openParen :: (us ++ [.symbol .closeParen]) ++ tokens left := by
        simp [hopen, hus, hend]
      have hglue := glued_of_ok hclause htokens
      obtain rfl := congrArg Prod.fst (Except.ok.inj (hglued.symm.trans hglue))
      exact ⟨_, htokens, .present ((hphrase _ _).2 ⟨us, hinsides, rfl, rfl⟩)⟩
    · exact ⟨[], rfl, .absent⟩
  complete {ts us length} h hstop := by
    cases h with
    | absent =>
      exact ifAhead_eq_ok.2 (.inr ⟨(hstop _ (List.mem_singleton_self _)).opens [], rfl, rfl⟩)
    | @present ts text h =>
      obtain ⟨vs, hinside, rfl, rfl⟩ := (hphrase _ _).1 h
      refine ifAhead_eq_ok.2 (.inl ⟨rfl, _, glued_of_ok ?_ (by simp), rfl⟩)
      have hopen : (expect (.symbol .openParen) >>= fun _ => numbers >>= fun _ =>
          expect (.symbol .closeParen)) (ofTokens ([.symbol .openParen] ++
            (vs ++ ([.symbol .closeParen] ++ us)))) = .ok ((), ofTokens us) := by
        refine (reads_expect .openParen).bind_ok (a := ()) rfl nofun ?_
        refine hnumbers.bind_ok (a := ()) hinside ?_ ?_
        · exact List.forall_mem_singleton.2 ((Begins.token _ _).avoids (by decide))
        · exact (reads_expect .closeParen).complete rfl nofun
      simpa using hopen

/-- One number stands in the parentheses of one length. -/
theorem readsInside_one : ReadsInside (discard number) fun ts => ∃ n, ts = [.number n] where
  sound h := by
    obtain ⟨n, hn⟩ := discard_eq_ok.1 h
    obtain ⟨_, hts, rfl⟩ := reads_number.sound hn
    exact ⟨_, hts, n, rfl⟩
  complete := by
    rintro _ us ⟨⟩ ⟨n, rfl⟩ -
    exact discard_of_ok (reads_number.complete rfl nofun)

/-- Two numbers and a comma stand in the parentheses of two lengths. -/
theorem readsInside_two :
    ReadsInside (do discard number; expect (.symbol .comma); discard number)
      fun ts => ∃ p s, ts = [.number p, .symbol .comma, .number s] where
  sound h := by
    obtain ⟨_, _, mid₁, hfirst, ⟨p, rfl⟩, h⟩ := readsInside_one.of_bind h
    obtain ⟨_, _, mid₂, hcomma, rfl, h⟩ := (reads_expect .comma).of_bind h
    obtain ⟨_, hsecond, s, rfl⟩ := readsInside_one.sound h
    exact ⟨_, by simp [hfirst, hcomma, hsecond], p, s, rfl⟩
  complete := by
    rintro _ us ⟨⟩ ⟨p, s, rfl⟩ -
    rfl

/-- One number, or two with a comma, stand in these parentheses. -/
theorem readsInside_upToTwo :
    ReadsInside (do discard number; if ← eat (.symbol .comma) then discard number)
      fun ts => (∃ n, ts = [.number n]) ∨ ∃ p s, ts = [.number p, .symbol .comma, .number s] where
  sound h := by
    obtain ⟨_, _, mid₁, hfirst, ⟨p, rfl⟩, h⟩ := readsInside_one.of_bind h
    obtain ⟨comma, mid₂, hcomma, h⟩ := bind_eq_ok.1 h
    obtain ⟨hopens, rfl⟩ := eatAll_eq_ok.1 hcomma
    -- A comma promises a second number; without one the clause ends after the first.
    cases comma with
    | false =>
      obtain ⟨-, rfl⟩ := pure_eq_ok.1 h
      exact ⟨_, hfirst, .inl ⟨p, rfl⟩⟩
    | true =>
      obtain ⟨l, mid₃, rfl, hl, -⟩ := Terminal.opens_cons.1 hopens
      obtain ⟨_, hsecond, s, rfl⟩ := readsInside_one.sound h
      have hl : l.token = .symbol .comma := by simpa [Terminal.accepts] using hl
      have hsecond : tokens mid₃ = [.number s] ++ tokens _ := hsecond
      exact ⟨_, by simp [hfirst, hl, hsecond], .inr ⟨p, s, rfl⟩⟩
  complete := by
    rintro _ us ⟨⟩ hinside hstop
    rcases hinside with ⟨n, rfl⟩ | ⟨p, s, rfl⟩
    · have hcomma : eat (.symbol .comma) (ofTokens us) = .ok (false, ofTokens us) :=
        eatAll_eq_ok.2 ⟨(hstop _ (List.mem_singleton_self _)).opens [], rfl⟩
      have hnumber : discard number (ofTokens ([.number n] ++ us)) = .ok ((), ofTokens us) := rfl
      exact (bind_of_ok hnumber).trans (bind_of_ok hcomma)
    · rfl

/-- The text of a length. -/
theorem oneLength_iff {ts : List Token} {text : String} : OneLength ts text ↔
    ∃ us, (∃ n, us = [.number n]) ∧
      ts = .symbol .openParen :: (us ++ [.symbol .closeParen]) ∧ text = glue ts := by
  have htext : ∀ n, glue [.symbol .openParen, .number n, .symbol .closeParen] =
      "(" ++ n ++ ")" := by
    intro n
    simp [Token.text, Symbol.text, String.append_assoc]
  constructor
  · rintro ⟨n⟩
    exact ⟨_, ⟨n, rfl⟩, rfl, (htext n).symm⟩
  · rintro ⟨_, ⟨n, rfl⟩, rfl, rfl⟩
    exact (htext n) ▸ .mk n

/-- The text of two lengths. -/
theorem twoLengths_iff {ts : List Token} {text : String} : TwoLengths ts text ↔
    ∃ us, (∃ p s, us = [.number p, .symbol .comma, .number s]) ∧
      ts = .symbol .openParen :: (us ++ [.symbol .closeParen]) ∧ text = glue ts := by
  have htext : ∀ p s, glue [.symbol .openParen, .number p, .symbol .comma, .number s,
      .symbol .closeParen] = "(" ++ p ++ "," ++ s ++ ")" := by
    intro p s
    simp [Token.text, Symbol.text, String.append_assoc]
  constructor
  · rintro ⟨p, s⟩
    exact ⟨_, ⟨p, s, rfl⟩, rfl, (htext p s).symm⟩
  · rintro ⟨_, ⟨p, s, rfl⟩, rfl, rfl⟩
    exact (htext p s) ▸ .mk p s

/-- `[(n)]` -/
theorem reads_oneLength : Reads oneLength (Optional OneLength)
    fun length => if length.isSome then [] else [.symbol .openParen] :=
  reads_lengthClause readsInside_one fun _ _ => oneLength_iff

/-- `[(p, s)]` -/
theorem reads_twoLengths : Reads twoLengths (Optional TwoLengths)
    fun length => if length.isSome then [] else [.symbol .openParen] :=
  reads_lengthClause readsInside_two fun _ _ => twoLengths_iff

/-- `[(p)]` or `[(p, s)]` -/
theorem reads_upToTwoLengths : Reads upToTwoLengths (Optional UpToTwoLengths)
    fun length => if length.isSome then [] else [.symbol .openParen] := by
  refine reads_lengthClause readsInside_upToTwo fun ts text => ?_
  rw [UpToTwoLengths, oneLength_iff, twoLengths_iff, ← exists_or]
  simp only [or_and_right]

/-! ## Attributes -/

/-- An attribute of a number is the word for it. -/
theorem numericModifier?_eq_some_iff {t : Token} {modifier : NumericModifier} :
    numericModifier? t = some modifier ↔ t.IsWord modifier.spelling := by
  constructor
  · intro h
    unfold numericModifier? at h
    split at h
    · obtain rfl := Option.some.inj h
      exact isWord_iff.2 ‹_›
    · split at h
      · obtain rfl := Option.some.inj h
        exact isWord_iff.2 ‹_›
      · split at h
        · obtain rfl := Option.some.inj h
          exact isWord_iff.2 ‹_›
        · cases h
  · intro h
    -- No word is tried before the right one that accepts it.
    simp only [numericModifier?, h.accepts_eq]
    cases modifier <;> rfl

/-- Attributes are read up to another token. -/
theorem reads_numericModifiers : Reads numericModifiers Modifiers
    fun _ => [.word "SIGNED", .word "UNSIGNED", .word "ZEROFILL"] where
  sound {ls rest modifiers} h := by
    obtain ⟨front, rfl, hfront, -⟩ := tokenRun_eq_ok.1 h
    refine ⟨tokens front, tokens_append front rest, List.forall₂_map_left_iff.2 ?_⟩
    exact hfront.imp fun _ _ => numericModifier?_eq_some_iff.1
  complete {ts us modifiers} h hstop := by
    -- The run stops where no modifier follows.
    have hnone : ∀ l ∈ (ofTokens us).head?, numericModifier? l.token = none := by
      intro l hl
      have hother : ∀ o ∈ [Terminal.word "SIGNED", .word "UNSIGNED", .word "ZEROFILL"],
          o.accepts l.token = false := by
        cases us with
        | nil => cases hl
        | cons u us =>
          obtain rfl := Option.some.inj hl
          exact fun o ho => hstop o ho u rfl
      simp only [List.forall_mem_cons] at hother
      simp [numericModifier?, hother]
    refine tokenRun_eq_ok.2
      ⟨ofTokens ts, ofTokens_append ts us, List.forall₂_map_left_iff.2 ?_, hnone⟩
    exact h.imp fun _ _ => numericModifier?_eq_some_iff.2

/-! ## Character sets and collations -/

/-- Words that come next are taken by their number. -/
theorem tokens_of_opens_words {words : List String}
    (h : Terminal.opens (words.map Terminal.word) ls = true) :
    ∃ ts, tokens ls = ts ++ tokens (ls.drop words.length) ∧ List.Forall₂ IsWord words ts := by
  induction words generalizing ls with
  | nil => exact ⟨[], rfl, .nil⟩
  | cons word words ih =>
    obtain ⟨l, rest, rfl, hl, hrest⟩ := Terminal.opens_cons.1 h
    obtain ⟨ts, hts, hwords⟩ := ih hrest
    exact ⟨l.token :: ts, by simp [hts], .cons (isWord_iff.2 hl) hwords⟩

/-- Two words are two tokens. -/
theorem exists_pair_of_words {word other : String} (h : List.Forall₂ IsWord [word, other] ts) :
    ∃ t u, ts = [t, u] := by
  obtain ⟨t, _, -, hrest, rfl⟩ := List.forall₂_cons_left_iff.1 h
  obtain ⟨u, _, -, ⟨⟩, rfl⟩ := List.forall₂_cons_left_iff.1 hrest
  exact ⟨t, u, rfl⟩

/-- The words for a character set are taken. -/
theorem charsetKeyword?_of_words {keyword : CharsetKeyword}
    (h : List.Forall₂ IsWord keyword.words ts) (us : List Token) :
    charsetKeyword? (ofTokens (ts ++ us)) = .ok (some keyword, ofTokens us) := by
  cases keyword with
  | charSet | characterSet =>
    obtain ⟨t, u, rfl⟩ := exists_pair_of_words h
    exact choose?_of_words h rfl rfl
  | charset =>
    obtain ⟨t, _, -, ⟨⟩, rfl⟩ := List.forall₂_cons_left_iff.1 h
    exact choose?_of_words h rfl rfl

/-- The words for a character set that come next. -/
theorem reads_charsetKeyword : Reads charsetKeyword?
    (Optional fun ts keyword => List.Forall₂ IsWord keyword.words ts)
    fun keyword => if keyword.isSome then [] else
      [.word "CHARACTER", .word "CHAR", .word "CHARSET"] where
  sound {ls rest keyword?} h := by
    obtain ⟨b, hb, hopens, taken, hbody, rfl⟩ | ⟨rfl, rfl, -⟩ := choose?_eq_ok h
    · obtain ⟨keyword, rfl⟩ : ∃ keyword : CharsetKeyword,
          b = .behind (keyword.words.map Terminal.word) (return keyword) := by
        simp only [List.mem_cons, List.not_mem_nil, or_false] at hb
        obtain rfl | rfl | rfl := hb
        · exact ⟨.characterSet, rfl⟩
        · exact ⟨.charSet, rfl⟩
        · exact ⟨.charset, rfl⟩
      obtain ⟨_, _, hskip, htaken⟩ := bind_eq_ok.1 hbody
      obtain rfl := congrArg Prod.snd (Except.ok.inj hskip)
      obtain ⟨rfl, rfl⟩ := pure_eq_ok.1 htaken
      obtain ⟨ts, hts, hwords⟩ := tokens_of_opens_words hopens
      exact ⟨ts, by simpa using hts, .present hwords⟩
    · exact ⟨[], rfl, .absent⟩
  complete {ts us keyword?} h hstop := by
    cases h with
    | absent =>
      have hother : ∀ o ∈ [Terminal.word "CHARACTER", .word "CHAR", .word "CHARSET"],
          ∀ pattern, Terminal.opens (o :: pattern) (ofTokens us) = false :=
        fun o ho => (hstop o ho).opens
      simp only [List.forall_mem_cons] at hother
      obtain ⟨hcharacter, hchar, hcharset, -⟩ := hother
      refine (choose?_of_not_opens (hcharacter _)).trans ?_
      refine (choose?_of_not_opens (hchar _)).trans ?_
      exact choose?_of_not_opens (hcharset _)
    | present h => exact charsetKeyword?_of_words h us

/-- `[{CHARACTER SET | CHAR SET | CHARSET} name]` -/
theorem reads_charset : Reads charset (Optional CharsetClause)
    fun charset => if charset.isSome then [] else
      [.word "CHARACTER", .word "CHAR", .word "CHARSET"] where
  sound {ls rest charset?} h := by
    obtain ⟨ts, keyword?, mid, hts, hkeyword, h⟩ := reads_charsetKeyword.of_bind h
    -- There is a name exactly if the words were there.
    cases hkeyword with
    | absent =>
      obtain ⟨rfl, rfl⟩ := pure_eq_ok.1 h
      exact ⟨[], hts, .absent⟩
    | present hwords =>
      obtain ⟨_, name, end_, hname, ⟨t, rfl, ht, rfl⟩, h⟩ := reads_charsetName.of_bind h
      obtain ⟨rfl, rfl⟩ := pure_eq_ok.1 h
      exact ⟨ts ++ [t], by simp [hts, hname], .present ⟨hwords, ht⟩⟩
  complete {ts us charset?} h hstop := by
    cases h with
    | absent => exact reads_charsetKeyword.bind_ok .absent hstop rfl
    | present h =>
      obtain ⟨hwords, hname⟩ := h
      rw [List.append_assoc]
      refine reads_charsetKeyword.bind_ok (.present hwords) nofun ?_
      exact reads_charsetName.bind_ok ⟨_, rfl, hname, rfl⟩ nofun rfl

/-- `[COLLATE name]` -/
theorem reads_collation : Reads collation (Optional CollationClause)
    fun collation => if collation.isSome then [] else [.keyword "COLLATE"] := by
  refine reads_after reads_charsetName fun ts name => ?_
  have hword : ∀ t : Token, t.IsWord "COLLATE" ↔ (Terminal.keyword "COLLATE").accepts t = true :=
    fun t => isWord_iff_keyword (by decide) (by decide +kernel)
  constructor
  · rintro ⟨hcollate, hname⟩
    exact ⟨_, _, rfl, (hword _).1 hcollate, _, rfl, hname, rfl⟩
  · rintro ⟨t, _, rfl, ht, name, rfl, hname, rfl⟩
    exact .mk ((hword t).2 ht) hname

/-- `[SRID n]` -/
theorem reads_srid : Reads (after [.word "SRID"] number) (Optional SridClause)
    fun srid => if srid.isSome then [] else [.word "SRID"] := by
  refine reads_after reads_number fun ts n => ?_
  constructor
  · rintro ⟨hsrid, n⟩
    exact ⟨_, _, rfl, isWord_iff.1 hsrid, rfl⟩
  · rintro ⟨t, _, rfl, ht, rfl⟩
    exact .mk (isWord_iff.2 ht) n

/-! ## Members -/

/-- A run with commas is its first token and the others with commas in front of them. -/
theorem intersperse_cons (t : Token) (items : List Token) :
    (t :: items).intersperse (.symbol .comma) =
      t :: items.flatMap fun u => [.symbol .comma, u] := by
  induction items generalizing t with
  | nil => rfl
  | cons u items ih => rw [List.intersperse_cons_cons, ih, List.flatMap_cons]; rfl

/-- A comma and a literal, if a comma comes next. -/
theorem reads_nextLiteral : Reads (after [.symbol .comma] stringLiteral)
    (Optional fun ts text => ∃ t, ts = [.symbol .comma, t] ∧ t.IsString ∧ t.text = text)
    fun text? => if text?.isSome then [] else [.symbol .comma] := by
  refine reads_after reads_stringLiteral fun ts text => ?_
  constructor
  · rintro ⟨t, rfl, ht⟩
    exact ⟨_, _, rfl, by simp [Terminal.accepts], t, rfl, ht⟩
  · rintro ⟨comma, _, rfl, hcomma, t, rfl, ht⟩
    obtain rfl : comma = .symbol .comma := by simpa [Terminal.accepts] using hcomma
    exact ⟨t, rfl, ht⟩

/-- Literals with commas in front of them are what is read of a list behind its first literal. -/
theorem exists_literals_of_many {texts : List String}
    (h : many (after [.symbol .comma] stringLiteral) ls = .ok (texts, rest)) :
    ∃ items : List Token, (∀ t ∈ items, t.IsString) ∧ texts = items.map Token.text ∧
      tokens ls = (items.flatMap fun t => [.symbol .comma, t]) ++ tokens rest := by
  -- The induction is on how many lexemes are left, since each literal takes some.
  induction hn : ls.length using Nat.strongRecOn generalizing ls texts with
  | ind n ih =>
    obtain ⟨rfl, hnone⟩ | ⟨text, later, mid, rfl, hsome, hlt, hmany⟩ | ⟨text, rfl, hsome, -⟩ :=
      many_eq_ok h
    · obtain ⟨ts, hts, ⟨⟩⟩ := reads_nextLiteral.sound hnone
      exact ⟨[], nofun, rfl, hts⟩
    · obtain ⟨ts, hts, _ | ⟨t, rfl, ht, rfl⟩⟩ := reads_nextLiteral.sound hsome
      obtain ⟨items, hitems, rfl, hus⟩ := ih mid.length (hn ▸ hlt) hmany rfl
      exact ⟨t :: items, List.forall_mem_cons.2 ⟨ht, hitems⟩, rfl, by simp [hts, hus]⟩
    · obtain ⟨ts, hts, _ | ⟨t, rfl, ht, rfl⟩⟩ := reads_nextLiteral.sound hsome
      exact ⟨[t], List.forall_mem_singleton.2 ht, rfl, hts⟩

/-- Literals with commas in front of them are phrases behind commas. -/
theorem repeated_of_strings {items : List Token} (h : ∀ t ∈ items, t.IsString) :
    Repeated (BehindComma fun ts text => ∃ t, ts = [t] ∧ t.IsString ∧ t.text = text)
      (items.flatMap fun t => [.symbol .comma, t]) (items.map Token.text) := by
  induction items with
  | nil => exact .nil
  | cons t items ih =>
    obtain ⟨ht, hitems⟩ := List.forall_mem_cons.1 h
    exact .cons (.mk ⟨t, rfl, ht, rfl⟩) (ih hitems)

/-- Literals in parentheses are read with their texts. -/
theorem reads_list : Reads (list stringLiteral)
    (fun ts texts => ∃ items : List Token, items ≠ [] ∧ (∀ t ∈ items, t.IsString) ∧
      ts = bracketed items ∧ texts = items.map Token.text) fun _ => [] where
  sound {ls rest texts} h := by
    obtain ⟨_, _, mid₁, hopen, rfl, h⟩ := (reads_expect .openParen).of_bind h
    obtain ⟨items, mid₂, hitems, h⟩ := bind_eq_ok.1 h
    obtain ⟨_, first, mid₃, hfirst, ⟨t, rfl, ht, rfl⟩, hitems⟩ := reads_stringLiteral.of_bind hitems
    obtain ⟨others, mid₄, hmany, hitems⟩ := bind_eq_ok.1 hitems
    obtain ⟨us, hus, rfl, hothers⟩ := exists_literals_of_many hmany
    obtain ⟨rfl, rfl⟩ := pure_eq_ok.1 hitems
    obtain ⟨_, _, mid₅, hclose, rfl, h⟩ := (reads_expect .closeParen).of_bind h
    obtain ⟨rfl, rfl⟩ := pure_eq_ok.1 h
    refine ⟨bracketed (t :: us), ?_, t :: us, List.cons_ne_nil t us,
      List.forall_mem_cons.2 ⟨ht, hus⟩, rfl, rfl⟩
    simp [hopen, hfirst, hothers, hclose, bracketed, intersperse_cons]
  complete {ts us texts} h hstop := by
    obtain ⟨items, hne, hitems, rfl, rfl⟩ := h
    obtain ⟨t, items, rfl⟩ := List.exists_cons_of_ne_nil hne
    obtain ⟨ht, hitems⟩ := List.forall_mem_cons.1 hitems
    -- A list is its first literal and then literals with commas in front of them.
    have htokens : bracketed (t :: items) = .symbol .openParen :: ([t] ++
        ((items.flatMap fun u => [.symbol .comma, u]) ++ [.symbol .closeParen])) := by
      simp [bracketed, intersperse_cons]
    rw [htokens]
    exact reads_stringLiteral.completes.list (List.forall_mem_nil _) (List.forall_mem_nil _)
      (.mk ⟨t, rfl, ht, rfl⟩ (repeated_of_strings hitems)) hstop

end Grammar

end TableSchema
