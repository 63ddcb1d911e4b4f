import TableSchema.Proofs.Grammar.Terminal
import TableSchema.Proofs.Token.Reading

/-!
# Tokens written one after the other

A run of tokens is written down without anything between its tokens; white space is a token of its
own. Reading the text gives the run again if each token is read in front of what is written behind
it, and for that it is enough that tokens which run into each other are parted.

## Main definitions

* `Token.chars`: the characters of a run of tokens;
* `Token.ReadsBack`: every token of the run is read in front of the others;
* `Token.Reads`: the tokens of a text, without white space;
* `Token.Follows`: the run may stand behind any token.

## Main results

* `Token.ReadsBack.lexemes`: the lexemes of the text of a run are those of the run, without white
  space.
-/

namespace TableSchema.Token

/-- The characters that a run of tokens is written with. -/
def chars (ts : List Token) : List Char :=
  ts.flatMap written

/-- Every token of the run is read in front of those behind it. -/
def ReadsBack : List Token → Prop
  | [] => True
  | t :: ts => t.ReadsBefore (chars ts) ∧ ReadsBack ts

/-- The tokens of the text are these; white space and comments are left out. -/
def Reads (cs : List Char) (ts : List Token) : Prop :=
  ∃ pieces, Piece.readAll cs = .ok pieces ∧ (pieces.map Piece.token).filter (· != .blank) = ts

/-- The token is white space, a parenthesis or a comma. -/
inductive IsParting : Token → Prop
  | blank : IsParting .blank
  | openParen : IsParting (.symbol .openParen)
  | closeParen : IsParting (.symbol .closeParen)
  | comma : IsParting (.symbol .comma)

/-- The run is read back, and it is empty or begins with a token that parts it from what stands
before it. -/
structure Follows (ts : List Token) : Prop where
  /-- The run is read back. -/
  readsBack : ReadsBack ts
  /-- Its first token parts. -/
  parting : ∀ t ∈ ts.head?, t.IsParting

@[simp]
theorem chars_nil : chars [] = [] := rfl

@[simp]
theorem chars_cons (t : Token) (ts : List Token) : chars (t :: ts) = t.written ++ chars ts := rfl

@[simp]
theorem chars_append (ts us : List Token) : chars (ts ++ us) = chars ts ++ chars us :=
  List.flatMap_append

@[simp]
theorem written_blank : written .blank = [' '] := rfl

@[simp]
theorem written_bareWord (w : String) : written (.word none w) = w.toList := rfl

/-- A token that is no white space is written as its text. -/
theorem written_of_ne_blank {t : Token} (h : t ≠ .blank) : t.written = t.text.toList := by
  unfold written
  split
  · exact absurd rfl h
  · rfl

/-- The text of a string literal is that of its token. -/
theorem text_of_stringText? {t : Token} {text : String} (h : t.stringText? = some text) :
    t.text = text := by
  cases t with
  | literal kind body => cases kind <;> simp_all [stringText?, Token.text]
  | _ => simp [stringText?] at h

/-- The text of a name is that of its token. -/
theorem text_of_nameText? {t : Token} {name : String} (h : t.nameText? = some name) :
    t.text = name := by
  by_cases hstring : t.stringText?.isSome = true
  · obtain ⟨text, htext⟩ := Option.isSome_iff_exists.1 hstring
    rw [nameText?, htext] at h
    exact (text_of_stringText? htext).trans (Option.some.inj h)
  · rw [nameText?, Option.not_isSome_iff_eq_none.1 hstring] at h
    cases t with
    | word quote value => exact Option.some.inj h
    | _ => simp [wordText?] at h

/-- Without white space the characters of a run are those of its text. -/
theorem toList_glue {ts : List Token} (h : ∀ t ∈ ts, t ≠ .blank) :
    (glue ts).toList = chars ts := by
  rw [glue, String.toList_join, List.flatMap_map]
  induction ts with
  | nil => rfl
  | cons t ts ih =>
    obtain ⟨ht, hts⟩ := List.forall_mem_cons.1 h
    rw [List.flatMap_cons, ih hts, chars_cons, written_of_ne_blank ht]

/-! ## Reading a run -/

/-- Reading the characters of a run gives its tokens. -/
theorem ReadsBack.readAll {ts : List Token} (h : ReadsBack ts) :
    ∃ pieces, Piece.readAll (chars ts) = .ok pieces ∧ pieces.map Piece.token = ts := by
  induction ts with
  | nil => exact ⟨[], by rw [chars_nil, Piece.readAll], rfl⟩
  | cons t ts ih =>
    obtain ⟨⟨c, cs, source, hchars, hread⟩, hts⟩ := h
    obtain ⟨pieces, hpieces, rfl⟩ := ih hts
    exact ⟨⟨t, source⟩ :: pieces, by rw [chars_cons, hchars, Piece.readAll_cons hread hpieces], rfl⟩

/-- Placing pieces keeps their tokens. -/
theorem tokens_place (p : Position) (pieces : List Piece) :
    Lexeme.tokens (Lexeme.place p pieces) = pieces.map Piece.token := by
  induction pieces generalizing p with
  | nil => rfl
  | cons piece pieces ih => simp [Lexeme.place, ih]

/-- Nothing is read of an empty text. -/
theorem Reads.nil : Reads [] [] :=
  ⟨[], by rw [Piece.readAll], rfl⟩

/-- White space and comments in front of a text are left out. -/
theorem Reads.skip {c : Char} {cs rest : List Char} {p : Piece} {ts : List Token}
    (hread : Piece.read c cs = .ok (p, rest)) (hp : p.token = .blank) (h : Reads rest ts) :
    Reads (c :: cs) ts := by
  obtain ⟨pieces, hpieces, rfl⟩ := h
  exact ⟨p :: pieces, Piece.readAll_cons hread hpieces, by simp [hp]⟩

/-- A token in front of a text is its first one. -/
theorem Reads.cons {t : Token} {cs : List Char} {ts : List Token} (ht : t.ReadsBefore cs)
    (hne : t ≠ .blank) (h : Reads cs ts) : Reads (t.written ++ cs) (t :: ts) := by
  obtain ⟨c, cs', source, hchars, hread⟩ := ht
  obtain ⟨pieces, hpieces, rfl⟩ := h
  exact ⟨⟨t, source⟩ :: pieces, by rw [hchars, Piece.readAll_cons hread hpieces], by simp [hne]⟩

/-- A space behind a bare word parts it from every text. -/
theorem Reads.word {w : String} {cs : List Char} {ts : List Token} (hw : Piece.IsPlainWord w)
    (h : Reads cs ts) : Reads (w.toList ++ ' ' :: cs) (.word none w :: ts) := by
  have hspace : Reads (' ' :: cs) ts :=
    h.skip (Piece.read_white (by decide) (by decide +kernel) cs) rfl
  have hparted : Piece.Parted (' ' :: cs) := by
    rintro _ ⟨⟩
    decide
  exact hspace.cons (Piece.readsBefore_plainWord hw hparted) nofun

/-- A word between backticks in front of a text that does not go on with one. -/
theorem Reads.quoted {value : String} {cs : List Char} {ts : List Token}
    (hvalue : '\x60' ∉ value.toList) (hcs : ∀ c ∈ cs.head?, c ≠ '\x60') (h : Reads cs ts) :
    Reads ('\x60' :: (value.toList ++ '\x60' :: cs)) (.word (some '\x60') value :: ts) := by
  have hwritten : (Token.word (some '\x60') value).written =
      '\x60' :: (value.toList ++ ['\x60']) := by
    simp [written, Token.text, wordText, Piece.doubled_of_notMem hvalue]
  simpa [hwritten] using h.cons (Piece.readsBefore_backtick hvalue hcs) (by simp)

/-- A point in front of a text that goes on without a digit. -/
theorem Reads.period {cs : List Char} {ts : List Token} (hcs : ∀ c ∈ cs.head?, c.isDigit = false)
    (h : Reads cs ts) : Reads ('.' :: cs) (.symbol .period :: ts) :=
  h.cons (Piece.readsBefore_period hcs) nofun

/-- The tokens of the characters of a run are those of the run, without white space. -/
theorem ReadsBack.reads {ts : List Token} (h : ReadsBack ts) :
    Reads (chars ts) (ts.filter (· != .blank)) := by
  obtain ⟨pieces, hpieces, htokens⟩ := h.readAll
  exact ⟨pieces, hpieces, by rw [htokens]⟩

/-- The tokens of a text are those of its lexemes. -/
theorem Reads.lexemes {text : String} {ts : List Token} (h : Reads text.toList ts) :
    ∃ ls, Lexeme.ofString text = .ok ls ∧ Lexeme.tokens ls = ts := by
  obtain ⟨pieces, hpieces, rfl⟩ := h
  refine ⟨(Lexeme.place .start pieces).filter Lexeme.isSignificant, ?_, ?_⟩
  · rw [Lexeme.ofString, hpieces]
  · rw [← tokens_place .start, Lexeme.tokens, Lexeme.tokens, List.filter_map]
    rfl

/-- The lexemes of the text of a run are those of the run, without white space. -/
theorem ReadsBack.lexemes {ts : List Token} (h : ReadsBack ts) {text : String}
    (htext : text.toList = chars ts) :
    ∃ ls, Lexeme.ofString text = .ok ls ∧ Lexeme.tokens ls = ts.filter (· != .blank) :=
  Reads.lexemes (htext ▸ h.reads)

/-- The pieces of a text have tokens that were read. -/
theorem legible_of_readAll {cs : List Char} {pieces : List Piece}
    (h : Piece.readAll cs = .ok pieces) : ∀ p ∈ pieces, p.token.Legible :=
  Piece.forall_of_readAll (fun c cs p rest hread => ⟨c, cs, p, rest, hread, rfl⟩) h

/-- The lexemes of a text have tokens that were read. -/
theorem legible_of_ofString {text : String} {ls : List Lexeme}
    (h : Lexeme.ofString text = .ok ls) : ∀ l ∈ ls, l.token.Legible := by
  unfold Lexeme.ofString at h
  split at h
  · rename_i pieces hpieces
    obtain rfl := Except.ok.inj h
    intro l hl
    -- A lexeme is a piece with its place, and has the token of that piece.
    have hmem : l.token ∈ pieces.map Piece.token := by
      rw [← tokens_place .start]
      exact List.mem_map_of_mem (List.mem_filter.1 hl).1
    obtain ⟨p, hp, heq⟩ := List.mem_map.1 hmem
    rw [← heq]
    exact legible_of_readAll hpieces p hp
  · exact nomatch h

/-! ## Runs that are read back -/

/-- White space, parentheses and commas are written with one character, which parts what stands on
its two sides. -/
theorem IsParting.written_eq {t : Token} (h : t.IsParting) :
    ∃ c ∈ Piece.partings, t.written = [c] := by
  cases h with
  | blank => exact ⟨' ', by decide, rfl⟩
  | openParen => exact ⟨'(', by decide, rfl⟩
  | closeParen => exact ⟨')', by decide, rfl⟩
  | comma => exact ⟨',', by decide, rfl⟩

/-- White space, parentheses and commas are read in front of everything. -/
theorem IsParting.readsBefore {t : Token} (h : t.IsParting) (rest : List Char) :
    t.ReadsBefore rest := by
  cases h with
  | blank => exact ⟨' ', rest, [' '], rfl, Piece.read_white (by decide) (by decide +kernel) rest⟩
  | openParen => exact ⟨'(', rest, ['('], rfl, rfl⟩
  | closeParen => exact ⟨')', rest, [')'], rfl, rfl⟩
  | comma => exact ⟨',', rest, [','], rfl, rfl⟩

theorem Follows.nil : Follows [] :=
  ⟨trivial, nofun⟩

/-- White space, a parenthesis or a comma may stand in front of any run that is read back, and then
the run may stand behind any token. -/
theorem Follows.cons {t : Token} {ts : List Token} (ht : t.IsParting) (h : ReadsBack ts) :
    Follows (t :: ts) :=
  ⟨⟨ht.readsBefore _, h⟩, fun u hu => by
    obtain rfl : t = u := by simpa using hu
    exact ht⟩

/-- The text of a run that may stand behind any token is parted from what stands before it. -/
theorem Follows.parted {ts : List Token} (h : Follows ts) : Piece.Parted (chars ts) := by
  cases ts with
  | nil => exact nofun
  | cons t ts =>
    obtain ⟨c, hc, hwritten⟩ := (h.parting t rfl).written_eq
    intro d hd
    rw [chars_cons, hwritten] at hd
    obtain rfl : c = d := by simpa using hd
    exact hc

/-- A bare word may stand in front of any run that may stand behind it. -/
theorem Follows.readsBack_word {w : String} {ts : List Token} (h : Follows ts)
    (hw : Piece.IsPlainWord w) : ReadsBack (.word none w :: ts) :=
  ⟨Piece.readsBefore_plainWord hw h.parted, h.readsBack⟩

end TableSchema.Token
