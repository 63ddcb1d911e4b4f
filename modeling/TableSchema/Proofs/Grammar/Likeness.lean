import Mathlib.Data.List.Forall2
import TableSchema.Grammar.Parser
import TableSchema.Proofs.Grammar.Terminal

/-!
# Lexemes that are alike

The grammar looks at a token in few ways: it asks which terminal a bare word is, what form the token
has, and it keeps texts. A *likeness* relates lexemes that answer all questions in the same way; the
texts that are kept may differ, as far as two views of them do not show it. One view is for names
and everything that may hold a name, the other for the texts of literals and numbers.

## Main definitions

* `Token.shape`: a token without its texts;
* `Likeness`: a relation of lexemes, with what it keeps of a text;
* `Likeness.All`: two runs of lexemes are alike one by one.

## Main results

* `Likeness.accepts_eq`, `Likeness.opens_eq`: no terminal and no pattern tells lexemes apart that
  are alike;
* `Likeness.name_glue`, `Likeness.content_glue`: the texts of runs that are alike.
-/

namespace TableSchema

/-! ## Shapes -/

namespace Token

/-- The token without its texts. -/
def shape : Token → Token
  | word quote _ => .word quote ""
  | number _ => .number ""
  | literal kind _ => .literal kind ""
  | symbol s => .symbol s
  | other _ => .other ""
  | blank => .blank

/-- A symbol is seen from the shape. -/
theorem eq_symbol_iff {t : Token} {s : Symbol} : t = .symbol s ↔ t.shape = .symbol s := by
  cases t <;> simp [shape]

/-- The function gives the text of a token or nothing, and the shape tells which. -/
def ReadsText (value : Token → Option String) : Prop :=
  ∀ t, value t = if (value t.shape).isSome then some t.text else none

/-- The text of a number is its digits. -/
theorem readsText_number : ReadsText numberText? := by
  intro t
  cases t <;> rfl

/-- The text of a string literal is read of literals only. -/
theorem readsText_string : ReadsText stringText? := by
  intro t
  cases t with
  | literal kind body => cases kind <;> rfl
  | _ => rfl

/-- The text of a word is read of words only. -/
theorem readsText_word : ReadsText wordText? := by
  intro t
  cases t <;> rfl

/-- A name is a word or a string literal, and its text is read of both. -/
theorem readsText_name : ReadsText nameText? := by
  intro t
  cases t with
  | literal kind body => cases kind <;> rfl
  | _ => rfl

/-- Whether the text of a token is read is seen from its shape. -/
theorem ReadsText.isSome_shape {value : Token → Option String} (h : ReadsText value) (t : Token) :
    (value t.shape).isSome = (value t).isSome := by
  rw [h t]
  cases (value t.shape).isSome <;> rfl

@[simp]
theorem glue_nil : glue [] = "" := rfl

@[simp]
theorem glue_cons (t : Token) (ts : List Token) : glue (t :: ts) = t.text ++ glue ts := by
  simp [glue]

theorem glue_singleton (t : Token) : glue [t] = t.text := by
  simp

@[simp]
theorem spaced_nil : spaced [] = "" := rfl

@[simp]
theorem spaced_singleton (t : Token) : spaced [t] = t.text := by
  simp [spaced]

@[simp]
theorem spaced_cons_cons (t u : Token) (ts : List Token) :
    spaced (t :: u :: ts) = t.text ++ " " ++ spaced (u :: ts) := by
  simp [spaced]

end Token

namespace Terminal

/-- A word of the language is recognized by its lower case. -/
theorem accepts_eq_any (t : Terminal) (token : Token) : t.accepts token = match t with
    | keyword spelling =>
      (token.bareWord?.map Text.lower).any fun value => Unicode.upper value == spelling
    | word spelling =>
      (token.bareWord?.map Text.lower).any fun value => Text.sameAscii value spelling
    | symbol s => decide (token.shape = .symbol s) := by
  cases t with
  | keyword spelling => simp [accepts, Option.any_map]
  | word spelling => simp [accepts, Option.any_map, Text.sameAscii_lower_left]
  | symbol s =>
    show (token == .symbol s) = decide (token.shape = .symbol s)
    rw [Bool.eq_iff_iff, beq_iff_eq, decide_eq_true_iff, Token.eq_symbol_iff]

end Terminal

/-! ## Likeness -/

/-- A relation of lexemes that the grammar cannot tell apart, but for their texts, with what the two
views keep of a text. -/
structure Likeness where
  /-- The lexemes are alike. -/
  alike : Lexeme → Lexeme → Prop
  /-- What is kept of a name, and of every text that may hold one. -/
  name : String → String
  /-- What is kept of the text of a literal or a number. -/
  content : String → String
  /-- Lexemes that are alike have tokens of the same shape. -/
  shape_eq : ∀ {l l'}, alike l l' → l.token.shape = l'.token.shape
  /-- Bare words that are alike are equal but for their case. -/
  bareWord_eq : ∀ {l l'}, alike l l' →
    l.token.bareWord?.map Text.lower = l'.token.bareWord?.map Text.lower
  /-- As names the texts of lexemes that are alike look the same. -/
  name_text : ∀ {l l'}, alike l l' → name l.token.text = name l'.token.text
  /-- As contents too, unless they are bare words. -/
  content_text : ∀ {l l'}, alike l l' → l.token.bareWord? = none →
    content l.token.text = content l'.token.text
  /-- A name is seen part by part. -/
  name_append : ∀ {s s' t t'}, name s = name s' → name t = name t' → name (s ++ t) = name (s' ++ t')
  /-- A content is seen part by part. -/
  content_append : ∀ {s s' t t'}, content s = content s' → content t = content t' →
    content (s ++ t) = content (s' ++ t')
  /-- Behind a word that changes the delimiter, the end of its line is at the same place. -/
  line_iff : ∀ {l l' m m'}, alike l l' → alike m m' →
    (Terminal.keyword "DELIMITER").accepts l.token = true →
      (m.start.line = l.start.line ↔ m'.start.line = l'.start.line)

namespace Likeness

variable (k : Likeness) {l l' : Lexeme} {ls ls' : List Lexeme}

/-- The lexemes of two runs are alike one by one. -/
abbrev All (ls ls' : List Lexeme) : Prop :=
  List.Forall₂ k.alike ls ls'

variable {k}

/-- No terminal tells lexemes apart that are alike. -/
theorem accepts_eq (h : k.alike l l') (t : Terminal) : t.accepts l.token = t.accepts l'.token := by
  rw [t.accepts_eq_any, t.accepts_eq_any, k.bareWord_eq h, k.shape_eq h]

/-- A symbol is alike to itself only. -/
theorem symbol_iff (h : k.alike l l') (s : Symbol) :
    l.token = .symbol s ↔ l'.token = .symbol s := by
  rw [Token.eq_symbol_iff, k.shape_eq h]
  exact Token.eq_symbol_iff.symm

/-- No pattern tells runs of lexemes apart that are alike. -/
theorem opens_eq (h : k.All ls ls') (pattern : List Terminal) :
    Terminal.opens pattern ls = Terminal.opens pattern ls' := by
  induction pattern generalizing ls ls' with
  | nil => rfl
  | cons t pattern ih =>
    cases h with
    | nil => rfl
    | cons hl hls => rw [Terminal.opens, Terminal.opens, accepts_eq hl, ih hls]

/-- Nor do several patterns. -/
theorem opensAny_eq (h : k.All ls ls') (patterns : List (List Terminal)) :
    Terminal.opensAny patterns ls = Terminal.opensAny patterns ls' := by
  simp only [Terminal.opensAny, opens_eq h]

/-- A text that is read of lexemes that are alike looks the same as a name. -/
theorem map_name {value : Token → Option String} (hvalue : Token.ReadsText value)
    (h : k.alike l l') : (value l.token).map k.name = (value l'.token).map k.name := by
  rw [hvalue l.token, hvalue l'.token, k.shape_eq h]
  split
  · rw [Option.map_some, Option.map_some, k.name_text h]
  · rfl

/-- A text that is read of lexemes that are alike looks the same as a content, if no bare word is
read. -/
theorem map_content {value : Token → Option String} (hvalue : Token.ReadsText value)
    (hword : ∀ w, value (.word none w) = none) (h : k.alike l l') :
    (value l.token).map k.content = (value l'.token).map k.content := by
  have hshape := hvalue.isSome_shape l.token
  rw [hvalue l.token, hvalue l'.token, ← k.shape_eq h]
  split
  · rename_i hsome
    -- What is read is no bare word, so its content is kept.
    have hbare : l.token.bareWord? = none := by
      rw [hshape] at hsome
      unfold Token.bareWord?
      split
      · rename_i heq
        rw [heq, hword] at hsome
        exact absurd hsome Bool.false_ne_true
      · rfl
    rw [Option.map_some, Option.map_some, k.content_text h hbare]
  · rfl

/-- The texts of runs that are alike look the same as names. -/
theorem name_glue (h : k.All ls ls') :
    k.name (Token.glue (Lexeme.tokens ls)) = k.name (Token.glue (Lexeme.tokens ls')) := by
  induction h with
  | nil => rfl
  | cons hl hls ih =>
    rw [Lexeme.tokens_cons, Lexeme.tokens_cons, Token.glue_cons, Token.glue_cons]
    exact k.name_append (k.name_text hl) ih

/-- So do their texts with spaces between them. -/
theorem name_spaced (h : k.All ls ls') :
    k.name (Token.spaced (Lexeme.tokens ls)) = k.name (Token.spaced (Lexeme.tokens ls')) := by
  induction h with
  | nil => rfl
  | cons hl hls ih =>
    cases hls with
    | nil =>
      rw [Lexeme.tokens_cons, Lexeme.tokens_cons, Lexeme.tokens_nil, Token.spaced_singleton,
        Token.spaced_singleton]
      exact k.name_text hl
    | cons hm hms =>
      simp only [Lexeme.tokens_cons, Token.spaced_cons_cons] at ih ⊢
      exact k.name_append (k.name_append (k.name_text hl) rfl) ih

/-- The texts of runs that are alike and hold no bare words look the same as contents. -/
theorem content_glue (h : k.All ls ls') (hbare : ∀ l ∈ ls, l.token.bareWord? = none) :
    k.content (Token.glue (Lexeme.tokens ls)) = k.content (Token.glue (Lexeme.tokens ls')) := by
  induction h with
  | nil => rfl
  | cons hl hls ih =>
    obtain ⟨hfirst, hothers⟩ := List.forall_mem_cons.1 hbare
    rw [Lexeme.tokens_cons, Lexeme.tokens_cons, Token.glue_cons, Token.glue_cons]
    exact k.content_append (k.content_text hl hfirst) (ih hothers)

end Likeness

end TableSchema
