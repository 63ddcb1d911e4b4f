import TableSchema.Grammar.Terminal
import TableSchema.Proofs.Text.Case

/-!
# Terminals and tokens

Which tokens a terminal accepts, and what decides whether a pattern of terminals comes next. Only
the tokens of the lexemes matter, never their places, and tokens behind a *mark* matter only to
patterns that contain a mark.

## Main definitions

* `Token.isMark`, `Terminal.isMark`: the symbols that end an entry, a list or a statement.

## Main results

* `opens_append`: what comes behind a mark does not change whether a pattern without marks comes
  next.
-/

namespace TableSchema

namespace Lexeme

@[simp]
theorem tokens_nil : tokens [] = [] := rfl

@[simp]
theorem tokens_cons (l : Lexeme) (ls : List Lexeme) : tokens (l :: ls) = l.token :: tokens ls := rfl

@[simp]
theorem tokens_append (ls ms : List Lexeme) : tokens (ls ++ ms) = tokens ls ++ tokens ms :=
  List.map_append

@[simp]
theorem length_tokens (ls : List Lexeme) : (tokens ls).length = ls.length :=
  List.length_map token

/-- Lexemes with given tokens, all of them placed where a text begins. -/
def ofTokens (ts : List Token) : List Lexeme :=
  ts.map fun t => ⟨t, .start, .start⟩

@[simp]
theorem tokens_ofTokens (ts : List Token) : tokens (ofTokens ts) = ts := by
  simp [tokens, ofTokens, Function.comp_def]

@[simp]
theorem length_ofTokens (ts : List Token) : (ofTokens ts).length = ts.length :=
  List.length_map _

theorem ofTokens_append (ts us : List Token) : ofTokens (ts ++ us) = ofTokens ts ++ ofTokens us :=
  List.map_append

/-- Lexemes whose tokens begin with a token begin with a lexeme that has it. -/
theorem tokens_eq_cons {ls : List Lexeme} {u : Token} {us : List Token} :
    tokens ls = u :: us ↔ ∃ l rest, ls = l :: rest ∧ l.token = u ∧ tokens rest = us := by
  cases ls with
  | nil => simp
  | cons l ls =>
    constructor
    · exact fun h => ⟨l, ls, rfl, List.cons.inj h⟩
    · rintro ⟨_, _, heq, rfl, rfl⟩
      cases heq
      rfl

end Lexeme

/-- The token ends an entry, a list or a statement: it is a comma, a closing parenthesis or a
semicolon. -/
def Token.isMark : Token → Bool
  | symbol .comma | symbol .closeParen | symbol .semicolon => true
  | _ => false

/-- There are three marks. -/
theorem Token.isMark_iff {u : Token} : u.isMark = true ↔
    u = .symbol .comma ∨ u = .symbol .closeParen ∨ u = .symbol .semicolon := by
  unfold isMark
  split <;> simp_all

/-- A mark is a symbol. -/
theorem Token.symbol_of_isMark {u : Token} (h : u.isMark = true) : ∃ s, u = .symbol s := by
  rcases isMark_iff.1 h with rfl | rfl | rfl
  · exact ⟨_, rfl⟩
  · exact ⟨_, rfl⟩
  · exact ⟨_, rfl⟩

namespace Terminal

/-- The terminal is the symbol of a mark. -/
def isMark : Terminal → Bool
  | symbol s => (Token.symbol s).isMark
  | _ => false

/-- A mark is accepted by no other terminal. -/
theorem accepts_mark {t : Terminal} (ht : t.isMark = false) {u : Token} (hu : u.isMark = true) :
    t.accepts u = false := by
  obtain ⟨s, rfl⟩ := Token.symbol_of_isMark hu
  cases t with
  | keyword spelling => rfl
  | word spelling => rfl
  | symbol s' =>
    have hne : s ≠ s' := by
      rintro rfl
      simp [isMark, hu] at ht
    simpa [accepts] using hne

/-- A word of the language, keyword or not, is a bare word. -/
theorem bareWord_of_accepts {t : Terminal} {u : Token} (h : t.accepts u = true)
    (ht : ∀ s, t ≠ symbol s) : ∃ value, u = .word none value := by
  cases u with
  | word quote value =>
    cases quote with
    | none => exact ⟨value, rfl⟩
    | some quote => cases t <;> simp [accepts, Token.bareWord?] at h
  | _ =>
    cases t with
    | symbol s => exact absurd rfl (ht s)
    | _ => simp [accepts, Token.bareWord?] at h

/-- A keyword accepts the bare words with its spelling as upper case. -/
theorem keyword_accepts {spelling : String} {u : Token} :
    (keyword spelling).accepts u = true ↔
      ∃ value, u = .word none value ∧ Unicode.upper value = spelling := by
  constructor
  · intro h
    obtain ⟨value, rfl⟩ := bareWord_of_accepts h nofun
    exact ⟨value, rfl, by simpa [accepts, Token.bareWord?] using h⟩
  · rintro ⟨value, rfl, hupper⟩
    simpa [accepts, Token.bareWord?] using hupper

/-- A word that is not a keyword accepts only what a keyword of its spelling would. -/
theorem keyword_accepts_of_word {spelling : String} (hspelling : Text.IsSpelling spelling)
    {u : Token} (h : (word spelling).accepts u = true) : (keyword spelling).accepts u = true := by
  obtain ⟨value, rfl⟩ := bareWord_of_accepts h nofun
  have hsame : Text.sameAscii value spelling = true := by
    simpa [accepts, Token.bareWord?] using h
  exact keyword_accepts.2 ⟨value, rfl, Text.upper_eq_of_sameAscii hsame hspelling⟩

/-- No token is accepted by two keywords. -/
theorem keyword_unique {s t : String} {u : Token} (hs : (keyword s).accepts u = true)
    (ht : (keyword t).accepts u = true) : s = t := by
  obtain ⟨value, rfl, rfl⟩ := keyword_accepts.1 hs
  obtain ⟨_, hword, rfl⟩ := keyword_accepts.1 ht
  cases hword
  rfl

/-- What a keyword accepts, the others do not. -/
theorem keyword_accepts_other {s t : String} {u : Token} (hs : (keyword s).accepts u = true)
    (hne : s ≠ t) : (keyword t).accepts u = false := by
  cases ht : (keyword t).accepts u with
  | false => rfl
  | true => exact absurd (keyword_unique hs ht) hne

/-! ## Patterns -/

/-- A pattern comes next if its first terminal does and the others after it. -/
theorem opens_cons {t : Terminal} {pattern : List Terminal} {ls : List Lexeme} :
    opens (t :: pattern) ls = true ↔
      ∃ l rest, ls = l :: rest ∧ t.accepts l.token = true ∧ opens pattern rest = true := by
  cases ls with
  | nil => simp [opens]
  | cons l ls =>
    rw [opens, Bool.and_eq_true]
    constructor
    · exact fun h => ⟨l, ls, rfl, h⟩
    · rintro ⟨_, _, heq, h⟩
      cases heq
      exact h

/-- Two terminals that come next are the first two lexemes. -/
theorem opens_pair {t u : Terminal} {ls : List Lexeme} (h : opens [t, u] ls = true) :
    ∃ l m rest, ls = l :: m :: rest ∧ t.accepts l.token = true ∧ u.accepts m.token = true := by
  obtain ⟨l, _, rfl, hl, h⟩ := opens_cons.1 h
  obtain ⟨m, rest, rfl, hm, -⟩ := opens_cons.1 h
  exact ⟨l, m, rest, rfl, hl, hm⟩

/-- What comes behind a mark does not change whether a pattern without marks comes next. -/
theorem opens_append {pattern : List Terminal} (hpattern : pattern.any isMark = false)
    {ls ls' : List Lexeme} {tail : List Token}
    (h : Lexeme.tokens ls' = Lexeme.tokens ls ++ tail)
    (hmark : (∃ u ∈ Lexeme.tokens ls, u.isMark = true) ∨ ∀ u ∈ tail.head?, u.isMark = true) :
    opens pattern ls' = opens pattern ls := by
  induction pattern generalizing ls ls' with
  | nil => rfl
  | cons t pattern ih =>
    obtain ⟨ht, hpattern⟩ := Bool.or_eq_false_iff.1 hpattern
    cases ls with
    | nil =>
      cases ls' with
      | nil => rfl
      | cons l' ls' =>
        -- Nothing is left in front of the tail, whose first token the pattern does not accept.
        obtain rfl : l'.token :: Lexeme.tokens ls' = tail := by simpa using h
        have hu : l'.token.isMark = true := by simpa using hmark
        rw [opens, opens, accepts_mark ht hu, Bool.false_and]
    | cons l ls =>
      cases ls' with
      | nil => simp at h
      | cons l' ls' =>
        obtain ⟨hhead, htail⟩ := List.cons.inj h
        rw [opens, opens, hhead]
        cases hl : t.accepts l.token with
        | false => rfl
        | true =>
          -- The first token is no mark, so the mark is among the others or heads the tail.
          rw [ih hpattern htail]
          refine hmark.imp_left ?_
          rintro ⟨u, hu, hmarked⟩
          obtain rfl | hu := List.mem_cons.1 hu
          · simp [accepts_mark ht hmarked] at hl
          · exact ⟨u, hu, hmarked⟩

/-- A pattern that comes next does so whatever follows. -/
theorem opens_of_append {pattern : List Terminal} {ls ls' : List Lexeme} {tail : List Token}
    (h : Lexeme.tokens ls' = Lexeme.tokens ls ++ tail) (hopens : opens pattern ls = true) :
    opens pattern ls' = true := by
  -- The pattern is no longer than `ls`, so what is appended is never looked at.
  induction pattern generalizing ls ls' with
  | nil => rfl
  | cons t pattern ih =>
    cases ls with
    | nil => simp [opens] at hopens
    | cons l ls =>
      cases ls' with
      | nil => simp at h
      | cons l' ls' =>
        obtain ⟨hhead, htail⟩ := List.cons.inj h
        rw [opens, Bool.and_eq_true] at hopens
        rw [opens, hhead, hopens.1, ih htail hopens.2, Bool.true_and]

/-- A pattern that comes next is no longer than what is left. -/
theorem length_le_of_opens {pattern : List Terminal} {ls : List Lexeme}
    (h : opens pattern ls = true) : pattern.length ≤ ls.length := by
  induction pattern generalizing ls with
  | nil => exact Nat.zero_le _
  | cons t pattern ih =>
    cases ls with
    | nil => simp [opens] at h
    | cons l ls =>
      rw [opens, Bool.and_eq_true] at h
      exact Nat.succ_le_succ (ih h.2)

end Terminal

end TableSchema
