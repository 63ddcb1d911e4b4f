import Mathlib.Data.List.Forall2
import TableSchema.Proofs.Grammar.Enclosed

/-!
# Text in parentheses

What is passed over up to a closing parenthesis is the shortest balanced text that begins with the
opening one. The search keeps the number of parentheses that are open. Balanced text leaves this
number as it was, so that the search goes on behind it as it would have done in front of it; what
it passes over in front of a closing parenthesis is balanced.

## Main definitions

* `Token.Balanced`: each parenthesis of the tokens has its counterpart;
* `IsParenthesis`: a parenthesis with everything up to the one that closes it.

## Main results

* `closeParens_append`: the search passes over balanced text;
* `exists_of_closeParens`: what the search passes over is balanced, one depth after the other;
* `glued_parenthesized_exact`: which text in parentheses is taken, and where there is none.
-/

namespace TableSchema

/-- Each parenthesis of the tokens has its counterpart. -/
inductive Token.Balanced : List Token → Prop
  | nil : Balanced []
  | other {t : Token} {ts : List Token} (hopen : t ≠ .symbol .openParen)
      (hclose : t ≠ .symbol .closeParen) (h : Balanced ts) : Balanced (t :: ts)
  | parens {ts us : List Token} (h : Balanced ts) (hs : Balanced us) :
    Balanced (.symbol .openParen :: (ts ++ .symbol .closeParen :: us))

/-- The token is a literal or a word between quotes. -/
def Token.isQuoted : Token → Bool
  | word (some _) _ => true
  | literal _ _ => true
  | _ => false

/-- Text between quotes is no symbol. -/
theorem Token.ne_symbol_of_isQuoted {t : Token} (h : t.isQuoted = true) (s : Symbol) :
    t ≠ .symbol s := by
  rintro rfl
  cases h

namespace Parser

open Lexeme

variable {l : Lexeme} {ls front rest more : List Lexeme} {depth : Nat}

/-- A parenthesis with everything up to the one that closes it. -/
structure IsParenthesis (front : List Lexeme) : Prop where
  /-- It begins with an opening parenthesis. -/
  opens : Terminal.opens [.symbol .openParen] front = true
  /-- Each parenthesis has its counterpart. -/
  balanced : Token.Balanced (tokens front)
  /-- No part of it that ends earlier is balanced, unless it is empty. -/
  shortest : ∀ part, part <+: front → Token.Balanced (tokens part) → part = [] ∨ part = front

/-! ## The search for the closing parenthesis -/

theorem closeParens_of_open (h : l.token = .symbol .openParen) :
    closeParens depth (l :: ls) = closeParens (depth + 1) ls := by
  rw [Seam.closeParens_cons, if_pos h]

theorem closeParens_of_other (hopen : l.token ≠ .symbol .openParen)
    (hclose : l.token ≠ .symbol .closeParen) :
    closeParens depth (l :: ls) = closeParens depth ls := by
  rw [Seam.closeParens_cons, if_neg hopen, if_neg hclose]

/-- The lexemes left behind a closing parenthesis, or behind the one that closes the next outer
parenthesis. -/
def closeOuter : Nat → List Lexeme → Option (List Lexeme)
  | 0, ls => some ls
  | outer + 1, ls => closeParens outer ls

theorem closeParens_of_close (h : l.token = .symbol .closeParen) :
    closeParens depth (l :: ls) = closeOuter depth ls := by
  rw [Seam.closeParens_cons, if_neg (by rw [h]; decide), if_pos h]
  cases depth <;> rfl

/-- The search passes over balanced text. -/
theorem closeParens_append {ts : List Token} (h : Token.Balanced ts) (htokens : tokens front = ts) :
    closeParens depth (front ++ more) = closeParens depth more := by
  -- The induction follows how balanced tokens are built, at any depth.
  induction h generalizing front more depth with
  | nil =>
    obtain rfl : front = [] := List.map_eq_nil_iff.1 htokens
    rfl
  | other hopen hclose _ ih =>
    obtain ⟨l, front, rfl, rfl, hfront⟩ := tokens_eq_cons.1 htokens
    rw [List.cons_append, closeParens_of_other hopen hclose, ih hfront]
  | parens _ _ ihinner ihouter =>
    obtain ⟨l, front, rfl, hl, hfront⟩ := tokens_eq_cons.1 htokens
    obtain ⟨inner, front, rfl, hinner, hfront⟩ := List.map_eq_append_iff.1 hfront
    obtain ⟨r, outer, rfl, hr, houter⟩ := tokens_eq_cons.1 hfront
    calc closeParens depth (l :: (inner ++ r :: outer) ++ more)
        = closeParens (depth + 1) (inner ++ (r :: (outer ++ more))) := by
          rw [List.cons_append, closeParens_of_open hl, List.append_assoc, List.cons_append]
      _ = closeParens (depth + 1) (r :: (outer ++ more)) := ihinner hinner
      _ = closeParens depth (outer ++ more) := closeParens_of_close hr
      _ = closeParens depth more := ihouter houter

/-- What the search passes over in front of a closing parenthesis of its depth is balanced, and from
there on it goes on one depth further out. -/
theorem exists_of_closeParens (h : closeParens depth ls = some rest) :
    ∃ inner l outer, ls = inner ++ l :: outer ∧ Token.Balanced (tokens inner) ∧
      l.token = .symbol .closeParen ∧ closeOuter depth outer = some rest := by
  -- An opening parenthesis is met by two searches: for its own end, and on from there.
  induction hlength : ls.length using Nat.strongRecOn generalizing ls depth with
  | ind n ih =>
    cases ls with
    | nil => simp [closeParens] at h
    | cons m ls =>
      by_cases hopen : m.token = .symbol .openParen
      · rw [closeParens_of_open hopen] at h
        obtain ⟨inner, r, mid, rfl, hinner, hr, hmid⟩ := ih _ (by simp [← hlength]) h rfl
        obtain ⟨inner', l, outer, rfl, hinner', hl, houter⟩ :=
          ih _ (by simp [← hlength]; omega) hmid rfl
        refine ⟨m :: (inner ++ r :: inner'), l, outer, by simp, ?_, hl, houter⟩
        rw [tokens_cons, tokens_append, tokens_cons, hopen, hr]
        exact .parens hinner hinner'
      · by_cases hclose : m.token = .symbol .closeParen
        · rw [closeParens_of_close hclose] at h
          exact ⟨[], m, ls, rfl, .nil, hclose, h⟩
        · rw [closeParens_of_other hopen hclose] at h
          obtain ⟨inner, l, outer, rfl, hinner, hl, houter⟩ := ih _ (by simp [← hlength]) h rfl
          exact ⟨m :: inner, l, outer, rfl, .other hopen hclose hinner, hl, houter⟩

/-- At every lexeme that the search comes to, a parenthesis is open: fewer have been closed so far
than opened, the `depth + 1` open ones in front of the search counted in. -/
theorem count_lt_of_closeParens {passed : List Lexeme} (c : Lexeme) (later : List Lexeme)
    (hscan : ∀ rest, closeParens depth (passed ++ c :: later) = some rest →
      rest.length ≤ later.length) :
    (tokens passed).count (.symbol .closeParen) <
      (tokens passed).count (.symbol .openParen) + (depth + 1) := by
  induction passed generalizing depth with
  | nil => exact Nat.succ_pos _
  | cons l passed ih =>
    rw [List.cons_append] at hscan
    rw [tokens_cons, List.count_cons, List.count_cons]
    by_cases hopen : l.token = .symbol .openParen
    · rw [closeParens_of_open hopen] at hscan
      have := ih hscan
      simp [hopen]
      omega
    · by_cases hclose : l.token = .symbol .closeParen
      · rw [closeParens_of_close hclose] at hscan
        cases depth with
        | zero =>
          -- The search would have ended in front of `c`.
          have := hscan _ rfl
          simp at this
          omega
        | succ outer =>
          have := ih hscan
          simp [hclose]
          omega
      · rw [closeParens_of_other hopen hclose] at hscan
        have := ih hscan
        simp [hopen, hclose]
        omega

/-- What is open can be closed. -/
theorem exists_closing (h : closeParens depth ls = none) :
    ∃ more, more ≠ [] ∧ more ⊆ [Token.symbol .closeParen] ∧
      ∀ us, closeParens depth (ls ++ (ofTokens more ++ us)) = some us := by
  induction ls generalizing depth with
  | nil =>
    -- As many parentheses are closed as are open.
    induction depth with
    | zero => exact ⟨[.symbol .closeParen], List.cons_ne_nil _ _, List.Subset.refl _, fun us => rfl⟩
    | succ depth ih =>
      obtain ⟨more, -, hsub, hmore⟩ := ih rfl
      exact ⟨.symbol .closeParen :: more, List.cons_ne_nil _ _,
        List.cons_subset.2 ⟨List.mem_singleton_self _, hsub⟩, fun us => hmore us⟩
  | cons l ls ih =>
    by_cases hopen : l.token = .symbol .openParen
    · rw [closeParens_of_open hopen] at h
      obtain ⟨more, hne, hsub, hmore⟩ := ih h
      exact ⟨more, hne, hsub, fun us => (closeParens_of_open hopen).trans (hmore us)⟩
    · by_cases hclose : l.token = .symbol .closeParen
      · rw [closeParens_of_close hclose] at h
        cases depth with
        | zero => cases h
        | succ outer =>
          obtain ⟨more, hne, hsub, hmore⟩ := ih h
          exact ⟨more, hne, hsub, fun us => (closeParens_of_close hclose).trans (hmore us)⟩
      · rw [closeParens_of_other hopen hclose] at h
        obtain ⟨more, hne, hsub, hmore⟩ := ih h
        exact ⟨more, hne, hsub, fun us => (closeParens_of_other hopen hclose).trans (hmore us)⟩

/-! ## A parenthesis -/

/-- Balanced text that begins with an opening parenthesis has the one that closes it. -/
theorem exists_of_balanced (hopen : Terminal.opens [.symbol .openParen] front = true)
    (h : Token.Balanced (tokens front)) :
    ∃ o inner c outer, front = o :: (inner ++ c :: outer) ∧ o.token = .symbol .openParen ∧
      c.token = .symbol .closeParen ∧ Token.Balanced (tokens inner) := by
  obtain ⟨o, ls, rfl, ho, -⟩ := Terminal.opens_cons.1 hopen
  have ho : o.token = .symbol .openParen := by simpa [Terminal.accepts] using ho
  rw [tokens_cons, ho] at h
  generalize hts : tokens ls = ts at h
  cases h with
  | other hopen _ _ => exact absurd rfl hopen
  | parens hinner _ =>
    obtain ⟨inner, ls, rfl, rfl, htail⟩ := List.map_eq_append_iff.1 hts
    obtain ⟨c, outer, rfl, hc, -⟩ := tokens_eq_cons.1 htail
    exact ⟨o, inner, c, outer, rfl, ho, hc, hinner⟩

/-- Balanced text between two parentheses is a parenthesis. -/
theorem IsParenthesis.of_balanced {o c : Lexeme} {inner : List Lexeme}
    (ho : o.token = .symbol .openParen) (hc : c.token = .symbol .closeParen)
    (h : Token.Balanced (tokens inner)) : IsParenthesis (o :: (inner ++ [c])) where
  opens := by simp [Terminal.opens, Terminal.accepts, ho]
  balanced := by
    rw [tokens_cons, tokens_append, tokens_cons, ho, hc]
    exact .parens h .nil
  shortest := by
    intro part hpart hbalanced
    rcases List.prefix_cons_iff.1 hpart with rfl | ⟨part, rfl, behind, hsplit⟩
    · exact .inl rfl
    · right
      -- Both the part and the whole end with the parenthesis that the search finds.
      have hopens : Terminal.opens [.symbol .openParen] (o :: part) = true := by
        simp [Terminal.opens, Terminal.accepts, ho]
      obtain ⟨_, inner', c', outer', heq, -, hc', hinner'⟩ := exists_of_balanced hopens hbalanced
      obtain ⟨rfl, rfl⟩ := List.cons.inj heq
      have hwhole : closeParens 0 (inner ++ [c]) = some [] := by
        rw [closeParens_append h rfl, closeParens_of_close hc, closeOuter]
      rw [← hsplit, List.append_assoc, closeParens_append hinner' rfl, List.cons_append,
        closeParens_of_close hc', closeOuter, Option.some_inj, List.append_eq_nil_iff] at hwhole
      rw [← hsplit, hwhole.2, List.append_nil]

/-! ## The parser -/

/-- Behind an opening parenthesis the one that closes it is looked for. -/
theorem parenthesized_cons (h : l.token = .symbol .openParen) :
    parenthesized (l :: ls) =
      match closeParens 0 ls with
      | some rest => .ok ((), rest)
      | none => .error ⟨.terminal (.symbol .closeParen), []⟩ := by
  have hexpect : expect (.symbol .openParen) (l :: ls) = .ok ((), ls) :=
    expect_cons (by simp [Terminal.accepts, h])
  exact bind_of_ok hexpect

/-- Without an opening parenthesis nothing is taken. -/
theorem parenthesized_of_not_opens (h : Terminal.opens [.symbol .openParen] ls = false) :
    parenthesized ls = .error ⟨.terminal (.symbol .openParen), ls⟩ := by
  rw [parenthesized, bind_of_error (expect_of_not_opens h)]

/-- Reading fails where it began, or at the end of the text if a parenthesis opens there. -/
theorem eq_of_parenthesized_eq_error {f : Failure} (h : parenthesized ls = .error f) :
    f = if Terminal.opens [.symbol .openParen] ls then ⟨.terminal (.symbol .closeParen), []⟩
      else ⟨.terminal (.symbol .openParen), ls⟩ := by
  split
  · rename_i hopen
    obtain ⟨o, ls, rfl, ho, -⟩ := Terminal.opens_cons.1 hopen
    rw [parenthesized_cons (by simpa [Terminal.accepts] using ho)] at h
    split at h
    · cases h
    · exact (Except.error.inj h).symm
  · rename_i hopen
    rw [parenthesized_of_not_opens (Bool.eq_false_iff.2 hopen)] at h
    exact (Except.error.inj h).symm

/-- What is taken is a parenthesis. -/
theorem exists_of_parenthesized {u : Unit} (h : parenthesized ls = .ok (u, rest)) :
    ∃ front, ls = front ++ rest ∧ IsParenthesis front := by
  obtain ⟨⟨⟩, mid, hexpect, -⟩ := bind_eq_ok.1 h
  obtain ⟨o, rfl, ho⟩ := expect_eq_ok.1 hexpect
  have ho : o.token = .symbol .openParen := by simpa [Terminal.accepts] using ho
  rw [parenthesized_cons ho] at h
  split at h
  · rename_i closed hclosed
    obtain ⟨inner, c, outer, rfl, hinner, hc, houter⟩ := exists_of_closeParens hclosed
    obtain rfl : outer = rest := by
      have hleft : outer = closed := by simpa [closeOuter] using houter
      exact hleft.trans (congrArg Prod.snd (Except.ok.inj h))
    exact ⟨o :: (inner ++ [c]), by simp, .of_balanced ho hc hinner⟩
  · cases h

/-- Where a balanced text begins with an opening parenthesis, one is taken. -/
theorem parenthesized_of_balanced (hopen : Terminal.opens [.symbol .openParen] front = true)
    (h : Token.Balanced (tokens front)) (rest : List Lexeme) :
    ∃ behind, parenthesized (front ++ rest) = .ok ((), behind ++ rest) := by
  obtain ⟨o, inner, c, outer, rfl, ho, hc, hinner⟩ := exists_of_balanced hopen h
  refine ⟨outer, ?_⟩
  rw [List.cons_append, parenthesized_cons ho, List.append_assoc, closeParens_append hinner rfl,
    List.cons_append, closeParens_of_close hc]
  rfl

/-- A parenthesis is taken in front of any text. -/
theorem IsParenthesis.parenthesized_append (h : IsParenthesis front) (rest : List Lexeme) :
    parenthesized (front ++ rest) = .ok ((), rest) := by
  obtain ⟨behind, hok⟩ := parenthesized_of_balanced h.opens h.balanced rest
  obtain ⟨part, hsplit, hpart⟩ := exists_of_parenthesized hok
  rw [← List.append_assoc] at hsplit
  obtain rfl := List.append_cancel_right hsplit
  rcases h.shortest part (List.prefix_append _ _) hpart.balanced with rfl | hwhole
  · exact absurd hpart.opens Bool.false_ne_true
  · obtain rfl : behind = [] := by simpa using hwhole
    exact hok

/-! ## Text between quotes -/

/-- The lexemes have the same token, or both have one between quotes. -/
def AlikeBesideQuotes (l l' : Lexeme) : Prop :=
  l.token = l'.token ∨ l.token.isQuoted = true ∧ l'.token.isQuoted = true

theorem AlikeBesideQuotes.symm {l l' : Lexeme} (h : AlikeBesideQuotes l l') :
    AlikeBesideQuotes l' l := by
  obtain h | ⟨hl, hl'⟩ := h
  · exact .inl h.symm
  · exact .inr ⟨hl', hl⟩

/-- A symbol is never between quotes. -/
theorem AlikeBesideQuotes.eq_symbol_iff {l l' : Lexeme} (h : AlikeBesideQuotes l l') (s : Symbol) :
    l.token = .symbol s ↔ l'.token = .symbol s := by
  rcases h with h | ⟨hl, hl'⟩
  · rw [h]
  · exact iff_of_false (Token.ne_symbol_of_isQuoted hl s) (Token.ne_symbol_of_isQuoted hl' s)

/-- What stands between quotes is no parenthesis to the search. -/
theorem closeParens_alikeBesideQuotes {ls ls' : List Lexeme}
    (h : List.Forall₂ AlikeBesideQuotes ls ls') :
    (closeParens depth ls).map List.length = (closeParens depth ls').map List.length := by
  induction h generalizing depth with
  | nil => rfl
  | @cons l l' ls ls' hl hls ih =>
    -- A symbol never stands between quotes, so both texts have it or neither has.
    by_cases hopen : l.token = .symbol .openParen
    · rw [closeParens_of_open hopen, closeParens_of_open ((hl.eq_symbol_iff _).1 hopen), ih]
    · have hopen' := mt (hl.eq_symbol_iff _).2 hopen
      by_cases hclose : l.token = .symbol .closeParen
      · rw [closeParens_of_close hclose, closeParens_of_close ((hl.eq_symbol_iff _).1 hclose)]
        cases depth with
        | zero => exact congrArg some hls.length_eq
        | succ outer => exact ih
      · have hclose' := mt (hl.eq_symbol_iff _).2 hclose
        rw [closeParens_of_other hopen hclose, closeParens_of_other hopen' hclose', ih]

/-- As many lexemes are left, whatever stands between quotes. -/
theorem parenthesized_alikeBesideQuotes {ls ls' : List Lexeme} {u : Unit}
    (h : List.Forall₂ AlikeBesideQuotes ls ls') (hok : parenthesized ls = .ok (u, rest)) :
    ∃ rest', parenthesized ls' = .ok ((), rest') ∧ rest'.length = rest.length := by
  obtain ⟨⟨⟩, mid, hexpect, -⟩ := bind_eq_ok.1 hok
  obtain ⟨o, rfl, ho⟩ := expect_eq_ok.1 hexpect
  have ho : o.token = .symbol .openParen := by simpa [Terminal.accepts] using ho
  obtain ⟨o', ls', hl, hls, rfl⟩ := List.forall₂_cons_left_iff.1 h
  rw [parenthesized_cons ho] at hok
  rw [parenthesized_cons ((hl.eq_symbol_iff _).1 ho)]
  have hsame : (closeParens 0 _).map List.length = (closeParens 0 ls').map List.length :=
    closeParens_alikeBesideQuotes hls
  split at hok
  · rename_i closed hclosed
    obtain rfl : closed = rest := congrArg Prod.snd (Except.ok.inj hok)
    rw [hclosed] at hsame
    obtain ⟨rest', hrest', hlength⟩ := Option.map_eq_some_iff.1 hsame.symm
    exact ⟨rest', by rw [hrest'], hlength⟩
  · cases hok

/-- As many lexemes are left of texts that are alike beside their quotes, if a parenthesis is taken
from either of them. -/
theorem exists_glued_iff {ls ls' : List Lexeme} (h : List.Forall₂ AlikeBesideQuotes ls ls')
    (n : Nat) :
    (∃ text rest, glued parenthesized ls = .ok (text, rest) ∧ rest.length = n) ↔
      ∃ text rest, glued parenthesized ls' = .ok (text, rest) ∧ rest.length = n := by
  have himp : ∀ {ls ls' : List Lexeme}, List.Forall₂ AlikeBesideQuotes ls ls' →
      (∃ text rest, glued parenthesized ls = .ok (text, rest) ∧ rest.length = n) →
        ∃ text rest, glued parenthesized ls' = .ok (text, rest) ∧ rest.length = n := by
    rintro ls ls' halike ⟨text, rest, hok, rfl⟩
    obtain ⟨rest', hok', hlength⟩ := parenthesized_alikeBesideQuotes halike (glued_eq_ok.1 hok).1
    exact ⟨_, rest', glued_eq_ok.2 ⟨hok', rfl⟩, hlength⟩
  exact ⟨himp h, himp (h.flip.imp fun _ _ => AlikeBesideQuotes.symm)⟩

/-! ## The whole of it -/

/-- At every place of every text, a parenthesis is taken exactly if a balanced text that begins with
an opening one comes next. What is taken is the shortest such text, and the result is what its
tokens are glued to. Otherwise reading fails: where it began, if no parenthesis opens there, and
else at the end of the text. What stands between quotes does not matter: with other texts there, as
many lexemes are left, or it fails as well. -/
theorem glued_parenthesized_exact (ls : List Lexeme) :
    ((∃ text rest, glued parenthesized ls = .ok (text, rest)) ↔
        ∃ front rest, ls = front ++ rest ∧ Terminal.opens [.symbol .openParen] front = true ∧
          Token.Balanced (tokens front)) ∧
      (∀ text rest, glued parenthesized ls = .ok (text, rest) →
        ∃ front, ls = front ++ rest ∧ IsParenthesis front ∧ text = Token.glue (tokens front)) ∧
      (∀ f, glued parenthesized ls = .error f →
        f = if Terminal.opens [.symbol .openParen] ls then ⟨.terminal (.symbol .closeParen), []⟩
          else ⟨.terminal (.symbol .openParen), ls⟩) ∧
      ∀ ls', List.Forall₂ AlikeBesideQuotes ls ls' → ∀ n,
        (∃ text rest, glued parenthesized ls = .ok (text, rest) ∧ rest.length = n) ↔
          ∃ text rest, glued parenthesized ls' = .ok (text, rest) ∧ rest.length = n := by
  -- The shortest balanced prefix is taken, so any balanced prefix shows that there is one.
  refine ⟨⟨?_, ?_⟩, ?_, ?_, ?_⟩
  · rintro ⟨text, rest, h⟩
    obtain ⟨front, rfl, hfront⟩ := exists_of_parenthesized (glued_eq_ok.1 h).1
    exact ⟨front, rest, rfl, hfront.opens, hfront.balanced⟩
  · rintro ⟨front, rest, rfl, hopen, hbalanced⟩
    obtain ⟨behind, h⟩ := parenthesized_of_balanced hopen hbalanced rest
    exact ⟨_, _, glued_eq_ok.2 ⟨h, rfl⟩⟩
  · intro text rest h
    obtain ⟨hok, rfl⟩ := glued_eq_ok.1 h
    obtain ⟨front, rfl, hfront⟩ := exists_of_parenthesized hok
    exact ⟨front, rfl, hfront, by simp⟩
  · exact fun f h => eq_of_parenthesized_eq_error (glued_eq_error.1 h)
  · exact fun ls' => exists_glued_iff

/-- `('text') b`, or the same with another text between the quotes. -/
def enclosedLiteral (text : String) : List Lexeme :=
  ofTokens [.symbol .openParen, .literal .single text, .symbol .closeParen, .word none "b"]

/-- Of `('a') b` the parenthesis is taken, and as much is left of `(')') b`, although a closing
parenthesis stands between its quotes. Nothing closes the parenthesis of `(`. -/
theorem glued_parenthesized_exact_of_literal :
    (∃ front, enclosedLiteral "a" = front ++ ofTokens [.word none "b"] ∧ IsParenthesis front ∧
        "('a')" = Token.glue (tokens front)) ∧
      (∃ text rest, glued parenthesized (enclosedLiteral ")") = .ok (text, rest) ∧
        rest.length = 1) ∧
      glued parenthesized (ofTokens [.symbol .openParen]) =
        .error ⟨.terminal (.symbol .closeParen), []⟩ := by
  have htaken : glued parenthesized (enclosedLiteral "a") =
      .ok ("('a')", ofTokens [.word none "b"]) := by decide +kernel
  -- The two texts differ between quotes only.
  have halike : List.Forall₂ AlikeBesideQuotes (enclosedLiteral "a") (enclosedLiteral ")") :=
    .cons (.inl rfl) (.cons (.inr ⟨rfl, rfl⟩) (.cons (.inl rfl) (.cons (.inl rfl) .nil)))
  obtain ⟨-, hfront, -, hquotes⟩ := glued_parenthesized_exact (enclosedLiteral "a")
  refine ⟨hfront _ _ htaken, (hquotes _ halike 1).1 ⟨_, _, htaken, rfl⟩, ?_⟩
  obtain ⟨f, hopen⟩ : ∃ f, glued parenthesized (ofTokens [.symbol .openParen]) = .error f :=
    ⟨_, rfl⟩
  rw [hopen, (glued_parenthesized_exact _).2.2.1 f hopen]
  rfl

end Parser

end TableSchema
