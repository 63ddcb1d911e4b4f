import TableSchema.Proofs.Grammar.Seam

/-!
# Parentheses at a seam

Text between parentheses never reaches a seam behind them: the closing parenthesis is still left
wherever a parser stops inside. So whatever is read there may look for marks itself, as lists do
for the commas between their items.

## Main results

* `Steady.list`: a list is steady if its item is steady inside parentheses;
* `Steady.parenthesized`: text that is passed over up to its closing parenthesis;
* `Steady.glued`: the text of a steady parser.
-/

namespace TableSchema.Parser

variable {α β : Type}

/-- The parser accepts nothing that has no closing parenthesis. -/
def Closes (p : Parser α) : Prop :=
  ∀ ls a rest, p ls = .ok (a, rest) → Token.symbol .closeParen ∈ Lexeme.tokens ls

/-- A parser that begins with a closing parenthesis has one. -/
theorem closes_expect (f : Unit → Parser α) :
    Closes (expect (.symbol .closeParen) >>= f) := by
  intro ls a rest h
  obtain ⟨u, mid, hexpect, -⟩ := bind_eq_ok.1 h
  obtain ⟨l, rfl, hl⟩ := expect_eq_ok.1 hexpect
  have htoken : l.token = .symbol .closeParen := by simpa [Terminal.accepts] using hl
  simp [htoken]

/-- A parser that is a closing parenthesis has one. -/
theorem closes_expect_closeParen : Closes (expect (.symbol .closeParen)) := by
  intro ls a rest h
  refine closes_expect (fun _ => pure ()) ls () rest (bind_eq_ok.2 ⟨a, rest, h, ?_⟩)
  exact pure_eq_ok.2 ⟨rfl, rfl⟩

namespace Seam

variable {s : Seam} {p : Parser α}

/-- Inside parentheses something is always left. -/
theorem not_enclosed_left_nil : ¬ s.enclosed.left [] := by
  simp [enclosed]

/-- A sequence whose second part has a closing parenthesis: the first part may take it that it
stands inside parentheses. -/
theorem Steady.bind_closing {f : α → Parser β} (hp : s.enclosed.Steady p)
    (hcloses : ∀ a, Closes (f a)) (hf : ∀ a, s.Steady (f a)) : s.Steady (p >>= f) := by
  intro ls hls b rest h
  obtain ⟨a, mid, ha, hb⟩ := bind_eq_ok.1 h
  obtain ⟨hmid, hpsteady⟩ := hp ls hls a mid ha
  obtain ⟨hrest, hfsteady⟩ :=
    hf a mid (s.inside_of_suffix (tokens_suffix hmid) hls) b rest hb
  refine ⟨hrest.trans hmid, fun hleft ls' hls' => ?_⟩
  -- The parenthesis that the second part takes is still left where the first one stops.
  obtain ⟨mid', ha', hmid', hpcontinues⟩ := hpsteady (hcloses a mid b rest hb) ls' hls'
  obtain ⟨rest', hb', hrest', hfcontinues⟩ := hfsteady hleft mid' hpcontinues
  exact ⟨rest', by rw [bind_of_ok ha', hb'], hrest'.trans hmid', hfcontinues⟩

/-- Items with commas between them, where something is always left. -/
theorem Steady.separated {item : Parser α} (hnil : ¬ s.left []) (h : s.Steady item) :
    s.Steady (separated item) := by
  refine h.bind fun first => Steady.bind (Steady.many ?_) fun others => .pure _
  -- A comma can be looked for, since the continuation never decides whether there is one.
  refine (Steady.eat_of_tail fun hleft => absurd hleft hnil).bind fun comma => ?_
  cases comma with
  | false => exact .pure none
  | true => exact h.map some

/-- Items between parentheses. -/
theorem Steady.list {item : Parser α} (h : s.enclosed.Steady item) : s.Steady (list item) := by
  refine (Steady.expect _).bind fun _ => ?_
  refine Steady.bind_closing (.separated not_enclosed_left_nil h) (fun _ => closes_expect _)
    fun items => ?_
  exact (Steady.expect _).bind fun _ => .pure items

/-- How the search for the closing parenthesis goes on behind a token. -/
theorem closeParens_cons (depth : Nat) (l : Lexeme) (ls : List Lexeme) :
    closeParens depth (l :: ls) =
      if l.token = .symbol .openParen then closeParens (depth + 1) ls
      else if l.token = .symbol .closeParen then
        match depth with
        | 0 => some ls
        | outer + 1 => closeParens outer ls
      else closeParens depth ls := by
  cases depth <;> rw [closeParens]

/-- The parenthesis that closes stands before the continuation. -/
theorem closeParens_continues {depth : Nat} {ls rest : List Lexeme}
    (h : closeParens depth ls = some rest) : rest <:+ ls ∧ ∀ ls', s.Continues ls ls' →
      ∃ rest', closeParens depth ls' = some rest' ∧ rest' <:+ ls' ∧ s.Continues rest rest' := by
  induction ls generalizing depth with
  | nil => simp [closeParens] at h
  | cons l ls ih =>
    rw [closeParens_cons] at h
    -- Every case but the last parenthesis goes on behind `l`, at some depth.
    have hgo : ∀ d, closeParens d ls = some rest →
        (∀ l' ls'', l'.token = l.token → closeParens depth (l' :: ls'') = closeParens d ls'') →
        rest <:+ l :: ls ∧ ∀ ls', s.Continues (l :: ls) ls' →
          ∃ rest', closeParens depth ls' = some rest' ∧ rest' <:+ ls' ∧
            s.Continues rest rest' := by
      intro d hd hstep
      obtain ⟨hrest, hsteady⟩ := ih hd
      refine ⟨hrest.trans (List.suffix_cons l ls), fun ls' hls' => ?_⟩
      obtain ⟨l', ls'', rfl, hhead, htail⟩ := continues_cons hls'
      obtain ⟨rest', hclose, hrest', hcontinues⟩ := hsteady ls'' htail
      exact ⟨rest', by rw [hstep l' ls'' hhead, hclose], hrest'.trans (List.suffix_cons l' ls''),
        hcontinues⟩
    by_cases hopen : l.token = .symbol .openParen
    · rw [if_pos hopen] at h
      exact hgo (depth + 1) h fun l' ls'' hl' => by rw [closeParens_cons, hl', if_pos hopen]
    · rw [if_neg hopen] at h
      by_cases hclose : l.token = .symbol .closeParen
      · rw [if_pos hclose] at h
        cases depth with
        | zero =>
          -- This is the parenthesis that was looked for.
          obtain rfl : ls = rest := by simpa using h
          refine ⟨List.suffix_cons l ls, fun ls' hls' => ?_⟩
          obtain ⟨l', ls'', rfl, hhead, htail⟩ := continues_cons hls'
          exact ⟨ls'', by rw [closeParens_cons, hhead, if_neg hopen, if_pos hclose],
            List.suffix_cons l' ls'', htail⟩
        | succ outer =>
          exact hgo outer h fun l' ls'' hl' => by
            rw [closeParens_cons, hl', if_neg hopen, if_pos hclose]
      · rw [if_neg hclose] at h
        exact hgo depth h fun l' ls'' hl' => by
          rw [closeParens_cons, hl', if_neg hopen, if_neg hclose]

/-- A parenthesis with everything up to the one that closes it. -/
theorem Steady.parenthesized : s.Steady parenthesized := by
  refine (Steady.expect _).bind fun _ => ?_
  intro ls _ a rest h
  dsimp only at h
  split at h
  · rename_i closed hclosed
    obtain rfl : closed = rest := by simpa using h
    obtain ⟨hrest, hsteady⟩ := closeParens_continues (s := s) hclosed
    refine ⟨hrest, fun _ ls' hls' => ?_⟩
    obtain ⟨rest', hclose', hrest'⟩ := hsteady ls' hls'
    exact ⟨rest', by simp [hclose'], hrest'⟩
  · simp at h

/-- The tokens that a steady parser takes. -/
theorem Steady.taken {p : Parser Unit} (hp : s.Steady p) : s.Steady (taken p) := by
  intro ls hls ts rest h
  obtain ⟨hrun, rfl⟩ := taken_eq_ok.1 h
  obtain ⟨hrest, hsteady⟩ := hp ls hls () rest hrun
  refine ⟨hrest, fun hleft ls' hls' => ?_⟩
  obtain ⟨rest', hrun', hrest'⟩ := hsteady hleft ls' hls'
  refine ⟨rest', taken_eq_ok.2 ⟨hrun', ?_⟩, hrest'⟩
  -- As many tokens are taken as before, and they are the same.
  have hcount : ls'.length - rest'.length = ls.length - rest.length := by
    rw [hls'.length_eq, hrest'.2.length_eq]
    omega
  rw [hcount, Lexeme.tokens, Lexeme.tokens, List.map_take, List.map_take]
  change _ = (Lexeme.tokens ls').take _
  rw [hls', List.take_append_of_le_length (by simp)]
  rfl

/-- The text of a steady parser. -/
theorem Steady.glued {p : Parser Unit} (hp : s.Steady p) : s.Steady (glued p) :=
  (Steady.taken hp).bind fun _ => .pure _

/-- The text of a steady parser, with spaces. -/
theorem Steady.spaced {p : Parser Unit} (hp : s.Steady p) : s.Steady (spaced p) :=
  (Steady.taken hp).bind fun _ => .pure _

end Seam

end TableSchema.Parser
