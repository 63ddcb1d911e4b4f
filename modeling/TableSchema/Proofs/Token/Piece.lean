import TableSchema.Token.Piece

/-!
# What is at the front of a text

The reader of pieces asks one question after the other of a text, and what it reads decides which
of them had which answer. Where no quotes open, where there is nothing but a bare word, and how a
literal opens are said here once, so that a text can be changed without asking all of them again.

## Main definitions

* `Unquoted`: no quotes open at the front of the text;
* `Loose`: there is also no number, no comment and no operator.

## Main results

* `read_cases`: what is read is a literal, a quoted word, a number, loose, or neither a name nor a
  number;
* `Unquoted.of_front`, `Loose.of_front`: cutting a text off behind its first character opens
  nothing;
* `source_of_readAll`, `forall_of_readAll`: the pieces of a text cover it, and each of them was
  read.
-/

namespace TableSchema.Piece

/-- No quotes open at the front of the text `c :: cs`. -/
structure Unquoted (c : Char) (cs : List Char) : Prop where
  /-- No literal opens. -/
  opening : openings.find? (·.begins (c :: cs)) = none
  /-- No literal with decoded escapes opens. -/
  escaped : ¬((c = 'e' ∨ c = 'E') ∧ cs.head? = some '\'')
  /-- No quoted word opens. -/
  backtick : c ≠ '\x60'

/-- At the front of the text `c :: cs` there are no quotes, no number, no comment and no
operator. -/
structure Loose (c : Char) (cs : List Char) : Prop extends Unquoted c cs where
  /-- There is no number. -/
  number : ¬(c.isDigit ∨ c = '.')
  /-- There is no comment that ends with its line. -/
  line : ¬(c = '#' ∨ (c = '-' ∧ cs.head? = some '-'))
  /-- There is no comment that ends with its mark. -/
  block : ¬(c = '/' ∧ cs.head? = some '*')
  /-- There is no operator. -/
  operator : operators.find? (·.1.toList.isPrefixOf (c :: cs)) = none

variable {c : Char} {cs cs' rest : List Char} {p : Piece}

/-- Where no quotes open, what is read is not between quotes. -/
theorem Unquoted.read_eq (h : Unquoted c cs) : read c cs = unquoted c cs := by
  rw [read, h.opening]
  simp only [if_neg h.escaped, if_neg h.backtick]

/-- A digit that does not lead a hexadecimal number, or a point, begins a number. -/
theorem unquoted_of_digit (hc : c.isDigit ∨ c = '.') (hx : ¬(c = '0' ∧ cs.head? = some 'x')) :
    unquoted c cs = .ok (numeric (c :: cs)) := by
  rw [unquoted, if_neg hx, if_pos hc]

/-- Where there is nothing else, what is read is loose. -/
theorem Loose.read_eq (h : Loose c cs) : read c cs = .ok (loose c cs) := by
  have hx : ¬(c = '0' ∧ cs.head? = some 'x') := by
    rintro ⟨rfl, -⟩
    exact h.number (.inl (by decide))
  rw [h.toUnquoted.read_eq, unquoted, if_neg hx, if_neg h.number, if_neg h.line, if_neg h.block,
    Piece.operator, h.operator]

/-- The first character of a prefix is that of the whole. -/
theorem head?_of_front (h : cs' <+: cs) {d : Char} (hd : cs'.head? = some d) :
    cs.head? = some d := by
  obtain ⟨tail, rfl⟩ := h
  cases cs' with
  | nil => simp at hd
  | cons e cs' => simpa using hd

/-- No quotes open in a prefix of a text where none do. -/
theorem Unquoted.of_front (h : Unquoted c cs) (hfront : cs' <+: cs) : Unquoted c cs' where
  opening := by
    -- What opens in the prefix would open in the whole text.
    refine List.find?_eq_none.2 fun o ho hbegins => ?_
    refine List.find?_eq_none.1 h.opening o ho ?_
    rw [Opening.begins, List.isPrefixOf_iff_prefix] at hbegins ⊢
    exact hbegins.trans (List.cons_prefix_cons.2 ⟨rfl, hfront⟩)
  escaped := fun ⟨hc, hquote⟩ => h.escaped ⟨hc, head?_of_front hfront hquote⟩
  backtick := h.backtick

/-- In a prefix of a text where there is nothing else there is nothing else. -/
theorem Loose.of_front (h : Loose c cs) (hfront : cs' <+: cs) : Loose c cs' where
  toUnquoted := h.toUnquoted.of_front hfront
  number := h.number
  line := fun hline => h.line (hline.imp_right fun ⟨hc, hhead⟩ => ⟨hc, head?_of_front hfront hhead⟩)
  block := fun ⟨hc, hhead⟩ => h.block ⟨hc, head?_of_front hfront hhead⟩
  operator := by
    refine List.find?_eq_none.2 fun op hop hbegins => ?_
    refine List.find?_eq_none.1 h.operator op hop ?_
    rw [List.isPrefixOf_iff_prefix] at hbegins ⊢
    exact hbegins.trans (List.cons_prefix_cons.2 ⟨rfl, hfront⟩)

/-- The token is neither a name nor a number. -/
def IsIdle (t : Token) : Prop :=
  t.nameText? = none ∧ t.numberText? = none

/-- No operator is a name or a number. -/
theorem isIdle_operator : ∀ op ∈ operators, IsIdle op.2 := by
  unfold IsIdle
  decide

/-- White space and comments are neither names nor numbers. -/
theorem isIdle_lineComment (cs : List Char) : IsIdle (lineComment cs).1.token := by
  unfold lineComment
  split <;> exact ⟨rfl, rfl⟩

/-- What is read where no quotes open: a number, what is loose, or a token that is neither a name
nor a number. -/
theorem unquoted_cases (hquotes : Unquoted c cs) (h : unquoted c cs = .ok (p, rest)) :
    ((c.isDigit ∨ c = '.') ∧ ¬(c = '0' ∧ cs.head? = some 'x') ∧ numeric (c :: cs) = (p, rest)) ∨
      (Loose c cs ∧ loose c cs = (p, rest)) ∨ IsIdle p.token := by
  -- The questions are asked in the order of the reader; each `no` is kept for what is loose.
  unfold unquoted at h
  split at h
  · obtain ⟨rfl, -⟩ := Prod.mk.inj (Except.ok.inj h)
    exact .inr (.inr ⟨rfl, rfl⟩)
  rename_i hhex
  split at h
  · rename_i hdigit
    exact .inl ⟨hdigit, hhex, Except.ok.inj h⟩
  rename_i hdigit
  split at h
  · have hcomment := isIdle_lineComment (c :: cs)
    rw [Except.ok.inj h] at hcomment
    exact .inr (.inr hcomment)
  rename_i hline
  split at h
  · unfold blockComment at h
    split at h
    · obtain ⟨rfl, -⟩ := Prod.mk.inj (Except.ok.inj h)
      exact .inr (.inr ⟨rfl, rfl⟩)
    · simp at h
  rename_i hblock
  unfold Piece.operator at h
  split at h
  · rename_i hop
    obtain ⟨rfl, -⟩ := Prod.mk.inj (Except.ok.inj h)
    exact .inr (.inr (isIdle_operator _ (List.mem_of_find?_eq_some hop)))
  · rename_i hop
    exact .inr (.inl ⟨⟨hquotes, hdigit, hline, hblock, hop⟩, Except.ok.inj h⟩)

/-- What is read: a literal, a quoted word, a number, what is loose, or a token that is neither a
name nor a number. -/
theorem read_cases (h : read c cs = .ok (p, rest)) :
    (∃ o ∈ openings, ∃ body cs', Quoted.splitQuoted o.quote o.escapes cs' = some (body, rest) ∧
        p.token = .literal o.kind (String.ofList body)) ∨
      (∃ value, p.token = .word (some '\x60') value) ∨
      ((c.isDigit ∨ c = '.') ∧ ¬(c = '0' ∧ cs.head? = some 'x') ∧ numeric (c :: cs) = (p, rest)) ∨
      (Loose c cs ∧ loose c cs = (p, rest)) ∨ IsIdle p.token := by
  unfold read at h
  split at h
  · rename_i o hopening
    unfold literal at h
    split at h
    · rename_i body tail hsplit
      obtain ⟨rfl, rfl⟩ := Prod.mk.inj (Except.ok.inj h)
      exact .inl ⟨o, List.mem_of_find?_eq_some hopening, body, _, hsplit, rfl⟩
    · simp at h
  rename_i hopening
  -- A literal with decoded escapes is neither a name nor a number.
  split at h
  · unfold escapedLiteral at h
    split at h
    · obtain ⟨rfl, -⟩ := Prod.mk.inj (Except.ok.inj h)
      exact .inr (.inr (.inr (.inr ⟨rfl, rfl⟩)))
    · simp at h
  rename_i hescaped
  split at h
  · unfold quotedWord at h
    split at h
    · obtain ⟨rfl, -⟩ := Prod.mk.inj (Except.ok.inj h)
      exact .inr (.inl ⟨_, rfl⟩)
    · simp at h
  rename_i hbacktick
  exact .inr (.inr (unquoted_cases ⟨hopening, hescaped, hbacktick⟩ h))

/-- A literal opens with a quote, or with a letter before a quote. -/
theorem begins_cons {o : Opening} (ho : o ∈ openings) (h : o.begins (c :: cs) = true) :
    (c = '\'' ∨ c = '"') ∨ c.isAlpha ∧ (cs.head? = some '\'' ∨ cs.head? = some '"') := by
  -- The openings are a table, and all of it that matters is the shape of the leads.
  have hfirst : ∀ o ∈ openings, (o.lead = [] ∧ (o.quote = '\'' ∨ o.quote = '"')) ∨
      ∃ d, o.lead = [d] ∧ d.isAlpha = true ∧ (o.quote = '\'' ∨ o.quote = '"') := by
    simp [openings]
  rw [Opening.begins, List.isPrefixOf_iff_prefix] at h
  obtain ⟨tail, htail⟩ := h
  obtain ⟨hlead, hquote⟩ | ⟨d, hlead, hd, hquote⟩ := hfirst o ho
  · rw [hlead] at htail
    obtain ⟨rfl, -⟩ := List.cons.inj htail
    exact .inl hquote
  · rw [hlead] at htail
    obtain ⟨rfl, rfl⟩ := List.cons.inj htail
    exact .inr ⟨hd, by simpa using hquote⟩

/-- No quotes open at a character that is no quote, unless it is a letter before one. -/
theorem Unquoted.of_head (hc : c ≠ '\'' ∧ c ≠ '"' ∧ c ≠ '\x60')
    (hcs : c.isAlpha = true → ∀ d ∈ cs.head?, d ≠ '\'' ∧ d ≠ '"') : Unquoted c cs where
  opening := by
    refine List.find?_eq_none.2 fun o ho hbegins => ?_
    obtain (rfl | rfl) | ⟨halpha, hquote | hquote⟩ := begins_cons ho hbegins
    · exact hc.1 rfl
    · exact hc.2.1 rfl
    · exact (hcs halpha _ hquote).1 rfl
    · exact (hcs halpha _ hquote).2 rfl
  escaped := by
    rintro ⟨rfl | rfl, hquote⟩
    · exact (hcs (by decide) _ hquote).1 rfl
    · exact (hcs (by decide) _ hquote).1 rfl
  backtick := hc.2.2

/-! ## Whole texts -/

/-- The pieces of a text are its first one and those of what is left behind it. -/
theorem readAll_cons {pieces : List Piece} (hread : read c cs = .ok (p, rest))
    (h : readAll rest = .ok pieces) : readAll (c :: cs) = .ok (p :: pieces) := by
  rw [readAll]
  split
  · rename_i e herror
    cases hread.symm.trans herror
  · rename_i q tail hok
    obtain ⟨rfl, rfl⟩ := Prod.mk.inj (Except.ok.inj (hread.symm.trans hok))
    rw [h]

/-- The pieces of a text cover it from end to end. -/
theorem source_of_readAll {pieces : List Piece} (h : readAll cs = .ok pieces) :
    pieces.flatMap source = cs := by
  fun_induction readAll cs generalizing pieces with
  | case1 =>
    obtain rfl := Except.ok.inj h
    rfl
  | case2 c cs e hread => exact nomatch h
  | case3 c cs p rest hread e hrest ih => exact nomatch h
  | case4 c cs p rest hread tail hrest ih =>
    obtain rfl := Except.ok.inj h
    rw [List.flatMap_cons, ih hrest, read_eq hread]

/-- What holds of everything that is read holds of the pieces of a text. -/
theorem forall_of_readAll {P : Piece → Prop}
    (hP : ∀ c cs p rest, read c cs = .ok (p, rest) → P p)
    {pieces : List Piece} (h : readAll cs = .ok pieces) : ∀ p ∈ pieces, P p := by
  fun_induction readAll cs generalizing pieces with
  | case1 =>
    obtain rfl := Except.ok.inj h
    exact nofun
  | case2 c cs e hread => exact nomatch h
  | case3 c cs p rest hread e hrest ih => exact nomatch h
  | case4 c cs p rest hread tail hrest ih =>
    obtain rfl := Except.ok.inj h
    exact List.forall_mem_cons.2 ⟨hP c cs p rest hread, ih hrest⟩

end TableSchema.Piece
