import TableSchema.Proofs.Token.Written

/-!
# Names and strings as they are written

The text of a name or of a string literal is what stands in the source, character by character: the
quotes of a literal close it in one way and are written around it in the same way, and what is
escaped inside stays as it is. The lead of a national literal is written in upper case.

There is one exception. A backtick inside a word between backticks is written twice, and the word
keeps both of them; its text doubles them once more. The text of such a word is longer than its
source, by one character for each backtick that the word holds.

## Main definitions

* `Piece.spelled`: the source of a piece, with the lead of a national literal in upper case;
* `Token.HoldsBacktick`: the token is a word between backticks that holds a backtick.

## Main results

* `Piece.spelled_eq_text_iff`: the text of a name or a string literal of a text is what it is
  spelled like, exactly if it holds no backtick of its own.
-/

namespace TableSchema

/-- The token is a word between backticks that holds a backtick. -/
def Token.HoldsBacktick : Token → Prop
  | word (some '\x60') value => '\x60' ∈ value.toList
  | _ => False

namespace Piece

/-- The characters a piece covers, with the lead of a national literal in upper case. -/
def spelled (p : Piece) : List Char :=
  match p.token, p.source with
  | .literal .national _, 'n' :: cs => 'N' :: cs
  | _, cs => cs

/-- If the piece is a name or a string literal, its text is what it is spelled like exactly if it
holds no backtick. -/
def IsFaithful (p : Piece) : Prop :=
  p.token.nameText?.isSome = true → (p.token.text.toList = p.spelled ↔ ¬ p.token.HoldsBacktick)

variable {c : Char} {cs rest : List Char} {p : Piece}

/-- Of a token that is neither a name nor a string literal nothing is asked. -/
theorem isFaithful_of_nameText? (h : p.token.nameText? = none) : p.IsFaithful := by
  intro hname
  rw [h] at hname
  exact absurd hname Bool.false_ne_true

/-- A bare word with its characters as source is faithful. -/
theorem isFaithful_bareWord (source : List Char) :
    IsFaithful ⟨.word none (String.ofList source), source⟩ := by
  intro _
  simp [Token.text, Token.wordText, spelled, Token.HoldsBacktick]

/-! ## Quotes -/

/-- A text with a mark doubled is longer by one character for each mark in it. -/
theorem length_doubled (mark : Char) (s : String) :
    (Token.wordText.doubled mark s).toList.length = s.toList.length + s.toList.count mark := by
  rw [Token.wordText.doubled, String.toList_ofList]
  induction s.toList with
  | nil => rfl
  | cons c cs ih =>
    rw [List.flatMap_cons, List.length_append, ih, List.count_cons, List.length_cons]
    by_cases hc : c = mark
    · simp only [hc, beq_self_eq_true, if_true, List.length_cons, List.length_nil]
      omega
    · rw [if_neg hc, if_neg (by simpa using hc)]
      simp only [List.length_cons, List.length_nil]
      omega

/-- Doubling a mark changes nothing exactly where there is no mark. -/
theorem doubled_eq_self_iff {mark : Char} {s : String} :
    Token.wordText.doubled mark s = s ↔ mark ∉ s.toList := by
  constructor
  · intro h
    have hlength := length_doubled mark s
    rw [h] at hlength
    rw [← List.count_eq_zero]
    omega
  · exact doubled_of_notMem

/-- A word between backticks is faithful exactly as far as it holds none. -/
theorem isFaithful_quotedWord (h : quotedWord cs = .ok (p, rest)) : p.IsFaithful := by
  unfold quotedWord at h
  split at h
  · rename_i body after hsplit
    obtain ⟨rfl, -⟩ := Prod.mk.inj (Except.ok.inj h)
    intro _
    change (Token.wordText (some '\x60') (String.ofList body)).toList = '\x60' :: body ++ ['\x60'] ↔
      '\x60' ∉ (String.ofList body).toList
    -- The quotes around the word are the same on both sides.
    rw [← doubled_eq_self_iff, ← String.toList_inj]
    simp [Token.wordText]
  · cases h

/-- The literals that are string literals open with the text in front of their bodies, but for the
case of a letter. -/
theorem openings_spelled : ∀ o ∈ openings, ∀ body : List Char,
    IsFaithful ⟨.literal o.kind (String.ofList body), o.lead ++ o.quote :: body ++ [o.quote]⟩ := by
  intro o ho body hname
  simp only [openings, List.mem_cons, List.not_mem_nil, or_false] at ho
  rcases ho with rfl | rfl | rfl | rfl | rfl | rfl | rfl | rfl | rfl | rfl
  all_goals
    simp_all [Token.nameText?, Token.stringText?, Token.wordText?, Token.text, Token.literalText,
      spelled, Token.HoldsBacktick]

/-- A literal is faithful. -/
theorem isFaithful_literal {o : Opening} (ho : o ∈ openings) (h : literal o cs = .ok (p, rest)) :
    p.IsFaithful := by
  unfold literal at h
  split at h
  · rename_i body after hsplit
    obtain ⟨rfl, -⟩ := Prod.mk.inj (Except.ok.inj h)
    exact openings_spelled o ho body
  · exact nomatch h

/-- A literal whose escapes are decoded is no string literal of the grammar. -/
theorem isFaithful_escapedLiteral {mark : Char} (h : escapedLiteral mark cs = .ok (p, rest)) :
    p.IsFaithful := by
  unfold escapedLiteral at h
  split at h
  · obtain ⟨rfl, -⟩ := Prod.mk.inj (Except.ok.inj h)
    exact isFaithful_of_nameText? rfl
  · exact nomatch h

/-! ## Words -/

/-- What begins like a number is a bare word only with all of its characters. -/
theorem isFaithful_numeric (cs : List Char) : (numeric cs).1.IsFaithful := by
  unfold numeric
  dsimp only
  split
  · exact isFaithful_of_nameText? rfl
  · split
    · split <;> exact isFaithful_of_nameText? rfl
    · split
      · exact isFaithful_of_nameText? rfl
      · exact isFaithful_bareWord _

/-- A word behind an at sign is a bare word. -/
theorem isFaithful_atSign (cs : List Char) : (atSign cs).1.IsFaithful := by
  unfold atSign
  split
  · exact isFaithful_of_nameText? rfl
  · exact isFaithful_of_nameText? rfl
  · split
    · exact isFaithful_of_nameText? rfl
    · exact isFaithful_bareWord _
  · split
    · exact isFaithful_of_nameText? rfl
    · exact isFaithful_bareWord _

/-- What is loose is a bare word or no name at all. -/
theorem isFaithful_loose (c : Char) (cs : List Char) : (loose c cs).1.IsFaithful := by
  unfold loose
  split
  · exact isFaithful_atSign cs
  · split
    · exact isFaithful_of_nameText? rfl
    · split
      · exact isFaithful_bareWord _
      · split <;> exact isFaithful_of_nameText? rfl

/-- What is read where no quotes open is faithful. -/
theorem isFaithful_unquoted (hquotes : Unquoted c cs) (h : unquoted c cs = .ok (p, rest)) :
    p.IsFaithful := by
  obtain ⟨-, -, hnumeric⟩ | ⟨-, hloose⟩ | ⟨hidle, -⟩ := unquoted_cases hquotes h
  · have hfaithful := isFaithful_numeric (c :: cs)
    rwa [hnumeric] at hfaithful
  · have hfaithful := isFaithful_loose c cs
    rwa [hloose] at hfaithful
  · exact isFaithful_of_nameText? hidle

/-- What is read is faithful. -/
theorem isFaithful_read (h : read c cs = .ok (p, rest)) : p.IsFaithful := by
  unfold read at h
  split at h
  · rename_i o hopening
    exact isFaithful_literal (List.mem_of_find?_eq_some hopening) h
  rename_i hopening
  split at h
  · exact isFaithful_escapedLiteral h
  rename_i hescaped
  split at h
  · exact isFaithful_quotedWord h
  rename_i hbacktick
  exact isFaithful_unquoted ⟨hopening, hescaped, hbacktick⟩ h

/-! ## Whole texts -/

/-- The pieces of a text cover it from end to end, and the text of each name and each string literal
among them is what it is spelled like, exactly if it is no word between backticks that holds a
backtick. -/
theorem spelled_eq_text_iff {text : String} {pieces : List Piece}
    (h : readAll text.toList = .ok pieces) :
    pieces.flatMap source = text.toList ∧
      ∀ p ∈ pieces, p.token.nameText?.isSome = true →
        (p.token.text.toList = p.spelled ↔ ¬ p.token.HoldsBacktick) :=
  ⟨source_of_readAll h, forall_of_readAll (fun _ _ _ _ => isFaithful_read) h⟩

/-- A national literal and a word between backticks that holds one: the text of the literal is what
it is spelled like, that of the word is not. -/
theorem spelled_eq_text_of_national :
    readAll "n'a'\x60b\x60\x60\x60".toList = .ok [⟨.literal .national "a", "n'a'".toList⟩,
        ⟨.word (some '\x60') "b\x60\x60", "\x60b\x60\x60\x60".toList⟩] ∧
      (Token.literal .national "a").text.toList = "N'a'".toList ∧
      (Token.word (some '\x60') "b\x60\x60").text.toList ≠ "\x60b\x60\x60\x60".toList := by
  have hread : readAll "n'a'\x60b\x60\x60\x60".toList =
      .ok [⟨.literal .national "a", "n'a'".toList⟩,
        ⟨.word (some '\x60') "b\x60\x60", "\x60b\x60\x60\x60".toList⟩] := by
    cbv
  obtain ⟨-, hpieces⟩ := spelled_eq_text_iff hread
  rw [List.forall_mem_cons, List.forall_mem_singleton] at hpieces
  refine ⟨hread, (hpieces.1 rfl).2 id, fun heq => (hpieces.2 rfl).1 heq ?_⟩
  show '\x60' ∈ "b\x60\x60".toList
  decide

/-- Not every name of every text is written as it is spelled. -/
theorem not_forall_text_eq_spelled :
    ¬ ∀ (text : String) (pieces : List Piece), readAll text.toList = .ok pieces →
      ∀ p ∈ pieces, p.token.nameText?.isSome = true → p.token.text.toList = p.spelled := by
  intro h
  have hread : readAll "\x60a\x60\x60b\x60".toList =
      .ok [⟨.word (some '\x60') "a\x60\x60b", "\x60a\x60\x60b\x60".toList⟩] := by
    cbv
  exact absurd (h _ _ hread _ List.mem_cons_self rfl) (by decide)

end Piece

end TableSchema
