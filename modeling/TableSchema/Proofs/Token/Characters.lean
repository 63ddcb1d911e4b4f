import TableSchema.Proofs.Token.Reading

/-!
# The characters of tokens

Which characters a number or a bare word that was read can hold. A word that begins with an at sign
is left aside: it takes the character behind the sign whatever that is.

## Main results

* `Token.Legible.number_isPart`: numbers hold digits, points, signs and the letter of the exponent;
* `Token.Legible.number_head`: they begin with a digit or a point;
* `Token.Legible.word_isPart`: words hold what can continue a word, and perhaps a point.
-/

namespace TableSchema

namespace Number

/-- The character can stand in a number. -/
def isPart (c : Char) : Bool :=
  c.isDigit || c == '.' || isExponentMark c || c == '+' || c == '-'

/-- What can stand in a number is ASCII, so a property of it can be told from the code points. -/
theorem of_isPart {P : Char → Prop}
    (h : ∀ n < 128, isPart (Char.ofNat n) = true → P (Char.ofNat n)) {c : Char}
    (hc : isPart c = true) : P c := by
  have hascii : c.toNat < 128 := by
    have hparts := hc
    simp only [isPart, isExponentMark, Char.isDigit, Bool.or_eq_true, Bool.and_eq_true,
      decide_eq_true_eq, beq_iff_eq] at hparts
    rcases hparts with (((⟨-, hnine⟩ | rfl) | (rfl | rfl)) | rfl) | rfl
    · have hle := UInt32.le_iff_toNat_le.1 hnine
      exact Nat.lt_of_le_of_lt hle (by decide)
    all_goals decide
  have hn := h c.toNat hascii
  rw [Char.ofNat_toNat] at hn
  exact hn hc

/-- A mantissa holds digits and points. -/
theorem forall_mem_mantissa (cs : List Char) :
    ∀ c ∈ (mantissa cs).1, c.isDigit = true ∨ c = '.' := by
  have hpoint : ∀ ds : List Char, ∀ c ∈ (point ds).1, c = '.' := by
    intro ds c hc
    unfold point at hc
    split at hc
    · exact List.mem_singleton.1 hc
    · exact nomatch hc
  intro c hc
  simp only [mantissa, List.mem_append] at hc
  rcases hc with (hwhole | hdot) | hfraction
  · exact .inl (forall_mem_takeWhile _ c hwhole)
  · exact .inr (hpoint _ c hdot)
  · exact .inl (forall_mem_takeWhile _ c hfraction)

/-- An exponent holds its letter, perhaps a sign, and digits. -/
theorem forall_mem_exponent? {cs power rest : List Char}
    (h : exponent? cs = some (power, rest)) : ∀ c ∈ power, isPart c = true := by
  have hsign : ∀ ds : List Char, ∀ c ∈ (sign ds).1, c = '+' ∨ c = '-' := by
    intro ds c hc
    unfold sign at hc
    split at hc
    · exact absurd hc List.not_mem_nil
    · split at hc
      · rwa [List.mem_singleton.1 hc]
      · exact absurd hc List.not_mem_nil
  cases cs with
  | nil => exact absurd h (Option.some_ne_none _).symm
  | cons e cs =>
    simp only [exponent?, Option.ite_none_right_eq_some, Option.some.injEq, Prod.mk.injEq] at h
    obtain ⟨⟨he, -⟩, rfl, -⟩ := h
    -- An exponent is its letter, perhaps a sign, and digits.
    intro c hc
    simp only [List.cons_append, List.mem_cons, List.mem_append] at hc
    unfold isPart
    rcases hc with rfl | hmark | hdigit
    · simp [he]
    · rcases hsign _ c hmark with rfl | rfl <;> decide
    · have hc : c.isDigit = true := forall_mem_takeWhile _ c hdigit
      simp [hc]

end Number

namespace Token

/-- A number that was read holds what can stand in a number. -/
theorem Legible.number_isPart {digits : String} (h : (number digits).Legible) :
    ∀ c ∈ digits.toList, Number.isPart c = true := by
  obtain ⟨c, cs, p, rest, hread, htoken⟩ := h
  have hpart : ∀ c : Char, c.isDigit = true ∨ c = '.' → Number.isPart c = true := by
    rintro c (hc | rfl)
    · simp [Number.isPart, hc]
    · decide
  -- A number is read as a mantissa or as one with an exponent; the other ways give other tokens.
  rcases Piece.read_cases hread with ⟨o, -, body, cs', -, hp⟩ | ⟨value, hp⟩ | ⟨-, -, hnumeric⟩ |
    ⟨-, hloose⟩ | ⟨-, hidle⟩
  · exact nomatch htoken.symm.trans hp
  · exact nomatch htoken.symm.trans hp
  · have hperiod : p.token ≠ .symbol .period := by simp [htoken]
    obtain ⟨value, after, hmantissa, -, hcases⟩ := Piece.numeric_cases hnumeric hperiod
    have hvalue := Number.forall_mem_mantissa (c :: cs)
    rw [hmantissa] at hvalue
    rcases hcases with ⟨power, tail, hexponent, hp⟩ | hp | ⟨-, -, hp⟩
    · obtain rfl := Token.number.inj (htoken.symm.trans hp)
      intro d hd
      rw [String.toList_ofList, List.mem_append] at hd
      rcases hd with hd | hd
      · exact hpart d (hvalue d hd)
      · exact Number.forall_mem_exponent? hexponent d hd
    · obtain rfl := Token.number.inj (htoken.symm.trans hp)
      rw [String.toList_ofList]
      exact fun d hd => hpart d (hvalue d hd)
    · exact nomatch htoken.symm.trans hp
  · rcases Piece.loose_again hloose with ⟨-, hidle⟩ | ⟨tail, hp, -⟩
    · simp [htoken, numberText?] at hidle
    · exact nomatch htoken.symm.trans hp
  · simp [htoken, numberText?] at hidle

/-- A number that was read begins with a digit or a point. -/
theorem Legible.number_head {digits : String} (h : (number digits).Legible) :
    ∃ c cs, digits.toList = c :: cs ∧ (c.isDigit = true ∨ c = '.') := by
  obtain ⟨c, cs, p, rest, hread, htoken⟩ := h
  rcases Piece.read_cases hread with ⟨o, -, body, cs', -, hp⟩ | ⟨value, hp⟩ | ⟨hc, -, hnumeric⟩ |
    ⟨-, hloose⟩ | ⟨-, hidle⟩
  · exact nomatch htoken.symm.trans hp
  · exact nomatch htoken.symm.trans hp
  · have hperiod : p.token ≠ .symbol .period := by simp [htoken]
    obtain ⟨value, after, hmantissa, -, hcases⟩ := Piece.numeric_cases hnumeric hperiod
    -- The mantissa is not empty, so it begins as the text does.
    have hne := Number.mantissa_ne_nil cs hc
    have happend := Number.mantissa_append (c :: cs)
    rw [hmantissa] at hne happend
    obtain ⟨d, ds, rfl⟩ := List.exists_cons_of_ne_nil hne
    obtain ⟨rfl, -⟩ := List.cons.inj happend
    rcases hcases with ⟨power, tail, -, hp⟩ | hp | ⟨-, -, hp⟩
    · obtain rfl := Token.number.inj (htoken.symm.trans hp)
      exact ⟨d, ds ++ power, by simp, hc⟩
    · obtain rfl := Token.number.inj (htoken.symm.trans hp)
      exact ⟨d, ds, by simp, hc⟩
    · exact nomatch htoken.symm.trans hp
  · rcases Piece.loose_again hloose with ⟨-, hidle⟩ | ⟨tail, hp, -⟩
    · simp [htoken, numberText?] at hidle
    · exact nomatch htoken.symm.trans hp
  · simp [htoken, numberText?] at hidle

/-- A word that was read and does not begin with an at sign holds what can continue a word, and
perhaps a point if it begins like a number. -/
theorem Legible.word_isPart {value : String} (h : (word none value).Legible)
    (hat : value.toList.head? ≠ some '@') :
    ∀ c ∈ value.toList, isWordPart c = true ∨ c = '.' := by
  obtain ⟨c, cs, p, rest, hread, htoken⟩ := h
  rcases Piece.read_cases hread with ⟨o, -, body, cs', -, hp⟩ | ⟨other, hp⟩ | ⟨-, -, hnumeric⟩ |
    ⟨-, hloose⟩ | ⟨hidle, -⟩
  · exact nomatch htoken.symm.trans hp
  · exact nomatch htoken.symm.trans hp
  · have hperiod : p.token ≠ .symbol .period := by simp [htoken]
    obtain ⟨front, after, hmantissa, -, hcases⟩ := Piece.numeric_cases hnumeric hperiod
    have hfront := Number.forall_mem_mantissa (c :: cs)
    rw [hmantissa] at hfront
    rcases hcases with ⟨power, tail, -, hp⟩ | hp | ⟨-, -, hp⟩
    · exact nomatch htoken.symm.trans hp
    · exact nomatch htoken.symm.trans hp
    · obtain ⟨-, rfl⟩ := Token.word.inj (htoken.symm.trans hp)
      intro d hd
      rw [String.toList_ofList, List.mem_append] at hd
      rcases hd with hd | hd
      · rcases hfront d hd with hdigit | rfl
        · exact .inl (by simp [isWordPart, hdigit])
        · exact .inr rfl
      · exact .inl (Number.forall_mem_takeWhile after d hd)
  · -- Only a bare word is left of what stands where there is nothing else.
    have hword : ∀ q : Piece, ∀ rest', (q, rest') = (p, rest) → q.token.nameText? ≠ none := by
      intro q rest' hq hnone
      rw [(Prod.mk.inj hq).1, htoken] at hnone
      exact Option.some_ne_none value hnone
    unfold Piece.loose at hloose
    split at hloose
    · subst c
      rcases Piece.atSign_again hloose with ⟨hidle, -⟩ | ⟨tail, hp, -⟩
      · rw [htoken] at hidle
        exact absurd hidle (Option.some_ne_none value)
      · obtain ⟨-, rfl⟩ := Token.word.inj (htoken.symm.trans hp)
        exact absurd (by simp) hat
    · split at hloose
      · exact absurd rfl (hword _ _ hloose)
      · split at hloose
        · rename_i hstart
          obtain ⟨rfl, -⟩ := Prod.mk.inj hloose
          obtain ⟨-, rfl⟩ := Token.word.inj htoken
          intro d hd
          rw [String.toList_ofList, List.singleton_append, List.mem_cons] at hd
          rcases hd with rfl | hd
          · exact .inl (by simp [isWordPart, hstart])
          · exact .inl (Number.forall_mem_takeWhile cs d hd)
        · split at hloose
          · exact absurd rfl (hword _ _ hloose)
          · exact absurd rfl (hword _ _ hloose)
  · rw [htoken] at hidle
    exact absurd hidle (Option.some_ne_none value)

end Token

end TableSchema
