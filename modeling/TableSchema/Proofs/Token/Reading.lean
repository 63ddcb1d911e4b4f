import TableSchema.Proofs.Token.Number
import TableSchema.Proofs.Token.Piece

/-!
# Reading tokens again

A token that was read of one text can be written down in another one. It is read there again if what
stands behind it does not run into it, and a space, a parenthesis, a comma and the end of the text
never do.

The text of a token need not be what it was read from: a long number loses its letter, and a
national literal gets a lead in upper case. A word between backticks with a backtick inside is the
one name whose text is read as another token.

## Main definitions

* `Token.Legible`: the token is read of some text;
* `Token.ReadsBefore`: the token is read again in front of other text.

## Main results

* `readsBefore_number`, `readsBefore_string`, `readsBefore_plainWord`: tokens in front of a space, a
  parenthesis, a comma or nothing;
* `readsBefore_name`: names at the end of a text.
-/

namespace TableSchema

namespace Token

/-- The characters that a token is written with; white space is one space. -/
def written : Token → List Char
  | blank => [' ']
  | t => t.text.toList

/-- The token is read of some text. -/
def Legible (t : Token) : Prop :=
  ∃ c cs p rest, Piece.read c cs = .ok (p, rest) ∧ p.token = t

/-- The token, written in front of other text, is read there, and the other text is left. -/
def ReadsBefore (t : Token) (rest : List Char) : Prop :=
  ∃ c cs source, t.written ++ rest = c :: cs ∧ Piece.read c cs = .ok (⟨t, source⟩, rest)

end Token

namespace Piece

/-- The characters that part the tokens of a canonical text. -/
def partings : List Char :=
  [' ', '(', ')', ',']

/-- The text is empty or begins with a space, a parenthesis or a comma. -/
def Parted (cs : List Char) : Prop :=
  ∀ c ∈ cs.head?, c ∈ partings

/-- What holds of the four partings holds of the first character of a parted text. -/
theorem Parted.head {cs : List Char} (h : Parted cs) {P : Char → Prop}
    (hP : P ' ' ∧ P '(' ∧ P ')' ∧ P ',') : ∀ c ∈ cs.head?, P c := by
  have hpartings : ∀ c ∈ partings, P c := by simpa [partings] using hP
  exact fun c hc => hpartings c (h c hc)

/-- No parting is a part of a word. -/
theorem Parted.isWordPart_head {cs : List Char} (h : Parted cs) :
    ∀ c ∈ cs.head?, isWordPart c = false :=
  h.head (by decide +kernel)

variable {c : Char} {cs rest rest' : List Char} {p : Piece}

/-! ## Numbers and words that begin like them -/

/-- How a number is read: it has an exponent, or it has none, or it is the front of a word. -/
theorem numeric_cases (h : numeric cs = (p, rest)) (hp : p.token ≠ .symbol .period) :
    ∃ value after, Number.mantissa cs = (value, after) ∧ value ≠ ['.'] ∧
      ((∃ power tail, Number.exponent? after = some (power, tail) ∧
          p.token = .number (String.ofList (value ++ power))) ∨
        p.token = .number (String.ofList value) ∨
        ((∀ c ∈ after.head?, Number.isExponentMark c = false) ∧
          after.takeWhile isWordPart ≠ [] ∧
          p.token = .word none (String.ofList (value ++ after.takeWhile isWordPart)))) := by
  unfold numeric at h
  generalize hmantissa : Number.mantissa cs = m at h
  obtain ⟨value, after⟩ := m
  dsimp only at h
  -- A period on its own is no number. Otherwise the exponent is tried before the word.
  split at h
  · obtain ⟨rfl, -⟩ := Prod.mk.inj h
    exact absurd rfl hp
  rename_i hvalue
  refine ⟨value, after, rfl, hvalue, ?_⟩
  split at h
  · rename_i power tail hexponent
    refine .inl ⟨power, tail, hexponent, ?_⟩
    split at h
    · rw [← (Prod.mk.inj h).1]
    · rw [← (Prod.mk.inj h).1]
  · split at h
    · exact .inr (.inl (by rw [← (Prod.mk.inj h).1]))
    · rename_i hword
      obtain ⟨hmark, hne⟩ := not_or.1 hword
      refine .inr (.inr ⟨fun c hc => ?_, hne, by rw [← (Prod.mk.inj h).1]⟩)
      rw [Option.mem_def.1 hc] at hmark
      simpa using hmark

/-- A mantissa with an exponent is read again in front of a parted text. -/
theorem numeric_exponent_append {value after power tail : List Char}
    (hmantissa : Number.mantissa cs = (value, after)) (hvalue : value ≠ ['.'])
    (hexponent : Number.exponent? after = some (power, tail)) (hrest' : Parted rest') :
    numeric (value ++ power ++ rest') =
      (⟨.number (String.ofList (value ++ power)), value ++ power⟩, rest') := by
  have hmantissa' : Number.mantissa (value ++ (power ++ rest')) = (value, power ++ rest') := by
    -- The mantissa ends at the letter of the exponent.
    refine Number.mantissa_append_of_ends hmantissa fun c hc => ?_
    obtain ⟨e, power, rfl, he⟩ := Number.exponent?_head hexponent
    obtain rfl : e = c := by simpa using hc
    simp only [Number.isExponentMark, Bool.or_eq_true, beq_iff_eq] at he
    obtain rfl | rfl := he <;> decide
  rw [numeric, List.append_assoc, hmantissa']
  simp only [if_neg hvalue,
    Number.exponent?_append_of_ends hexponent (hrest'.head (by decide))]
  split
  · -- The letter of a long number is no parting.
    exact absurd ( hrest' 'L' rfl) (by decide)
  · rfl

/-- A mantissa is read as a number in front of a parted text. -/
theorem numeric_mantissa_append {value after : List Char}
    (hmantissa : Number.mantissa cs = (value, after)) (hvalue : value ≠ ['.'])
    (hrest' : Parted rest') :
    numeric (value ++ rest') = (⟨.number (String.ofList value), value⟩, rest') := by
  have hends : Number.EndsMantissa rest' := hrest'.head (by decide)
  have hnone : Number.exponent? rest' = none := Number.exponent?_of_ends (hrest'.head (by decide))
  have hword : rest'.takeWhile isWordPart = [] :=
    Number.takeWhile_append_of_ends (nofun : ∀ c ∈ [], isWordPart c = true)
      hrest'.isWordPart_head
  rw [numeric, Number.mantissa_append_of_ends hmantissa hends]
  simp [hvalue, hnone, hword]

/-- A mantissa that goes on as a word is read as that word in front of a parted text. -/
theorem numeric_word_append {value after word : List Char}
    (hmantissa : Number.mantissa cs = (value, after)) (hvalue : value ≠ ['.'])
    (hne : word ≠ []) (hword : ∀ c ∈ word, isWordPart c = true)
    (hhead : ∀ c ∈ word.head?, c.isDigit = false ∧ Number.isExponentMark c = false)
    (hrest' : Parted rest') :
    numeric (value ++ word ++ rest') =
      (⟨.word none (String.ofList (value ++ word)), value ++ word⟩, rest') := by
  have hstop := hrest'.isWordPart_head
  have htake := Number.takeWhile_append_of_ends hword hstop
  have hdrop := Number.dropWhile_append_of_ends hword hstop
  obtain ⟨d, word, rfl⟩ := List.exists_cons_of_ne_nil hne
  obtain ⟨hdigit, hmark⟩ := hhead d rfl
  -- The first character of the word ends the mantissa: it is neither a digit nor a period.
  have hends : Number.EndsMantissa (d :: word ++ rest') := by
    intro c hc
    obtain rfl : d = c := by simpa using hc
    refine ⟨hdigit, ?_⟩
    rintro rfl
    exact absurd (hword _ List.mem_cons_self) (by decide +kernel)
  have hnone : Number.exponent? (d :: word ++ rest') = none := by
    refine Number.exponent?_of_ends fun c hc => ?_
    obtain rfl : d = c := by simpa using hc
    exact hmark
  rw [numeric, List.append_assoc, Number.mantissa_append_of_ends hmantissa hends]
  simp only [if_neg hvalue, hnone, htake, hdrop]
  simp [hmark]

/-- What was read as a number has a text that begins what it was read from, and in front of a parted
text that text is read again. -/
theorem numeric_again (hc : c.isDigit ∨ c = '.') (h : numeric (c :: cs) = (p, rest))
    (hp : p.token ≠ .symbol .period) (hrest' : Parted rest') :
    ∃ tail, p.token.written = c :: tail ∧ tail <+: cs ∧
      numeric (c :: tail ++ rest') = (⟨p.token, c :: tail⟩, rest') := by
  obtain ⟨value, after, hmantissa, hvalue, hcases⟩ := numeric_cases h hp
  -- The mantissa begins with `c`, and what follows it is the rest of `cs`.
  obtain ⟨value, rfl⟩ : ∃ tail, value = c :: tail := by
    have hne := Number.mantissa_ne_nil cs hc
    have happend := Number.mantissa_append (c :: cs)
    rw [hmantissa] at hne happend
    obtain ⟨d, tail, rfl⟩ := List.exists_cons_of_ne_nil hne
    exact ⟨tail, by rw [(List.cons.inj happend).1]⟩
  obtain rfl : value ++ after = cs := by
    have happend := Number.mantissa_append (c :: cs)
    rw [hmantissa] at happend
    exact (List.cons.inj happend).2
  obtain ⟨power, tail, hexponent, htoken⟩ | htoken | ⟨hafter, hne, htoken⟩ := hcases
  · refine ⟨value ++ power, by simp [htoken, Token.written, Token.text], ?_, ?_⟩
    · obtain rfl := Number.exponent?_append hexponent
      exact (List.prefix_append_right_inj value).2 (List.prefix_append power tail)
    · rw [htoken]
      exact numeric_exponent_append hmantissa hvalue hexponent hrest'
  · refine ⟨value, by simp [htoken, Token.written, Token.text], List.prefix_append value after, ?_⟩
    rw [htoken]
    exact numeric_mantissa_append hmantissa hvalue hrest'
  · refine ⟨value ++ after.takeWhile isWordPart,
      by simp [htoken, Token.written, Token.text, Token.wordText], ?_, ?_⟩
    · exact (List.prefix_append_right_inj value).2 <| List.takeWhile_prefix isWordPart
    · rw [htoken]
      refine numeric_word_append hmantissa hvalue hne (Number.forall_mem_takeWhile after) ?_ hrest'
      -- The word begins where the mantissa stops.
      intro d hd
      rw [List.head?_takeWhile] at hd
      have hhead : after.head? = some d := (Option.filter_eq_some_iff.1 hd).1
      exact ⟨Number.mantissa_stops hmantissa d hhead, hafter d hhead⟩

/-- Letters are no digits. -/
theorem isDigit_of_isAlpha (h : c.isAlpha = true) : c.isDigit = false := by
  cases hdigit : c.isDigit with
  | false => rfl
  | true =>
    have hle : c.val ≤ '9'.val := of_decide_eq_true (Bool.and_eq_true_iff.1 hdigit).2
    have hge : 'A'.val ≤ c.val := by
      rcases Bool.or_eq_true_iff.1 h with hupper | hlower
      · exact (of_decide_eq_true hupper).1
      · have hlower := of_decide_eq_true (Bool.and_eq_true_iff.1 hlower).1
        exact UInt32.le_trans (by decide) hlower
    exact absurd (UInt32.le_trans hge hle) (by decide)

/-- A number, or a word that begins like one, is read again in front of a parted text. -/
theorem readsBefore_numeric (hc : c.isDigit ∨ c = '.') (hx : ¬(c = '0' ∧ cs.head? = some 'x'))
    (h : numeric (c :: cs) = (p, rest)) (hp : p.token ≠ .symbol .period) (hrest' : Parted rest') :
    p.token.ReadsBefore rest' := by
  obtain ⟨tail, htext, hfront, hagain⟩ := numeric_again hc h hp hrest'
  have hnoalpha : c.isAlpha = false := by
    obtain hdigit | rfl := hc
    · cases halpha : c.isAlpha with
      | false => rfl
      | true => simp [isDigit_of_isAlpha halpha] at hdigit
    · decide
  have hquotes : Unquoted c (tail ++ rest') := by
    refine .of_head ?_ fun halpha => by simp [hnoalpha] at halpha
    refine ⟨?_, ?_, ?_⟩ <;> (rintro rfl; revert hc; decide)
  -- The text of the number does not become a hexadecimal one by what stands behind it.
  have hx' : ¬(c = '0' ∧ (tail ++ rest').head? = some 'x') := by
    rintro ⟨hzero, hhead⟩
    cases tail with
    | nil => exact absurd ( hrest' 'x' hhead) (by decide)
    | cons d tail => exact hx ⟨hzero, head?_of_front hfront hhead⟩
  refine ⟨c, tail ++ rest', c :: tail, by rw [htext]; rfl, ?_⟩
  rw [hquotes.read_eq, unquoted_of_digit hc hx']
  exact congrArg Except.ok hagain

/-- A point is read as punctuation in front of a text that goes on without a digit. -/
theorem readsBefore_period (hrest : ∀ c ∈ rest.head?, c.isDigit = false) :
    (Token.symbol .period).ReadsBefore rest := by
  have hdigits : Number.digits rest = ([], rest) := by
    cases rest with
    | nil => rfl
    | cons c rest => simp [Number.digits, hrest c rfl]
  have hmantissa : Number.mantissa ('.' :: rest) = (['.'], rest) := by
    have hwhole : Number.digits ('.' :: rest) = ([], '.' :: rest) := rfl
    simp only [Number.mantissa, hwhole, Number.point, hdigits]
    rfl
  have hquotes : Unquoted '.' rest := .of_head (by decide) fun h => absurd h (by decide)
  refine ⟨'.', rest, ['.'], rfl, ?_⟩
  rw [hquotes.read_eq, unquoted_of_digit (.inr rfl) (fun h => absurd h.1 (by decide)), numeric,
    hmantissa]
  rfl

/-! ## Bare words -/

/-- A bare word that is cut off behind its last character is read again. -/
theorem bareWord_again (lead cs : List Char) :
    bareWord lead (cs.takeWhile isWordPart) = ((bareWord lead cs).1, []) := by
  have hparts := Number.forall_mem_takeWhile (p := isWordPart) cs
  have hend : ∀ c ∈ [].head?, isWordPart c = false := nofun
  have htake : (cs.takeWhile isWordPart).takeWhile isWordPart = cs.takeWhile isWordPart := by
    simpa using Number.takeWhile_append_of_ends hparts hend
  have hdrop : (cs.takeWhile isWordPart).dropWhile isWordPart = [] := by
    simpa using Number.dropWhile_append_of_ends hparts hend
  simp only [bareWord, htake, hdrop]

/-- What is read is neither a name nor a number, or it is a bare word that begins with `lead` and is
read again when the text `cs` is cut off behind it. -/
def IdleOrWord (lead : Char) (reader : List Char → Piece × List Char) (cs : List Char)
    (p : Piece) : Prop :=
  IsIdle p.token ∨ ∃ tail, p.token = .word none (String.ofList (lead :: tail)) ∧ tail <+: cs ∧
    reader tail = (p, [])

/-- Behind an at sign, a word with one or two of them is read. -/
theorem atSign_again (h : atSign cs = (p, rest)) : IdleOrWord '@' atSign cs p := by
  have hother : ∀ q : Piece, IsIdle q.token → ∀ rest', (q, rest') = (p, rest) → IsIdle p.token := by
    intro q hq rest' heq
    rwa [← (Prod.mk.inj heq).1]
  unfold atSign at h
  split at h
  · exact .inl (hother _ ⟨rfl, rfl⟩ _ h)
  · exact .inl (hother _ ⟨rfl, rfl⟩ _ h)
  · -- Two signs in front of a word.
    rename_i d cs
    split at h
    · exact .inl (hother _ ⟨rfl, rfl⟩ _ h)
    rename_i hspace
    refine .inr ⟨'@' :: d :: cs.takeWhile isWordPart, by rw [← (Prod.mk.inj h).1]; rfl, ?_, ?_⟩
    · exact (List.prefix_append_right_inj ['@', d]).2 <| List.takeWhile_prefix isWordPart
    · have hbare : (bareWord ['@', '@', d] cs).1 = p := congrArg Prod.fst h
      rw [← hbare, ← bareWord_again]
      simp [atSign, hspace]
  · -- One sign in front of a word, which does not begin with another one.
    rename_i d cs hsingle hdouble
    split at h
    · exact .inl (hother _ ⟨rfl, rfl⟩ _ h)
    rename_i hquotes
    have hd : d ≠ '@' := by
      rintro rfl
      cases cs with
      | nil => exact hsingle rfl rfl
      | cons e cs => exact hdouble e cs rfl rfl
    refine .inr ⟨d :: cs.takeWhile isWordPart, by rw [← (Prod.mk.inj h).1]; rfl, ?_, ?_⟩
    · exact (List.prefix_append_right_inj [d]).2 <| List.takeWhile_prefix isWordPart
    · have hbare : (bareWord ['@', d] cs).1 = p := congrArg Prod.fst h
      rw [← hbare, ← bareWord_again]
      simp [atSign, hd, hquotes]

/-- Where there is nothing else, a token that is neither a name nor a number is read, or a bare
word, and that word is read again at the end of a text. -/
theorem loose_again (h : loose c cs = (p, rest)) : IdleOrWord c (loose c) cs p := by
  have hother : ∀ q : Piece, IsIdle q.token → ∀ rest', (q, rest') = (p, rest) → IsIdle p.token := by
    intro q hq rest' heq
    rwa [← (Prod.mk.inj heq).1]
  -- The cases are those of `loose`, and only variables and bare words are read again.
  unfold loose at h
  split at h
  · subst c
    exact atSign_again h
  rename_i hat
  split at h
  · exact .inl (hother _ ⟨rfl, rfl⟩ _ h)
  rename_i hplaceholder
  split at h
  · rename_i hstart
    refine .inr ⟨cs.takeWhile isWordPart, by rw [← (Prod.mk.inj h).1]; rfl,
      List.takeWhile_prefix isWordPart, ?_⟩
    rw [loose, if_neg hat, if_neg hplaceholder, if_pos hstart, bareWord_again, h]
  · split at h
    · exact .inl (hother _ ⟨rfl, rfl⟩ _ h)
    · exact .inl (hother _ ⟨rfl, rfl⟩ _ h)

/-- A word that is read where there is nothing else is read again at the end of a text. -/
theorem readsBefore_loose (hloose : Loose c cs) {tail : List Char}
    (hp : p.token = .word none (String.ofList (c :: tail))) (hfront : tail <+: cs)
    (hagain : loose c tail = (p, [])) : p.token.ReadsBefore [] := by
  refine ⟨c, tail, p.source, by simp [hp, Token.written, Token.text, Token.wordText], ?_⟩
  rw [(hloose.of_front hfront).read_eq, hagain]

/-- The text is a letter followed by letters and digits, all of ASCII. -/
def IsPlainWord (w : String) : Prop :=
  w.toList.head?.any Char.isAlpha = true ∧ w.toList.all Char.isAlphanum = true

instance (w : String) : Decidable (IsPlainWord w) :=
  inferInstanceAs (Decidable (_ ∧ _))

/-- A text does not begin with an operator if no operator begins like it. -/
theorem operators_of_head (hc : ∀ op ∈ operators, op.1.toList.head? ≠ some c) :
    operators.find? (·.1.toList.isPrefixOf (c :: cs)) = none := by
  -- An operator that is a prefix shares its first character with the text.
  refine List.find?_eq_none.2 fun op hop hbegins => ?_
  rw [List.isPrefixOf_iff_prefix] at hbegins
  cases hspelling : op.1.toList with
  | nil => exact operators_ne_nil op hop hspelling
  | cons d ds =>
    rw [hspelling] at hbegins
    obtain rfl := (List.cons_prefix_cons.1 hbegins).1
    exact hc op hop (by rw [hspelling]; rfl)

/-- No operator begins with a letter. -/
theorem operators_of_isAlpha (hc : c.isAlpha = true) :
    operators.find? (·.1.toList.isPrefixOf (c :: cs)) = none := by
  have hfirst : ∀ op ∈ operators, op.1.toList.head?.any (fun d => !d.isAlpha) = true := by
    decide
  refine operators_of_head fun op hop hhead => ?_
  simpa [hhead, hc] using hfirst op hop

/-- In front of a parted text, a letter with letters and digits behind it opens nothing else. -/
theorem loose_of_alphanum (hc : c.isAlpha = true) (hcs : ∀ d ∈ cs, d.isAlphanum = true)
    (hrest : Parted rest) : Loose c (cs ++ rest) := by
  have hne : ∀ d, d.isAlpha = false → c ≠ d := by
    rintro d hd rfl
    simp [hc] at hd
  -- Behind a first letter a quote would open a literal, but there is a letter, a digit or a
  -- parting.
  have hquote : ∀ d ∈ (cs ++ rest).head?, d ≠ '\'' ∧ d ≠ '"' := by
    cases cs with
    | nil => exact hrest.head (by decide)
    | cons e cs =>
      intro d hd
      obtain rfl : e = d := by simpa using hd
      have he := hcs e List.mem_cons_self
      constructor <;> (rintro rfl; revert he; decide)
  exact
    { toUnquoted := .of_head ⟨hne _ (by decide), hne _ (by decide), hne _ (by decide)⟩
        fun _ => hquote
      number := not_or.2 ⟨by simp [isDigit_of_isAlpha hc], hne _ (by decide)⟩
      line := not_or.2 ⟨hne _ (by decide), fun h => hne _ (by decide) h.1⟩
      block := fun h => hne _ (by decide) h.1
      operator := operators_of_isAlpha hc }

/-- Letters and digits are parts of words. -/
theorem isWordPart_of_isAlphanum (h : c.isAlphanum = true) : isWordPart c = true := by
  simp only [Char.isAlphanum, Bool.or_eq_true] at h
  simp only [isWordPart, isWordStart, Bool.or_eq_true]
  obtain halpha | hdigit := h
  · exact .inl (by simp [halpha])
  · exact .inr hdigit

/-- A plain word is read in front of a parted text. -/
theorem readsBefore_plainWord {w : String} (hw : IsPlainWord w) (hrest : Parted rest) :
    (Token.word none w).ReadsBefore rest := by
  obtain ⟨hhead, hall⟩ := hw
  cases hchars : w.toList with
  | nil => simp [hchars] at hhead
  | cons c cs =>
    rw [hchars] at hhead hall
    have hc : c.isAlpha = true := by simpa using hhead
    have hcs : ∀ d ∈ cs, d.isAlphanum = true := fun d hd =>
      List.all_eq_true.1 hall d (List.mem_cons_of_mem c hd)
    have hparts : ∀ d ∈ cs, isWordPart d = true := fun d hd => isWordPart_of_isAlphanum (hcs d hd)
    have hstop := hrest.isWordPart_head
    -- Variables and placeholders are tried before words, but they do not begin with a letter.
    have hat : c ≠ '@' := by
      rintro rfl
      exact absurd hc (by decide)
    have hplaceholder : c ≠ '?' := by
      rintro rfl
      exact absurd hc (by decide)
    refine ⟨c, cs ++ rest, c :: cs, by simp [Token.written, Token.text, Token.wordText, hchars], ?_⟩
    rw [(loose_of_alphanum hc hcs hrest).read_eq, loose, if_neg hat, if_neg hplaceholder,
      if_pos (by simp [isWordStart, hc]), bareWord, Number.takeWhile_append_of_ends hparts hstop,
      Number.dropWhile_append_of_ends hparts hstop]
    simp [← hchars]

/-! ## White space -/

/-- The white space of ASCII. -/
def blanks : List Char :=
  ['\t', '\n', '\x0b', '\x0c', '\r', ' ']

/-- White space that begins no word is white space of ASCII. -/
theorem mem_of_isBlank (hblank : Unicode.isBlank c = true) (hword : isWordStart c = false) :
    c ∈ blanks := by
  -- White space has a code point of at most U+FFFF, and a character from U+0080 on begins a word.
  have hle : c.toNat ≤ 0xFFFF := by
    have hranges : ∀ range ∈ Unicode.blankRanges, range.2 ≤ 0xFFFF := by decide
    obtain ⟨range, hrange, hin⟩ := List.any_eq_true.1 hblank
    exact Nat.le_trans (of_decide_eq_true (Bool.and_eq_true_iff.1 hin).2) (hranges range hrange)
  have hlt : c.toNat < 0x80 := by
    refine Nat.lt_of_not_le fun hge => ?_
    simp [isWordStart, hle, hge] at hword
  have hascii : ∀ n < 0x80, Unicode.blankRanges.contains n = true →
      Char.ofNat n ∈ blanks := by
    decide
  rw [← Char.ofNat_toNat c]
  exact hascii c.toNat hlt hblank

/-- White space is read in front of everything. -/
theorem read_white (hblank : Unicode.isBlank c = true) (hword : isWordStart c = false)
    (rest : List Char) : read c rest = .ok (⟨.blank, [c]⟩, rest) := by
  have hmem := mem_of_isBlank hblank hword
  have hne : ∀ d, d ∉ blanks → c ≠ d := by
    rintro d hd rfl
    exact hd hmem
  have hletter : c.isAlpha = false ∧ c.isDigit = false := by
    have hall : blanks.all (fun d => !d.isAlpha && !d.isDigit) = true := by decide
    simpa using List.all_eq_true.1 hall c hmem
  -- No other kind of piece begins with a blank character.
  have hloose : Loose c rest :=
    { toUnquoted := .of_head ⟨hne _ (by decide), hne _ (by decide), hne _ (by decide)⟩
        fun h => absurd h (by simp [hletter.1])
      number := not_or.2 ⟨by simp [hletter.2], hne _ (by decide)⟩
      line := not_or.2 ⟨hne _ (by decide), fun h => hne _ (by decide) h.1⟩
      block := fun h => hne _ (by decide) h.1
      operator := operators_of_head fun op hop hhead => by
        have hfirst : ∀ op ∈ operators, op.1.toList.head? ∉ blanks.map some := by decide
        exact hfirst op hop (hhead ▸ List.mem_map_of_mem hmem) }
  rw [hloose.read_eq, loose, if_neg (hne _ (by decide)), if_neg (hne _ (by decide)),
    if_neg (by simp [hword]), if_pos hblank]

/-! ## Quotes -/

/-- A character that neither closes a body nor keeps the next one from closing it belongs to it. -/
theorem splitQuoted_cons {quote : Char} {escapes : Bool} (hc : c ≠ quote)
    (hescape : ¬(escapes && c == '\\') = true) (hne : cs ≠ []) :
    Quoted.splitQuoted quote escapes (c :: cs) =
      (Quoted.splitQuoted quote escapes cs).map (Quoted.prependTo [c]) := by
  obtain ⟨d, cs, rfl⟩ := List.exists_cons_of_ne_nil hne
  rw [Quoted.splitQuoted, if_neg hc, if_neg hescape]

/-- A body with characters in front of it. -/
theorem map_prependTo_eq_some {front body : List Char} {r? : Option (List Char × List Char)} :
    r?.map (Quoted.prependTo front) = some (body, rest) ↔
      ∃ tail, r? = some (tail, rest) ∧ front ++ tail = body := by
  cases r? with
  | none => simp
  | some r =>
    obtain ⟨tail, rest⟩ := r
    simp only [Option.map_some, Quoted.prependTo, Option.some.injEq, Prod.mk.injEq]
    constructor
    · rintro ⟨rfl, rfl⟩
      exact ⟨tail, ⟨rfl, rfl⟩, rfl⟩
    · rintro ⟨_, ⟨rfl, rfl⟩, rfl⟩
      exact ⟨rfl, rfl⟩

/-- A quote that is not followed by another one closes a body. -/
theorem splitQuoted_close {quote : Char} {escapes : Bool} (hrest : ∀ c ∈ rest.head?, c ≠ quote) :
    Quoted.splitQuoted quote escapes (quote :: rest) = some ([], rest) := by
  cases rest with
  | nil => simp [Quoted.splitQuoted]
  | cons d rest => simp [Quoted.splitQuoted, hrest d rfl]

/-- A body is divided from other text behind it, if the other text does not go on with its quote. -/
theorem splitQuoted_append {quote : Char} {escapes : Bool} {body : List Char}
    (h : Quoted.splitQuoted quote escapes cs = some (body, rest))
    (hrest' : ∀ c ∈ rest'.head?, c ≠ quote) :
    Quoted.splitQuoted quote escapes (body ++ quote :: rest') = some (body, rest') := by
  fun_induction Quoted.splitQuoted quote escapes cs generalizing body rest with
  | case1 => simp at h
  | case2 =>
    obtain ⟨rfl, -⟩ : [] = body ∧ [] = rest := by simpa using h
    exact splitQuoted_close hrest'
  | case3 => simp at h
  | case4 cs ih =>
    -- A quote written twice.
    obtain ⟨tail, htail, rfl⟩ := map_prependTo_eq_some.1 h
    rw [List.append_assoc, List.cons_append, List.cons_append, List.nil_append,
      Quoted.splitQuoted, if_pos rfl, if_pos rfl, ih htail]
    rfl
  | case5 d cs hd =>
    obtain ⟨rfl, -⟩ : [] = body ∧ d :: cs = rest := by simpa using h
    exact splitQuoted_close hrest'
  | case6 c d cs hc hescape ih =>
    -- A backslash with the character that it keeps.
    obtain ⟨tail, htail, rfl⟩ := map_prependTo_eq_some.1 h
    rw [List.append_assoc, List.cons_append, List.cons_append, List.nil_append,
      Quoted.splitQuoted, if_neg hc, if_pos hescape, ih htail]
    rfl
  | case7 c d cs hc hescape ih =>
    obtain ⟨tail, htail, rfl⟩ := map_prependTo_eq_some.1 h
    rw [List.append_assoc, List.cons_append, List.nil_append,
      splitQuoted_cons hc hescape (by simp), ih htail]
    rfl

/-- A literal is read again behind its opening quote, if what follows does not go on with the
quote. -/
theorem literal_again {o : Opening} {body : List Char}
    (hsplit : Quoted.splitQuoted o.quote o.escapes cs = some (body, rest))
    (hrest' : ∀ c ∈ rest'.head?, c ≠ o.quote) (lead : List Char) :
    literal ⟨o.kind, lead, o.quote, o.escapes⟩ (body ++ o.quote :: rest') =
      .ok (⟨.literal o.kind (String.ofList body), lead ++ o.quote :: body ++ [o.quote]⟩,
        rest') := by
  have hagain := splitQuoted_append hsplit hrest'
  simp only [literal, hagain]

/-- The forms of literals whose text is read as it was. -/
theorem openings_quote : ∀ o ∈ openings,
    (o.kind = .single → o.quote = '\'' ∧ o.escapes = true) ∧
      (o.kind = .double → o.quote = '"' ∧ o.escapes = true) ∧
        (o.kind = .national → o.quote = '\'' ∧ o.escapes = true) := by
  decide

/-- A string literal is read again in front of a parted text. -/
theorem readsBefore_literal {o : Opening} (ho : o ∈ openings) {body : List Char}
    (hsplit : Quoted.splitQuoted o.quote o.escapes cs = some (body, rest))
    (hstring : (Token.literal o.kind (String.ofList body)).stringText?.isSome = true)
    (hrest' : Parted rest') : (Token.literal o.kind (String.ofList body)).ReadsBefore rest' := by
  obtain ⟨hsingle, hdouble, hnational⟩ := openings_quote o ho
  have hparting : ∀ o ∈ openings,
      ' ' ≠ o.quote ∧ '(' ≠ o.quote ∧ ')' ≠ o.quote ∧ ',' ≠ o.quote := by
    decide
  have hquote : ∀ c ∈ rest'.head?, c ≠ o.quote := hrest'.head (hparting o ho)
  have hagain := literal_again hsplit hquote
  -- The literal opens as the first form of its kind does, whatever it was read from.
  cases hkind : o.kind with
  | single =>
    obtain ⟨heq, hescapes⟩ := hsingle hkind
    rw [hkind, heq, hescapes] at hagain
    refine ⟨'\'', body ++ '\'' :: rest', _, ?_, hagain []⟩
    simp [Token.written, Token.text, Token.literalText]
  | double =>
    obtain ⟨heq, hescapes⟩ := hdouble hkind
    rw [hkind, heq, hescapes] at hagain
    refine ⟨'"', body ++ '"' :: rest', _, ?_, hagain []⟩
    simp [Token.written, Token.text, Token.literalText]
  | national =>
    obtain ⟨heq, hescapes⟩ := hnational hkind
    rw [hkind, heq, hescapes] at hagain
    refine ⟨'N', '\'' :: body ++ '\'' :: rest', _, ?_, hagain ['N']⟩
    simp [Token.written, Token.text, Token.literalText]
  | escaped => simp [hkind, Token.stringText?] at hstring
  | hex => simp [hkind, Token.stringText?] at hstring
  | singleBits => simp [hkind, Token.stringText?] at hstring
  | doubleBits => simp [hkind, Token.stringText?] at hstring

/-- A body without its quote is divided from other text behind it, if the other text does not go on
with the quote. -/
theorem splitQuoted_of_notMem {quote : Char} {body : List Char} (h : quote ∉ body)
    (hrest : ∀ c ∈ rest.head?, c ≠ quote) :
    Quoted.splitQuoted quote false (body ++ quote :: rest) = some (body, rest) := by
  induction body with
  | nil => exact splitQuoted_close hrest
  | cons c body ih =>
    obtain ⟨hc, hbody⟩ : c ≠ quote ∧ quote ∉ body := by
      rw [List.mem_cons, not_or] at h
      exact ⟨Ne.symm h.1, h.2⟩
    rw [List.cons_append, splitQuoted_cons hc (by simp) (by simp), ih hbody]
    rfl

/-- Nothing is doubled in a text without the mark. -/
theorem doubled_of_notMem {mark : Char} {s : String} (h : mark ∉ s.toList) :
    Token.wordText.doubled mark s = s := by
  have hchars : ∀ cs : List Char, mark ∉ cs →
      cs.flatMap (fun c => if c = mark then [mark, mark] else [c]) = cs := by
    intro cs hcs
    induction cs with
    | nil => rfl
    | cons c cs ih =>
      rw [List.mem_cons, not_or] at hcs
      rw [List.flatMap_cons, if_neg (Ne.symm hcs.1), ih hcs.2]
      rfl
  rw [Token.wordText.doubled, hchars _ h, String.ofList_toList]

/-- A word between backticks is written with them if there is none inside. -/
theorem wordText_backtick {value : String} (h : '\x60' ∉ value.toList) :
    Token.wordText (some '\x60') value = "\x60" ++ value ++ "\x60" := by
  rw [Token.wordText, doubled_of_notMem h]

/-- A word between backticks without a backtick inside is read in front of a text that does not go
on with one. -/
theorem readsBefore_backtick {value : String} (h : '\x60' ∉ value.toList)
    (hrest : ∀ c ∈ rest.head?, c ≠ '\x60') :
    (Token.word (some '\x60') value).ReadsBefore rest := by
  have hdoubled := doubled_of_notMem h
  refine ⟨'\x60', value.toList ++ '\x60' :: rest, '\x60' :: value.toList ++ ['\x60'], ?_, ?_⟩
  · simp [Token.written, Token.text, Token.wordText, hdoubled]
  · change quotedWord (value.toList ++ '\x60' :: rest) = _
    rw [quotedWord, splitQuoted_of_notMem h hrest]
    simp

/-- How a token that was read is read again: a string literal and a number in front of a parted
text, and a bare word at the end of a text. -/
theorem legible_cases {t : Token} (h : t.Legible) :
    (∃ kind body, t = .literal kind body ∧
        (t.stringText?.isSome = true → ∀ rest, Parted rest → t.ReadsBefore rest)) ∨
      (∃ value, t = .word (some '\x60') value) ∨
      (∃ digits, t = .number digits ∧ ∀ rest, Parted rest → t.ReadsBefore rest) ∨
      (∃ value, t = .word none value ∧ t.ReadsBefore []) ∨ IsIdle t := by
  obtain ⟨c, cs, p, rest, hread, rfl⟩ := h
  obtain ⟨o, ho, body, cs', hsplit, htoken⟩ | hquoted | ⟨hc, hx, hnumeric⟩ | ⟨hloose, hp⟩ | hidle :=
    read_cases hread
  · refine .inl ⟨o.kind, String.ofList body, htoken, fun hstring rest' hrest' => ?_⟩
    rw [htoken] at hstring ⊢
    exact readsBefore_literal ho hsplit hstring hrest'
  · exact .inr (.inl hquoted)
  · -- What begins like a number may turn out to be a point or a word.
    by_cases hperiod : p.token = .symbol .period
    · exact .inr (.inr (.inr (.inr (by rw [hperiod]; exact ⟨rfl, rfl⟩))))
    have hagain : ∀ rest', Parted rest' → p.token.ReadsBefore rest' := fun _ =>
      readsBefore_numeric hc hx hnumeric hperiod
    obtain ⟨value, after, -, -, hcases⟩ := numeric_cases hnumeric hperiod
    obtain ⟨_, _, -, htoken⟩ | htoken | ⟨-, -, htoken⟩ := hcases
    · exact .inr (.inr (.inl ⟨_, htoken, hagain⟩))
    · exact .inr (.inr (.inl ⟨_, htoken, hagain⟩))
    · exact .inr (.inr (.inr (.inl ⟨_, htoken, hagain [] nofun⟩)))
  · obtain hidle | ⟨tail, htoken, hfront, hagain⟩ := loose_again hp
    · exact .inr (.inr (.inr (.inr hidle)))
    · exact .inr (.inr (.inr (.inl ⟨_, htoken, readsBefore_loose hloose htoken hfront hagain⟩)))
  · exact .inr (.inr (.inr (.inr hidle)))

/-- A number that was read is read again in front of a parted text. -/
theorem readsBefore_number {digits : String} (h : (Token.number digits).Legible)
    (hrest : Parted rest) : (Token.number digits).ReadsBefore rest := by
  obtain ⟨_, _, ht, -⟩ | ⟨_, ht⟩ | ⟨_, -, hagain⟩ | ⟨_, ht, -⟩ | ⟨-, hnumber⟩ := legible_cases h
  · exact nomatch ht
  · exact nomatch ht
  · exact hagain rest hrest
  · exact nomatch ht
  · exact nomatch hnumber

/-- A string literal that was read is read again in front of a parted text. -/
theorem readsBefore_string {t : Token} (h : t.Legible) (hstring : t.stringText?.isSome = true)
    (hrest : Parted rest) : t.ReadsBefore rest := by
  obtain ⟨_, _, rfl, hagain⟩ | ⟨_, rfl⟩ | ⟨_, rfl, -⟩ | ⟨_, rfl, -⟩ | ⟨hname, -⟩ := legible_cases h
  · exact hagain hstring rest hrest
  · simp [Token.stringText?] at hstring
  · simp [Token.stringText?] at hstring
  · simp [Token.stringText?] at hstring
  · rw [Option.isSome_iff_exists] at hstring
    obtain ⟨text, htext⟩ := hstring
    simp [Token.nameText?, htext] at hname

/-- A name that was read is read again at the end of a text, unless it stands between backticks and
holds one. -/
theorem readsBefore_name {t : Token} (h : t.Legible) (hname : t.nameText?.isSome = true)
    (hbacktick : ∀ value, t = .word (some '\x60') value → '\x60' ∉ value.toList) :
    t.ReadsBefore [] := by
  obtain ⟨_, _, rfl, hagain⟩ | ⟨value, rfl⟩ | ⟨_, rfl, -⟩ | ⟨_, -, hagain⟩ | ⟨hidle, -⟩ :=
    legible_cases h
  · exact hagain (by simpa [Token.nameText?, Token.wordText?] using hname) [] nofun
  · exact readsBefore_backtick (hbacktick value rfl) nofun
  · simp [Token.nameText?, Token.stringText?, Token.wordText?] at hname
  · exact hagain
  · simp [hidle] at hname

end Piece

end TableSchema
