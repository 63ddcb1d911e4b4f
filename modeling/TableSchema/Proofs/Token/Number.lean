import TableSchema.Token.Number

/-!
# Numbers in other surroundings

A mantissa or an exponent ends at the first character that cannot go on with it. What stands behind
that character is never looked at, so that a number keeps its reading when it is written down in
front of other text.

## Main results

* `mantissa_append_of_ends`, `exponent?_append_of_ends`: a mantissa and an exponent in front of
  other text.
-/

namespace TableSchema.Number

/-- Members of a class in front of what does not begin with one are the longest run of them. -/
theorem takeWhile_append_of_ends {p : Char → Bool} {cs rest : List Char}
    (hcs : ∀ c ∈ cs, p c = true) (hrest : ∀ c ∈ rest.head?, p c = false) :
    (cs ++ rest).takeWhile p = cs := by
  rw [List.takeWhile_append_of_pos hcs]
  cases rest with
  | nil => simp
  | cons c rest => simp [hrest c rfl]

/-- What follows the longest run of members of a class. -/
theorem dropWhile_append_of_ends {p : Char → Bool} {cs rest : List Char}
    (hcs : ∀ c ∈ cs, p c = true) (hrest : ∀ c ∈ rest.head?, p c = false) :
    (cs ++ rest).dropWhile p = rest := by
  rw [List.dropWhile_append_of_pos hcs]
  cases rest with
  | nil => simp
  | cons c rest => simp [hrest c rfl]

/-- A run of members of a class holds nothing else. -/
theorem forall_mem_takeWhile {p : Char → Bool} (cs : List Char) :
    ∀ c ∈ cs.takeWhile p, p c = true :=
  List.all_eq_true.1 List.all_takeWhile

/-- Digits are divided from what does not begin with one. -/
theorem digits_eq_iff {cs ds rest : List Char} :
    digits cs = (ds, rest) ↔
      ds ++ rest = cs ∧ (∀ d ∈ ds, d.isDigit = true) ∧ ∀ c ∈ rest.head?, c.isDigit = false := by
  constructor
  · intro h
    obtain ⟨rfl, rfl⟩ := Prod.mk.inj h
    refine ⟨List.takeWhile_append_dropWhile, forall_mem_takeWhile cs, fun c hc => ?_⟩
    have hstop := List.head?_dropWhile_not Char.isDigit cs
    rw [hc] at hstop
    exact hstop
  · rintro ⟨rfl, hds, hrest⟩
    exact Prod.ext (takeWhile_append_of_ends hds hrest) (dropWhile_append_of_ends hds hrest)

/-- The text cannot go on with a mantissa. -/
def EndsMantissa (cs : List Char) : Prop :=
  ∀ c ∈ cs.head?, c.isDigit = false ∧ c ≠ '.'

/-- There is no point in front of what cannot go on with a mantissa. -/
theorem point_of_ends {cs : List Char} (h : EndsMantissa cs) : point cs = ([], cs) := by
  unfold point
  split
  · exact absurd rfl (h '.' rfl).2
  · rfl

/-- A mantissa is read again in front of what cannot go on with it. -/
theorem mantissa_append_of_ends {cs value rest rest' : List Char}
    (h : mantissa cs = (value, rest)) (hrest' : EndsMantissa rest') :
    mantissa (value ++ rest') = (value, rest') := by
  have hends : ∀ c ∈ rest'.head?, c.isDigit = false := fun c hc => (hrest' c hc).1
  -- What was read is named part by part, so that each part can be read again on its own.
  simp only [mantissa] at h
  generalize hwhole : digits cs = w at h
  obtain ⟨whole, rest₁⟩ := w
  obtain ⟨-, hdigits, hstop⟩ := digits_eq_iff.1 hwhole
  by_cases hpoint : rest₁.head? = some '.'
  · -- The point keeps the digits before it apart from those behind it.
    obtain ⟨rest₂, rfl⟩ : ∃ rest₂, rest₁ = '.' :: rest₂ := by
      cases rest₁ with
      | nil => simp at hpoint
      | cons c rest₂ => exact ⟨rest₂, by rw [Option.some.inj hpoint]⟩
    generalize hfraction : digits rest₂ = f at h
    obtain ⟨fraction, rest₃⟩ := f
    obtain ⟨-, hfdigits, -⟩ := digits_eq_iff.1 hfraction
    obtain rfl : whole ++ '.' :: fraction = value := by
      simpa [point, hfraction] using congrArg Prod.fst h
    have hwhole' : digits (whole ++ '.' :: (fraction ++ rest')) =
        (whole, '.' :: (fraction ++ rest')) :=
      digits_eq_iff.2 ⟨rfl, hdigits, hstop⟩
    have hfraction' : digits (fraction ++ rest') = (fraction, rest') :=
      digits_eq_iff.2 ⟨rfl, hfdigits, hends⟩
    simp [mantissa, hwhole', point, hfraction']
  · -- Without a point there are no digits behind it either.
    have hnopoint : point rest₁ = ([], rest₁) := by
      unfold point
      split
      · simp at hpoint
      · rfl
    have hnone : digits rest₁ = ([], rest₁) :=
      digits_eq_iff.2 ⟨rfl, List.forall_mem_nil _, hstop⟩
    obtain rfl : whole = value := by simpa [hnopoint, hnone] using congrArg Prod.fst h
    have hwhole' : digits (whole ++ rest') = (whole, rest') :=
      digits_eq_iff.2 ⟨rfl, hdigits, hends⟩
    have hnone' : digits rest' = ([], rest') :=
      digits_eq_iff.2 ⟨rfl, List.forall_mem_nil _, hends⟩
    simp [mantissa, hwhole', point_of_ends hrest', hnone']

/-- No digit is left behind a mantissa. -/
theorem mantissa_stops {cs value rest : List Char} (h : mantissa cs = (value, rest)) :
    ∀ c ∈ rest.head?, c.isDigit = false := by
  have hrest : (digits (point (digits cs).2).2).2 = rest := congrArg Prod.snd h
  rw [← hrest]
  exact (digits_eq_iff.1 rfl).2.2

/-- An exponent begins with its letter. -/
theorem exponent?_head {cs power rest : List Char} (h : exponent? cs = some (power, rest)) :
    ∃ e tail, power = e :: tail ∧ isExponentMark e = true := by
  cases cs with
  | nil => simp [exponent?] at h
  | cons e cs =>
    simp only [exponent?, Option.ite_none_right_eq_some, Option.some.injEq, Prod.mk.injEq] at h
    obtain ⟨⟨he, -⟩, rfl, -⟩ := h
    exact ⟨e, _, rfl, he⟩

/-- A sign is read again in front of a digit. -/
theorem sign_append_of_isDigit {cs mark rest : List Char} (h : sign cs = (mark, rest)) {d : Char}
    (hd : d.isDigit = true) (ds : List Char) : sign (mark ++ d :: ds) = (mark, d :: ds) := by
  -- An empty sign is not taken for one in front of the digit.
  have hnosign : ¬(d = '+' ∨ d = '-') := by
    rintro (rfl | rfl) <;> exact absurd hd (by decide)
  unfold sign at h
  split at h
  · obtain ⟨rfl, -⟩ := Prod.mk.inj h
    simp [sign, hnosign]
  · split at h
    · rename_i c _ hc
      obtain ⟨rfl, -⟩ := Prod.mk.inj h
      simp [sign, hc]
    · obtain ⟨rfl, -⟩ := Prod.mk.inj h
      simp [sign, hnosign]

/-- An exponent is read again in front of what does not begin with a digit. -/
theorem exponent?_append_of_ends {cs power rest rest' : List Char}
    (h : exponent? cs = some (power, rest)) (hrest' : ∀ c ∈ rest'.head?, c.isDigit = false) :
    exponent? (power ++ rest') = some (power, rest') := by
  cases cs with
  | nil => simp [exponent?] at h
  | cons e cs =>
    simp only [exponent?, Option.ite_none_right_eq_some, Option.some.injEq, Prod.mk.injEq] at h
    obtain ⟨⟨he, hne⟩, rfl, -⟩ := h
    -- The sign keeps its reading in front of a digit, and there is one.
    generalize hsign : sign cs = s at hne ⊢
    obtain ⟨mark, rest₁⟩ := s
    generalize hpower : digits rest₁ = d at hne ⊢
    obtain ⟨ds, rest₂⟩ := d
    obtain ⟨-, hds, -⟩ := digits_eq_iff.1 hpower
    have hmark : sign (mark ++ (ds ++ rest')) = (mark, ds ++ rest') := by
      obtain ⟨d, ds, rfl⟩ := List.exists_cons_of_ne_nil hne
      exact sign_append_of_isDigit hsign (hds d List.mem_cons_self) (ds ++ rest')
    have hdigits : digits (ds ++ rest') = (ds, rest') := digits_eq_iff.2 ⟨rfl, hds, hrest'⟩
    simp [exponent?, hmark, hdigits, he, hne]

/-- There is no exponent in front of what does not begin with its letter. -/
theorem exponent?_of_ends {cs : List Char} (h : ∀ c ∈ cs.head?, isExponentMark c = false) :
    exponent? cs = none := by
  cases cs with
  | nil => rfl
  | cons c cs => simp [exponent?, h c rfl]

end TableSchema.Number
