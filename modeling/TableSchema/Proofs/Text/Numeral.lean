import TableSchema.Proofs.Text.Strip
import TableSchema.Text.Numeral

/-!
# What a length denotes

`Text.readLength` reads from the left and stops at the first fault. Here is what it accepts, said
without reading: digits, perhaps after a plus sign, whose value is in range.

## Main definitions

* `Text.digitsValue`: the number that digits denote;
* `Text.IsNumeral`: the characters are a numeral in range, of a value;
* `Text.IsLength`: the text is such a numeral of 32 bits, white space around it left out.

## Main results

* `Text.readNumeralChars_eq_ok_iff`: reading gives the value of a numeral in range;
* `Text.readLength_eq_ok_iff_isLength`: a length can be read exactly if it is one.
-/

namespace TableSchema.Text

/-- The number that digits denote, after digits of the value `value`. -/
def digitsValue (value : Nat) (digits : List Char) : Nat :=
  digits.foldl (fun value c => 10 * value + (c.toNat - '0'.toNat)) value

/-- The characters are digits, perhaps after a plus sign, which denote `value`, and the value is at
most `limit`. -/
def IsNumeral (limit value : Nat) (cs : List Char) : Prop :=
  ∃ digits, (cs = digits ∨ cs = '+' :: digits) ∧ digits ≠ [] ∧ (∀ c ∈ digits, c.isDigit = true) ∧
    value = digitsValue 0 digits ∧ value ≤ limit

/-- The text is the numeral of a length, white space around it left out. -/
def IsLength (s : String) : Prop :=
  ∃ value numeral, IsBetween Unicode.isBlank numeral s.toList ∧
    IsNumeral (UInt32.size - 1) value numeral

/-- More digits never make a number smaller. -/
theorem le_digitsValue (value : Nat) (digits : List Char) : value ≤ digitsValue value digits := by
  induction digits generalizing value with
  | nil => exact Nat.le_refl value
  | cons c cs ih =>
    have hstep : value ≤ 10 * value + (c.toNat - '0'.toNat) := by omega
    exact Nat.le_trans hstep (ih _)

/-- Reading digits gives their value if it is in range. -/
theorem readDigits_eq_ok_iff {limit value result : Nat} {cs : List Char} (hvalue : value ≤ limit) :
    readDigits limit value cs = .ok result ↔
      (∀ c ∈ cs, c.isDigit = true) ∧ result = digitsValue value cs ∧ result ≤ limit := by
  induction cs generalizing value with
  | nil =>
    simp only [readDigits, Except.ok.injEq, digitsValue, List.foldl_nil, List.not_mem_nil,
      false_imp_iff, implies_true, true_and]
    constructor
    · rintro rfl
      exact ⟨rfl, hvalue⟩
    · exact fun h => h.1.symm
  | cons c cs ih =>
    by_cases hdigit : c.isDigit = true
    · by_cases hrange : 10 * value + (c.toNat - '0'.toNat) ≤ limit
      · -- The digit keeps the value in range, and the others are read from the new value.
        simp only [readDigits, digitValue?, hdigit, if_true, hrange, ih hrange, List.mem_cons,
          forall_eq_or_imp, true_and]
        rfl
      · -- The value is out of range already, and the digits that follow do not make it smaller.
        have hlarge := le_digitsValue (10 * value + (c.toNat - '0'.toNat)) cs
        simp only [readDigits, digitValue?, hdigit, if_true, hrange, if_false, reduceCtorEq,
          false_iff, not_and]
        rintro - rfl
        exact fun h => hrange (Nat.le_trans hlarge h)
    · simp [readDigits, digitValue?, hdigit]

/-- Reading a numeral gives its value, if it is one in range. -/
theorem readNumeralChars_eq_ok_iff {limit value : Nat} {cs : List Char} :
    readNumeralChars limit cs = .ok value ↔ IsNumeral limit value cs := by
  have hplus : ('+' : Char).isDigit = false := rfl
  constructor
  · intro h
    unfold readNumeralChars at h
    split at h
    · simp at h
    · -- A sign alone is no numeral, so a single character is a digit.
      rename_i c
      split at h
      · simp at h
      · obtain ⟨hdigits, hvalue, hlimit⟩ := (readDigits_eq_ok_iff (Nat.zero_le limit)).1 h
        exact ⟨[c], .inl rfl, by simp, hdigits, hvalue, hlimit⟩
    · -- Of two characters or more the first may be a plus sign.
      rename_i c cs hcs
      split at h
      · rename_i hc
        obtain ⟨hdigits, hvalue, hlimit⟩ := (readDigits_eq_ok_iff (Nat.zero_le limit)).1 h
        exact ⟨cs, .inr (by rw [hc]), hcs, hdigits, hvalue, hlimit⟩
      · obtain ⟨hdigits, hvalue, hlimit⟩ := (readDigits_eq_ok_iff (Nat.zero_le limit)).1 h
        exact ⟨c :: cs, .inl rfl, by simp, hdigits, hvalue, hlimit⟩
  · rintro ⟨digits, hcs, hne, hdigits, hvalue, hlimit⟩
    have hread := (readDigits_eq_ok_iff (Nat.zero_le limit)).2 ⟨hdigits, hvalue, hlimit⟩
    obtain ⟨c, rest, rfl⟩ := List.exists_cons_of_ne_nil hne
    rcases hcs with rfl | rfl
    · -- A digit is not taken for the sign in front of the others.
      have hc : c ≠ '+' := by
        rintro rfl
        simpa [hplus] using hdigits '+' (by simp)
      cases rest <;> simpa [readNumeralChars, hc] using hread
    · simpa [readNumeralChars] using hread

/-- A length can be read exactly if it is the numeral of one. -/
theorem readLength_eq_ok_iff_isLength (s : String) :
    (∃ value, readLength s = .ok value) ↔ IsLength s := by
  refine exists_congr fun value => ?_
  rw [readLength, readNumeralChars_eq_ok_iff]
  constructor
  · exact fun h => ⟨_, stripChars_eq_iff.1 rfl, h⟩
  · rintro ⟨numeral, hbetween, h⟩
    rwa [stripChars_eq_iff.2 hbetween]

/-- Whether a text is a length is decided by reading it. -/
instance (s : String) : Decidable (IsLength s) :=
  match h : readLength s with
  | .ok value => .isTrue ((readLength_eq_ok_iff_isLength s).1 ⟨value, h⟩)
  | .error _ => .isFalse fun hs => by
    obtain ⟨value, hvalue⟩ := (readLength_eq_ok_iff_isLength s).2 hs
    exact nomatch h.symm.trans hvalue

end TableSchema.Text
