import TableSchema.Proofs.DataType.Resolved
import TableSchema.Proofs.DataType.RoundTrip
import TableSchema.Proofs.Script.Findings
import TableSchema.Proofs.Text.Strip
import TableSchema.Proofs.Token.Characters

/-!
# The lengths of a data type

A length clause holds numbers, and each of them is read as a length for itself. A number is read
exactly if it is a numeral of digits with a value in range; otherwise it counts as zero and is
noted. Numbers have neither brackets nor commas, so they come back as they were written when the
clause is taken apart.

## Main definitions

* `Text.FitsLength`, `Text.declaredLength`: the number is a length, and which;
* `Dimension.Holds`: a length clause holds the numbers;
* `DataType.HasLengths`: a data type has the lengths that numbers declare;
* `Diagnostic.IsOnLength`: an entry says that a number is no length.

## Main results

* `Token.Legible.readLength_eq_ok_iff`: what reading a number gives;
* `Dimension.Holds.hasLengths`: a length clause gives the lengths that its numbers declare;
* `TypeDecl.findings_eq`, `TypeName.lengthFindings_forall₂`: what is noted are the numbers that are
  no lengths.
-/

namespace TableSchema

open Token Resolve

/-! ## Numbers as lengths -/

namespace Text

/-- The number is a numeral of digits, and its value has 32 bits at most. -/
def FitsLength (n : String) : Prop :=
  (∀ c ∈ n.toList, c.isDigit = true) ∧ digitsValue 0 n.toList < UInt32.size

instance (n : String) : Decidable (FitsLength n) :=
  decidable_of_iff (n.toList.all Char.isDigit ∧ digitsValue 0 n.toList < UInt32.size)
    (by rw [FitsLength, List.all_eq_true])

/-- The length that a number declares: its value if it fits, and zero otherwise. -/
def declaredLength (n : String) : Nat :=
  if FitsLength n then digitsValue 0 n.toList else 0

/-- What has no brackets is left when those around it are taken off. -/
theorem stripBrackets_parens {inner : String} (h : ∀ c ∈ inner.toList, isBracket c = false) :
    stripBrackets ("(" ++ inner ++ ")") = inner := by
  rw [stripBrackets, strip, String.toList_append, String.toList_append,
    stripChars_append_right (by simp [isBracket]), stripChars_append_left (by simp [isBracket]),
    stripChars_of_forall h, String.ofList_toList]

end Text

namespace Token.Legible

variable {n p s : String}

/-- The characters of a number have no part in the punctuation of a length clause. -/
theorem number_plain (h : (number n).Legible) : ∀ c ∈ n.toList,
    Text.isBracket c = false ∧ Unicode.isBlank c = false ∧ c ≠ ',' := fun c hc =>
  Number.of_isPart (P := fun c => Text.isBracket c = false ∧ Unicode.isBlank c = false ∧ c ≠ ',')
    (by decide) (h.number_isPart c hc)

/-- Reading a number as a length gives its value exactly if it fits. -/
theorem readLength_eq_ok_iff (h : (number n).Legible) {value : Nat} :
    Text.readLength n = .ok value ↔ Text.FitsLength n ∧ value = Text.digitsValue 0 n.toList := by
  have hblank : Text.stripChars Unicode.isBlank n.toList = n.toList :=
    Text.stripChars_of_forall fun c hc => (h.number_plain c hc).2.1
  obtain ⟨c, cs, hn, hc⟩ := h.number_head
  rw [Text.readLength, hblank, Text.readNumeralChars_eq_ok_iff]
  constructor
  · rintro ⟨digits, hdigits | hplus, -, hall, rfl, hlimit⟩
    · rw [← hdigits] at hall hlimit ⊢
      exact ⟨⟨hall, Nat.lt_succ_of_le hlimit⟩, rfl⟩
    · -- A number does not begin with a sign.
      obtain ⟨rfl, -⟩ := List.cons.inj (hn.symm.trans hplus)
      exact absurd hc (by decide)
  · rintro ⟨⟨hall, hlimit⟩, rfl⟩
    exact ⟨n.toList, .inl rfl, by simp [hn], hall, rfl, Nat.le_of_lt_succ hlimit⟩

/-- A number counts as what it declares. -/
theorem lengthOrZero_eq (h : (number n).Legible) : Text.lengthOrZero n = Text.declaredLength n := by
  unfold Text.lengthOrZero Text.declaredLength
  by_cases hfits : Text.FitsLength n
  · rw [h.readLength_eq_ok_iff.2 ⟨hfits, rfl⟩, if_pos hfits]
    rfl
  · rw [if_neg hfits]
    cases hread : Text.readLength n with
    | ok value => exact absurd (h.readLength_eq_ok_iff.1 hread).1 hfits
    | error reason => rfl

/-- One thing is found about a number that does not fit, and nothing about one that fits. -/
theorem lengthFindings_cases (h : (number n).Legible) (typeName : String) :
    (Text.FitsLength n ∧ lengthFindings typeName n = []) ∨
      (¬ Text.FitsLength n ∧ ∃ reason, lengthFindings typeName n = [.length n typeName reason]) := by
  unfold lengthFindings
  cases hread : Text.readLength n with
  | ok value => exact .inl ⟨(h.readLength_eq_ok_iff.1 hread).1, rfl⟩
  | error reason =>
    refine .inr ⟨fun hfits => ?_, reason, rfl⟩
    rw [h.readLength_eq_ok_iff.2 ⟨hfits, rfl⟩] at hread
    exact nomatch hread

/-- A number in parentheses is left when brackets are taken off. -/
theorem stripBrackets_eq (h : (number n).Legible) : Text.stripBrackets ("(" ++ n ++ ")") = n :=
  Text.stripBrackets_parens fun c hc => (h.number_plain c hc).1

/-- One number has no second part. -/
theorem lengthParts_one (h : (number n).Legible) :
    DataType.lengthParts ("(" ++ n ++ ")") = (n, none) := by
  have hcomma : ∀ c ∈ n.toList, decide (c ≠ ',') = true := fun c hc =>
    decide_eq_true (h.number_plain c hc).2.2
  rw [DataType.lengthParts, h.stripBrackets_eq]
  simp only [List.takeWhile_eq_self_iff.2 hcomma, List.dropWhile_eq_nil_iff.2 hcomma,
    String.ofList_toList]

/-- Two numbers are parted at the comma. -/
theorem lengthParts_two (hp : (number p).Legible) (hs : (number s).Legible) :
    DataType.lengthParts ("(" ++ p ++ "," ++ s ++ ")") = (p, some s) := by
  -- Numbers have no parentheses and no commas, so the text is divided where it was put together.
  have hcomma : ∀ c ∈ p.toList, decide (c ≠ ',') = true := fun c hc =>
    decide_eq_true (hp.number_plain c hc).2.2
  have hinner : (p ++ "," ++ s).toList = p.toList ++ ',' :: s.toList := by simp
  have hstrip : Text.stripBrackets ("(" ++ p ++ "," ++ s ++ ")") = p ++ "," ++ s := by
    have happend : "(" ++ p ++ "," ++ s ++ ")" = "(" ++ (p ++ "," ++ s) ++ ")" := by
      simp only [String.append_assoc]
    rw [happend]
    refine Text.stripBrackets_parens fun c hc => ?_
    rw [hinner, List.mem_append, List.mem_cons] at hc
    obtain hc | rfl | hc := hc
    · exact (hp.number_plain c hc).1
    · decide
    · exact (hs.number_plain c hc).1
  have hend : ∀ c ∈ (',' :: s.toList).head?, decide (c ≠ ',') = false := by simp
  rw [DataType.lengthParts, hstrip, hinner]
  simp only [Number.takeWhile_append_of_ends hcomma hend,
    Number.dropWhile_append_of_ends hcomma hend, String.ofList_toList]

end Token.Legible

/-! ## Numbers of a type -/

/-- The length clause of a declaration. -/
def TypeDecl.dimension? : TypeDecl → Option Dimension
  | string _ _ length _ _ _ | national _ _ length _ | nationalVarying _ length _ =>
    length.map .one
  | measured _ dimension _ => dimension
  | simple _ | collection .. | spatial .. | longVarchar .. | longVarbinary .. => none

/-- A length clause of a type in a family holds the numbers. -/
inductive Dimension.Holds (family : TypeFamily) : Option Dimension → List String → Prop
  | none : Holds family none []
  | one (h : family ≠ .decimal) (n : String) : Holds family (some (.one ("(" ++ n ++ ")"))) [n]
  | two (p s : String) : Holds family (some (.two ("(" ++ p ++ "," ++ s ++ ")"))) [p, s]
  | precision (h : family = .decimal) (p : String) :
    Holds family (some (.upToTwo ("(" ++ p ++ ")"))) [p]
  | precisionAndScale (p s : String) :
    Holds family (some (.upToTwo ("(" ++ p ++ "," ++ s ++ ")"))) [p, s]

/-- The lengths of the data type are those that the numbers declare. A number alone is a length, but
for a decimal type, where it is a precision. -/
def DataType.HasLengths (t : DataType) (family : TypeFamily) : List String → Prop
  | [] => t.hasLength = false ∧ t.hasTwoLengths = false
  | [n] =>
    if family = .decimal then
      t.hasTwoLengths = true ∧ t.precision = Text.declaredLength n ∧ t.scale = 0
    else t.hasLength = true ∧ t.length = Text.declaredLength n
  | [p, s] =>
    t.hasTwoLengths = true ∧ t.precision = Text.declaredLength p ∧
      t.scale = Text.declaredLength s
  | _ => False

/-- What a data type says about lengths. -/
def DataType.lengths (t : DataType) : Bool × Nat × Bool × Nat × Nat :=
  (t.hasLength, t.length, t.hasTwoLengths, t.precision, t.scale)

theorem DataType.HasLengths.congr {t u : DataType} {family : TypeFamily} {numbers : List String}
    (h : t.HasLengths family numbers) (heq : u.lengths = t.lengths) :
    u.HasLengths family numbers := by
  simp only [lengths, Prod.mk.injEq] at heq
  obtain ⟨hone, hlength, htwo, hprecision, hscale⟩ := heq
  unfold HasLengths at h ⊢
  simpa only [hone, hlength, htwo, hprecision, hscale] using h

section Holds

variable {family : TypeFamily} {dimension : Option Dimension} {numbers : List String}

/-- A length clause gives the lengths that its numbers declare. -/
theorem Dimension.Holds.hasLengths (h : Holds family dimension numbers)
    (hnumbers : ∀ n ∈ numbers, (number n).Legible) (name : TypeName) :
    (name.dataType.measured dimension).HasLengths family numbers := by
  -- The family decides which form the lengths have, the numbers what they are.
  cases h with
  | none => exact ⟨rfl, rfl⟩
  | one hfamily n =>
    have hn := hnumbers n (by simp)
    rw [DataType.HasLengths, if_neg hfamily]
    simp only [DataType.measured, hn.stripBrackets_eq, hn.lengthOrZero_eq, and_self]
  | precision hfamily p =>
    have hp := hnumbers p (by simp)
    rw [DataType.HasLengths, if_pos hfamily]
    simp only [DataType.measured, hp.lengthParts_one, hp.lengthOrZero_eq, Option.map_none,
      Option.getD_none, and_self]
  | two p s | precisionAndScale p s =>
    have hp := hnumbers p (by simp)
    have hs := hnumbers s (by simp)
    simp only [DataType.HasLengths, DataType.measured, hp.lengthParts_two hs, hp.lengthOrZero_eq,
      hs.lengthOrZero_eq, Option.map_some, Option.getD_some, and_self]

/-- The parts of a length clause that are read are its numbers. -/
theorem Dimension.Holds.lengths_eq (h : Holds family dimension numbers)
    (hnumbers : ∀ n ∈ numbers, (number n).Legible) :
    dimension.toList.flatMap Dimension.lengths = numbers := by
  cases h with
  | none => rfl
  | one _ n => simp [Dimension.lengths, (hnumbers n (by simp)).stripBrackets_eq]
  | precision _ p => simp [Dimension.lengths, (hnumbers p (by simp)).lengthParts_one]
  | two p s | precisionAndScale p s =>
    simp [Dimension.lengths, (hnumbers p (by simp)).lengthParts_two (hnumbers s (by simp))]

end Holds

namespace TypeDecl

variable {decl : TypeDecl} {name : TypeName} {numbers : List String}

/-- What stands around a length clause does not change the lengths. -/
theorem resolved_lengths (hname : decl.typeName? = some name) :
    decl.resolved.lengths = (name.dataType.measured decl.dimension?).lengths := by
  -- The length clause is resolved first, and what is set behind it leaves the lengths alone.
  cases decl with
  | string | simple | spatial =>
    obtain rfl := Option.some.inj hname
    rfl
  | national lead =>
    obtain rfl := Option.some.inj hname
    cases lead <;>
      simp only [resolved, dimension?, DataType.lengths, DataType.withBinary_eq, DataType.addPrefix]
  | nationalVarying =>
    obtain rfl := Option.some.inj hname
    simp only [resolved, dimension?, DataType.lengths, DataType.withBinary_eq, DataType.addPrefix,
      DataType.addSuffix]
  | measured =>
    obtain rfl := Option.some.inj hname
    simp only [resolved, dimension?, DataType.lengths, DataType.withModifiers_eq]
  | collection =>
    obtain rfl := Option.some.inj hname
    simp only [resolved, dimension?, DataType.lengths, DataType.withBinary_eq, DataType.addSuffix,
      DataType.measured]
  | longVarchar _ _ _ charset =>
    obtain rfl := Option.some.inj hname
    cases charset <;>
      simp only [resolved, dimension?, DataType.lengths, DataType.withBinary_eq,
        DataType.withVarchar_eq, DataType.withCharset_eq, DataType.measured, Option.elim]
  | longVarbinary long varbinary =>
    rw [resolved, show (long <|> varbinary) = some name from hname]
    rfl

/-- What is found about a declaration is found about the numbers of its length clause. -/
theorem findings_eq (hname : decl.typeName? = some name)
    (h : Dimension.Holds name.keyword.family decl.dimension? numbers)
    (hnumbers : ∀ n ∈ numbers, (number n).Legible) :
    decl.findings = name.lengthFindings numbers := by
  have hlengths := h.lengths_eq hnumbers
  -- Only the first four alternatives have a length clause; the others have no numbers.
  cases decl with
  | string _ _ length | national _ _ length | nationalVarying _ length =>
    obtain rfl := Option.some.inj hname
    rw [← hlengths]
    cases length <;> rfl
  | measured =>
    obtain rfl := Option.some.inj hname
    rw [← hlengths]
    rfl
  | simple | collection | spatial | longVarchar =>
    rw [← hlengths]
    rfl
  | longVarbinary long varbinary =>
    rw [← hlengths]
    rcases long with _ | long
    · rcases varbinary with _ | varbinary
      · exact nomatch hname
      · rfl
    · rfl

end TypeDecl

/-- The entry says that a number cannot be read as a length of a type: it is about a conversion, and
it names the number, the type and the reason. -/
def Diagnostic.IsOnLength (typeName n : String) (d : Diagnostic) : Prop :=
  d.kind = .conversion ∧ ∃ reason : Text.NumeralError,
    d.message = "failed to parse length '" ++ n ++ "' of " ++ typeName ++ ": " ++ reason.message

/-- One entry is made for each number that does not fit, in order. -/
theorem TypeName.lengthFindings_forall₂ (name : TypeName) {numbers : List String}
    (hnumbers : ∀ n ∈ numbers, (number n).Legible) :
    List.Forall₂ (Diagnostic.IsOnLength (Unicode.upper name.text))
      (numbers.filter fun n => ¬ Text.FitsLength n)
      ((name.lengthFindings numbers).map Finding.diagnostic) := by
  induction numbers with
  | nil => exact .nil
  | cons n numbers ih =>
    obtain ⟨hn, hnumbers⟩ := List.forall_mem_cons.1 hnumbers
    rw [TypeName.lengthFindings, List.flatMap_cons]
    obtain ⟨hfits, hnone⟩ | ⟨hfits, reason, hone⟩ :=
      hn.lengthFindings_cases (Unicode.upper name.text)
    · rw [hnone, List.filter_cons_of_neg (by simpa using hfits)]
      exact ih hnumbers
    · rw [hone, List.filter_cons_of_pos (by simpa using hfits)]
      exact .cons ⟨rfl, reason, rfl⟩ (ih hnumbers)

end TableSchema
