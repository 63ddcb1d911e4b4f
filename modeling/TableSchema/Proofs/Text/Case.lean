import Mathlib.Data.List.Basic
import TableSchema.Proofs.Text.Replace
import TableSchema.Text.Case
import TableSchema.Unicode.Upper

/-!
# Case of ASCII letters and full upper case

Texts are compared in two ways: letter by letter of ASCII, and by their full upper case. For the
spellings of the language, which are in upper case, the first way is the narrower one.

## Main definitions

* `IsSpelling`: a text of ASCII characters that are their own upper case;
* `lower`: a text with its ASCII letters in lower case.

## Main results

* `upper_eq_of_sameAscii`: what equals a spelling up to the case of ASCII letters has that spelling
  as its full upper case;
* `sameAscii_of_upper_eq`: the converse, for spellings that nothing beyond ASCII has as upper case;
* `upper_lower`: the case of ASCII letters does not change the full upper case;
* `cleanIdentifier_lower`, `afterLast_lower`: nor does it change where a name is cut.
-/

namespace TableSchema.Text

/-- The code point of a character in lower case. -/
theorem toNat_toLower (c : Char) :
    c.toLower.toNat = if 65 ≤ c.toNat ∧ c.toNat ≤ 90 then c.toNat + 32 else c.toNat := by
  have hbounds : (c.val ≥ 'A'.val ∧ c.val ≤ 'Z'.val) ↔ (65 ≤ c.toNat ∧ c.toNat ≤ 90) := by
    simp only [ge_iff_le, UInt32.le_iff_toNat_le]
    rfl
  have hshift : ('a'.val - 'A'.val).toNat = 32 := by decide
  unfold Char.toLower
  -- The sum stays far below the bound of the type, so nothing is lost.
  split
  · rename_i h
    have hc := hbounds.1 h
    rw [if_pos hc]
    change (c.val + ('a'.val - 'A'.val)).toNat = _
    rw [UInt32.toNat_add, hshift, Char.toNat_val]
    omega
  · rename_i h
    rw [if_neg (mt hbounds.2 h)]

/-- The code point of a character in upper case. -/
theorem toNat_toUpper (c : Char) :
    c.toUpper.toNat = if 97 ≤ c.toNat ∧ c.toNat ≤ 122 then c.toNat - 32 else c.toNat := by
  have hbounds : ('a'.val ≤ c.val ∧ c.val ≤ 'z'.val) ↔ (97 ≤ c.toNat ∧ c.toNat ≤ 122) := by
    simp only [UInt32.le_iff_toNat_le]
    rfl
  -- Adding the difference of the cases wraps around, which is subtracting 32.
  have hshift : ('A'.val - 'a'.val).toNat = 4294967264 := by decide
  unfold Char.toUpper
  split
  · rename_i h
    have hc := hbounds.1 h
    rw [if_pos hc]
    change (c.val + ('A'.val - 'a'.val)).toNat = _
    rw [UInt32.toNat_add, hshift, Char.toNat_val]
    omega
  · rename_i h
    rw [if_neg (mt hbounds.2 h)]

/-- A text of ASCII characters that are their own upper case, as the words of the language are
spelled. -/
def IsSpelling (s : String) : Prop :=
  ∀ c ∈ s.toList, c.toNat < 128 ∧ c.toUpper = c

instance (s : String) : Decidable (IsSpelling s) :=
  List.decidableBAll (fun c : Char => c.toNat < 128 ∧ c.toUpper = c) s.toList

/-- A character with the same lower case as an ASCII character in upper case. -/
theorem upperChar_eq_of_toLower_eq {c d : Char} (h : c.toLower = d.toLower) (hd : d.toNat < 128)
    (hup : d.toUpper = d) : Unicode.upperChar c = [d] := by
  rw [← Char.toNat_inj, toNat_toLower, toNat_toLower] at h
  have hupper : c.toNat < 128 ∧ c.toUpper = d := by
    -- Both cases differ by 32 on letters and not at all elsewhere, so `c` is `d` or its lower case.
    rw [← Char.toNat_inj, toNat_toUpper] at hup ⊢
    grind
  rw [Unicode.upperChar, if_pos hupper.1, hupper.2]

/-- What equals a spelling up to the case of ASCII letters has it as its full upper case. -/
theorem upper_eq_of_sameAscii {s spelling : String} (h : sameAscii s spelling = true)
    (hspelling : IsSpelling spelling) : Unicode.upper s = spelling := by
  have hlower : s.toList.map Char.toLower = spelling.toList.map Char.toLower := by
    simpa [sameAscii] using h
  -- The full upper case is taken character by character, like the lower case.
  have hchars : ∀ cs ds : List Char, cs.map Char.toLower = ds.map Char.toLower →
      (∀ d ∈ ds, d.toNat < 128 ∧ d.toUpper = d) → cs.flatMap Unicode.upperChar = ds := by
    intro cs ds
    induction cs generalizing ds with
    | nil =>
      intro heq _
      simpa using heq.symm
    | cons c cs ih =>
      intro heq hds
      cases ds with
      | nil => simp at heq
      | cons d ds =>
        obtain ⟨hhead, htail⟩ := List.cons.inj heq
        obtain ⟨hd, hup⟩ := hds d List.mem_cons_self
        rw [List.flatMap_cons, upperChar_eq_of_toLower_eq hhead hd hup,
          ih ds htail fun e he => hds e (List.mem_cons_of_mem d he)]
        rfl
  rw [Unicode.upper, hchars _ _ hlower hspelling, String.ofList_toList]

/-! ## Lower case -/

/-- The text with its ASCII letters in lower case. -/
def lower (s : String) : String :=
  String.ofList (s.toList.map Char.toLower)

@[simp]
theorem toList_lower (s : String) : (lower s).toList = s.toList.map Char.toLower :=
  String.toList_ofList

/-- Two texts are equal up to the case of ASCII letters exactly if they are equal in lower case. -/
theorem sameAscii_iff {s t : String} : sameAscii s t = true ↔ lower s = lower t := by
  rw [← String.toList_inj, toList_lower, toList_lower, sameAscii, beq_iff_eq]

@[simp]
theorem lower_append (s t : String) : lower (s ++ t) = lower s ++ lower t := by
  rw [← String.toList_inj]
  simp

@[simp]
theorem toLower_toLower (c : Char) : c.toLower.toLower = c.toLower := by
  rw [← Char.toNat_inj, toNat_toLower c.toLower, toNat_toLower c]
  grind

@[simp]
theorem lower_lower (s : String) : lower (lower s) = lower s := by
  rw [← String.toList_inj]
  simp [Function.comp_def]

/-- A character and its lower case have the same full upper case. -/
theorem upperChar_toLower (c : Char) : Unicode.upperChar c.toLower = Unicode.upperChar c := by
  by_cases hc : 65 ≤ c.toNat ∧ c.toNat ≤ 90
  · -- Both are letters of ASCII, whose upper case is `c`.
    have hlower : c.toLower.toNat = c.toNat + 32 := by rw [toNat_toLower, if_pos hc]
    have hupper : c.toLower.toUpper = c.toUpper := by
      rw [← Char.toNat_inj, toNat_toUpper, toNat_toUpper, hlower]
      split <;> split <;> omega
    rw [Unicode.upperChar, Unicode.upperChar, if_pos (by omega), if_pos (by omega), hupper]
  · have hlower : c.toLower = c := by rw [← Char.toNat_inj, toNat_toLower, if_neg hc]
    rw [hlower]

@[simp]
theorem upper_lower (s : String) : Unicode.upper (lower s) = Unicode.upper s := by
  rw [Unicode.upper, Unicode.upper, toList_lower, List.flatMap_map]
  simp only [upperChar_toLower]

/-- Texts with the same lower case have the same full upper case. -/
theorem upper_eq_upper {s t : String} (h : lower s = lower t) :
    Unicode.upper s = Unicode.upper t := by
  rw [← upper_lower s, h, upper_lower]

/-- What is compared letter by letter of ASCII is the lower case. -/
theorem sameAscii_lower_left (s t : String) : sameAscii (lower s) t = sameAscii s t := by
  rw [Bool.eq_iff_iff, sameAscii_iff, sameAscii_iff, lower_lower]

/-- What is compared letter by letter of ASCII is the lower case. -/
theorem sameAscii_lower_right (s t : String) : sameAscii s (lower t) = sameAscii s t := by
  rw [Bool.eq_iff_iff, sameAscii_iff, sameAscii_iff, lower_lower]

/-! ## Characters beyond ASCII -/

/-- The upper case of a character beyond ASCII never consists of characters of the spelling only. -/
structure IsAsciiOnly (spelling : String) : Prop where
  /-- Where the upper case is longer than one character, one of them is not of the spelling. -/
  long : ∀ e ∈ Unicode.longUpperCases, ∃ code ∈ e.2, Char.ofNat code ∉ spelling.toList
  /-- No run of characters has a character of the spelling as upper case. -/
  runs : ∀ run ∈ Unicode.caseRuns, ∀ d ∈ spelling.toList,
    run.contains (d.toNat - run.shift).toNat = false
  /-- The character that stands for an invalid code point is not of the spelling. -/
  null : Char.ofNat 0 ∉ spelling.toList

/-- The tables are searched one entry after the other. -/
instance (spelling : String) : Decidable (IsAsciiOnly spelling) :=
  decidable_of_iff
    (Unicode.longUpperCases.all (fun e => e.2.any (Char.ofNat · ∉ spelling.toList)) = true ∧
      Unicode.caseRuns.all (fun run => spelling.toList.all fun d =>
        !run.contains (d.toNat - run.shift).toNat) = true ∧
      Char.ofNat 0 ∉ spelling.toList)
    ⟨fun ⟨hlong, hruns, hnull⟩ => ⟨by simpa using hlong, by simpa using hruns, hnull⟩,
      fun h => ⟨by simpa using h.long, by simpa using h.runs, h.null⟩⟩

/-- The code point of a character made of a number is this number, unless the number is none of a
character. -/
theorem toNat_ofNat_or (n : Nat) : (Char.ofNat n).toNat = n ∨ Char.ofNat n = Char.ofNat 0 := by
  by_cases h : n.isValidChar
  · left
    rw [Char.ofNat, dif_pos h]
    rfl
  · right
    rw [Char.ofNat, dif_neg h]
    rfl

/-- A character beyond ASCII has a character in its upper case that is not of the spelling. -/
theorem IsAsciiOnly.exists_notMem {spelling : String} (h : IsAsciiOnly spelling)
    (hspelling : IsSpelling spelling) {c : Char} (hc : 128 ≤ c.toNat) :
    ∃ d ∈ Unicode.upperChar c, d ∉ spelling.toList := by
  rw [Unicode.upperChar, if_neg (Nat.not_lt.2 hc), Unicode.upperBeyondAscii]
  split
  · rename_i codes hcodes
    obtain ⟨before, after, heq, -⟩ := List.lookup_eq_some_iff.1 hcodes
    have hmem : (c.toNat, codes) ∈ Unicode.longUpperCases := by simp [heq]
    obtain ⟨code, hcode, hnot⟩ := h.long _ hmem
    exact ⟨_, List.mem_map_of_mem hcode, hnot⟩
  · split
    · rename_i run hrun
      refine ⟨_, List.mem_singleton_self _, fun hmem => ?_⟩
      -- The code point that is shifted to a character of the spelling is not in the run.
      rcases toNat_ofNat_or (c.toNat + run.shift).toNat with hnat | hnull
      · have hnot := h.runs run (List.mem_of_find?_eq_some hrun) _ hmem
        have hback : (((Char.ofNat (c.toNat + run.shift).toNat).toNat : Int) - run.shift).toNat =
            c.toNat := by
          have hpos : 0 < (Char.ofNat (c.toNat + run.shift).toNat).toNat := by
            refine Nat.pos_of_ne_zero fun hzero => h.null ?_
            rwa [← hzero, hnat]
          rw [hnat] at hpos ⊢
          omega
        rw [hback] at hnot
        exact absurd (List.find?_some hrun) (by simp [hnot])
      · exact h.null (hnull ▸ hmem)
    · refine ⟨c, List.mem_singleton_self c, fun hmem => ?_⟩
      exact absurd (hspelling c hmem).1 (Nat.not_lt.2 hc)

/-- The lower case of an upper case is the lower case. -/
@[simp]
theorem toLower_toUpper (c : Char) : c.toUpper.toLower = c.toLower := by
  rw [← Char.toNat_inj, toNat_toLower, toNat_toLower, toNat_toUpper]
  grind

/-- A text whose full upper case is such a spelling equals it up to the case of ASCII letters. -/
theorem sameAscii_of_upper_eq {s spelling : String} (h : Unicode.upper s = spelling)
    (hspelling : IsSpelling spelling) (honly : IsAsciiOnly spelling) :
    sameAscii s spelling = true := by
  have hflat : s.toList.flatMap Unicode.upperChar = spelling.toList := by
    rw [← h, Unicode.upper, String.toList_ofList]
  have hascii : ∀ c ∈ s.toList, Unicode.upperChar c = [c.toUpper] := by
    intro c hc
    by_cases hlt : c.toNat < 128
    · rw [Unicode.upperChar, if_pos hlt]
    · obtain ⟨d, hd, hnot⟩ := honly.exists_notMem hspelling (Nat.not_lt.1 hlt)
      exact absurd (hflat ▸ List.mem_flatMap_of_mem hc hd) hnot
  have hmap : spelling.toList = s.toList.map Char.toUpper := by
    rw [← hflat, List.flatMap_congr hascii, List.map_eq_flatMap]
  rw [sameAscii, hmap, List.map_map]
  simp [Function.comp_def]

/-! ## Cutting at marks -/

/-- No letter of ASCII. -/
def IsMark (c : Char) : Prop :=
  ¬ (65 ≤ c.toNat ∧ c.toNat ≤ 90) ∧ ¬ (97 ≤ c.toNat ∧ c.toNat ≤ 122)

instance (c : Char) : Decidable (IsMark c) :=
  inferInstanceAs (Decidable (_ ∧ _))

/-- A mark is the lower case of itself only. -/
theorem toLower_eq_mark_iff {mark : Char} (h : IsMark mark) (c : Char) :
    c.toLower = mark ↔ c = mark := by
  obtain ⟨hupper, hlower⟩ := h
  rw [← Char.toNat_inj, ← Char.toNat_inj, toNat_toLower]
  split <;> omega

/-- A quotation mark stays one in lower case, and nothing else becomes one. -/
@[simp]
theorem isQuote_toLower (c : Char) : isQuote c.toLower = isQuote c := by
  rw [Bool.eq_iff_iff]
  simp only [isQuote, Bool.or_eq_true, beq_iff_eq,
    toLower_eq_mark_iff (show IsMark '\'' by decide), toLower_eq_mark_iff (show IsMark '"' by decide),
    toLower_eq_mark_iff (show IsMark '\x60' by decide)]

/-- So do control characters. -/
@[simp]
theorem isControl_toLower (c : Char) : isControl c.toLower = isControl c := by
  rw [Bool.eq_iff_iff]
  simp only [isControl, isLineBreak, Bool.or_eq_true, beq_iff_eq,
    toLower_eq_mark_iff (show IsMark '\r' by decide), toLower_eq_mark_iff (show IsMark '\n' by decide),
    toLower_eq_mark_iff (show IsMark '\t' by decide)]

/-- Characters that are stripped in every case are stripped before or after lowering the case. -/
theorem strip_lower {p : Char → Bool} (hp : ∀ c, p c.toLower = p c) (s : String) :
    strip p (lower s) = lower (strip p s) := by
  have hcomp : p ∘ Char.toLower = p := funext hp
  rw [← String.toList_inj]
  simp only [strip, stripChars, toList_lower, String.toList_ofList, List.dropWhile_map, hcomp,
    ← List.map_reverse]

@[simp]
theorem stripQuotes_lower (s : String) : stripQuotes (lower s) = lower (stripQuotes s) :=
  strip_lower isQuote_toLower s

/-- A name is cleaned before or after taking the lower case. -/
@[simp]
theorem cleanIdentifier_lower (s : String) :
    cleanIdentifier (lower s) = lower (cleanIdentifier s) := by
  rw [← String.toList_inj]
  simp [cleanIdentifier_eq_without, without, List.filter_map, Function.comp_def]

/-- Marks begin a text in lower case exactly if they begin the text. -/
theorem isPrefixOf_map_toLower {marks : List Char} (h : ∀ c ∈ marks, IsMark c) (cs : List Char) :
    marks.isPrefixOf (cs.map Char.toLower) = marks.isPrefixOf cs := by
  induction marks generalizing cs with
  | nil => rfl
  | cons mark marks ih =>
    obtain ⟨hmark, hmarks⟩ := List.forall_mem_cons.1 h
    cases cs with
    | nil => rfl
    | cons c cs =>
      rw [List.map_cons, List.isPrefixOf, List.isPrefixOf, ih hmarks, Bool.eq_iff_iff]
      simp only [Bool.and_eq_true, beq_iff_eq, eq_comm (a := mark), toLower_eq_mark_iff hmark]

/-- A text is cut behind marks before or after taking the lower case. -/
theorem afterLast_lower {separator : String} (h : ∀ c ∈ separator.toList, IsMark c) (s : String) :
    afterLast separator (lower s) = lower (afterLast separator s) := by
  -- Marks have no case, so the separator is found at the same places in both texts.
  have hchars : ∀ cs, afterLastChars? separator.toList (cs.map Char.toLower) =
      (afterLastChars? separator.toList cs).map (List.map Char.toLower) := by
    intro cs
    induction cs with
    | nil => rfl
    | cons c cs ih =>
      rw [List.map_cons, afterLastChars?, afterLastChars?, ih, ← List.map_cons,
        isPrefixOf_map_toLower h]
      cases afterLastChars? separator.toList cs with
      | some tail => rfl
      | none =>
        simp only [Option.map_none]
        split
        · rw [Option.map_some, List.map_drop]
        · rfl
  rw [afterLast, afterLast, toList_lower, hchars]
  cases afterLastChars? separator.toList s.toList with
  | some tail => simp [lower]
  | none => rfl

end TableSchema.Text
