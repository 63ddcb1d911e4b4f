import TableSchema.Proofs.Text.Strip

/-!
# Names in normal form

A name in normal form is not empty, has no control characters, and no quotation mark at an end. It
stays as it is when an identifier is cleaned, also when it stands between backticks.

Cleaning takes the quotation marks off the ends first and the control characters out afterwards, so
a quotation mark next to control characters may come to stand at an end.

## Main definitions

* `Text.IsNormal`: names in normal form;
* `Text.BeginsFree`, `Text.HasFreeEnds`: no quotation mark comes to stand in front, or at an end.

## Main results

* `Text.isNormal_cleanIdentifier_iff`: when cleaning gives a name in normal form.
-/

namespace TableSchema.Text

/-- The name is not empty, has no control characters, and no quotation mark stands at an end. -/
structure IsNormal (s : String) : Prop where
  ne_empty : s ≠ ""
  isControl : ∀ c ∈ s.toList, isControl c = false
  head : ∀ c ∈ s.toList.head?, isQuote c = false
  last : ∀ c ∈ s.toList.getLast?, isQuote c = false

/-- The characters of the text are looked at one by one, and not all characters that there are. -/
instance (s : String) : Decidable (IsNormal s) :=
  have : Decidable (∀ c ∈ s.toList, isControl c = false) := List.decidableBAll _ s.toList
  have (c? : Option Char) : Decidable (∀ c ∈ c?, isQuote c = false) := Option.decidableForallMem _
  decidable_of_iff (s ≠ "" ∧ (∀ c ∈ s.toList, isControl c = false) ∧
      (∀ c ∈ s.toList.head?, isQuote c = false) ∧ ∀ c ∈ s.toList.getLast?, isQuote c = false)
    ⟨fun ⟨hne, hcontrol, hhead, hlast⟩ => ⟨hne, hcontrol, hhead, hlast⟩,
      fun ⟨hne, hcontrol, hhead, hlast⟩ => ⟨hne, hcontrol, hhead, hlast⟩⟩

variable {s t : String}

/-- A plain text is in normal form, unless it is empty. -/
theorem IsPlain.isNormal (h : IsPlain s) (hne : s ≠ "") : IsNormal s where
  ne_empty := hne
  isControl c hc := (h c hc).2
  head c hc := (h c (List.mem_of_mem_head? hc)).1
  last c hc := (h c (List.mem_of_getLast? hc)).1

namespace IsNormal

theorem toList_ne_nil (h : IsNormal s) : s.toList ≠ [] :=
  mt String.toList_eq_nil_iff.1 h.ne_empty

/-- Two names in normal form with a text between them that has no control characters. -/
theorem append (hs : IsNormal s) (ht : IsNormal t) {mark : String}
    (hmark : ∀ c ∈ mark.toList, Text.isControl c = false) : IsNormal (s ++ mark ++ t) where
  ne_empty h := by
    obtain ⟨hs', -⟩ : s = "" ∧ mark = "" ∧ t = "" := by simpa using congrArg String.toList h
    exact hs.ne_empty hs'
  isControl c hc := by
    rw [String.toList_append, String.toList_append, List.mem_append, List.mem_append] at hc
    obtain (hc | hc) | hc := hc
    · exact hs.isControl c hc
    · exact hmark c hc
    · exact ht.isControl c hc
  head := by
    rw [String.append_assoc, String.toList_append, List.head?_append_of_ne_nil _ hs.toList_ne_nil]
    exact hs.head
  last := by
    rw [String.toList_append, List.getLast?_append_of_ne_nil _ ht.toList_ne_nil]
    exact ht.last

/-- A name in normal form is left as it is. -/
theorem cleanIdentifier_eq (h : IsNormal s) : cleanIdentifier s = s := by
  have hfilter : s.toList.filter (fun c => !Text.isControl c) = s.toList :=
    List.filter_eq_self.2 fun c hc => by simp [h.isControl c hc]
  rw [cleanIdentifier_eq_without, stripQuotes, strip, stripChars_eq_self h.head h.last,
    String.ofList_toList, without, hfilter, String.ofList_toList]

end IsNormal

namespace IsPlain

/-- A plain text has no quotation mark. -/
theorem notMem_of_isQuote (h : IsPlain s) {c : Char} (hc : isQuote c = true) : c ∉ s.toList :=
  fun hmem => absurd ((h c hmem).1.symm.trans hc) Bool.false_ne_true

/-- A plain text has no backtick. -/
theorem notMem (h : IsPlain s) : '\x60' ∉ s.toList :=
  h.notMem_of_isQuote (by decide)

/-- Plain texts one behind the other are a plain text. -/
theorem append (hs : IsPlain s) (ht : IsPlain t) : IsPlain (s ++ t) := by
  intro c hc
  rw [String.toList_append, List.mem_append] at hc
  exact hc.elim (hs c) (ht c)

/-- A plain text is left as it is. -/
theorem cleanIdentifier_eq (h : IsPlain s) : cleanIdentifier s = s := by
  by_cases hempty : s = ""
  · subst hempty
    rfl
  · exact (h.isNormal hempty).cleanIdentifier_eq

end IsPlain

/-- Quotation marks around an identifier are taken off. -/
theorem cleanIdentifier_quoted {front back : String} (hfront : ∀ c ∈ front.toList, isQuote c = true)
    (hback : ∀ c ∈ back.toList, isQuote c = true) (s : String) :
    cleanIdentifier (front ++ s ++ back) = cleanIdentifier s := by
  have hstrip : stripQuotes (front ++ s ++ back) = stripQuotes s := by
    rw [stripQuotes, stripQuotes, strip, strip, String.toList_append, String.toList_append]
    exact congrArg String.ofList
      ((stripChars_append_right hback).trans (stripChars_append_left hfront))
  rw [cleanIdentifier, hstrip, cleanIdentifier]

/-- Backticks around an identifier are taken off. -/
theorem cleanIdentifier_backticks (s : String) :
    cleanIdentifier ("\x60" ++ s ++ "\x60") = cleanIdentifier s :=
  cleanIdentifier_quoted (by simp [isQuote]) (by simp [isQuote]) s

/-- Cleaning leaves no control characters. -/
theorem isControl_of_mem_cleanIdentifier {c : Char} (h : c ∈ (cleanIdentifier s).toList) :
    isControl c = false := by
  rw [cleanIdentifier_eq_without] at h
  exact of_mem_without h

/-! ## When cleaning gives a name in normal form -/

/-- Of the characters that are no control characters there is a first one, and it is no quotation
mark. -/
def BeginsFree (cs : List Char) : Prop :=
  ∃ c, cs.find? (fun c => !isControl c) = some c ∧ isQuote c = false

/-- Of the characters that are no control characters, the first one and the last one are no
quotation marks, and there are such characters. -/
structure HasFreeEnds (s : String) : Prop where
  first : BeginsFree s.toList
  last : BeginsFree s.toList.reverse

/-- Control characters do not matter. -/
theorem beginsFree_filter {cs : List Char} :
    BeginsFree (cs.filter fun c => !isControl c) ↔ BeginsFree cs := by
  simp [BeginsFree, List.find?_filter]

/-- What stands behind a character that is no control character does not matter. -/
theorem beginsFree_append {cs : List Char} (h : ∃ c ∈ cs, isControl c = false) (ds : List Char) :
    BeginsFree (cs ++ ds) ↔ BeginsFree cs := by
  obtain ⟨c, hc⟩ : ∃ c, cs.find? (fun c => !isControl c) = some c :=
    Option.isSome_iff_exists.1 (List.find?_isSome.2 (by simpa using h))
  simp [BeginsFree, List.find?_append, hc]

/-- Of a text without control characters the ends decide whether it is in normal form. -/
theorem isNormal_iff_hasFreeEnds (h : ∀ c ∈ s.toList, isControl c = false) :
    IsNormal s ↔ HasFreeEnds s := by
  have hkept : ∀ c ∈ s.toList, (!isControl c) = true := fun c hc => by simp [h c hc]
  -- All characters are kept, so the ends of what is kept are the ends of the text.
  have hhead : s.toList.find? (fun c => !isControl c) = s.toList.head? := by
    rw [← List.head?_filter, List.filter_eq_self.2 hkept]
  have hlast : s.toList.reverse.find? (fun c => !isControl c) = s.toList.getLast? := by
    rw [← List.head?_filter, List.filter_reverse, List.filter_eq_self.2 hkept, List.head?_reverse]
  constructor
  · intro hnormal
    have hfirst := List.head?_eq_some_head hnormal.toList_ne_nil
    have hfinal := List.getLast?_eq_some_getLast hnormal.toList_ne_nil
    exact ⟨⟨_, hhead.trans hfirst, hnormal.head _ hfirst⟩,
      ⟨_, hlast.trans hfinal, hnormal.last _ hfinal⟩⟩
  · rintro ⟨⟨c, hc, hfirst⟩, d, hd, hfinal⟩
    rw [hhead] at hc
    rw [hlast] at hd
    refine ⟨?_, h, ?_, ?_⟩
    · rintro rfl
      exact nomatch hc
    · rw [hc]
      exact fun _ he => Option.some.inj he ▸ hfirst
    · rw [hd]
      exact fun _ he => Option.some.inj he ▸ hfinal

/-- Cleaning gives a name in normal form exactly if no quotation mark comes to stand at an end when
the control characters are taken out of what the quotation marks at the ends leave. -/
theorem isNormal_cleanIdentifier_iff (s : String) :
    IsNormal (cleanIdentifier s) ↔ HasFreeEnds (stripQuotes s) := by
  have htoList := toList_cleanIdentifier s
  rw [isNormal_iff_hasFreeEnds fun c hc => isControl_of_mem_cleanIdentifier hc]
  constructor
  · rintro ⟨hfirst, hlast⟩
    rw [htoList] at hfirst hlast
    rw [← List.filter_reverse] at hlast
    exact ⟨beginsFree_filter.1 hfirst, beginsFree_filter.1 hlast⟩
  · rintro ⟨hfirst, hlast⟩
    refine ⟨?_, ?_⟩
    · rw [htoList]
      exact beginsFree_filter.2 hfirst
    · rw [htoList, ← List.filter_reverse]
      exact beginsFree_filter.2 hlast

end TableSchema.Text
