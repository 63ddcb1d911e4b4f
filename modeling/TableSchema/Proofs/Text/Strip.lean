import Mathlib.Data.List.DropRight
import Mathlib.Data.List.TakeWhile
import TableSchema.Proofs.Text.Replace

/-!
# What stripping leaves

Stripping takes members of a class off the two ends of a text: what stands between members at the
ends is stripped itself, a text without members at its ends is left as it is, and a character that
is no member is left wherever it stands.

## Main definitions

* `Text.IsBetween`: what stands between members at the two ends of a text;
* `Text.IsPlain`: texts that stay as they are when an identifier is cleaned.
-/

namespace TableSchema.Text

variable {p : Char → Bool} {cs front back : List Char}

/-- Members in front are taken off. -/
theorem stripChars_append_left (h : ∀ c ∈ front, p c = true) :
    stripChars p (front ++ cs) = stripChars p cs := by
  unfold stripChars
  rw [List.dropWhile_append_of_pos h]

/-- Members behind are taken off. -/
theorem stripChars_append_right (h : ∀ c ∈ back, p c = true) :
    stripChars p (cs ++ back) = stripChars p cs := by
  have hback : back.dropWhile p = [] := List.dropWhile_eq_nil_iff.2 h
  unfold stripChars
  rw [List.dropWhile_append]
  split
  · rename_i hcs
    rw [hback, List.isEmpty_iff.1 hcs]
  · have hreverse : ∀ c ∈ back.reverse, p c = true := by simpa using h
    rw [List.reverse_append, List.dropWhile_append_of_pos hreverse]

/-- Nothing is dropped if the first character is no member. -/
theorem dropWhile_of_head (h : ∀ c ∈ cs.head?, p c = false) : cs.dropWhile p = cs := by
  cases cs with
  | nil => rfl
  | cons c cs => simp [h c rfl]

/-- What stands in front without a member is left, and members are taken off behind it only. -/
theorem stripChars_append_of_forall (hne : front ≠ []) (h : ∀ c ∈ front, p c = false) :
    stripChars p (front ++ back) = front ++ back.rdropWhile p := by
  have hfront : (front ++ back).dropWhile p = front ++ back := by
    refine dropWhile_of_head fun c hc => ?_
    rw [List.head?_append_of_ne_nil _ hne] at hc
    exact h c (List.mem_of_mem_head? hc)
  have hreverse : front.reverse.dropWhile p = front.reverse :=
    dropWhile_of_head fun c hc => h c (List.mem_reverse.1 (List.mem_of_mem_head? hc))
  unfold stripChars List.rdropWhile
  rw [hfront, List.reverse_append, List.dropWhile_append, hreverse]
  split
  · rename_i hback
    rw [List.isEmpty_iff.1 hback, List.reverse_nil, List.append_nil, List.reverse_reverse]
  · rw [List.reverse_append, List.reverse_reverse]

/-- A text is left as it is if no member stands at an end. -/
theorem stripChars_eq_self (hhead : ∀ c ∈ cs.head?, p c = false)
    (hlast : ∀ c ∈ cs.getLast?, p c = false) : stripChars p cs = cs := by
  have hreverse : cs.reverse.dropWhile p = cs.reverse :=
    dropWhile_of_head (by simpa using hlast)
  unfold stripChars
  rw [dropWhile_of_head hhead, hreverse, List.reverse_reverse]

/-- The text is `inner` between members of the class, and `inner` neither begins nor ends with
one. -/
def IsBetween (p : Char → Bool) (inner cs : List Char) : Prop :=
  ∃ front back, cs = front ++ inner ++ back ∧ (∀ c ∈ front, p c = true) ∧
    (∀ c ∈ back, p c = true) ∧ (∀ c ∈ inner.head?, p c = false) ∧ ∀ c ∈ inner.getLast?, p c = false

/-- What dropping leaves does not begin with a member. -/
theorem not_head?_dropWhile {c : Char} (h : c ∈ (cs.dropWhile p).head?) : p c = false := by
  have hhead := List.head?_dropWhile_not p cs
  rwa [Option.mem_def.1 h] at hhead

/-- Stripping leaves what stands between the members at the two ends, and only that. -/
theorem stripChars_eq_iff {inner : List Char} : stripChars p cs = inner ↔ IsBetween p inner cs := by
  constructor
  · rintro rfl
    have hfront : cs.takeWhile p ++ cs.dropWhile p = cs := List.takeWhile_append_dropWhile
    have hback : stripChars p cs ++ (cs.dropWhile p).rtakeWhile p = cs.dropWhile p :=
      List.rdropWhile_append_rtakeWhile ..
    refine ⟨cs.takeWhile p, (cs.dropWhile p).rtakeWhile p, ?_, fun c => List.mem_takeWhile_imp,
      fun c => List.mem_rtakeWhile_imp, ?_, ?_⟩
    · rw [List.append_assoc, hback, hfront]
    · -- What is left begins like what is left in front, or nothing is left.
      intro c hc
      have hdropped : c ∈ (cs.dropWhile p).head? := by
        rw [← hback, List.head?_append_of_ne_nil _ (List.ne_nil_of_mem (List.mem_of_mem_head? hc))]
        exact hc
      exact not_head?_dropWhile hdropped
    · intro c hc
      rw [stripChars, List.getLast?_reverse] at hc
      exact not_head?_dropWhile hc
  · rintro ⟨front, back, rfl, hfront, hback, hhead, hlast⟩
    rw [stripChars_append_right hback, stripChars_append_left hfront, stripChars_eq_self hhead hlast]

/-- A text without members is left as it is. -/
theorem stripChars_of_forall (h : ∀ c ∈ cs, p c = false) : stripChars p cs = cs :=
  stripChars_eq_self (fun c hc => h c (List.mem_of_mem_head? hc))
    fun c hc => h c (List.mem_of_getLast? hc)

/-- A character that is no member occurs as often as before. -/
theorem count_stripChars {c : Char} (h : p c = false) (cs : List Char) :
    (stripChars p cs).count c = cs.count c := by
  have hdrop : ∀ ds : List Char, (ds.dropWhile p).count c = ds.count c := by
    intro ds
    have hfront : (ds.takeWhile p).count c = 0 := by
      rw [List.count_eq_zero]
      intro hmem
      simpa [h] using List.mem_takeWhile_imp hmem
    conv => rhs; rw [← List.takeWhile_append_dropWhile (p := p) (l := ds), List.count_append]
    rw [hfront, Nat.zero_add]
  unfold stripChars
  rw [List.count_reverse, hdrop, List.count_reverse, hdrop]

/-- A text without a class of characters has none of them. -/
theorem of_mem_without {c : Char} {s : String} (h : c ∈ (without p s).toList) : p c = false := by
  unfold without at h
  rw [String.toList_ofList, List.mem_filter] at h
  simpa using h.2

/-! ## Identifiers -/

/-- The text has neither quotation marks nor control characters. -/
def IsPlain (s : String) : Prop :=
  ∀ c ∈ s.toList, isQuote c = false ∧ isControl c = false

instance (s : String) : Decidable (IsPlain s) :=
  List.decidableBAll (fun c => isQuote c = false ∧ isControl c = false) s.toList

/-- A text without members of a class is kept. -/
theorem without_append_of_forall {s : String} (h : ∀ c ∈ s.toList, p c = false) (t : String) :
    without p (s ++ t) = s ++ without p t := by
  have hfilter : s.toList.filter (fun c => !p c) = s.toList :=
    List.filter_eq_self.2 fun c hc => by simp [h c hc]
  rw [without, without, String.toList_append, List.filter_append, hfilter, String.ofList_append,
    String.ofList_toList]

/-- A plain text in front is kept, and quotes are taken off behind it only. -/
theorem cleanIdentifier_append {s : String} (hne : s.toList ≠ []) (h : IsPlain s) (t : String) :
    cleanIdentifier (s ++ t) =
      s ++ without isControl (String.ofList (t.toList.rdropWhile isQuote)) := by
  have hstrip : stripQuotes (s ++ t) = s ++ String.ofList (t.toList.rdropWhile isQuote) := by
    rw [stripQuotes, strip, String.toList_append,
      stripChars_append_of_forall hne fun c hc => (h c hc).1, String.ofList_append,
      String.ofList_toList]
  rw [cleanIdentifier_eq_without, hstrip, without_append_of_forall fun c hc => (h c hc).2]

end TableSchema.Text
