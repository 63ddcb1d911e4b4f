import TableSchema.Proofs.Grammar.Append
import TableSchema.Proofs.Key.Steady

/-!
# References in front of other words

A reference takes every rule that comes next. In front of another word than those of its own clauses
it ends, and in front of `ON` as well if no rule begins there.

## Main definitions

* `Grammar.referenceWords`: the words with which a reference may go on.

## Main results

* `reference_ends`: a reference is read in front of a text with which it does not go on.
-/

namespace TableSchema.Grammar

open TableSchema.Parser TableSchema.Lexeme

variable {tail : List Lexeme}

/-- A name is read in front of any word, since only a point makes it longer. -/
theorem tableName_ends {words : List String} (h : LedOutside words tail) :
    Ends tail tableName := by
  refine .glued ((Ends.discard (.token _ _)).bind fun _ => ?_)
  exact (Ends.eat (h.apart rfl)).bind fun dotted => .ite (.discard (.token _ _)) (.pure ())

/-- The words with which a reference may go on, but for `ON`. -/
def referenceWords : List String :=
  ["CASCADE", "DELETE", "MATCH", "NO", "RESTRICT", "SET", "UPDATE"]

section Rules

variable (h : LedOutside referenceWords tail)
include h

theorem referenceAction_ends : Ends tail referenceAction := by
  refine Ends.bind (.choose? ?_) fun action? => ?_
  · simp only [List.forall_mem_cons]
    refine ⟨.behind (h.apart (by decide)) ((Ends.token _ _).bind fun _ => .pure _), ?_, nofun⟩
    exact .behind (h.apart (by decide)) ((Ends.expect _).bind fun _ => .pure _)
  · cases action? with
    | some action => exact .pure action
    | none => exact .token _ _

variable (hrules : ∀ b ∈ referenceRules, Terminal.opens b.opener tail = false)
include hrules

theorem referenceRules_ends : ∀ b ∈ referenceRules, EndsBranch tail b := by
  intro b hb
  have hlater : ∀ b ∈ referenceRules,
      b.opener.tail.all (Terminal.within referenceWords) = true := by decide
  have hapart : Terminal.Apart b.opener tail := .of_tail (hrules b hb) (h.apart (hlater b hb))
  simp only [referenceRules, List.mem_flatMap, List.mem_map] at hb
  obtain ⟨⟨spelling, event⟩, -, word, -, rfl⟩ := hb
  exact .mk_skip hapart (by simp) ((referenceAction_ends h).bind fun _ => .pure _)

/-- A reference is read in front of a text with which it does not go on. -/
theorem reference_ends : Ends tail reference := by
  refine (Ends.expect _).bind fun _ => (tableName_ends h).bind fun table => ?_
  refine (Ends.ifAhead (h.apart rfl) (.list (keyPart_steady _))).bind fun parts => ?_
  refine (Ends.after (h.apart (by decide)) (.token _ _)).bind fun matching => ?_
  exact (Ends.many (.choose? (referenceRules_ends h hrules))).bind fun rules => .pure _

end Rules

end TableSchema.Grammar
