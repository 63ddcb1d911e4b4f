import TableSchema.Proofs.Column.Resume
import TableSchema.Script.Grammar

/-!
# Errors in time

A text outside the grammar is given up at a lexeme, or at its end. No error comes too late: what
stands in front of that place is the beginning of a text that is read. This holds of data types, of
columns and of table constraints, each read alone.

## Main definitions

* `Parser.toEnd`: reading up to the end of the text, which is what has to succeed;
* `Parser.GivesUpAt`: the place at which a text is given up, counted in lexemes;
* `Parser.IsBegunBy`: lexemes that can be completed;
* `Parser.Timely`: what is read when a text is given up can be completed.

## Main results

* `errors_timely`: the rules of data types, columns and table constraints are timely.
-/

set_option autoImplicit false

namespace TableSchema

namespace Parser

open Lexeme

variable {α : Type} {p : Parser α} {ls : List Lexeme} {k : Nat} {e : GrammarError}

/-- Read with the parser, and then the end of the text. -/
def toEnd (p : Parser α) : Parser α := do
  let a ← p
  if ← atEnd then return a else fail .endOfInput

/-- The text is given up with the error at the lexeme of this index, or at the end of the text if
the index is its length. -/
def GivesUpAt (p : Parser α) (ls : List Lexeme) (k : Nat) (e : GrammarError) : Prop :=
  k ≤ ls.length ∧ ∃ expected, p.toEnd ls = .error ⟨expected, ls.drop k⟩ ∧
    e = Failure.locate ⟨expected, ls.drop k⟩ ls

/-- The parser reads a text that begins with the lexemes. -/
def IsBegunBy (p : Parser α) (ls : List Lexeme) : Prop :=
  ∃ more a, more ⊆ fillers ∧ p.readAll (ls ++ ofTokens more) = .ok a

/-- Every error belongs to a place, which it shows by the token that it found. The lexemes in front
of that place begin a text that is read. -/
def Timely (p : Parser α) : Prop :=
  ∀ ls e, p.readAll ls = .error e →
    (∃ k, p.GivesUpAt ls k e) ∧
      ∀ k, p.GivesUpAt ls k e → e.found = ls[k]?.map Lexeme.token ∧ p.IsBegunBy (ls.take k)

theorem readAll_eq_error :
    p.readAll ls = .error e ↔ ∃ f, p.toEnd ls = .error f ∧ e = f.locate ls := by
  cases h : p.toEnd ls with
  | ok r =>
    have hread : p.readAll ls = .ok r.1 := by rw [readAll, ← toEnd, h]
    simp [hread]
  | error f =>
    have hread : p.readAll ls = .error (f.locate ls) := by rw [readAll, ← toEnd, h]
    simp [hread, eq_comm]

/-- The token found is the one of the index, and none is found at the end of the text. -/
theorem GivesUpAt.found_eq (h : p.GivesUpAt ls k e) : e.found = ls[k]?.map Lexeme.token := by
  obtain ⟨-, expected, -, rfl⟩ := h
  rw [← List.head?_drop]
  cases hdrop : ls.drop k with
  | nil => rfl
  | cons l rest => rfl

/-- A parser that goes forward gives a text up somewhere in it. -/
theorem exists_givesUpAt (hp : Forward p) (h : p.readAll ls = .error e) :
    ∃ k, p.GivesUpAt ls k e := by
  have hend : Forward p.toEnd := hp.bind fun a =>
    (Forward.asks _).bind fun _ => .ite (.pure a) (.fail _)
  obtain ⟨⟨expected, rest⟩, herror, rfl⟩ := readAll_eq_error.1 h
  obtain ⟨front, rfl⟩ := hend.suffix_of_error herror
  have hdrop : rest = (front ++ rest).drop front.length := by simp
  refine ⟨front.length, by simp, expected, ?_, ?_⟩
  · rw [← hdrop]
    exact herror
  · rw [← hdrop]

/-- The end of the text is missed behind what the parser has read, or the parser fails itself. -/
theorem toEnd_eq_error {expected : Expected} {rest : List Lexeme}
    (h : p.toEnd ls = .error ⟨expected, rest⟩) :
    (∃ a, p ls = .ok (a, rest)) ∨ p ls = .error ⟨expected, rest⟩ := by
  -- Either the parser fails itself, or it succeeds in front of something that is left.
  cases hp : p ls with
  | error f =>
    rw [toEnd, bind_of_error hp] at h
    exact .inr h
  | ok r =>
    obtain ⟨a, mid⟩ := r
    rw [toEnd, bind_of_ok hp, atEnd, bind_of_ok (asks_ok _ _)] at h
    cases hmid : mid.isEmpty with
    | true =>
      simp only [hmid, if_true] at h
      cases h
    | false =>
      have hfail : (fail .endOfInput : Parser α) mid = .error ⟨expected, rest⟩ := by
        simpa [hmid] using h
      obtain rfl : mid = rest := congrArg Failure.rest (Except.error.inj hfail)
      exact .inl ⟨a, rfl⟩

/-- A parser that is resumed at every place is timely. -/
theorem timely_of_resumableAt {start : Option Token} {follows : List Token} (hp : Forward p)
    (h : ∀ ls bad, ResumableAt start follows p ls bad) : p.Timely := by
  refine fun ls e herror => ⟨exists_givesUpAt hp herror, ?_⟩
  intro k hk
  refine ⟨hk.found_eq, ?_⟩
  obtain ⟨-, expected, hend, -⟩ := hk
  have hsplit : ls = ls.take k ++ ls.drop k := (List.take_append_drop k ls).symm
  have hresumes := h (ls.take k) (ls.drop k)
  -- The rule stops in front of the lexeme that does not fit, or misses something at it.
  rcases toEnd_eq_error hend with ⟨a, hok⟩ | hfail
  · rw [hsplit] at hok
    have hread := hresumes.swaps a [] (by simpa using hok) [] .nil fun _ => .nil
    exact ⟨[], a, List.nil_subset _, readAll_eq_ok.2 hread⟩
  · rw [hsplit] at hfail
    obtain ⟨more, a, -, hsub, -, hmore⟩ := hresumes.completes expected (by simpa using hfail)
    exact ⟨more, a, hsub, readAll_eq_ok.2 (by simpa using hmore [] .nil .nil)⟩

end Parser

namespace Grammar

open TableSchema.Parser TableSchema.Lexeme

/-- Data types, columns and table constraints are read until something does not fit, and what is
read by then begins a text that is read to its end. -/
theorem errors_timely :
    dataType.Timely ∧ columnDefinition.Timely ∧ tableConstraint.Timely :=
  ⟨timely_of_resumableAt dataType_resumable.forward dataType_resumable.resumes,
    timely_of_resumableAt columnDefinition_forward columnDefinition_resumableAt,
    timely_of_resumableAt tableConstraint_resumable.forward tableConstraint_resumable.resumes⟩

/-- `DECIMAL(5, )`, where a number is missed. -/
def openDecimal : List Lexeme :=
  ofTokens [.word none "DECIMAL", .symbol .openParen, .number "5", .symbol .comma,
    .symbol .closeParen]

/-- It is given up at the closing parenthesis, and `DECIMAL(5,` is the beginning of a type. -/
theorem openDecimal_timely :
    dataType.readAll openDecimal = .error ⟨.number, some (.symbol .closeParen), .start⟩ ∧
      dataType.GivesUpAt openDecimal 4 ⟨.number, some (.symbol .closeParen), .start⟩ ∧
      dataType.IsBegunBy (openDecimal.take 4) := by
  have hk : dataType.GivesUpAt openDecimal 4 ⟨.number, some (.symbol .closeParen), .start⟩ :=
    ⟨by decide, .number, rfl, rfl⟩
  have herror : dataType.readAll openDecimal =
      .error ⟨.number, some (.symbol .closeParen), .start⟩ := rfl
  exact ⟨herror, hk, ((errors_timely.1 openDecimal _ herror).2 4 hk).2⟩

end Grammar

end TableSchema
