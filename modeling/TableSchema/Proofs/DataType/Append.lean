import TableSchema.DataType.Grammar
import TableSchema.Proofs.Grammar.Append

/-!
# Data types in front of other words

A data type takes every clause that comes next, and nothing that begins with another word than its
clauses do. `COLLATE` is such a word for most types, since only character types have a collation.

## Main definitions

* `Grammar.typeWords`: the words with which a data type may go on;
* `TypeDecl.takesCollation`: the type may go on with a collation;
* `Grammar.EndsType`: the type ends in front of a text.

## Main results

* `dataType_appendsIf`: a data type is read in front of a word with which it does not go on.
-/

namespace TableSchema

/-- The type may go on with a collation. -/
def TypeDecl.takesCollation : TypeDecl → Bool
  | string .. | longVarchar .. => true
  | _ => false

namespace Grammar

open TableSchema.Parser TableSchema.Lexeme

/-- The words with which a data type may go on, but for `COLLATE`. -/
def typeWords : List String :=
  ["BINARY", "CHAR", "CHARACTER", "CHARSET", "PRECISION", "SET", "SIGNED", "SRID", "UNSIGNED",
    "VARBINARY", "VARCHAR", "VARYING", "ZEROFILL"]

variable {tail : List Lexeme}

/-- Both words of `LONG VARBINARY` are demanded, so nothing else is looked for. -/
theorem longVarbinaryType_ends : Ends tail longVarbinaryType :=
  (Ends.token _ _).bind fun _ => (Ends.token _ _).bind fun _ => .pure _

/-- A collation ends where no `COLLATE` follows. -/
theorem collation_ends (hcollate : LedOutside ["COLLATE"] tail) : Ends tail collation :=
  .after (hcollate.apart (by decide)) (.token _ _)

section Clauses

variable (h : LedOutside typeWords tail)
include h

/-- A length clause is looked for at a parenthesis only. -/
theorem lengthClause_ends {numbers : Parser Unit} (hnumbers : Ends tail numbers) :
    Ends tail (lengthClause numbers) := by
  refine .ifAhead (h.apart rfl) (.glued ?_)
  exact (Ends.expect _).bind fun _ => hnumbers.bind fun _ => .expect _

theorem oneLength_ends : Ends tail oneLength :=
  lengthClause_ends h (.discard (.token _ _))

theorem twoLengths_ends : Ends tail twoLengths := by
  refine lengthClause_ends h ((Ends.discard (.token _ _)).bind fun _ => ?_)
  exact (Ends.expect _).bind fun _ => .discard (.token _ _)

/-- No comma follows that could be taken for a second length. -/
theorem upToTwoLengths_ends : Ends tail upToTwoLengths := by
  refine lengthClause_ends h ((Ends.discard (.token _ _)).bind fun _ => ?_)
  refine (Ends.eat (h.apart rfl)).bind fun comma => ?_
  exact .ite (.discard (.token _ _)) (.pure ())

/-- No modifier follows that the run could go on with. -/
theorem numericModifiers_ends : Ends tail numericModifiers := by
  refine .tokenRun fun l hl => ?_
  have hsigned : (Terminal.word "SIGNED").accepts l.token = false :=
    h.not_accepts (by decide) l hl
  have hunsigned : (Terminal.word "UNSIGNED").accepts l.token = false :=
    h.not_accepts (by decide) l hl
  have hzerofill : (Terminal.word "ZEROFILL").accepts l.token = false :=
    h.not_accepts (by decide) l hl
  simp [numericModifier?, hsigned, hunsigned, hzerofill]

/-- None of the keywords of a character set follows. -/
theorem charset_ends : Ends tail charset := by
  refine Ends.bind (.choose? ?_) fun keyword? => ?_
  · simp only [List.forall_mem_cons]
    exact ⟨.behind (h.apart (by decide)) (.pure _), .behind (h.apart (by decide)) (.pure _),
      .behind (h.apart (by decide)) (.pure _), nofun⟩
  · cases keyword? with
    | none => exact .pure none
    | some keyword => exact (Ends.token _ _).bind fun _ => .pure _

theorem binary_ends : Ends tail binary :=
  .eat (h.apart (by decide))

theorem varying_ends : Ends tail varying :=
  .eat (h.apart (by decide))

/-- A national type ends, whether or not it has read `VARYING`. -/
theorem nationalType_ends : Ends tail nationalType := by
  refine (Ends.expect _).bind fun _ => (Ends.token _ _).bind fun name => ?_
  -- The clauses behind the name are the same ones whether or not `VARYING` was read before them.
  have hend : ∀ early, Ends tail (do
      let length ← oneLength
      let isBinary ← binary
      let late ← if (name.keyword != .varchar) && !early then varying else pure false
      if early || late then return TypeDecl.nationalVarying name length isBinary
      else return .national .national name length isBinary) := by
    intro early
    refine (oneLength_ends h).bind fun length => (binary_ends h).bind fun isBinary => ?_
    exact .ite ((varying_ends h).bind fun late => .ite (.pure _) (.pure _))
      ((Ends.pure false).bind fun late => .ite (.pure _) (.pure _))
  exact .ite ((varying_ends h).bind hend) ((Ends.pure false).bind hend)

theorem integerType_ends : Ends tail integerType := by
  refine (Ends.token _ _).bind fun name => (oneLength_ends h).bind fun length => ?_
  exact (numericModifiers_ends h).bind fun _ => .pure _

/-- No `PRECISION` follows. -/
theorem realType_ends : Ends tail realType := by
  have hend : ∀ name, Ends tail (do
      let length ← twoLengths
      return TypeDecl.measured name (length.map .two) (← numericModifiers)) := fun name =>
    (twoLengths_ends h).bind fun _ => (numericModifiers_ends h).bind fun _ => .pure _
  refine (Ends.token _ _).bind fun name => ?_
  exact .ite (Ends.bind (.discard (.eat (h.apart (by decide)))) fun _ => hend name) (hend name)

theorem decimalType_ends : Ends tail decimalType := by
  refine (Ends.token _ _).bind fun name => (upToTwoLengths_ends h).bind fun length => ?_
  exact (numericModifiers_ends h).bind fun _ => .pure _

theorem temporalType_ends : Ends tail temporalType :=
  (Ends.token _ _).bind fun _ => (oneLength_ends h).bind fun _ => .pure _

theorem collectionType_ends : Ends tail collectionType := by
  refine (Ends.token _ _).bind fun name => (Ends.list .stringLiteral).bind fun literals => ?_
  exact (binary_ends h).bind fun _ => (charset_ends h).bind fun _ => .pure _

/-- No `SRID` follows. -/
theorem spatialType_ends : Ends tail spatialType := by
  refine (Ends.token _ _).bind fun name => ?_
  exact (Ends.after (h.apart (by decide)) (.token _ _)).bind fun _ => .pure _

/-- A character type ends if no collation follows either. -/
theorem stringType_ends (hcollate : LedOutside ["COLLATE"] tail) : Ends tail stringType := by
  refine (Ends.token _ _).bind fun name => (varying_ends h).bind fun isVarying => ?_
  refine (oneLength_ends h).bind fun length => (binary_ends h).bind fun early => ?_
  refine (charset_ends h).bind fun charset => (collation_ends hcollate).bind fun collation => ?_
  exact .ite ((binary_ends h).bind fun _ => .pure _) ((Ends.pure false).bind fun _ => .pure _)

/-- `LONG` as a character type ends if no collation follows either. -/
theorem longVarcharType_ends (hcollate : LedOutside ["COLLATE"] tail) :
    Ends tail longVarcharType := by
  refine (Ends.token _ _).bind fun name => (Ends.eat (h.apart (by decide))).bind fun varchar => ?_
  refine (binary_ends h).bind fun isBinary => (charset_ends h).bind fun charset => ?_
  exact (collation_ends hcollate).bind fun _ => .pure _

end Clauses

/-! ## Types -/

/-- The type ends in front of the text: it has no collation to go on with, or none follows. -/
def EndsType (tail : List Lexeme) (decl : TypeDecl) (_rest : List Lexeme) : Prop :=
  decl.takesCollation = true → LedOutside ["COLLATE"] tail

/-- A rule for types with a collation need only stop in front of other words than `COLLATE`. -/
theorem appendsIf_of_takesCollation {rule : Parser TypeDecl}
    (hgives : GivesOnly rule (·.takesCollation = true))
    (h : LedOutside ["COLLATE"] tail → Ends tail rule) (ls : List Lexeme) :
    AppendsIf (EndsType tail) rule ls tail :=
  fun decl rest hrun hcollate => h (hcollate (hgives ls decl rest hrun)) ls decl rest hrun

/-- The rule of character types gives types that may have a collation. -/
theorem stringType_givesOnly : GivesOnly stringType (·.takesCollation = true) := by
  iterate 6 refine .bind fun _ => ?_
  exact .ite (.bind fun _ => .pure rfl) (.bind fun _ => .pure rfl)

/-- `LONG` as a character type may have a collation. -/
theorem longVarcharType_givesOnly : GivesOnly longVarcharType (·.takesCollation = true) := by
  iterate 5 refine .bind fun _ => ?_
  exact .pure rfl

/-- The second token decides what follows `LONG`. -/
theorem longType_eq (ls : List Lexeme) :
    longType ls =
      if Terminal.opens [.word "LONG", .symbol .openParen] ls then stringType ls
      else if Terminal.opens [.word "LONG", .word "VARBINARY"] ls then longVarbinaryType ls
      else longVarcharType ls := by
  rw [longType, choose?_cons_bind, choose?_cons_bind]
  simp only [bind_pure]
  rfl

/-- The first words decide which rule reads a type. -/
theorem dataType_cons (l : Lexeme) (ls : List Lexeme) :
    dataType (l :: ls) =
      if Terminal.opens [.word "NATIONAL"] (l :: ls) then nationalType (l :: ls)
      else if Terminal.opens [.word "NCHAR", .word "VARCHAR"] (l :: ls) then ncharType (l :: ls)
      else match TypeName.ofToken? l.token with
        | some name => familyType name.keyword.family (l :: ls)
        | none => fail .dataType (l :: ls) := by
  rw [dataType, choose?_cons_bind, choose?_cons_bind]
  simp only [bind_pure]
  have hpeek : peekTypeKeyword? (l :: ls) =
      .ok ((TypeName.ofToken? l.token).map TypeName.keyword, l :: ls) := rfl
  have hnone : choose? ([] : List (Branch TypeDecl)) (l :: ls) = .ok (none, l :: ls) := rfl
  rw [bind_of_ok hnone]
  dsimp only
  rw [bind_of_ok hpeek]
  cases TypeName.ofToken? l.token with
  | none => rfl
  | some name => rfl

section Rules

variable (h : LedOutside typeWords tail)
include h

/-- In front of the text `LONG` is read as the form that it is at the end of a text. -/
theorem longType_appendsIf (l : Lexeme) (ls : List Lexeme) :
    AppendsIf (EndsType tail) longType (l :: ls) tail := by
  intro decl rest hrun hcollate
  rw [longType_eq] at hrun ⊢
  -- In front of the tail the same form is chosen, since the tail begins with no word of a type.
  rw [Terminal.Apart.opens_cons_append (h.apart (by decide)),
    Terminal.Apart.opens_cons_append (h.apart (by decide))]
  split at hrun
  · rename_i hlength
    rw [if_pos hlength]
    exact appendsIf_of_takesCollation stringType_givesOnly (stringType_ends h) _ decl rest hrun
      hcollate
  · rename_i hlength
    rw [if_neg hlength]
    split at hrun
    · rename_i hvarbinary
      rw [if_pos hvarbinary]
      exact longVarbinaryType_ends (l :: ls) decl rest hrun
    · rename_i hvarbinary
      rw [if_neg hvarbinary]
      exact appendsIf_of_takesCollation longVarcharType_givesOnly (longVarcharType_ends h) _ decl
        rest hrun hcollate

/-- The types of every family end in front of the text. -/
theorem familyType_appendsIf (family : TypeFamily) (l : Lexeme) (ls : List Lexeme) :
    AppendsIf (EndsType tail) (familyType family) (l :: ls) tail := by
  cases family with
  | string => exact appendsIf_of_takesCollation stringType_givesOnly (stringType_ends h) _
  | long => exact longType_appendsIf h l ls
  | integer => exact .of_appends (integerType_ends h _)
  | real => exact .of_appends (realType_ends h _)
  | decimal => exact .of_appends (decimalType_ends h _)
  | temporal => exact .of_appends (temporalType_ends h _)
  | simple => exact .of_appends ((Ends.token _ _).bind (fun _ => .pure _) _)
  | collection => exact .of_appends (collectionType_ends h _)
  | spatial => exact .of_appends (spatialType_ends h _)

/-- A type that begins with `NCHAR` ends in front of the text. -/
theorem ncharType_appends {ls : List Lexeme} (hls : ls ≠ []) : Appends ncharType ls tail := by
  refine Appends.bind (.skip (List.length_pos_iff.2 hls)) fun _ mid _ => ?_
  refine Ends.bind (.token _ _) (fun name => ?_) mid
  exact (oneLength_ends h).bind fun _ => (binary_ends h).bind fun _ => .pure _

/-- A data type is read in front of a word with which it does not go on. -/
theorem dataType_appendsIf (ls : List Lexeme) : AppendsIf (EndsType tail) dataType ls tail := by
  intro decl rest hrun hcollate
  cases ls with
  | nil => exact nomatch hrun
  | cons l ls =>
    -- The form is chosen by the first two words, and the tail supplies neither of them.
    rw [dataType_cons] at hrun
    rw [List.cons_append, dataType_cons, ← List.cons_append]
    rw [Terminal.Apart.opens_cons_append (h.apart (by decide)),
      Terminal.Apart.opens_cons_append (h.apart (by decide))]
    split at hrun
    · rename_i hnational
      rw [if_pos hnational]
      exact nationalType_ends h (l :: ls) decl rest hrun
    · rename_i hnational
      rw [if_neg hnational]
      split at hrun
      · rename_i hnchar
        rw [if_pos hnchar]
        exact ncharType_appends h (List.cons_ne_nil l ls) decl rest hrun
      · rename_i hnchar
        rw [if_neg hnchar]
        cases hname : TypeName.ofToken? l.token with
        | none => simp [hname] at hrun
        | some name =>
          rw [hname] at hrun
          exact familyType_appendsIf h _ l ls decl rest hrun hcollate

end Rules

end Grammar

end TableSchema
