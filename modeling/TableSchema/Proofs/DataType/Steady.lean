import TableSchema.DataType.Grammar
import TableSchema.Proofs.Grammar.Enclosed

/-!
# Data types at a seam

Every optional clause of a data type stops at a seam: no rule for a type takes a mark, but for the
comma and the parenthesis of its own length clause or list of members.

## Main results

* `dataType_steady`: the grammar of data types is steady at every seam.
-/

namespace TableSchema.Grammar

open TableSchema.Parser TableSchema.Parser.Seam

variable (s : Seam)

/-- A mark is no type word. -/
theorem ofToken?_mark {u : Token} (h : u.isMark = true) : TypeName.ofToken? u = none := by
  obtain ⟨sym, rfl⟩ := Token.symbol_of_isMark h
  rfl

theorem typeName_steady : s.Steady typeName :=
  .token _ _

/-- A length clause is steady if its numbers are, inside its parentheses. -/
theorem lengthClause_steady {numbers : Parser Unit} (h : s.enclosed.Steady numbers) :
    s.Steady (lengthClause numbers) := by
  refine .ifAhead rfl (.glued ?_)
  refine (Steady.expect _).bind fun _ => ?_
  exact .bind_closing h (fun _ => closes_expect_closeParen) fun _ => .expect _

/-- In its own parentheses the length clause meets no seam. -/
theorem oneLength_steady : s.Steady oneLength :=
  lengthClause_steady s (.discard .number)

/-- The comma between two lengths stands in their parentheses, where no seam is. -/
theorem twoLengths_steady : s.Steady twoLengths := by
  refine lengthClause_steady s ((Steady.discard .number).bind fun _ => ?_)
  exact (Steady.expect _).bind fun _ => .discard .number

/-- Whether a second length follows is decided inside the parentheses. -/
theorem upToTwoLengths_steady : s.Steady upToTwoLengths := by
  refine lengthClause_steady s ((Steady.discard .number).bind fun _ => ?_)
  -- The comma is looked for inside the parentheses, where something is always left.
  refine (Steady.eat_of_tail fun hleft => absurd hleft not_enclosed_left_nil).bind fun comma => ?_
  cases comma with
  | false => exact .pure ()
  | true => exact .discard .number

/-- A mark is no modifier, so the run of modifiers stops there. -/
theorem numericModifiers_steady : s.Steady numericModifiers := by
  refine .tokenRun fun u hu => ?_
  have hnone : ∀ spelling, (Terminal.word spelling).accepts u = false :=
    fun spelling => Terminal.accepts_mark rfl hu
  simp [numericModifier?, hnone]

/-- No keyword of a character set is a mark. -/
theorem charsetKeyword?_steady : s.Steady charsetKeyword? := by
  refine .choose? ?_
  simp only [List.forall_mem_cons]
  exact ⟨.behind rfl (.pure _), .behind rfl (.pure _), .behind rfl (.pure _), nofun⟩

theorem charsetName_steady : s.Steady charsetName :=
  .token _ _

/-- A character set whose keyword is in front of the seam has its name there too. -/
theorem charset_steady : s.Steady charset := by
  refine (charsetKeyword?_steady s).bind fun keyword? => ?_
  cases keyword? with
  | none => exact .pure none
  | some keyword => exact (charsetName_steady s).bind fun _ => .pure _

theorem collation_steady : s.Steady collation :=
  .after rfl (charsetName_steady s)

theorem binary_steady : s.Steady binary :=
  .eat rfl

theorem varying_steady : s.Steady varying :=
  .eat rfl

/-- `VARYING` and the other clauses of a national type stop at the seam. -/
theorem nationalType_steady : s.Steady nationalType := by
  refine (Steady.expect _).bind fun _ => (Steady.token _ _).bind fun name => ?_
  -- The clauses behind the name are the same ones whether or not `VARYING` was read before them.
  have hend : ∀ early, s.Steady (do
      let length ← oneLength
      let isBinary ← binary
      let late ← if (name.keyword != .varchar) && !early then varying else pure false
      if early || late then return TypeDecl.nationalVarying name length isBinary
      else return .national .national name length isBinary) := by
    intro early
    refine (oneLength_steady s).bind fun length => (binary_steady s).bind fun isBinary => ?_
    exact .ite ((varying_steady s).bind fun late => .ite (.pure _) (.pure _))
      ((Steady.pure false).bind fun late => .ite (.pure _) (.pure _))
  exact .ite ((varying_steady s).bind hend) ((Steady.pure false).bind hend)

/-- Every clause of a character type stops at the seam. -/
theorem stringType_steady : s.Steady stringType := by
  refine (typeName_steady s).bind fun name => (varying_steady s).bind fun isVarying => ?_
  refine (oneLength_steady s).bind fun length => (binary_steady s).bind fun early => ?_
  refine (charset_steady s).bind fun charset => (collation_steady s).bind fun collation => ?_
  exact .ite ((binary_steady s).bind fun _ => .pure _) ((Steady.pure false).bind fun _ => .pure _)

theorem longVarbinaryType_steady : s.Steady longVarbinaryType :=
  (typeName_steady s).bind fun _ => (typeName_steady s).bind fun _ => .pure _

/-- `LONG` as a character type takes no mark. -/
theorem longVarcharType_steady : s.Steady longVarcharType := by
  refine (typeName_steady s).bind fun name => (Steady.eat rfl).bind fun varchar => ?_
  refine (binary_steady s).bind fun isBinary => (charset_steady s).bind fun charset => ?_
  exact (collation_steady s).bind fun _ => .pure _

/-- A seam behind `LONG` is no opener of its other forms. -/
theorem longType_steady : s.Steady longType := by
  refine Steady.bind (.choose? ?_) fun type? => ?_
  · simp only [List.forall_mem_cons]
    exact ⟨.mk rfl (stringType_steady s), .mk rfl (longVarbinaryType_steady s), nofun⟩
  · cases type? with
    | none => exact longVarcharType_steady s
    | some type => exact .pure type

theorem integerType_steady : s.Steady integerType := by
  refine (typeName_steady s).bind fun name => (oneLength_steady s).bind fun length => ?_
  exact (numericModifiers_steady s).bind fun _ => .pure _

/-- `PRECISION` is a word, so it is not looked for in a mark. -/
theorem realType_steady : s.Steady realType := by
  -- `PRECISION` is taken or not, and what stands behind it is the same.
  have hend : ∀ name, s.Steady (do
      let length ← twoLengths
      return TypeDecl.measured name (length.map .two) (← numericModifiers)) := fun name =>
    (twoLengths_steady s).bind fun _ => (numericModifiers_steady s).bind fun _ => .pure _
  refine (typeName_steady s).bind fun name => ?_
  exact .ite (Steady.bind (.discard (.eat rfl)) fun _ => hend name) (hend name)

theorem decimalType_steady : s.Steady decimalType := by
  refine (typeName_steady s).bind fun name => (upToTwoLengths_steady s).bind fun length => ?_
  exact (numericModifiers_steady s).bind fun _ => .pure _

theorem temporalType_steady : s.Steady temporalType :=
  (typeName_steady s).bind fun _ => (oneLength_steady s).bind fun _ => .pure _

theorem simpleType_steady : s.Steady simpleType :=
  (typeName_steady s).bind fun _ => .pure _

/-- The list of members stands in its own parentheses. -/
theorem collectionType_steady : s.Steady collectionType := by
  refine (typeName_steady s).bind fun name => ?_
  refine (Steady.list .stringLiteral).bind fun literals => ?_
  exact (binary_steady s).bind fun _ => (charset_steady s).bind fun _ => .pure _

/-- The number behind `SRID` stands in front of the seam. -/
theorem spatialType_steady : s.Steady spatialType :=
  (typeName_steady s).bind fun _ => (Steady.after rfl .number).bind fun _ => .pure _

/-- `NCHAR` and `VARCHAR` stand in front of the seam, or the form is not tried. -/
theorem ncharType_steadyBranch :
    s.SteadyBranch ⟨[.word "NCHAR", .word "VARCHAR"], ncharType⟩ := by
  refine .mk_skip rfl (by decide) ((typeName_steady s).bind fun name => ?_)
  exact (oneLength_steady s).bind fun _ => (binary_steady s).bind fun _ => .pure _

/-- The rule of every family is steady. -/
theorem familyType_steady (family : TypeFamily) : s.Steady (familyType family) := by
  cases family with
  | string => exact stringType_steady s
  | long => exact longType_steady s
  | integer => exact integerType_steady s
  | real => exact realType_steady s
  | decimal => exact decimalType_steady s
  | temporal => exact temporalType_steady s
  | simple => exact simpleType_steady s
  | collection => exact collectionType_steady s
  | spatial => exact spatialType_steady s

/-- The next type word is the same in front of the continuation, which does not begin with one. -/
theorem peekTypeKeyword?_steady : s.Steady peekTypeKeyword? := by
  intro ls _ keyword? rest h
  obtain ⟨hkeyword, rfl⟩ :
      (ls.head?.bind (TypeName.ofToken? ·.token)).map TypeName.keyword = keyword? ∧ ls = rest := by
    simpa [peekTypeKeyword?] using h
  refine ⟨List.suffix_refl ls, fun hleft ls' hls' => ⟨ls', ?_, List.suffix_refl ls', hls'⟩⟩
  rw [peekTypeKeyword?, ← hkeyword]
  -- Where nothing is left the next token is a mark, which is no type word.
  cases ls with
  | nil =>
    cases ls' with
    | nil => rfl
    | cons l' ls' => simp [ofToken?_mark (isMark_of_tail hleft nofun hls')]
  | cons l ls =>
    obtain ⟨l', ls'', rfl, hhead, -⟩ := continues_cons hls'
    simp [hhead]

/-- A data type takes nothing behind the seam. -/
theorem dataType_steady : s.Steady dataType := by
  refine Steady.bind (.choose? ?_) fun type? => ?_
  · simp only [List.forall_mem_cons]
    exact ⟨.mk rfl (nationalType_steady s), ncharType_steadyBranch s, nofun⟩
  · cases type? with
    | some type => exact .pure type
    | none =>
      refine (peekTypeKeyword?_steady s).bind fun keyword? => ?_
      cases keyword? with
      | none => exact .fail _
      | some keyword => exact familyType_steady s keyword.family

end TableSchema.Grammar
