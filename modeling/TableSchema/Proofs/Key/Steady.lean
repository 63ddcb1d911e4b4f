import TableSchema.Key.Grammar
import TableSchema.Proofs.Grammar.Enclosed

/-!
# Keys at a seam

Key parts, references, index options, constraints and indexes stop at a seam: each of them takes a
mark only inside parentheses of its own.

## Main results

* `tableConstraint_steady`, `indexDeclaration_steady`: the grammars of constraints and indexes are
  steady at every seam;
* `reference_steady`: so are references, which columns have too.
-/

namespace TableSchema.Grammar

open TableSchema.Parser TableSchema.Parser.Seam

variable (s : Seam)

/-- A mark is no word. -/
theorem wordText?_mark {u : Token} (h : u.isMark = true) : u.wordText? = none := by
  obtain ⟨sym, rfl⟩ := Token.symbol_of_isMark h
  rfl

/-- A mark is no string literal. -/
theorem stringText?_mark {u : Token} (h : u.isMark = true) : u.stringText? = none := by
  obtain ⟨sym, rfl⟩ := Token.symbol_of_isMark h
  rfl

/-- The point in the name of a table stands in front of the seam. -/
theorem tableName_steady : s.Steady tableName := by
  refine .glued (Steady.bind (.discard .identifier) fun _ => (Steady.eat rfl).bind fun dotted => ?_)
  cases dotted with
  | false => exact .pure ()
  | true => exact .discard .identifier

/-- What a key part refers to, as what remains to be read when it is not in parentheses. -/
theorem keyTarget_steady : s.Steady keyTarget := by
  refine Steady.bind (.ifAhead rfl (.glued .parenthesized)) fun expression? => ?_
  cases expression? with
  | some text => exact .pure _
  | none =>
    refine (Steady.token? fun u hu => stringText?_mark hu).bind fun literal? => ?_
    cases literal? with
    | some text => exact .pure _
    | none => exact Steady.identifier.bind fun _ => .pure _

theorem numberInParens_steady : s.Steady numberInParens :=
  Steady.number.bind fun _ => (Steady.expect _).bind fun _ => .pure _

/-- The length and the order of a key part stop at the seam. -/
theorem keyPart_steady : s.Steady keyPart := by
  refine (keyTarget_steady s).bind fun target => ?_
  refine (Steady.after rfl (numberInParens_steady s)).bind fun length => ?_
  refine Steady.bind (.choose? ?_) fun order => .pure _
  simp only [List.forall_mem_cons]
  exact ⟨.behind rfl (.pure _), .behind rfl (.pure _), nofun⟩

/-- The list of key parts stands in its own parentheses. -/
theorem keyParts_steady : s.Steady keyParts :=
  .list (keyPart_steady _)

theorem indexName_steady : s.Steady indexName :=
  .token? fun u hu => by simp [wordText?_mark hu]

theorem indexType_steady : s.Steady indexType :=
  .after rfl (.oneOf _)

theorem indexWord_steady : s.Steady indexWord := by
  refine .choose? ?_
  simp only [List.forall_mem_cons]
  exact ⟨.behind rfl (.pure _), .behind rfl (.pure _), nofun⟩

theorem equalsSign_steady : s.Steady equalsSign :=
  .discard (.eat rfl)

/-- Each option of an index is a word with at most one token behind it. -/
theorem indexOptions_steady : ∀ b ∈ indexOptions, s.SteadyBranch b := by
  -- Options with a value may have an equals sign before it.
  have hassign : ∀ {p : Parser Unit}, s.Steady p → s.Steady (do equalsSign; p) :=
    fun hp => (equalsSign_steady s).bind fun _ => hp
  unfold indexOptions
  simp only [List.forall_mem_cons]
  refine ⟨?blockSize, ?type, ?parser, ?comment, ?visible, ?invisible, ?engine, ?secondary, nofun⟩
  case blockSize => exact .behind rfl (hassign (.discard .number))
  case type => exact .behind rfl (.discard (.oneOf _))
  case parser => exact .behind rfl ((Steady.expect _).bind fun _ => .discard .identifier)
  case comment => exact .behind rfl (.discard .stringLiteral)
  case visible => exact .behind rfl (.pure ())
  case invisible => exact .behind rfl (.pure ())
  case engine => exact .behind rfl (hassign (.discard .stringLiteral))
  case secondary => exact .behind rfl (hassign (.discard .stringLiteral))

/-- The options behind the key parts stop at the seam. -/
theorem optionedParts_steady : s.Steady optionedParts := by
  refine (keyParts_steady s).bind fun parts => ?_
  exact Steady.bind (.discard (.many (.choose? (indexOptions_steady s)))) fun _ => .pure parts

/-- The second word of an action stands in front of the seam. -/
theorem referenceAction_steady : s.Steady referenceAction := by
  refine Steady.bind (.choose? ?_) fun action? => ?_
  · simp only [List.forall_mem_cons]
    refine ⟨.behind rfl ((Steady.oneOf _).bind fun _ => .pure _), ?_, nofun⟩
    exact .behind rfl ((Steady.expect _).bind fun _ => .pure _)
  · cases action? with
    | some action => exact .pure action
    | none => exact .oneOf _

/-- Each rule of a reference stops at the seam. -/
theorem referenceRules_steady : ∀ b ∈ referenceRules, s.SteadyBranch b := by
  -- Each rule is made from an event and a word, and passes over both before its action.
  intro b hb
  simp only [referenceRules, List.mem_flatMap, List.mem_map] at hb
  obtain ⟨⟨spelling, event⟩, -, word, -, rfl⟩ := hb
  exact .mk_skip rfl (by simp) ((referenceAction_steady s).bind fun _ => .pure _)

/-- A reference takes nothing behind the seam. -/
theorem reference_steady : s.Steady reference := by
  refine (Steady.expect _).bind fun _ => (tableName_steady s).bind fun table => ?_
  refine (Steady.ifAhead rfl (keyParts_steady s)).bind fun parts => ?_
  refine (Steady.after rfl (.oneOf _)).bind fun matching => ?_
  exact (Steady.many (.choose? (referenceRules_steady s))).bind fun rules => .pure _

/-- A mark is no name, so a seam behind `CONSTRAINT` is not taken for one. -/
theorem constraintName_steady : s.Steady constraintName := by
  refine (Steady.eat rfl).bind fun named => ?_
  refine .ite ((Steady.aheadAny rfl).bind fun bare => ?_) (.pure none)
  exact .ite (.pure none) (Steady.identifier.map some)

theorem primaryKey_steady (name : Option String) : s.Steady (primaryKey name) := by
  refine (Steady.expect _).bind fun _ => (indexName_steady s).bind fun index => ?_
  exact (indexType_steady s).bind fun type => (optionedParts_steady s).bind fun _ => .pure _

theorem uniqueKey_steady (name : Option String) : s.Steady (uniqueKey name) := by
  refine (indexWord_steady s).bind fun word => (indexName_steady s).bind fun index => ?_
  refine Steady.bind (.discard (indexType_steady s)) fun _ => ?_
  exact (optionedParts_steady s).bind fun _ => .pure _

/-- A foreign key has its reference in front of the seam. -/
theorem foreignKey_steady (name : Option String) : s.Steady (foreignKey name) := by
  refine (Steady.expect _).bind fun _ => (indexName_steady s).bind fun index => ?_
  exact (keyParts_steady s).bind fun parts => (reference_steady s).bind fun _ => .pure _

/-- A constraint of a table takes nothing behind the seam. -/
theorem tableConstraint_steady : s.Steady tableConstraint := by
  refine (constraintName_steady s).bind fun name => .choose ?_
  simp only [List.forall_mem_cons]
  refine ⟨.behind rfl (primaryKey_steady s name), .behind rfl (uniqueKey_steady s name),
    .behind rfl (foreignKey_steady s name), ?_, nofun⟩
  exact .behind rfl ((Steady.glued .parenthesized).bind fun _ => .pure _)

theorem specialIndex_steady (kind : String) : s.Steady (specialIndex kind) := by
  refine Steady.bind (.discard (indexWord_steady s)) fun _ => ?_
  exact (indexName_steady s).bind fun name => (optionedParts_steady s).bind fun _ => .pure _

theorem plainIndex_steady : s.Steady plainIndex := by
  refine (indexWord_steady s).bind fun word? => ?_
  cases word? with
  | none => exact .fail _
  | some word =>
    refine (indexName_steady s).bind fun name => ?_
    refine Steady.bind (.discard (indexType_steady s)) fun _ => ?_
    exact (optionedParts_steady s).bind fun _ => .pure _

/-- A declared index takes nothing behind the seam. -/
theorem indexDeclaration_steady : s.Steady indexDeclaration := by
  refine Steady.bind (.choose? ?_) fun index? => ?_
  · simp only [List.forall_mem_cons]
    exact ⟨.behind rfl (specialIndex_steady s _), .behind rfl (specialIndex_steady s _), nofun⟩
  · cases index? with
    | some index => exact .pure index
    | none => exact plainIndex_steady s

end TableSchema.Grammar
