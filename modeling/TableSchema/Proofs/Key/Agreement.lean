import TableSchema.Key.Grammar
import TableSchema.Proofs.Grammar.Agreement

/-!
# Keys of texts that are alike

Two texts that are alike declare the same keys, indexes and references, up to the names of their
columns, tables and indexes, their expressions and the lengths of their parts. The words of actions,
ways of matching and types of indexes come from the grammar and are the same.

## Main definitions

* `ConstraintDecl.mapTexts`, `IndexDecl.mapTexts`, `Reference.mapTexts`: declarations with their
  texts replaced.

## Main results

* `tableConstraint_agree`, `indexDeclaration_agree`, `reference_agree`: the grammars of constraints,
  indexes and references agree on texts that are alike.
-/

namespace TableSchema

/-- What a key part refers to, with its text replaced. -/
def KeyTarget.mapTexts (name content : String → String) : KeyTarget → KeyTarget
  | column text => .column (name text)
  | literal text => .literal (content text)
  | expression text => .expression (name text)

/-- The key part with its texts replaced. -/
def KeyPart.mapTexts (name content : String → String) (part : KeyPart) : KeyPart :=
  { part with target := part.target.mapTexts name content, length := part.length.map content }

/-- The reference with its texts replaced. -/
def Reference.mapTexts (name content : String → String) (r : Reference) : Reference :=
  { r with table := name r.table, parts := r.parts.map (List.map (.mapTexts name content)) }

/-- The constraint with its texts replaced. -/
def ConstraintDecl.mapTexts (name content : String → String) : ConstraintDecl → ConstraintDecl
  | primaryKey n index indexType parts =>
    .primaryKey (n.map name) (index.map name) indexType (parts.map (.mapTexts name content))
  | uniqueKey n indexWord index parts =>
    .uniqueKey (n.map name) indexWord (index.map name) (parts.map (.mapTexts name content))
  | foreignKey n index parts reference =>
    .foreignKey (n.map name) (index.map name) (parts.map (.mapTexts name content))
      (reference.mapTexts name content)
  | check n expression => .check (n.map name) (name expression)

/-- The index with its texts replaced. -/
def IndexDecl.mapTexts (name content : String → String) : IndexDecl → IndexDecl
  | plain word n parts => .plain word (n.map name) (parts.map (.mapTexts name content))
  | special kind n parts => .special kind (n.map name) (parts.map (.mapTexts name content))

namespace Grammar

open TableSchema.Parser TableSchema.Likeness

variable {k : Likeness}

/-- The name of a table is kept as a text that is seen as a name. -/
theorem tableName_agree : k.Agree k.name tableName tableName := by
  refine .glued ((Agree.discard .identifier).bind_id fun _ => (Agree.eat _).bind_id fun _ => ?_)
  exact .ite (.discard .identifier) (.pure rfl)

/-- A key part refers to the same kind of thing in both texts. -/
theorem keyTarget_agree :
    k.Agree (KeyTarget.mapTexts k.name k.content) keyTarget keyTarget := by
  refine Agree.bind_option (.ifAhead (.glued .parenthesized))
    (fun _ _ htext => .pure (congrArg KeyTarget.expression htext)) ?_
  refine (Agree.token? shows_string).bind_option
    (fun _ _ htext => .pure (congrArg KeyTarget.literal htext)) ?_
  exact Agree.identifier.bind fun _ _ htext => .pure (congrArg KeyTarget.column htext)

theorem numberInParens_agree : k.Agree k.content numberInParens numberInParens :=
  Agree.number.bind fun _ _ htext => (Agree.expect _).bind_id fun _ => .pure htext

/-- A key part has a length and an order in both texts or in neither. -/
theorem keyPart_agree : k.Agree (KeyPart.mapTexts k.name k.content) keyPart keyPart := by
  refine keyTarget_agree.bind fun target target' htarget => ?_
  refine (Agree.after numberInParens_agree).bind fun length length' hlength => ?_
  have horder : k.Agree (Option.map id)
      (choose? [.behind [.keyword "ASC"] (return SortOrder.ascending),
        .behind [.keyword "DESC"] (return .descending)])
      (choose? [.behind [.keyword "ASC"] (return SortOrder.ascending),
        .behind [.keyword "DESC"] (return .descending)]) := by
    refine .choose? (List.forall₂_same.2 ?_)
    simp only [List.forall_mem_cons]
    exact ⟨.behind (.pure rfl), .behind (.pure rfl), nofun⟩
  refine horder.bind fun order order' horder => .pure ?_
  obtain rfl : order = order' := by simpa using horder
  rw [KeyPart.mapTexts, KeyPart.mapTexts, htarget, hlength]

/-- The parts of a key are equally many and look the same in order. -/
theorem keyParts_agree :
    k.Agree (List.map (KeyPart.mapTexts k.name k.content)) keyParts keyParts :=
  .list keyPart_agree

/-- The name of an index is read only if it is not the word that introduces its type. -/
theorem indexName_agree : k.Agree (Option.map k.name) indexName indexName := by
  refine .token? fun l l' hl => ?_
  rw [accepts_eq hl]
  split
  · rfl
  · exact map_name Token.readsText_word hl

/-- The method of an index is the same word in both texts. -/
theorem indexType_agree : k.Agree (Option.map id) indexType indexType :=
  .after (.oneOf _)

theorem indexWord_agree : k.Agree (Option.map id) indexWord indexWord := by
  refine .choose? (List.forall₂_same.2 ?_)
  simp only [List.forall_mem_cons]
  exact ⟨.behind (.pure rfl), .behind (.pure rfl), nofun⟩

theorem equalsSign_agree : k.Agree id equalsSign equalsSign :=
  .discard (.eat _)

/-- Each option of an index begins with the same words. -/
theorem indexOptions_agree : List.Forall₂ (k.AgreeBranch id) indexOptions indexOptions := by
  -- Options with a value may have an equals sign before it.
  have hassign : ∀ {p : Parser Unit}, k.Agree id p p →
      k.Agree id (do equalsSign; p) (do equalsSign; p) :=
    fun hp => equalsSign_agree.bind_id fun _ => hp
  refine List.forall₂_same.2 ?_
  unfold indexOptions
  simp only [List.forall_mem_cons]
  refine ⟨?blockSize, ?type, ?parser, ?comment, ?visible, ?invisible, ?engine, ?secondary, nofun⟩
  case blockSize => exact .behind (hassign (.discard .number))
  case type => exact .behind (.discard (.oneOf _))
  case parser => exact .behind ((Agree.expect _).bind_id fun _ => .discard .identifier)
  case comment => exact .behind (.discard .stringLiteral)
  case visible => exact .behind (.pure rfl)
  case invisible => exact .behind (.pure rfl)
  case engine => exact .behind (hassign (.discard .stringLiteral))
  case secondary => exact .behind (hassign (.discard .stringLiteral))

/-- The options behind the key parts are passed over in both texts. -/
theorem optionedParts_agree :
    k.Agree (List.map (KeyPart.mapTexts k.name k.content)) optionedParts optionedParts := by
  refine keyParts_agree.bind fun parts parts' hparts => ?_
  exact (Agree.discard (.many (.choose? indexOptions_agree))).bind_id fun _ => .pure hparts

/-! ## References -/

theorem referenceAction_agree : k.Agree id referenceAction referenceAction := by
  refine Agree.bind_option (.choose? (List.forall₂_same.2 ?_)) (fun _ _ h => .pure h) (.oneOf _)
  simp only [List.forall_mem_cons]
  refine ⟨.behind ((Agree.oneOf _).bind_id fun _ => .pure rfl), ?_, nofun⟩
  exact .behind ((Agree.expect _).bind_id fun _ => .pure rfl)

/-- The rules of a reference begin with the same words. -/
theorem referenceRules_agree : List.Forall₂ (k.AgreeBranch id) referenceRules referenceRules := by
  -- Each rule is made from an event and a word, and passes over both before its action.
  refine List.forall₂_same.2 fun b hb => ?_
  simp only [referenceRules, List.mem_flatMap, List.mem_map] at hb
  obtain ⟨⟨spelling, event⟩, -, word, -, rfl⟩ := hb
  exact ⟨rfl, (Agree.skip 2).bind_id fun _ => referenceAction_agree.bind_id fun _ => .pure rfl⟩

/-- A reference names a table and parts that look the same, with the same actions. -/
theorem reference_agree :
    k.Agree (Reference.mapTexts k.name k.content) reference reference := by
  refine (Agree.expect _).bind_id fun _ => tableName_agree.bind fun table table' htable => ?_
  refine (Agree.ifAhead keyParts_agree).bind fun parts parts' hparts => ?_
  refine (Agree.after (.oneOf _)).bind fun matching matching' hmatching => ?_
  refine (Agree.many (.choose? referenceRules_agree)).bind fun rules rules' hrules => .pure ?_
  obtain rfl : matching = matching' := by simpa using hmatching
  obtain rfl : rules = rules' := by simpa using hrules
  rw [Reference.mapTexts, Reference.mapTexts, htable, hparts]

/-! ## Constraints and indexes -/

/-- The name of a constraint is there in both texts or in neither. -/
theorem constraintName_agree : k.Agree (Option.map k.name) constraintName constraintName := by
  refine (Agree.eat _).bind_id fun _ => .ite ?_ (.pure rfl)
  refine (Agree.aheadAny _).bind_id fun _ => .ite (.pure rfl) ?_
  exact Agree.identifier.map fun _ _ hname => congrArg some hname

variable {name name' : Option String}

/-- Primary keys have parts that look the same. -/
theorem primaryKey_agree (hname : name.map k.name = name'.map k.name) :
    k.Agree (ConstraintDecl.mapTexts k.name k.content) (primaryKey name) (primaryKey name') := by
  refine (Agree.expect _).bind_id fun _ => indexName_agree.bind fun index index' hindex => ?_
  refine indexType_agree.bind fun type type' htype => ?_
  refine optionedParts_agree.bind fun parts parts' hparts => .pure ?_
  obtain rfl : type = type' := by simpa using htype
  rw [ConstraintDecl.mapTexts, ConstraintDecl.mapTexts, hname, hindex, hparts]

/-- Unique keys have parts that look the same. -/
theorem uniqueKey_agree (hname : name.map k.name = name'.map k.name) :
    k.Agree (ConstraintDecl.mapTexts k.name k.content) (uniqueKey name) (uniqueKey name') := by
  refine indexWord_agree.bind fun word word' hword => ?_
  refine indexName_agree.bind fun index index' hindex => ?_
  refine (Agree.discard indexType_agree).bind_id fun _ => ?_
  refine optionedParts_agree.bind fun parts parts' hparts => .pure ?_
  obtain rfl : word = word' := by simpa using hword
  rw [ConstraintDecl.mapTexts, ConstraintDecl.mapTexts, hname, hindex, hparts]

/-- Foreign keys have parts and references that look the same. -/
theorem foreignKey_agree (hname : name.map k.name = name'.map k.name) :
    k.Agree (ConstraintDecl.mapTexts k.name k.content) (foreignKey name) (foreignKey name') := by
  refine (Agree.expect _).bind_id fun _ => indexName_agree.bind fun index index' hindex => ?_
  refine keyParts_agree.bind fun parts parts' hparts => ?_
  refine reference_agree.bind fun reference reference' hreference => .pure ?_
  rw [ConstraintDecl.mapTexts, ConstraintDecl.mapTexts, hname, hindex, hparts, hreference]

/-- Texts that are alike declare constraints that look the same. -/
theorem tableConstraint_agree :
    k.Agree (ConstraintDecl.mapTexts k.name k.content) tableConstraint tableConstraint := by
  refine constraintName_agree.bind fun name name' hname => .choose _ ?_
  refine .cons (.behind (primaryKey_agree hname)) (.cons (.behind (uniqueKey_agree hname))
    (.cons (.behind (foreignKey_agree hname)) (.cons (.behind ?_) .nil)))
  refine (Agree.glued .parenthesized).bind fun expression expression' hexpression => .pure ?_
  rw [ConstraintDecl.mapTexts, ConstraintDecl.mapTexts, hname, hexpression]

/-- An index of a special kind is of the same kind in both texts. -/
theorem specialIndex_agree (kind : String) :
    k.Agree (IndexDecl.mapTexts k.name k.content) (specialIndex kind) (specialIndex kind) := by
  refine (Agree.discard indexWord_agree).bind_id fun _ => ?_
  refine indexName_agree.bind fun name name' hname => ?_
  refine optionedParts_agree.bind fun parts parts' hparts => .pure ?_
  rw [IndexDecl.mapTexts, IndexDecl.mapTexts, hname, hparts]

/-- A plain index begins with the same word in both texts. -/
theorem plainIndex_agree :
    k.Agree (IndexDecl.mapTexts k.name k.content) plainIndex plainIndex := by
  refine indexWord_agree.bind_option (fun word word' hword => ?_) (.fail _)
  obtain rfl : word = word' := hword
  refine indexName_agree.bind fun name name' hname => ?_
  refine (Agree.discard indexType_agree).bind_id fun _ => ?_
  refine optionedParts_agree.bind fun parts parts' hparts => .pure ?_
  rw [IndexDecl.mapTexts, IndexDecl.mapTexts, hname, hparts]

/-- Texts that are alike declare indexes that look the same. -/
theorem indexDeclaration_agree :
    k.Agree (IndexDecl.mapTexts k.name k.content) indexDeclaration indexDeclaration := by
  refine Agree.bind_option (.choose? (List.forall₂_same.2 ?_)) (fun _ _ h => .pure h)
    plainIndex_agree
  simp only [List.forall_mem_cons]
  exact ⟨.behind (specialIndex_agree _), .behind (specialIndex_agree _), nofun⟩

end Grammar

end TableSchema
