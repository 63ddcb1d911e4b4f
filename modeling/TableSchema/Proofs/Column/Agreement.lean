import TableSchema.Column.Grammar
import TableSchema.Proofs.DataType.Agreement
import TableSchema.Proofs.Key.Agreement

/-!
# Columns of texts that are alike

Two texts that are alike have the same columns with the same clauses, up to names, expressions and
literals. What a default value is made of is decided by the forms of its tokens and by bare words,
and an introducer is known by its first character or its letter, whatever their case.

## Main definitions

* `ColumnClause.mapTexts`, `ColumnDecl.mapTexts`: declarations with their texts replaced.

## Main results

* `columnDefinition_agree`: the grammar of columns agrees on texts that are alike.
-/

namespace TableSchema

/-- The clause with its texts replaced. -/
def ColumnClause.mapTexts (name content : String → String) : ColumnClause → ColumnClause
  | nullability notNull => .nullability notNull
  | default text => .default (name text)
  | autoIncrement => .autoIncrement
  | onUpdate text => .onUpdate (name text)
  | key primary => .key primary
  | unique isKey => .unique isKey
  | comment literal => .comment (content literal)
  | columnFormat value => .columnFormat value
  | storage value => .storage value
  | reference r => .reference (r.mapTexts name content)
  | collation n => .collation (name n)
  | generated text => .generated (name text)
  | serialDefault => .serialDefault
  | visible => .visible
  | invisible => .invisible
  | check n expression => .check (n.map name) (name expression)

/-- The column with the texts of its type and its clauses replaced. -/
def ColumnDecl.mapTexts (name content : String → String) (decl : ColumnDecl) : ColumnDecl :=
  ⟨decl.type.mapTexts name content, decl.clauses.map (.mapTexts name content)⟩

namespace Grammar

open TableSchema.Parser TableSchema.Likeness

variable {k : Likeness} {l l' : Lexeme}

/-! ## Tokens -/

/-- An operator before a constant is a symbol or the word `NOT`. -/
theorem isUnaryOperator_eq (t : Token) : isUnaryOperator t =
    [Terminal.symbol .plus, .symbol .minus, .symbol .bang, .symbol .tilde, .keyword "NOT"].any
      (·.accepts t) := by
  rw [Bool.eq_iff_iff]
  simp [isUnaryOperator, Terminal.accepts, or_assoc]

/-- A plain constant is known by its shape or as a word. -/
theorem isPlainConstant_eq (t : Token) : isPlainConstant t =
    (t.shape ∈ [Token.number "", .literal .hex "", .literal .singleBits "",
        .literal .doubleBits ""] ||
      [Terminal.keyword "TRUE", .keyword "FALSE", .keyword "NULL"].any (·.accepts t)) := by
  cases t with
  | literal kind body =>
    cases kind <;> simp [isPlainConstant, Token.shape, Terminal.accepts, Token.bareWord?]
  | _ => simp [isPlainConstant, Token.shape, Terminal.accepts, Token.bareWord?]

/-- A literal between single quotes is known by its shape. -/
theorem isSingleQuoted_eq (t : Token) :
    isSingleQuoted t = decide (t.shape = .literal .single "") := by
  cases t with
  | literal kind body => cases kind <;> rfl
  | _ => rfl

/-- The first character of a text is an underscore exactly if it is one in lower case. -/
theorem head?_lower_eq_underscore {value : String} :
    (Text.lower value).toList.head? = some '_' ↔ value.toList.head? = some '_' := by
  have hchar : ∀ c : Char, c.toLower = '_' ↔ c = '_' := by
    intro c
    rw [← Char.toNat_inj, ← Char.toNat_inj, Text.toNat_toLower]
    have hunderscore : '_'.toNat = 95 := rfl
    grind
  rw [Text.toList_lower, List.head?_map, Option.map_eq_some_iff]
  simp only [hchar, exists_eq_right]

/-- A letter is alone in a text exactly if it is so in lower case. -/
theorem lower_mem_letters {value : String} :
    Text.lower value ∈ ["b", "x"] ↔ value ∈ ["b", "B", "x", "X"] := by
  have hletter : ∀ c : Char, [c.toLower] = ['b'] ∨ [c.toLower] = ['x'] ↔
      [c] = ['b'] ∨ [c] = ['B'] ∨ [c] = ['x'] ∨ [c] = ['X'] := by
    intro c
    simp only [List.cons.injEq, and_true, ← Char.toNat_inj, Text.toNat_toLower]
    have hcodes : 'b'.toNat = 98 ∧ 'B'.toNat = 66 ∧ 'x'.toNat = 120 ∧ 'X'.toNat = 88 := by decide
    grind
  simp only [List.mem_cons, List.not_mem_nil, or_false, ← String.toList_inj, Text.toList_lower]
  -- Only a text of one character can be a letter.
  match value.toList with
  | [] => simp
  | [c] => exact hletter c
  | c :: d :: cs => simp

/-- An introducer is known by the lower case of a bare word. -/
theorem isIntroducer_eq (t : Token) : isIntroducer t =
    (t.bareWord?.map Text.lower).any fun value =>
      value.toList.head? = some '_' || value ∈ ["b", "x"] := by
  rw [isIntroducer, Option.any_map]
  refine congrArg (t.bareWord?.any ·) (funext fun value => ?_)
  simp only [head?_lower_eq_underscore, lower_mem_letters]

/-- An operator in the one text is one in the other. -/
theorem isUnaryOperator_alike (h : k.alike l l') :
    isUnaryOperator l.token = isUnaryOperator l'.token := by
  simp only [isUnaryOperator_eq, accepts_eq h]

theorem isPlainConstant_alike (h : k.alike l l') :
    isPlainConstant l.token = isPlainConstant l'.token := by
  simp only [isPlainConstant_eq, k.shape_eq h, accepts_eq h]

/-! ## Default values -/

/-- The precision of a time is there in both texts or in neither. -/
theorem precision_agree : k.Agree id precision precision := by
  refine (Agree.expect _).bind_id fun _ => (Agree.ahead _).bind_id fun _ => ?_
  exact .ite ((Agree.pure rfl).bind_id fun _ => .expect _)
    ((Agree.discard .number).bind_id fun _ => .expect _)

/-- The current time is spelled in the same form in both texts. -/
theorem currentTimestamp_agree : k.Agree id currentTimestamp currentTimestamp := by
  refine (Agree.eat _).bind_id fun _ => .ite precision_agree ?_
  refine (Agree.aheadAny _).bind_id fun _ => .ite ?_ (.fail _)
  exact (Agree.skip 1).bind_id fun _ => .discard (.ifAhead precision_agree)

/-- What is set on an update is there in both texts or in neither. -/
theorem timestampDefault_agree : k.Agree id timestampDefault timestampDefault :=
  currentTimestamp_agree.bind_id fun _ => .discard (.after currentTimestamp_agree)

/-- A literal with its introducer comes next in both texts or in neither. -/
theorem introducerAhead_agree : k.Agree id introducerAhead introducerAhead := by
  refine .asks fun ls ls' hls => ?_
  cases hls with
  | nil => rfl
  | cons hl hls =>
    cases hls with
    | nil => rfl
    | cons hm hms =>
      show (isIntroducer _ && isSingleQuoted _) = (isIntroducer _ && isSingleQuoted _)
      rw [isIntroducer_eq, isIntroducer_eq, k.bareWord_eq hl, isSingleQuoted_eq, isSingleQuoted_eq,
        k.shape_eq hm]

/-- Constants are passed over in both texts, with their introducers. -/
theorem constant_agree : k.Agree id constant constant := by
  refine introducerAhead_agree.bind_id fun _ => .ite ((Agree.skip 1).bind_id fun _ => ?_) ?_
  -- What stands behind an introducer is read like a constant without one.
  all_goals
    refine (Agree.token? shows_string).bind_option (fun _ _ _ => .discard (.tokenRun shows_string)) ?_
    exact .discard (.token _ (shows_guard fun _ _ hl => isPlainConstant_alike hl))

/-- A sign is there in both texts or in neither. -/
theorem signedConstant_agree : k.Agree id signedConstant signedConstant := by
  refine (Agree.discard (.token? (shows_guard fun _ _ hl => isUnaryOperator_alike hl))).bind_id
    fun _ => constant_agree

/-- The forms of a default value begin with the same tokens. -/
theorem defaultExpressions_agree :
    List.Forall₂ (k.AgreeBranch id) defaultExpressions defaultExpressions := by
  refine List.forall₂_same.2 ?_
  unfold defaultExpressions
  simp only [List.forall_mem_cons]
  refine ⟨.behind (.pure rfl), ⟨rfl, ?_⟩, ⟨rfl, .parenthesized⟩, ?_, ?_, ?_, ?_, nofun⟩
  · exact (Agree.skip 1).bind_id fun _ => .parenthesized
  all_goals exact ⟨rfl, timestampDefault_agree⟩

/-- Default values take as many lexemes in both texts. -/
theorem defaultValue_agree : k.Agree id defaultValue defaultValue :=
  Agree.bind_option (.choose? defaultExpressions_agree) (fun _ _ _ => .pure rfl)
    signedConstant_agree

/-! ## Clauses -/

/-- The expression of a generated column takes as many lexemes in both texts. -/
theorem generatedColumn_agree : k.Agree id generatedColumn generatedColumn := by
  -- `GENERATED ALWAYS` is left out together, and what stands behind it is the same.
  have hend : k.Agree id (do
      expect (.keyword "AS")
      parenthesized
      unless ← eat (.word "VIRTUAL") do discard (eat (.word "STORED"))) (do
      expect (.keyword "AS")
      parenthesized
      unless ← eat (.word "VIRTUAL") do discard (eat (.word "STORED"))) := by
    refine (Agree.expect _).bind_id fun _ => Agree.parenthesized.bind_id fun _ => ?_
    exact (Agree.eat _).bind_id fun _ => .ite (.pure rfl) (.discard (.eat _))
  exact (Agree.eat _).bind_id fun _ => .ite ((Agree.expect _).bind_id fun _ => hend) hend

/-- A check has its name and its text in both texts or in neither. -/
theorem columnCheck_agree :
    k.Agree (ColumnClause.mapTexts k.name k.content) columnCheck columnCheck := by
  -- A check is read the same with a name, without one, and with `CONSTRAINT` alone.
  have hend : ∀ name name' : Option String, name.map k.name = name'.map k.name →
      k.Agree (ColumnClause.mapTexts k.name k.content) (do
        expect (.keyword "CHECK")
        return ColumnClause.check name (← glued parenthesized)) (do
        expect (.keyword "CHECK")
        return ColumnClause.check name' (← glued parenthesized)) := by
    intro name name' hname
    refine (Agree.expect _).bind_id fun _ => ?_
    refine (Agree.glued .parenthesized).bind fun expression expression' hexpression => .pure ?_
    rw [ColumnClause.mapTexts, ColumnClause.mapTexts, hname, hexpression]
  have hnone : k.Agree (Option.map k.name) (pure none) (pure none) := .pure rfl
  refine (Agree.eat _).bind_id fun _ => .ite ?_ (hnone.bind hend)
  refine (Agree.ahead _).bind_id fun _ => .ite (hnone.bind hend) ?_
  have hsome : k.Agree (Option.map k.name) (some <$> identifier) (some <$> identifier) :=
    Agree.identifier.map fun _ _ hname => congrArg some hname
  exact hsome.bind hend

/-- The clauses of a column begin with the same words and declare what looks the same. -/
theorem columnClauses_agree : List.Forall₂
    (k.AgreeBranch (ColumnClause.mapTexts k.name k.content)) columnClauses columnClauses := by
  refine List.forall₂_same.2 ?_
  unfold columnClauses
  simp only [List.forall_mem_cons]
  -- A text that is kept is seen as a content or a name, by what it may be made of.
  refine ⟨?notNull, ?null, ?default, ?visible, ?invisible, ?increment, ?onUpdate, ?primary, ?key,
    ?unique, ?comment, ?format, ?storage, ?references, ?collate, ?generated, ?as, ?serial,
    ?constraint, ?check, nofun⟩
  case notNull => exact .behind ((Agree.expect _).bind_id fun _ => .pure rfl)
  case null => exact .behind (.pure rfl)
  case default =>
    exact .behind ((Agree.glued defaultValue_agree).bind fun _ _ htext =>
      .pure (congrArg ColumnClause.default htext))
  case visible => exact .behind (.pure rfl)
  case invisible => exact .behind (.pure rfl)
  case increment => exact .behind (.pure rfl)
  case onUpdate =>
    exact .behind ((Agree.glued currentTimestamp_agree).bind fun _ _ htext =>
      .pure (congrArg ColumnClause.onUpdate htext))
  case primary => exact .behind ((Agree.expect _).bind_id fun _ => .pure rfl)
  case key => exact .behind (.pure rfl)
  case unique => exact .behind ((Agree.eat _).bind_id fun _ => .pure rfl)
  case comment =>
    exact .behind (Agree.stringLiteral.bind fun _ _ htext =>
      .pure (congrArg ColumnClause.comment htext))
  case format => exact .behind ((Agree.oneOf _).bind_id fun _ => .pure rfl)
  case storage => exact .behind ((Agree.oneOf _).bind_id fun _ => .pure rfl)
  case references =>
    exact ⟨rfl, reference_agree.bind fun _ _ h => .pure (congrArg ColumnClause.reference h)⟩
  case collate =>
    exact .behind (charsetName_agree.bind fun _ _ hname =>
      .pure (congrArg ColumnClause.collation hname))
  case generated =>
    exact ⟨rfl, (Agree.glued generatedColumn_agree).bind fun _ _ htext =>
      .pure (congrArg ColumnClause.generated htext)⟩
  case as =>
    exact ⟨rfl, (Agree.glued generatedColumn_agree).bind fun _ _ htext =>
      .pure (congrArg ColumnClause.generated htext)⟩
  case serial =>
    exact .behind ((Agree.expect _).bind_id fun _ => (Agree.expect _).bind_id fun _ => .pure rfl)
  case constraint => exact ⟨rfl, columnCheck_agree⟩
  case check => exact ⟨rfl, columnCheck_agree⟩

/-- The same clause is read in both texts. -/
theorem columnClause_agree :
    k.Agree (ColumnClause.mapTexts k.name k.content) columnClause columnClause :=
  .choose _ columnClauses_agree

/-- A column ends at the same place in both texts. -/
theorem isColumnEnd_alike {ls ls' : List Lexeme} (h : k.All ls ls') :
    isColumnEnd ls = isColumnEnd ls' := by
  rw [isColumnEnd, isColumnEnd, opensAny_eq h]
  cases h <;> rfl

/-- Texts that are alike define columns that look the same. -/
theorem columnDefinition_agree :
    k.Agree (ColumnDecl.mapTexts k.name k.content) columnDefinition columnDefinition := by
  refine dataType_agree.bind fun type type' htype => ?_
  refine Agree.bind (Agree.many (?_ : k.Agree (Option.map (ColumnClause.mapTexts k.name k.content)) _ _))
    fun clauses clauses' hclauses => .pure ?_
  · refine (Agree.asks fun _ _ hls => isColumnEnd_alike hls).bind_id fun _ => .ite (.pure rfl) ?_
    exact columnClause_agree.bind fun _ _ hclause => .pure (congrArg some hclause)
  · rw [ColumnDecl.mapTexts, ColumnDecl.mapTexts, htype, hclauses]

end Grammar

end TableSchema
