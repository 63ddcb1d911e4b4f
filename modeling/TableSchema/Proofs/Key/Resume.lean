import TableSchema.Key.Grammar
import TableSchema.Proofs.DataType.Resume

/-!
# Constraints that are given up

The rule of table constraints is resumed wherever its text is given up, and so are the rules of key
parts, index options and references. Where a constraint is missed altogether, `CHECK` can stand with
an expression. The actions of a reference are told by the word behind `ON DELETE` or `ON UPDATE`
before any of these words is taken; that word is one that the action takes.

## Main definitions

* `longActions`, `constraintKinds`: the actions of two words, and the kinds of a constraint.

## Main results

* `reference_resumable`: the rule of references is resumed everywhere;
* `tableConstraint_resumable`: so is the rule of table constraints.
-/

set_option autoImplicit false

namespace TableSchema.Grammar

open TableSchema.Parser TableSchema.Lexeme

variable {ls bad : List Lexeme}

/-! ## Keys -/

/-- Behind the point in the name of a table an identifier can be supplied. -/
theorem tableName_resumable :
    Resumable (some (.word (some '\x60') "x")) closers tableName := by
  have hsecond : Resumable none closers (do if ← eat (.symbol .period) then discard identifier) :=
    .eat_bind_spare (by decide) (Resumable.identifier.discard.mono (by decide)) (.pure ())
  have hname : Resumable (some (.word (some '\x60') "x")) closers (do
      discard identifier
      if ← eat (.symbol .period) then discard identifier) :=
    Resumable.identifier.discard.firm_bind fun _ => hsecond
  exact hname.glued

/-- What a key part refers to is an expression, a literal or a name. -/
theorem keyTarget_resumable :
    Resumable (some (.word (some '\x60') "x")) fillers keyTarget := by
  have hexpression : Resumable (some (.symbol .openParen)) fillers (do
      return KeyTarget.expression (← glued parenthesized)) :=
    Resumable.parenthesized.glued.bind_spare fun _ => .pure _
  unfold keyTarget
  rw [ifAhead_bind_eq]
  refine .firstOf_demand (List.forall_mem_singleton.2 (.of_resumable hexpression))
    (by decide) (by decide) ?_
  exact .token?_bind rfl (fun _ => .pure _) (Resumable.identifier.bind_spare fun _ => .pure _)

/-- The length of a key part is closed where it is given up. -/
theorem keyPart_resumable : Resumable (some (.word (some '\x60') "x")) closers keyPart := by
  have hlength : Resumable (some (.number "0")) fillers numberInParens :=
    Resumable.number.firm_bind fun _ => Resumable.expect_close.bind_spare fun _ => .pure _
  have hprefix : Resumable none closers (after [.symbol .openParen] numberInParens) :=
    .after (List.cons_ne_nil _ _) rfl (by decide) (hlength.mono (by decide))
  have horder : Resumable none closers (choose? [
      .behind [.keyword "ASC"] (return SortOrder.ascending),
      .behind [.keyword "DESC"] (return .descending)]) := by
    refine .choose? ?_ (by decide) (by decide)
    simp only [List.forall_mem_cons]
    exact ⟨.behind (by decide) (Resumable.pure _), .behind (by decide) (Resumable.pure _), nofun⟩
  refine keyTarget_resumable.firm_bind fun target => hprefix.bind_spare fun length => ?_
  exact horder.bind_spare fun _ => .pure _

/-- In the list of a key another part can be supplied, and the list is closed. -/
theorem keyParts_resumable : Resumable (some (.symbol .openParen)) fillers keyParts :=
  keyPart_resumable.list

theorem indexMethod_resumable :
    Resumable (some (.word none "BTREE")) fillers (oneOf ["BTREE", "HASH"]) :=
  .oneOf (by decide) (by decide) (by decide)

/-- Each option of an index is resumed once its first words are there. -/
theorem indexOptions_offer : ∀ b ∈ indexOptions, b.Offers closers := by
  have hequals : ∀ {p : Parser Unit} {x : Token}, avoids [x] [.symbol .equals] = true →
      Resumable (some x) fillers p → Resumable (some x) closers (do equalsSign; p) := by
    intro p x hx hp
    have heq : (do equalsSign; p) = eat (.symbol .equals) >>= fun _ => p := discard_bind _ _
    rw [heq]
    exact .eat_bind_demand hx (hp.mono (by decide)) (hp.mono (by decide))
  unfold indexOptions
  simp only [List.forall_mem_cons]
  refine ⟨?blockSize, ?type, ?parser, ?comment, ?visible, ?invisible, ?engine, ?secondary, nofun⟩
  case blockSize => exact .behind (by decide) (hequals (by decide) Resumable.number.discard)
  case type => exact .behind (by decide) (indexMethod_resumable.discard.mono (by decide))
  case parser =>
    have hparser : Resumable (some (.word none "PARSER")) fillers (expect (.word "PARSER")) :=
      .expect (by decide) (by decide)
    exact .behind (by decide)
      (hparser.firm_bind fun _ => Resumable.identifier.discard.mono (by decide))
  case comment => exact .behind (by decide) (Resumable.stringLiteral.discard.mono (by decide))
  case visible => exact .behind (by decide) (Resumable.pure _)
  case invisible => exact .behind (by decide) (Resumable.pure _)
  case engine => exact .behind (by decide) (hequals (by decide) Resumable.stringLiteral.discard)
  case secondary => exact .behind (by decide) (hequals (by decide) Resumable.stringLiteral.discard)

/-- Behind the key parts nothing is demanded but what an option has begun. -/
theorem optionedParts_resumable : Resumable (some (.symbol .openParen)) closers optionedParts := by
  have hoffer := indexOptions_offer
  have hoptions : Resumable none closers (many (choose? indexOptions)) :=
    (Resumable.choose? hoffer (by decide) (by decide)).many
      (.choose? fun b hb => (hoffer b hb).consumes)
  exact keyParts_resumable.firm_bind fun parts => hoptions.discard.bind_spare fun _ => .pure parts

/-! ## References -/

/-- The actions that go on behind their first word. -/
def longActions : List (Branch String) := [
  .behind [.word "SET"] (do return "SET " ++ (← oneOf ["NULL", "DEFAULT"])),
  .behind [.word "NO"] (do expect (.word "ACTION"); return "NO ACTION")]

/-- An action is one of two words, unless it goes on behind its first word. -/
theorem referenceAction_eq_firstOf :
    referenceAction = firstOf longActions (oneOf ["RESTRICT", "CASCADE"]) :=
  choose?_or_eq fun _ => rfl

/-- Behind `SET` and `NO` the second word of the action can be supplied. -/
theorem longActions_offer : ∀ b ∈ longActions, b.Offers closers := by
  have hset : Resumable (some (.word none "NULL")) fillers (oneOf ["NULL", "DEFAULT"]) :=
    .oneOf (by decide) (by decide) (by decide)
  have hno : Resumable (some (.word none "ACTION")) fillers (expect (.word "ACTION")) :=
    .expect (by decide) (by decide)
  unfold longActions
  simp only [List.forall_mem_cons]
  exact ⟨.behind (by decide) (hset.firm_bind fun _ => .pure _),
    .behind (by decide) (hno.firm_bind fun _ => .pure _), nofun⟩

/-- An action is resumed once its first word is there. -/
theorem referenceAction_resumableAt (hls : ls ≠ []) :
    ResumableAt none closers referenceAction ls bad := by
  rw [referenceAction_eq_firstOf]
  have hinner : ∀ b ∈ longActions, avoids fillers b.opener.tail = true := by decide
  exact .firstOf hls (fun b hb => (longActions_offer b hb).toLeads)
    (fun b hb new => opens_of_avoids_tail hls (hinner b hb)) (.token _ hls)

/-- An action stops behind its last word. -/
theorem referenceAction_forward : Forward referenceAction := by
  rw [referenceAction_eq_firstOf]
  exact .firstOf (fun b hb => (longActions_offer b hb).forward) (.token _ _)

/-- The first word of an action is always taken. -/
theorem referenceAction_reaches {word : String}
    (hword : word ∈ ["RESTRICT", "CASCADE", "SET", "NO"]) :
    Reaches [.word word] referenceAction := by
  intro ls hopens
  obtain ⟨l, ls, rfl, hl, -⟩ := Terminal.opens_cons.1 hopens
  have hlength : ∀ b ∈ longActions, b.opener.length = 1 := by decide
  rw [referenceAction_eq_firstOf]
  -- Actions of two words are chosen by the first of them; the others are one word long.
  rcases firstOf_cases longActions (oneOf ["RESTRICT", "CASCADE"]) (l :: ls) with
    ⟨b, hb, hopens, heq⟩ | ⟨hnone, heq⟩
  · have hreach := (longActions_offer b hb).reached _ hopens
    rw [hlength b hb] at hreach
    rwa [leaves, heq, ← leaves]
  · have hsame := (Token.isWord_iff.2 hl).accepts_eq
    have hfind : ∃ action, (["RESTRICT", "CASCADE"].find? fun w =>
        (Terminal.keyword w).accepts l.token) = some action := by
      simp only [hsame]
      simp only [List.mem_cons, List.not_mem_nil, or_false] at hword
      rcases hword with rfl | rfl | rfl | rfl
      · exact ⟨"RESTRICT", by decide⟩
      · exact ⟨"CASCADE", by decide⟩
      · exact absurd (hnone _ List.mem_cons_self) (by simp [Branch.behind, Terminal.opens, hl])
      · exact absurd (hnone _ (List.mem_cons_of_mem _ List.mem_cons_self))
          (by simp [Branch.behind, Terminal.opens, hl])
    obtain ⟨action, haction⟩ := hfind
    have hok : oneOf ["RESTRICT", "CASCADE"] (l :: ls) = .ok (action, ls) :=
      token_eq_ok.2 ⟨l, rfl, haction⟩
    rw [leaves_of_ok (heq.trans hok)]
    exact List.suffix_refl ls

/-- A rule of a reference is told by both of its words and resumed behind them. -/
theorem referenceRules_offer : ∀ b ∈ referenceRules, b.Offers closers := by
  intro b hb
  simp only [referenceRules, List.mem_flatMap, List.mem_map] at hb
  obtain ⟨⟨spelling, event⟩, -, word, hword, rfl⟩ := hb
  have hreach : Reaches [.word word] (do return (event, ← referenceAction)) :=
    (referenceAction_reaches hword).bind fun _ => .pure _
  have hforward : Forward (do return (event, ← referenceAction)) :=
    referenceAction_forward.bind fun _ => .pure _
  have hresumes : ∀ ls bad, Terminal.opens [.word word] ls = true →
      ResumableAt none closers (do return (event, ← referenceAction)) ls bad := by
    intro ls bad hopens
    obtain ⟨l, ls, rfl, -⟩ := Terminal.opens_cons.1 hopens
    exact (referenceAction_resumableAt (List.cons_ne_nil l ls)).map fun a => (event, a)
  exact ⟨.of_skip Nat.two_pos (Nat.le_succ 2) hreach hforward hresumes,
    .skip_bind (Nat.le_succ 2) hreach⟩

/-- Behind `REFERENCES` the name of a table can be supplied, and the rest may be left out. -/
theorem reference_resumable : Resumable (some (.word none "REFERENCES")) closers reference := by
  have hword : Resumable (some (.word none "REFERENCES")) fillers
      (expect (.keyword "REFERENCES")) :=
    .expect (by decide) (by decide)
  have hparts : Resumable none closers (ifAhead [.symbol .openParen] keyParts) :=
    .ifAhead (by decide) (.list keyPart_resumable) (keyParts_resumable.mono (by decide))
  have hway : Resumable (some (.word none "FULL")) fillers (oneOf ["FULL", "PARTIAL", "SIMPLE"]) :=
    .oneOf (by decide) (by decide) (by decide)
  have hmatch : Resumable none closers
      (after [.word "MATCH"] (oneOf ["FULL", "PARTIAL", "SIMPLE"])) :=
    .after (List.cons_ne_nil _ _) rfl (by decide) (hway.mono (by decide))
  have hrules : Resumable none closers (many (choose? referenceRules)) :=
    (Resumable.choose? referenceRules_offer (by decide) (by decide)).many
      (.choose? fun b hb => (referenceRules_offer b hb).consumes)
  refine hword.firm_bind fun _ => tableName_resumable.bind_spare fun table => ?_
  refine hparts.bind_spare fun parts => hmatch.bind_spare fun matching => ?_
  exact hrules.bind_spare fun _ => .pure _

/-! ## Constraints -/

theorem expect_key_resumable :
    Resumable (some (.word none "KEY")) fillers (expect (.keyword "KEY")) :=
  .expect (by decide) (by decide)

variable {α : Type} {x : Token}

/-- A name in front of the key parts may be left out. -/
theorem indexName_bind_resumable {f : Option String → Parser α}
    (hf : ∀ name, Resumable (some (.symbol .openParen)) closers (f name)) :
    Resumable (some (.symbol .openParen)) closers (indexName >>= f) :=
  .token?_bind rfl (fun name => hf (some name)) (hf none)

/-- Behind `USING` the method of the index can be supplied, and the key parts follow. -/
theorem indexType_bind_resumable {f : Option String → Parser α}
    (hf : ∀ type, Resumable (some (.symbol .openParen)) closers (f type)) :
    Resumable (some (.symbol .openParen)) closers (indexType >>= f) := by
  have hbehind : Resumable (some (.word none "BTREE")) closers
      (oneOf ["BTREE", "HASH"] >>= fun type => f (some type)) :=
    indexMethod_resumable.firm_bind fun type => hf (some type)
  rw [indexType, after_bind_eq]
  exact .firstOf_demand (List.forall_mem_singleton.2 (.behind (by decide) hbehind))
    (List.forall_mem_singleton.2 rfl) (List.forall_mem_singleton.2 rfl) (hf none)

/-- `INDEX` or `KEY` in front of the key parts may be left out. -/
theorem indexWord_bind_resumable {f : Option String → Parser α}
    (hf : ∀ word, Resumable (some (.symbol .openParen)) closers (f word)) :
    Resumable (some (.symbol .openParen)) closers (indexWord >>= f) := by
  have heq : indexWord >>= f = firstOf [
      .behind [.keyword "INDEX"] (f (some "INDEX")),
      .behind [.keyword "KEY"] (f (some "KEY"))] (f none) :=
    choose?_bind_eq _ _
  rw [heq]
  refine .firstOf_demand ?_ ?_ ?_ (hf none)
  · simp only [List.forall_mem_cons]
    exact ⟨.behind (by decide) (hf _), .behind (by decide) (hf _), nofun⟩
  · simp only [List.forall_mem_cons]
    exact ⟨rfl, rfl, nofun⟩
  · simp only [List.forall_mem_cons]
    exact ⟨rfl, rfl, nofun⟩

/-- Behind `PRIMARY` the word `KEY` is demanded, then the key parts. -/
theorem primaryKey_resumable (name : Option String) :
    Resumable (some (.word none "KEY")) closers (primaryKey name) :=
  expect_key_resumable.firm_bind fun _ => indexName_bind_resumable fun _ =>
    indexType_bind_resumable fun _ => optionedParts_resumable.bind_spare fun _ => .pure _

/-- Behind `UNIQUE` only the key parts are demanded. -/
theorem uniqueKey_resumable (name : Option String) :
    Resumable (some (.symbol .openParen)) closers (uniqueKey name) := by
  refine indexWord_bind_resumable fun word => indexName_bind_resumable fun index => ?_
  rw [discard_bind]
  exact indexType_bind_resumable fun _ => optionedParts_resumable.bind_spare fun _ => .pure _

/-- Behind `FOREIGN` the word `KEY`, the key parts and the reference are demanded. -/
theorem foreignKey_resumable (name : Option String) :
    Resumable (some (.word none "KEY")) closers (foreignKey name) :=
  expect_key_resumable.firm_bind fun _ => indexName_bind_resumable fun _ =>
    keyParts_resumable.firm_bind fun _ => reference_resumable.bind_spare fun _ => .pure _

/-- The kinds of a constraint with a name. -/
def constraintKinds (name : Option String) : List (Branch ConstraintDecl) := [
  .behind [.keyword "PRIMARY"] (primaryKey name),
  .behind [.keyword "UNIQUE"] (uniqueKey name),
  .behind [.keyword "FOREIGN"] (foreignKey name),
  .behind [.keyword "CHECK"] (do return .check name (← glued parenthesized))]

/-- A constraint that is told by its first word is resumed; a check makes up for a missing one. -/
theorem constraintKinds_resumable (name : Option String) :
    Resumable (some (.word none "CHECK")) closers
      (choose .tableConstraint (constraintKinds name)) := by
  have hcheck : Resumable (some (.symbol .openParen)) closers (do
      return ConstraintDecl.check name (← glued parenthesized)) :=
    Resumable.parenthesized.glued.firm_bind fun _ => .pure _
  refine .choose ?_ ?_ ?_
  · unfold constraintKinds
    simp only [List.forall_mem_cons]
    exact ⟨.behind (by decide) (primaryKey_resumable name),
      .behind (by decide) (uniqueKey_resumable name),
      .behind (by decide) (foreignKey_resumable name), .behind (by decide) hcheck, nofun⟩
  · unfold constraintKinds
    simp only [List.forall_mem_cons]
    exact ⟨rfl, rfl, rfl, rfl, nofun⟩
  -- What is missing altogether is supplied as a check, the last of the kinds.
  · have hstart : Startable (some (.word none "CHECK")) closers (choose .tableConstraint ([
        .behind [.keyword "PRIMARY"] (primaryKey name),
        .behind [.keyword "UNIQUE"] (uniqueKey name),
        .behind [.keyword "FOREIGN"] (foreignKey name)] ++
        [.behind [.keyword "CHECK"] (do return .check name (← glued parenthesized))])) := by
      refine .choose ?_ (by decide) (by decide) hcheck
      simp only [List.forall_mem_cons]
      exact ⟨⟨List.cons_ne_nil _ _, rfl⟩, ⟨List.cons_ne_nil _ _, rfl⟩,
        ⟨List.cons_ne_nil _ _, rfl⟩, nofun⟩
    exact hstart

/-- Behind `CONSTRAINT` there is a name, or the constraint itself. -/
theorem constraintName_bind_resumable {f : Option String → Parser α}
    (hf : ∀ name, Resumable (some (.word none "CHECK")) closers (f name)) :
    Resumable (some (.word none "CHECK")) closers (constraintName >>= f) := by
  have hnamed : Resumable (some (.word (some '\x60') "x")) closers
      ((do return some (← identifier)) >>= f) := by
    rw [bind_assoc]
    exact Resumable.identifier.firm_bind fun name => hf (some name)
  have hname : Resumable (some (.word (some '\x60') "x")) closers ((do
      if ← aheadAny [[.keyword "PRIMARY"], [.keyword "UNIQUE"], [.keyword "FOREIGN"],
          [.keyword "CHECK"]] then
        return none
      else return some (← identifier)) >>= f) := by
    rw [bind_assoc, aheadAny_bind_eq]
    refine .firstOf_demand ?_ ?_ ?_ hnamed
    · simp only [List.map_cons, List.map_nil, List.forall_mem_cons]
      exact ⟨.of_resumable (hf none), .of_resumable (hf none), .of_resumable (hf none),
        .of_resumable (hf none), nofun⟩
    · simp only [List.map_cons, List.map_nil, List.forall_mem_cons]
      exact ⟨rfl, rfl, rfl, rfl, nofun⟩
    · simp only [List.map_cons, List.map_nil, List.forall_mem_cons]
      exact ⟨rfl, rfl, rfl, rfl, nofun⟩
  rw [constraintName, bind_assoc]
  exact .eat_bind_demand (by decide) hname (hf none)

/-- A text that is given up inside a constraint can be completed there. -/
theorem tableConstraint_resumable :
    Resumable (some (.word none "CHECK")) closers tableConstraint :=
  constraintName_bind_resumable constraintKinds_resumable

end TableSchema.Grammar
