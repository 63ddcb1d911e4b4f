import TableSchema.Proofs.DataType.Acceptance
import TableSchema.Proofs.DataType.Append
import TableSchema.Proofs.DataType.Clause
import TableSchema.Proofs.Grammar.Decision

/-!
# Data types that are given up

The rule of data types is resumed wherever its text is given up, since its parts are. Two decisions
need more than that. Behind `LONG` the rule looks at the next token to tell the forms apart, and
that can be the token that does not fit; but `LONG` alone is a type, so nothing is missed there. A
type is told by its first word, and where there is none, `CHAR` can stand.

## Main definitions

* `longForms`: the forms of `LONG` that are told by the next token;
* `nationalForms`, `namedType`: the types that are told by their first words, and the others.

## Main results

* `dataType_resumable`: the rule of data types is resumed everywhere.
-/

set_option autoImplicit false

namespace TableSchema.Grammar

open TableSchema.Parser TableSchema.Lexeme

/-! ## Clauses -/

/-- Where the word of a type is missed, `CHAR` makes up for it. -/
theorem typeName_resumable : Resumable (some (.word none "CHAR")) fillers typeName :=
  .token _ (by decide) rfl

/-- A length clause may be left out, and what is missing in its parentheses can be supplied. -/
theorem lengthClause_resumable {numbers : Parser Unit} {x : Token}
    (h : Resumable (some x) closers numbers) : Resumable none closers (lengthClause numbers) := by
  have hinside : Resumable (some (.symbol .openParen)) fillers (do
      expect (.symbol .openParen)
      numbers
      expect (.symbol .closeParen)) :=
    (Resumable.expect (by decide) rfl).firm_bind fun _ =>
      h.bind_demand (fun _ => .expect_close) (by decide)
  refine .ifAhead (by decide) (.glued (.expect_bind (.nil ?_))) (hinside.glued.mono (by decide))
  exact h.forward.bind fun _ => .expect _

/-- In the parentheses of one length a number is all that can be missed. -/
theorem oneLength_resumable : Resumable none closers oneLength :=
  lengthClause_resumable (Resumable.number.discard.mono (by decide))

/-- In the parentheses of two lengths both numbers and the comma are demanded. -/
theorem twoLengths_resumable : Resumable none closers twoLengths := by
  have hcomma : Resumable (some (.symbol .comma)) fillers (expect (.symbol .comma)) :=
    .expect (by decide) rfl
  have hlast : Resumable (some (.symbol .comma)) fillers (do
      expect (.symbol .comma)
      discard number) :=
    hcomma.firm_bind fun _ => Resumable.number.discard
  exact lengthClause_resumable (Resumable.number.discard.firm_bind fun _ => hlast.mono (by decide))

/-- In these parentheses the comma may be left out, but not what follows it. -/
theorem upToTwoLengths_resumable : Resumable none closers upToTwoLengths := by
  have hlast : Resumable none closers (do if ← eat (.symbol .comma) then discard number) :=
    .eat_bind_spare (by decide) (Resumable.number.discard.mono (by decide)) (.pure ())
  exact lengthClause_resumable (Resumable.number.discard.firm_bind fun _ => hlast)

/-- A run of modifiers may be empty, so nothing of it is ever missed. -/
theorem numericModifiers_resumable : Resumable none closers numericModifiers :=
  .tokenRun (by decide)

/-- Where the name of a character set is missed, an empty literal makes up for it. -/
theorem charsetName_resumable : Resumable (some (.literal .double "")) fillers charsetName :=
  .token _ (by decide) rfl

/-- Behind each of the three keywords of a character set its name can be supplied. -/
theorem charset_resumable : Resumable none closers charset := by
  have hname : ∀ keyword, Resumable (some (.literal .double "")) closers (do
      return some (⟨keyword, ← charsetName⟩ : Charset)) :=
    fun keyword => charsetName_resumable.firm_bind fun name => .pure _
  have heq : charset = firstOf [
      .behind [.word "CHARACTER", .word "SET"]
        (do return some (⟨.characterSet, ← charsetName⟩ : Charset)),
      .behind [.word "CHAR", .word "SET"]
        (do return some (⟨.charSet, ← charsetName⟩ : Charset)),
      .behind [.word "CHARSET"]
        (do return some (⟨.charset, ← charsetName⟩ : Charset))] (pure none) :=
    choose?_bind_eq _ _
  rw [heq]
  refine .firstOf_spare ?_ (by decide) (by decide) (.pure none)
  simp only [List.forall_mem_cons]
  exact ⟨.behind (by decide) (hname _), .behind (by decide) (hname _),
    .behind (by decide) (hname _), nofun⟩

/-- Behind `COLLATE` the name can be supplied. -/
theorem collation_resumable : Resumable none closers collation :=
  .after (List.cons_ne_nil _ _) rfl (by decide) (charsetName_resumable.mono (by decide))

theorem binary_resumable : Resumable none closers binary :=
  .eat (by decide)

theorem varying_resumable : Resumable none closers varying :=
  .eat (by decide)

/-! ## The rules of the types -/

/-- Behind `NATIONAL` the name of a type can be supplied, and the rest may be left out. -/
theorem nationalType_resumable : Resumable (some (.word none "NATIONAL")) closers nationalType := by
  have hnational : Resumable (some (.word none "NATIONAL")) fillers (expect (.word "NATIONAL")) :=
    .expect (by decide) (by decide)
  have hname : Resumable (some (.word none "CHAR")) fillers nationalName :=
    .token _ (by decide) (by decide)
  -- `VARYING` may stand at two places, of which only one is asked for.
  have hend : ∀ (name : TypeName) (early : Bool), Resumable none closers (do
      let length ← oneLength
      let isBinary ← binary
      let late ← if (name.keyword != .varchar) && !early then varying else pure false
      if early || late then return TypeDecl.nationalVarying name length isBinary
      else return .national .national name length isBinary) := by
    intro name early
    refine oneLength_resumable.bind_spare fun length => ?_
    refine binary_resumable.bind_spare fun isBinary => ?_
    exact .ite (varying_resumable.bind_spare fun late => .ite (.pure _) (.pure _))
      ((Resumable.pure false).bind_spare fun late => .ite (.pure _) (.pure _))
  refine hnational.firm_bind fun _ => hname.firm_bind (y := none) fun name => ?_
  exact .ite (varying_resumable.bind_spare (hend name))
    ((Resumable.pure false).bind_spare (hend name))

/-- None of the clauses behind the length of a character type is demanded. -/
theorem stringClauses_resumable (name : TypeName) (isVarying : Bool) (length : Option String) :
    Resumable none closers (stringClauses name isVarying length) := by
  refine binary_resumable.bind_spare fun early => charset_resumable.bind_spare fun charset => ?_
  refine collation_resumable.bind_spare fun collation => ?_
  exact .ite (binary_resumable.bind_spare fun _ => .pure _)
    ((Resumable.pure false).bind_spare fun _ => .pure _)

theorem stringType_resumable : Resumable (some (.word none "CHAR")) closers stringType :=
  typeName_resumable.firm_bind fun name => varying_resumable.bind_spare fun isVarying =>
    oneLength_resumable.bind_spare (stringClauses_resumable name isVarying)

/-- Behind `LONG`, the second word can be supplied. -/
theorem longVarbinaryType_resumable :
    Resumable (some (.word none "CHAR")) closers longVarbinaryType :=
  typeName_resumable.firm_bind fun _ => typeName_resumable.firm_bind fun _ => .pure _

/-- What may stand behind `LONG` as a character type. -/
theorem longVarchar_resumable (name : TypeName) : Resumable none closers (do
    let varchar ← eat (.word "VARCHAR")
    let isBinary ← binary
    let charset ← charset
    return TypeDecl.longVarchar name varchar isBinary charset (← collation)) := by
  refine (Resumable.eat (by decide)).bind_spare fun varchar => ?_
  refine binary_resumable.bind_spare fun isBinary => charset_resumable.bind_spare fun charset => ?_
  exact collation_resumable.bind_spare fun collation => .pure _

theorem longVarcharType_resumable :
    Resumable (some (.word none "CHAR")) closers longVarcharType :=
  typeName_resumable.firm_bind longVarchar_resumable

theorem integerType_resumable : Resumable (some (.word none "CHAR")) closers integerType := by
  refine typeName_resumable.firm_bind fun _ => oneLength_resumable.bind_spare fun _ => ?_
  exact numericModifiers_resumable.bind_spare fun _ => .pure _

/-- A floating point type is resumed with and without `PRECISION`. -/
theorem realType_resumable : Resumable (some (.word none "CHAR")) closers realType := by
  -- `PRECISION` is taken or not, and what stands behind it is the same.
  have hend : ∀ name, Resumable none closers (do
      let length ← twoLengths
      return TypeDecl.measured name (length.map .two) (← numericModifiers)) := fun name =>
    twoLengths_resumable.bind_spare fun _ => numericModifiers_resumable.bind_spare fun _ => .pure _
  have hprecision : Resumable none closers (discard (eat (.word "PRECISION"))) :=
    (Resumable.eat (by decide)).discard
  refine typeName_resumable.firm_bind (y := none) fun name => ?_
  exact .ite (hprecision.bind_spare fun _ => hend name) (hend name)

/-- Behind a type with one or two lengths only its parentheses demand something. -/
theorem decimalType_resumable : Resumable (some (.word none "CHAR")) closers decimalType := by
  refine typeName_resumable.firm_bind fun _ => upToTwoLengths_resumable.bind_spare fun _ => ?_
  exact numericModifiers_resumable.bind_spare fun _ => .pure _

theorem temporalType_resumable : Resumable (some (.word none "CHAR")) closers temporalType :=
  typeName_resumable.firm_bind fun _ => oneLength_resumable.bind_spare fun _ => .pure _

/-- A type that is one word is complete or missing. -/
theorem simpleType_resumable : Resumable (some (.word none "CHAR")) closers simpleType :=
  typeName_resumable.firm_bind fun _ => .pure _

/-- The list of members is demanded, and each of its literals can be supplied. -/
theorem collectionType_resumable :
    Resumable (some (.word none "CHAR")) closers collectionType := by
  have hliteral : Resumable (some (.literal .double "")) closers stringLiteral :=
    Resumable.stringLiteral.mono (by decide)
  refine typeName_resumable.firm_bind fun _ => hliteral.list.firm_bind (y := none) fun _ => ?_
  exact binary_resumable.bind_spare fun _ => charset_resumable.bind_spare fun _ => .pure _

/-- Behind `SRID` the number can be supplied. -/
theorem spatialType_resumable : Resumable (some (.word none "CHAR")) closers spatialType := by
  have hsrid : Resumable none closers (after [.word "SRID"] number) :=
    .after (List.cons_ne_nil _ _) rfl (by decide) (Resumable.number.mono (by decide))
  exact typeName_resumable.firm_bind fun _ => hsrid.bind_spare fun _ => .pure _

/-- The word of a type names it. -/
theorem ofToken?_of_accepts (k : TypeKeyword) {t : Token}
    (h : (Terminal.word k.spelling).accepts t = true) : ∃ n, TypeName.ofToken? t = some n := by
  obtain ⟨value, rfl, hsame⟩ := Token.isWord_iff.2 h
  exact ⟨⟨k, value⟩, TypeName.ofToken?_eq_some_iff.2 ⟨rfl, hsame⟩⟩

/-- Once `NCHAR VARCHAR` is there, the type is this one and is resumed behind both words. -/
theorem ncharType_leads : (Branch.mk [.word "NCHAR", .word "VARCHAR"] ncharType).Leads closers := by
  have hend : ∀ name : TypeName, Resumable none closers (do
      let length ← oneLength
      return TypeDecl.national .nchar name length (← binary)) :=
    fun name => oneLength_resumable.bind_spare fun length => binary_resumable.bind_spare fun _ =>
      .pure _
  have hname : Resumable (some (.word none "CHAR")) closers (do
      let name ← typeName
      let length ← oneLength
      return TypeDecl.national .nchar name length (← binary)) :=
    typeName_resumable.firm_bind hend
  refine .of_skip (by decide) (by decide) ?_ hname.forward fun ls bad _ => hname.resumes ls bad
  exact .token_bind (fun _ => ofToken?_of_accepts .varchar) fun name => .nil (hend name).forward

/-! ## `LONG` -/

/-- A length clause that is begun does not stop at its parenthesis. -/
theorem lengthClause_reaches {numbers : Parser Unit} (h : Forward numbers) :
    Reaches [.symbol .openParen] (lengthClause numbers) :=
  .ifAhead (.glued (.expect_bind (.nil (h.bind fun _ => .expect _))))

/-- The forms of `LONG` that are told by the second token. -/
def longForms : List (Branch TypeDecl) := [
  ⟨[.word "LONG", .symbol .openParen], stringType⟩,
  ⟨[.word "LONG", .word "VARBINARY"], longVarbinaryType⟩]

/-- The rule of `LONG` is a choice between the two forms and the character type. -/
theorem longType_eq_firstOf : longType = firstOf longForms longVarcharType :=
  choose?_or_eq fun _ => rfl

/-- A form that is told by its second token takes that token. -/
theorem longForms_reach : ∀ b ∈ longForms, Reaches b.opener b.body := by
  simp only [longForms, List.forall_mem_cons]
  refine ⟨?length, ?varbinary, nofun⟩
  case length =>
    refine .token_bind (fun _ => ofToken?_of_accepts .long) fun name => ?_
    refine .eat_bind_other (fun u hu => ?_) ?_
    · obtain rfl : u = .symbol .openParen := by simpa [Terminal.accepts] using hu
      rfl
    · exact Reaches.bind (lengthClause_reaches (.discard (.token _ _))) fun length =>
        (stringClauses_resumable name false length).forward
  case varbinary =>
    refine .token_bind (fun _ => ofToken?_of_accepts .long) fun name => ?_
    exact .token_bind (fun _ => ofToken?_of_accepts .varbinary) fun _ => .nil (.pure _)

/-- Both forms are resumed once their openers are there. -/
theorem longForms_lead : ∀ b ∈ longForms, b.Leads closers := by
  have hreach := longForms_reach
  simp only [longForms, List.forall_mem_cons] at hreach ⊢
  exact ⟨.of_reaches (List.cons_ne_nil _ _) stringType_resumable fun _ => hreach.1,
    .of_reaches (List.cons_ne_nil _ _) longVarbinaryType_resumable fun _ => hreach.2.1, nofun⟩

/-- `LONG` as a character type is never missed behind the word itself. -/
theorem longVarcharType_ne_error (l : Lexeme) (bad : List Lexeme) (e : Expected) :
    longVarcharType (l :: bad) ≠ .error ⟨e, bad⟩ := by
  intro herror
  cases hname : typeName (l :: bad) with
  | ok r =>
    obtain ⟨name, mid⟩ := r
    obtain ⟨_, hl, -⟩ := token_eq_ok.1 hname
    obtain ⟨rfl, rfl⟩ := List.cons.inj hl
    rw [longVarcharType, bind_of_ok hname] at herror
    exact (longVarchar_resumable name).not_missed _ e herror
  | error f =>
    rw [longVarcharType, bind_of_error hname, token_eq_error hname] at herror
    exact absurd (congrArg Failure.rest (Except.error.inj herror)) (List.cons_ne_self l bad)

/-- A type that begins with `LONG` is resumed, also where the second token tells nothing. -/
theorem longType_resumable : Resumable (some (.word none "CHAR")) closers longType := by
  rw [longType_eq_firstOf]
  refine .firstOf_of_ne_nil longForms_lead (by decide) longVarcharType_resumable
    fun ls bad hls => ?_
  obtain ⟨l, ls, rfl⟩ := List.exists_cons_of_ne_nil hls
  cases ls with
  | cons m ls =>
    have hlength : ∀ b ∈ longForms, b.opener.length ≤ 2 := by decide
    refine .firstOf hls longForms_lead (fun b hb new _ => Terminal.opens_append_of_le ?_ new)
      (longVarcharType_resumable.resumes _ bad)
    exact Nat.le_trans (hlength b hb) (by simp)
  | nil =>
    have hlength : ∀ b ∈ longForms, 1 < b.opener.length := by decide
    have hlater : ∀ b ∈ longForms, avoids closers b.opener.tail = true := by decide
    rcases firstOf_cases longForms longVarcharType ([l] ++ bad) with
      ⟨b, hb, hopens, heq⟩ | ⟨-, heq⟩
    · exact .of_leaves_of_eq heq ((longForms_reach b hb).ne_append hopens (hlength b hb))
    · constructor
      · intro decl mid hok new hnew hfollow
        rw [heq] at hok
        -- The word alone is taken, so nothing is left in front of `bad`.
        have hlt := longVarcharType_resumable.consumes nofun _ _ _ hok
        obtain rfl : mid = [] := by
          rw [List.length_append, List.length_append, List.length_singleton] at hlt
          exact List.length_eq_zero_iff.1 (by omega)
        have hnone : ∀ b ∈ longForms, Terminal.opens b.opener ([l] ++ new) = false := by
          intro b hb
          rw [opens_of_avoids_tail hls (hlater b hb) (hfollow rfl)]
          refine Bool.eq_false_iff.2 fun hopens => ?_
          exact absurd (Terminal.length_le_of_opens hopens) (Nat.not_le.2 (hlength b hb))
        rw [firstOf_of_not_opens hnone]
        exact (longVarcharType_resumable.resumes _ bad).swaps decl [] hok new hnew hfollow
      · intro e herror
        exact absurd (heq.symm.trans herror) (longVarcharType_ne_error l bad e)

/-! ## All types -/

/-- The types of every family are resumed, and `CHAR` makes up for a missing one. -/
theorem familyType_resumable (family : TypeFamily) :
    Resumable (some (.word none "CHAR")) closers (familyType family) := by
  cases family with
  | string => exact stringType_resumable
  | long => exact longType_resumable
  | integer => exact integerType_resumable
  | real => exact realType_resumable
  | decimal => exact decimalType_resumable
  | temporal => exact temporalType_resumable
  | simple => exact simpleType_resumable
  | collection => exact collectionType_resumable
  | spatial => exact spatialType_resumable

/-- The types that are told by their first words. -/
def nationalForms : List (Branch TypeDecl) := [
  ⟨[.word "NATIONAL"], nationalType⟩,
  ⟨[.word "NCHAR", .word "VARCHAR"], ncharType⟩]

/-- The type whose rule is that of its word. -/
def namedType : Parser TypeDecl := do
  match ← peekTypeKeyword? with
  | some keyword => familyType keyword.family
  | none => fail .dataType

/-- The rule of data types looks for the national forms first. -/
theorem dataType_eq_firstOf : dataType = firstOf nationalForms namedType :=
  choose?_or_eq fun _ => rfl

/-- A type that is no national one is read by the rule of the family of its first word. -/
theorem namedType_cons (l : Lexeme) (ls : List Lexeme) :
    namedType (l :: ls) = match TypeName.ofToken? l.token with
      | some name => familyType name.keyword.family (l :: ls)
      | none => fail .dataType (l :: ls) := by
  have hpeek : peekTypeKeyword? (l :: ls) =
      .ok ((TypeName.ofToken? l.token).map TypeName.keyword, l :: ls) := rfl
  rw [namedType, bind_of_ok hpeek]
  cases TypeName.ofToken? l.token with
  | none => rfl
  | some name => rfl

/-- A type that is told by its first word is resumed. -/
theorem namedType_resumable : Resumable (some (.word none "CHAR")) closers namedType := by
  -- Behind its first word the type is read by the rule of a family, which is resumed.
  refine .of_startable ?_ ?_ ?_ fun ls bad hls => ?_
  · intro ls
    cases ls with
    | nil => exact List.suffix_refl _
    | cons l ls =>
      unfold leaves
      rw [namedType_cons]
      cases TypeName.ofToken? l.token with
      | some name => exact (familyType_resumable _).forward _
      | none => exact List.suffix_refl _
  · intro ls a rest h
    cases ls with
    | nil => cases h
    | cons l ls =>
      rw [namedType_cons] at h
      cases hname : TypeName.ofToken? l.token with
      | some name => exact (familyType_resumable _).consumes nofun _ _ _ (by simpa [hname] using h)
      | none => simp [hname] at h
  · refine stringType_resumable.startable.of_eq (stringType_resumable.consumes nofun)
      fun l ls hl => ?_
    rw [namedType_cons, hl]
    rfl
  · obtain ⟨l, ls, rfl⟩ := List.exists_cons_of_ne_nil hls
    cases hname : TypeName.ofToken? l.token with
    | some name =>
      have heq : ∀ x, namedType (l :: ls ++ x) = familyType name.keyword.family (l :: ls ++ x) :=
        fun x => by rw [List.cons_append, namedType_cons, hname]
      exact .of_eq (heq bad) (fun new _ => heq new) ((familyType_resumable _).resumes _ bad)
    | none =>
      refine .of_missed (e := .dataType) hls ?_
      rw [List.cons_append, namedType_cons, hname]
      rfl

/-- A text that is given up inside a data type can be completed there. -/
theorem dataType_resumable : Resumable (some (.word none "CHAR")) closers dataType := by
  rw [dataType_eq_firstOf]
  refine .firstOf_demand ?_ (by decide) (by decide) namedType_resumable
  unfold nationalForms
  simp only [List.forall_mem_cons]
  exact ⟨.of_resumable nationalType_resumable, ncharType_leads, nofun⟩

end TableSchema.Grammar
