import TableSchema.Proofs.Column.Agreement
import TableSchema.Proofs.Column.Clause
import TableSchema.Proofs.Key.Resume

/-!
# Columns that are given up

The rules of clauses are resumed wherever their text is given up, and so is the whole column. Three
decisions look at a lexeme behind one that is not yet taken. An introducer is one only in front of a
single quoted literal, which is then taken too. The names of the functions `CAST` and `NOW` are read
only with a parenthesis behind them; without one they are no default value at all. And the column
ends in front of some symbols, which its own rule leaves.

## Main definitions

* `timestampForms`: the ways of writing the current time;
* `Introduced`: a single quoted literal stands behind its introducer;
* `calledWords`: the functions whose names are read only with a parenthesis.

## Main results

* `defaultValue_resumable`, `columnClause_resumable`: default values and clauses are resumed
  everywhere;
* `columnDefinition_resumableAt`: so is the whole column, if nothing is to follow it.
-/

set_option autoImplicit false

namespace TableSchema.Grammar

open TableSchema.Parser TableSchema.Lexeme

variable {ls bad more : List Lexeme}

/-! ## The current time -/

/-- What stands behind the parenthesis of a precision. -/
theorem precisionEnd_resumable : Resumable (some (.number "0")) fillers (do
    unless ← ahead [.symbol .closeParen] do discard number
    expect (.symbol .closeParen)) := by
  rw [ahead_bind_eq]
  refine .firstOf_demand ?_ ?_ ?_ ?_
  · exact List.forall_mem_singleton.2 (.of_resumable Resumable.expect_close)
  · exact List.forall_mem_singleton.2 rfl
  · exact List.forall_mem_singleton.2 rfl
  · exact Resumable.number.discard.firm_bind fun _ => Resumable.expect_close

/-- The precision of a time demands its parenthesis, and the number in it may be left out. -/
theorem precision_resumable : Resumable (some (.symbol .openParen)) fillers precision :=
  (Resumable.expect (by decide) rfl).firm_bind fun _ => precisionEnd_resumable

theorem precision_reaches : Reaches [.symbol .openParen] precision :=
  .expect_bind (.nil precisionEnd_resumable.forward)

/-- A precision that may be left out. -/
theorem sparePrecision_resumable :
    Resumable none closers (discard (ifAhead [.symbol .openParen] precision)) :=
  .discard (.ifAhead (by decide) precision_reaches (precision_resumable.mono (by decide)))

/-- The ways of writing the current time. -/
def timestampForms : List (Branch Unit) := [
  .behind [.word "NOW"] precision,
  .behind [.word "CURRENT_TIMESTAMP"] (discard (ifAhead [.symbol .openParen] precision)),
  .behind [.word "LOCALTIME"] (discard (ifAhead [.symbol .openParen] precision)),
  .behind [.word "LOCALTIMESTAMP"] (discard (ifAhead [.symbol .openParen] precision))]

/-- The spellings of the current time are a choice by their first word. -/
theorem currentTimestamp_eq_choose :
    currentTimestamp = choose .currentTimestamp timestampForms := by
  have hwords := aheadAny_bind_eq timestampWords fun word : Bool =>
    if word then (do skip 1; discard (ifAhead [.symbol .openParen] precision))
    else fail .currentTimestamp
  rw [choose_eq]
  exact (eat_bind_eq _ _).trans (congrArg (firstOf [.behind [.word "NOW"] precision]) hwords)

/-- Where the current time is missed, `CURRENT_TIMESTAMP` makes up for it. -/
theorem currentTimestamp_resumable :
    Resumable (some (.word none "CURRENT_TIMESTAMP")) closers currentTimestamp := by
  have hnow : Resumable (some (.symbol .openParen)) closers precision :=
    precision_resumable.mono (by decide)
  rw [currentTimestamp_eq_choose]
  refine .choose ?_ (by decide) ?_
  · unfold timestampForms
    simp only [List.forall_mem_cons]
    exact ⟨.behind (by decide) hnow, .behind (by decide) sparePrecision_resumable,
      .behind (by decide) sparePrecision_resumable, .behind (by decide) sparePrecision_resumable,
      nofun⟩
  · have heq : timestampForms = [.behind [.word "NOW"] precision] ++
        .behind [.word "CURRENT_TIMESTAMP"] (discard (ifAhead [.symbol .openParen] precision)) ::
          timestampForms.drop 2 := rfl
    rw [heq]
    refine .choose ?_ (by decide) (by decide) sparePrecision_resumable
    exact List.forall_mem_singleton.2 ⟨List.cons_ne_nil _ _, by decide⟩

/-- What may stand behind the current time. -/
theorem spareUpdate_resumable :
    Resumable none closers (after [.keyword "ON", .keyword "UPDATE"] currentTimestamp) :=
  .after (List.cons_ne_nil _ _) (by decide) (by decide) currentTimestamp_resumable

/-- Behind `ON UPDATE` the current time can be supplied once more. -/
theorem timestampDefault_resumable :
    Resumable (some (.word none "CURRENT_TIMESTAMP")) closers timestampDefault :=
  currentTimestamp_resumable.bind_spare fun _ => spareUpdate_resumable.discard

/-! ## Constants -/

/-- Where a constant is missed, zero makes up for it. -/
theorem bareConstant_resumable : Resumable (some (.number "0")) closers bareConstant := by
  refine .token?_bind rfl (fun _ => (Resumable.tokenRun (by decide)).discard) ?_
  exact ((Resumable.token _ (by decide) rfl).mono (by decide)).discard

/-- A single quoted literal is taken. -/
theorem bareConstant_leaves {s : Lexeme} (hs : isSingleQuoted s.token = true) :
    bareConstant.leaves (s :: ls) <:+ ls := by
  obtain ⟨text, htext⟩ : ∃ text, s.token.stringText? = some text := by
    unfold isSingleQuoted at hs
    split at hs
    · rename_i body heq
      exact ⟨_, by rw [heq]; rfl⟩
    · cases hs
  rw [bareConstant, leaves_bind_of_ok (token?_cons htext)]
  exact (Forward.tokenRun _).discard ls

/-- A single quoted literal stands behind its introducer. -/
def Introduced (ls : List Lexeme) : Prop :=
  ∃ i s later, ls = i :: s :: later ∧ isIntroducer i.token = true ∧ isSingleQuoted s.token = true

/-- Behind an introducer a constant is read like one without it. -/
theorem constant_introduced {i s : Lexeme} (hi : isIntroducer i.token = true)
    (hs : isSingleQuoted s.token = true) (ls : List Lexeme) :
    constant (i :: s :: ls) = bareConstant (s :: ls) := by
  have hboth : (isIntroducer i.token && isSingleQuoted s.token) = true := by rw [hi, hs]; rfl
  have hahead : introducerAhead (i :: s :: ls) = .ok (true, i :: s :: ls) :=
    congrArg (fun b => Except.ok (b, i :: s :: ls)) hboth
  rw [constant_eq, bind_of_ok hahead]
  rfl

/-- Without an introducer a constant is read as one that has none. -/
theorem constant_bare (h : ¬ Introduced ls) : constant ls = bareConstant ls := by
  have hahead : introducerAhead ls = .ok (false, ls) := by
    match ls with
    | [] => rfl
    | [l] => rfl
    | i :: s :: ls =>
      have hboth : (isIntroducer i.token && isSingleQuoted s.token) = false :=
        Bool.eq_false_iff.2 fun hboth =>
          h ⟨i, s, ls, rfl, (Bool.and_eq_true_iff.1 hboth).1, (Bool.and_eq_true_iff.1 hboth).2⟩
      exact congrArg (fun b => Except.ok (b, i :: s :: ls)) hboth
  rw [constant_eq, bind_of_ok hahead]
  rfl

/-- An introducer at the end of a text needs the literal behind it. -/
theorem Introduced.of_append (h : Introduced (ls ++ more)) (hls : ls ≠ [])
    (hnot : ¬ Introduced ls) :
    ∃ i s later, ls = [i] ∧ more = s :: later ∧ isIntroducer i.token = true ∧
      isSingleQuoted s.token = true := by
  obtain ⟨i, s, later, heq, hi, hs⟩ := h
  match ls with
  | [] => exact absurd rfl hls
  | [l] =>
    obtain ⟨rfl, rfl⟩ := List.cons.inj heq
    exact ⟨l, s, later, rfl, rfl, hi, hs⟩
  | l :: m :: ls =>
    obtain ⟨rfl, hlater⟩ := List.cons.inj heq
    obtain ⟨rfl, -⟩ := List.cons.inj hlater
    exact absurd ⟨l, m, ls, rfl, hi, hs⟩ hnot

/-- A constant is resumed, also where its introducer is the last lexeme. -/
theorem constant_resumable : Resumable (some (.number "0")) closers constant := by
  have hbare := bareConstant_resumable
  have hforward : Forward constant := by
    rw [constant_eq]
    refine (Forward.asks _).bind fun _ => .ite ?_ hbare.forward
    exact (Forward.skip 1).bind fun _ => hbare.forward
  -- Whether an introducer is there is seen from two lexemes, and the second one may be that of
  -- `bad`.
  refine .of_startable hforward ?_ ?_ fun ls bad hls => ?_
  · intro ls a rest h
    by_cases hin : Introduced ls
    · obtain ⟨i, s, later, rfl, hi, hs⟩ := hin
      rw [constant_introduced hi hs] at h
      exact Nat.lt_succ_of_lt (hbare.consumes nofun _ a rest h)
    · exact hbare.consumes nofun _ a rest (constant_bare hin ▸ h)
  · refine hbare.startable.of_eq (hbare.consumes nofun) fun l ls hl => constant_bare ?_
    rintro ⟨i, s, later, heq, hi, -⟩
    obtain ⟨rfl, -⟩ := List.cons.inj heq
    rw [hl] at hi
    cases hi
  · by_cases hin : Introduced ls
    · obtain ⟨i, s, later, rfl, hi, hs⟩ := hin
      exact .behind_cons (fun _ => constant_introduced hi hs _) (hbare.resumes (s :: later) bad)
    · by_cases hbad : Introduced (ls ++ bad)
      · -- The literal that `bad` begins with is taken.
        obtain ⟨i, s, later, rfl, rfl, hi, hs⟩ := hbad.of_append hls hin
        refine .of_leaves fun mid hleaves => ?_
        have heq : constant.leaves ([i] ++ s :: later) = bareConstant.leaves (s :: later) := by
          rw [leaves, leaves, List.singleton_append, constant_introduced hi hs]
        have hsuffix : bareConstant.leaves (s :: later) <:+ later := bareConstant_leaves hs
        have hle := hsuffix.length_le
        rw [← heq, hleaves, List.length_append, List.length_cons] at hle
        omega
      · refine .of_eq (constant_bare hbad) (fun new hnew => constant_bare fun h => ?_)
          (hbare.resumes ls bad)
        obtain ⟨i, s, later, -, rfl, -, hs⟩ := h.of_append hls hin
        have hfillers : ∀ t ∈ fillers, isSingleQuoted t = false := by decide
        exact Bool.false_ne_true ((hfillers _ (hnew s rfl)).symm.trans hs)

/-- Behind a sign a number can be supplied. -/
theorem signedConstant_resumable : Resumable (some (.number "0")) closers signedConstant := by
  rw [signedConstant, discard_bind]
  exact .token?_bind rfl (fun _ => constant_resumable) constant_resumable

/-! ## Default values -/

/-- The functions whose names are read only with a parenthesis behind them. -/
def calledWords : List String :=
  ["CAST", "NOW"]

/-- Words of the same letters are constants alike. -/
theorem constant_word_eq {t : Token} {word : String} (h : t.IsWord word) :
    isUnaryOperator t = isUnaryOperator (.word none word) ∧
      isPlainConstant t = isPlainConstant (.word none word) ∧
      isIntroducer t = isIntroducer (.word none word) := by
  refine ⟨?operator, ?plain, ?introducer⟩
  case operator =>
    rw [isUnaryOperator_eq, isUnaryOperator_eq]
    simp only [h.accepts_eq]
  case plain =>
    rw [isPlainConstant_eq, isPlainConstant_eq]
    simp only [h.accepts_eq]
    obtain ⟨value, rfl, -⟩ := h
    rfl
  case introducer =>
    obtain ⟨value, rfl, hsame⟩ := h
    have hlower : Text.lower value = Text.lower word := Text.sameAscii_iff.1 hsame
    rw [isIntroducer_eq, isIntroducer_eq, Token.bareWord?, Token.bareWord?, Option.map_some,
      Option.map_some, hlower]

/-- The name of such a function is no constant. -/
theorem signedConstant_called {l : Lexeme} {word : String} (hword : word ∈ calledWords)
    (h : l.token.IsWord word) (ls : List Lexeme) :
    signedConstant (l :: ls) = .error ⟨.defaultValue, l :: ls⟩ := by
  have hwords : ∀ word ∈ calledWords, isUnaryOperator (.word none word) = false ∧
      isPlainConstant (.word none word) = false ∧ isIntroducer (.word none word) = false := by
    decide
  -- The name is no sign, no string and no constant, and it introduces nothing.
  obtain ⟨hoperator, hplain, hintroducer⟩ := constant_word_eq h
  obtain ⟨hoperator', hplain', hintroducer'⟩ := hwords word hword
  have hstring : l.token.stringText? = none := by
    obtain ⟨value, hvalue, -⟩ := h
    rw [hvalue]
    rfl
  have hsign : token? (Option.guard isUnaryOperator) (l :: ls) = .ok (none, l :: ls) :=
    token?_of_none (by rintro _ ⟨⟩; simp [Option.guard, hoperator, hoperator'])
  have htext : token? Token.stringText? (l :: ls) = .ok (none, l :: ls) :=
    token?_of_none (by rintro _ ⟨⟩; exact hstring)
  have hvalue : Parser.token .defaultValue (Option.guard isPlainConstant) (l :: ls) =
      .error ⟨.defaultValue, l :: ls⟩ := by
    have hnone : token? (Option.guard isPlainConstant) (l :: ls) = .ok (none, l :: ls) :=
      token?_of_none (by rintro _ ⟨⟩; simp [Option.guard, hplain, hplain'])
    rw [Parser.token, bind_of_ok hnone]
    rfl
  have hbare : ¬ Introduced (l :: ls) := by
    rintro ⟨i, s, later, heq, hi, -⟩
    obtain ⟨rfl, -⟩ := List.cons.inj heq
    rw [hintroducer, hintroducer'] at hi
    cases hi
  rw [signedConstant, discard_bind, bind_of_ok hsign, constant_bare hbare, bareConstant,
    bind_of_ok htext]
  exact bind_of_error (f := fun _ => pure ()) hvalue

/-- A default value is one of the expressions, or a constant. -/
theorem defaultValue_eq_firstOf : defaultValue = firstOf defaultExpressions signedConstant :=
  choose?_or_eq fun _ => rfl

/-- Each form of a default value that is told by its first tokens is resumed behind them. -/
theorem defaultExpressions_lead : ∀ b ∈ defaultExpressions, b.Leads closers := by
  have hparenthesized : Resumable (some (.symbol .openParen)) closers parenthesized :=
    Resumable.parenthesized.mono (by decide)
  have htimestamp := timestampDefault_resumable
  have hnow : Reaches [.word "NOW", .symbol .openParen] timestampDefault := by
    have hcurrent : Reaches [.word "NOW", .symbol .openParen] currentTimestamp :=
      .eat_bind precision_reaches
    exact hcurrent.bind fun _ => spareUpdate_resumable.discard.forward
  unfold defaultExpressions
  simp only [List.forall_mem_cons]
  refine ⟨.behind (by decide) (.pure ()), ?cast, .of_resumable hparenthesized,
    .of_resumable htimestamp, .of_resumable htimestamp, .of_resumable htimestamp,
    .of_reaches (by decide) htimestamp fun _ => hnow, nofun⟩
  case cast =>
    exact .of_skip (by decide) (by decide) .parenthesized .parenthesized
      fun ls bad _ => hparenthesized.resumes ls bad

/-- A text that is given up inside a default value can be completed there. -/
theorem defaultValue_resumable : Resumable (some (.number "0")) closers defaultValue := by
  have hlead := defaultExpressions_lead
  rw [defaultValue_eq_firstOf]
  refine .firstOf_of_ne_nil hlead (by decide) signedConstant_resumable fun ls bad hls => ?_
  -- It matters what stands behind the text only if the text is the name of a function.
  by_cases hcalled : ∃ l word, ls = [l] ∧ word ∈ calledWords ∧ l.token.IsWord word
  · obtain ⟨l, word, rfl, hword, hl⟩ := hcalled
    rcases firstOf_cases defaultExpressions signedConstant ([l] ++ bad) with
      ⟨b, hb, hopens, heq⟩ | ⟨-, heq⟩
    · have hlong : 1 < b.opener.length := by
        have hwords : ∀ word ∈ calledWords, ∀ b ∈ defaultExpressions, ∀ t ∈ b.opener.head?,
            t.accepts (.word none word) = true → 1 < b.opener.length := by decide
        obtain ⟨t, pattern, hopener⟩ := List.exists_cons_of_ne_nil (hlead b hb).nonempty
        rw [hopener] at hopens
        obtain ⟨l, _, ⟨⟩, ht, -⟩ := Terminal.opens_cons.1 hopens
        exact hwords word hword b hb t (by rw [hopener]; rfl) (hl.accepts_eq t ▸ ht)
      exact .of_leaves_of_eq heq (((hlead b hb).reaches hlong).ne_append hopens hlong)
    · exact .of_missed hls (heq.trans (signedConstant_called hword hl bad))
  · have hlengths : ∀ b ∈ defaultExpressions, b.opener.length ≤ 2 := by decide
    have hwords : ∀ b ∈ defaultExpressions, 1 < b.opener.length →
        ∃ word ∈ calledWords, b.opener.head? = some (.word word) := by decide
    refine .firstOf hls hlead (fun b hb new _ => ?_) (signedConstant_resumable.resumes ls bad)
    by_cases hshort : b.opener.length ≤ ls.length
    · exact Terminal.opens_append_of_le hshort new
    · have hpos := List.length_pos_iff.2 hls
      have htwo := hlengths b hb
      obtain ⟨l, rfl⟩ := List.length_eq_one_iff.1 (show ls.length = 1 by omega)
      obtain ⟨word, hword, hhead⟩ := hwords b hb (by omega)
      obtain ⟨pattern, hopener⟩ := List.head?_eq_some_iff.1 hhead
      have hl : (Terminal.word word).accepts l.token = false :=
        Bool.eq_false_iff.2 fun h => hcalled ⟨l, word, rfl, hword, Token.isWord_iff.2 h⟩
      rw [hopener, List.singleton_append, Terminal.opens, Terminal.opens, hl, Bool.false_and,
        Bool.false_and]

/-! ## Clauses -/

/-- Behind `GENERATED` the words `ALWAYS AS` and the expression can be supplied. -/
theorem generatedColumn_resumable :
    Resumable (some (.word none "AS")) closers generatedColumn := by
  have hstorage : Resumable none closers (do
      unless ← eat (.word "VIRTUAL") do discard (eat (.word "STORED"))) :=
    .eat_bind_spare (by decide) (.pure ()) (Resumable.eat (by decide)).discard
  have has : Resumable (some (.word none "AS")) fillers (expect (.keyword "AS")) :=
    .expect (by decide) (by decide)
  have halways : Resumable (some (.word none "ALWAYS")) fillers (expect (.word "ALWAYS")) :=
    .expect (by decide) (by decide)
  have hend : Resumable (some (.word none "AS")) closers (do
      expect (.keyword "AS")
      parenthesized
      unless ← eat (.word "VIRTUAL") do discard (eat (.word "STORED"))) :=
    has.firm_bind fun _ => Resumable.parenthesized.firm_bind fun _ => hstorage
  exact .eat_bind_demand (by decide) (halways.firm_bind fun _ => hend) hend

/-- Behind the name of a check the word itself can be supplied. -/
theorem columnCheck_resumable : Resumable (some (.word none "CHECK")) closers columnCheck := by
  have hcheck : Resumable (some (.word none "CHECK")) fillers (expect (.keyword "CHECK")) :=
    .expect (by decide) (by decide)
  have hend : ∀ name, Resumable (some (.word none "CHECK")) closers (do
      expect (.keyword "CHECK")
      return ColumnClause.check name (← glued parenthesized)) := fun name =>
    hcheck.firm_bind fun _ => Resumable.parenthesized.glued.firm_bind fun _ => .pure _
  -- Behind `CONSTRAINT` there is a name, or the check itself.
  have hnamed : Resumable (some (.word (some '\x60') "x")) closers (do
      let name ← if ← ahead [.keyword "CHECK"] then pure none else some <$> identifier
      expect (.keyword "CHECK")
      return ColumnClause.check name (← glued parenthesized)) := by
    refine Eq.mpr (congrArg (Resumable _ closers) (ahead_bind_eq _ _)) ?_
    refine .firstOf_demand ?_ ?_ ?_ ?_
    · exact List.forall_mem_singleton.2 (.of_resumable (hend none))
    · exact List.forall_mem_singleton.2 rfl
    · exact List.forall_mem_singleton.2 rfl
    · exact (Resumable.identifier.map some).firm_bind hend
  exact .eat_bind_demand (by decide) hnamed (hend none)

/-- Each clause of a column is resumed once its first words are there. -/
theorem columnClauses_lead : ∀ b ∈ columnClauses, b.Leads closers := by
  have hkey : Resumable (some (.word none "KEY")) fillers (expect (.keyword "KEY")) :=
    expect_key_resumable
  have hnull : Resumable (some (.word none "NULL")) fillers (expect (.keyword "NULL")) :=
    .expect (by decide) (by decide)
  have hdefault : Resumable (some (.word none "DEFAULT")) fillers (expect (.keyword "DEFAULT")) :=
    .expect (by decide) (by decide)
  have hvalue : Resumable (some (.word none "VALUE")) fillers (expect (.word "VALUE")) :=
    .expect (by decide) (by decide)
  have hformat : Resumable (some (.word none "FIXED")) fillers
      (oneOf ["FIXED", "DYNAMIC", "DEFAULT"]) := Resumable.oneOf (by decide) (by decide) (by decide)
  have hstorage : Resumable (some (.word none "DISK")) fillers
      (oneOf ["DISK", "MEMORY", "DEFAULT"]) := Resumable.oneOf (by decide) (by decide) (by decide)
  have hgenerated : Resumable (some (.word none "AS")) closers
      (do return ColumnClause.generated (← glued generatedColumn)) :=
    generatedColumn_resumable.glued.bind_spare fun _ => .pure _
  -- Each clause is taken apart once: what its opener leaves to be read is one of these rules.
  unfold columnClauses
  simp only [List.forall_mem_cons]
  refine ⟨?notNull, ?null, ?default, ?visible, ?invisible, ?increment, ?onUpdate, ?primary, ?key,
    ?unique, ?comment, ?format, ?storage, ?references, ?collate, ?generated, ?as, ?serial,
    ?constraint, ?check, nofun⟩
  case notNull => exact .behind (by decide) (hnull.firm_bind fun _ => .pure _)
  case null => exact .behind (by decide) (.pure _)
  case default =>
    exact .behind (by decide) (defaultValue_resumable.glued.bind_spare fun _ => .pure _)
  case visible => exact .behind (by decide) (.pure _)
  case invisible => exact .behind (by decide) (.pure _)
  case increment => exact .behind (by decide) (.pure _)
  case onUpdate =>
    exact .behind (by decide) (currentTimestamp_resumable.glued.bind_spare fun _ => .pure _)
  case primary => exact .behind (by decide) (hkey.firm_bind fun _ => .pure _)
  case key => exact .behind (by decide) (.pure _)
  case unique =>
    exact .behind (by decide) ((Resumable.eat (by decide)).bind_spare fun _ => .pure _)
  case comment => exact .behind (by decide) (Resumable.stringLiteral.firm_bind fun _ => .pure _)
  case format => exact .behind (by decide) (hformat.firm_bind fun _ => .pure _)
  case storage => exact .behind (by decide) (hstorage.firm_bind fun _ => .pure _)
  case references => exact .of_resumable (reference_resumable.bind_spare fun _ => .pure _)
  case collate => exact .behind (by decide) (charsetName_resumable.firm_bind fun _ => .pure _)
  case generated => exact .of_resumable hgenerated
  case as => exact .of_resumable hgenerated
  case serial =>
    exact .behind (by decide) (hdefault.firm_bind fun _ => hvalue.firm_bind fun _ => .pure _)
  case constraint => exact .of_resumable columnCheck_resumable
  case check => exact .of_resumable columnCheck_resumable

/-- A text that is given up inside a clause can be completed there. -/
theorem columnClause_resumable : Resumable (some (.word none "NULL")) closers columnClause := by
  refine .choose columnClauses_lead (by decide) ?_
  have heq : columnClauses =
      [.behind [.keyword "NOT"] (do expect (.keyword "NULL"); return .nullability true)] ++
        .behind [.keyword "NULL"] (pure (.nullability false)) :: columnClauses.drop 2 := rfl
  rw [heq]
  refine .choose ?_ (by decide) (by decide) (Resumable.pure (ColumnClause.nullability false))
  exact List.forall_mem_singleton.2 ⟨List.cons_ne_nil _ _, by decide⟩

/-! ## Columns -/

theorem nextClause_forward : Forward nextClause :=
  (Forward.asks _).bind fun _ => .ite (.pure none) columnClause_resumable.forward.map

/-- A clause is one lexeme at least. -/
theorem nextClause_advances : Advances nextClause := by
  intro ls clause rest h
  obtain ⟨hnone, -⟩ | ⟨clause, -, hclause⟩ := of_nextClause h
  · nomatch hnone
  · exact columnClause_resumable.consumes nofun _ _ _ hclause

/-- What a column ends with is told by the first lexeme. -/
theorem isColumnEnd_cons (l : Lexeme) (ls : List Lexeme) :
    isColumnEnd (l :: ls) = isColumnEnd [l] :=
  rfl

/-- The clauses end where the column ends. -/
theorem many_nextClause_end (h : isColumnEnd ls = true) : many nextClause ls = .ok ([], ls) := by
  refine many_of_none ?_
  rw [nextClause, bind_of_ok (asks_ok _ _), h]
  rfl

/-- A clause and those behind it. -/
def someClauses : Parser (List ColumnClause) := do
  let clause ← columnClause
  (clause :: ·) <$> many nextClause

/-- Where the column goes on, there is a clause. -/
theorem many_nextClause_clause (h : isColumnEnd ls = false) :
    many nextClause ls = someClauses ls := by
  rw [many_eq_bind nextClause_advances]
  change (asks isColumnEnd >>= _ >>= _) ls = _
  rw [bind_assoc, bind_of_ok (asks_ok _ _), h]
  simp only [Bool.false_eq_true, if_false, bind_assoc, pure_bind]
  rfl

/-- The column ends in front of a symbol that may follow other rules, so what is said of repetitions
does not apply here: the clauses are resumed if nothing is to follow them. -/
theorem many_nextClause_resumableAt (ls bad : List Lexeme) :
    ResumableAt (some (.word none "NULL")) [] (many nextClause) ls bad := by
  have hclause := columnClause_resumable
  have hforward : Forward (many nextClause) := nextClause_forward.many
  have hend : many nextClause [] = .ok ([], []) := many_nextClause_end rfl
  have hconsumes : Consumes someClauses := (hclause.consumes nofun).bind fun _ => hforward.map
  have hstart : ∀ clause, Startable (some (.word none "NULL")) []
      ((clause :: ·) <$> many nextClause) := by
    refine fun clause => ⟨[], [clause], List.nil_subset _, nofun, fun us _ hus => ?_⟩
    obtain rfl := hus.eq_nil
    exact map_eq_ok.2 ⟨[], hend, rfl⟩
  -- The induction is on what stands in front of `bad`, of which every clause takes something.
  induction hn : ls.length using Nat.strongRecOn generalizing ls with
  | ind n ih =>
    have hsome : ResumableAt (some (.word none "NULL")) [] someClauses ls bad := by
      refine (hclause.resumes ls bad).bind hclause.forward hclause.consumes
        (fun _ => hforward.map) hstart (fun clause mid hok => ?_) (by decide)
        (.inl fun us _ hus => hus.mono (List.nil_subset _))
      have hlt := hclause.consumes nofun _ _ _ hok
      rw [List.length_append, List.length_append] at hlt
      exact (ih mid.length (by omega) mid rfl).map _
    cases ls with
    | nil =>
      cases hbad : isColumnEnd bad with
      | true =>
        have hok : many nextClause ([] ++ bad) = .ok ([], bad) := many_nextClause_end hbad
        constructor
        · intro cs mid h new _ hnew
          obtain ⟨rfl, hmid⟩ := Prod.mk.inj (Except.ok.inj (hok.symm.trans h))
          obtain rfl : [] = mid := List.append_cancel_right hmid
          obtain rfl := (hnew rfl).eq_nil
          exact hend
        · exact fun e h => nomatch hok.symm.trans h
      | false =>
        have heq : many nextClause ([] ++ bad) = someClauses ([] ++ bad) :=
          many_nextClause_clause hbad
        constructor
        · intro cs mid h
          obtain rfl := eq_nil_of_suffix (hforward.suffix_of_ok h)
          exact absurd (heq.symm.trans h) (hconsumes.ne_ok_self _ _)
        · intro e h
          obtain ⟨more, cs, hne, hsub, hhead, hmore⟩ := hsome.completes e (heq.symm.trans h)
          refine ⟨more, cs, hne, hsub, hhead, fun us hus hfollow => ?_⟩
          obtain ⟨more, rfl⟩ := List.head?_eq_some_iff.1 (hhead rfl)
          exact (many_nextClause_clause (by rfl)).trans (hmore us hus hfollow)
    | cons l ls =>
      cases hl : isColumnEnd [l] with
      | true =>
        have hok : ∀ rest, many nextClause (l :: ls ++ rest) = .ok ([], l :: ls ++ rest) :=
          fun rest => many_nextClause_end ((isColumnEnd_cons l _).trans hl)
        constructor
        · intro cs mid h new _ _
          obtain ⟨rfl, hmid⟩ := Prod.mk.inj (Except.ok.inj ((hok bad).symm.trans h))
          obtain rfl := List.append_cancel_right hmid
          exact hok new
        · exact fun e h => nomatch (hok bad).symm.trans h
      | false =>
        have heq : ∀ rest, many nextClause (l :: ls ++ rest) = someClauses (l :: ls ++ rest) :=
          fun rest => many_nextClause_clause ((isColumnEnd_cons l _).trans hl)
        exact .of_eq (heq bad) (fun new _ => heq new) hsome

theorem columnDefinition_forward : Forward columnDefinition :=
  dataType_resumable.forward.bind fun _ => nextClause_forward.many.bind fun _ => .pure _

/-- A text that is given up inside a column can be completed there, to its end. -/
theorem columnDefinition_resumableAt (ls bad : List Lexeme) :
    ResumableAt (some (.word none "CHAR")) [] columnDefinition ls bad := by
  have hclauses : ∀ type ls bad, ResumableAt (some (.word none "NULL")) []
      (ColumnDecl.mk type <$> many nextClause) ls bad :=
    fun type ls bad => (many_nextClause_resumableAt ls bad).map _
  have hstart : ∀ type, Startable (some (.word none "NULL")) []
      (ColumnDecl.mk type <$> many nextClause) := by
    refine fun type => ⟨[], ⟨type, []⟩, List.nil_subset _, nofun, fun us _ hus => ?_⟩
    obtain rfl := hus.eq_nil
    exact map_eq_ok.2 ⟨[], many_nextClause_end rfl, rfl⟩
  exact (dataType_resumable.resumes ls bad).bind dataType_resumable.forward
    dataType_resumable.consumes (fun _ => nextClause_forward.many.map) hstart
    (fun type mid _ => hclauses type mid bad) (by decide)
    (.inl fun us _ hus => hus.mono (List.nil_subset _))

end TableSchema.Grammar
