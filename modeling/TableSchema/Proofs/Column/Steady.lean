import TableSchema.Column.Grammar
import TableSchema.Proofs.DataType.Steady
import TableSchema.Proofs.Key.Steady

/-!
# Columns at a seam

The clauses of a column stop at a seam, default values and computed columns among them, and the
column itself ends there, since the seam begins with a mark.

## Main results

* `columnDefinition_steady`: the grammar of columns is steady at every seam.
-/

namespace TableSchema.Grammar

open TableSchema.Parser TableSchema.Parser.Seam

variable (s : Seam)

/-! ## Default values -/

/-- The precision of a time stands in its own parentheses. -/
theorem precision_steady : s.Steady precision := by
  refine (Steady.expect _).bind fun _ => ?_
  -- Whether the parenthesis closes at once is asked where something is still left.
  refine Steady.bind_closing (Steady.ahead_of_tail fun hleft => absurd hleft not_enclosed_left_nil)
    (fun closed => ?_) fun closed => ?_
  · cases closed with
    | true => exact closes_expect_closeParen
    | false =>
      -- The parenthesis stands behind the number.
      intro ls a rest h
      obtain ⟨u, mid, hnumber, hclose⟩ := bind_eq_ok.1 h
      obtain ⟨digits, hdigits⟩ := discard_eq_ok.1 hnumber
      obtain ⟨l, rfl, -⟩ := token_eq_ok.1 hdigits
      exact List.mem_cons_of_mem _ (closes_expect_closeParen mid a rest hclose)
  · cases closed with
    | true => exact .expect _
    | false => exact Steady.bind (.discard .number) fun _ => .expect _

/-- A word that stands for the current time is there if it comes next. -/
theorem length_pos_of_timestampWord {ls : List Lexeme}
    (h : Terminal.opensAny timestampWords ls = true) : 1 ≤ ls.length := by
  obtain ⟨pattern, hmem, hpattern⟩ := List.any_eq_true.1 h
  have hle := Terminal.length_le_of_opens hpattern
  have hone : ∀ p ∈ timestampWords, p.length = 1 := by decide
  rwa [hone pattern hmem] at hle

theorem currentTimestamp_steady : s.Steady currentTimestamp := by
  refine (Steady.eat rfl).bind fun now => .ite (precision_steady s) ?_
  intro ls hls
  refine (Steady.aheadAny rfl ls hls).bind fun word mid hword => ?_
  obtain ⟨hopens, rfl⟩ := asks_eq_ok.1 hword
  cases word with
  | false => exact Steady.fail _ ls hls
  | true =>
    exact .skip_then (length_pos_of_timestampWord hopens) hls
      (.discard (.ifAhead rfl (precision_steady s)))

/-- `ON UPDATE` behind a default value stands in front of the seam. -/
theorem timestampDefault_steady : s.Steady timestampDefault :=
  (currentTimestamp_steady s).bind fun _ => .discard (.after rfl (currentTimestamp_steady s))

/-- A mark is no bare word. -/
theorem bareWord?_mark {u : Token} (h : u.isMark = true) : u.bareWord? = none := by
  obtain ⟨sym, rfl⟩ := Token.symbol_of_isMark h
  rfl

/-- A literal is not parted from its introducer by the seam, since a mark is neither. -/
theorem introducerAhead_steady : s.Steady introducerAhead := by
  unfold introducerAhead
  refine .asks_pair (fun u hu => by simp [isIntroducer, bareWord?_mark hu]) fun u hu => ?_
  obtain ⟨sym, rfl⟩ := Token.symbol_of_isMark hu
  rfl

/-- An introducer stands in front of its literal, and a mark is no literal. -/
theorem constant_steady : s.Steady constant := by
  -- What stands behind an introducer is read like a constant without one.
  have hliteral : ∀ {f : Option String → Parser Unit},
      (∀ text, f (some text) = discard (tokenRun Token.stringText?)) →
      f none = discard (token .defaultValue (Option.guard isPlainConstant)) →
      s.Steady (token? Token.stringText? >>= f) := by
    intro f hsome hnone
    refine (Steady.token? fun u hu => stringText?_mark hu).bind fun literal? => ?_
    cases literal? with
    | some text =>
      rw [hsome]
      exact .discard (.tokenRun fun u hu => stringText?_mark hu)
    | none =>
      rw [hnone]
      exact .discard (.token _ _)
  intro ls hls
  refine (introducerAhead_steady s ls hls).bind fun introduced mid h => ?_
  obtain ⟨hintroduced, rfl⟩ := asks_eq_ok.1 h
  cases introduced with
  | false => exact hliteral (fun _ => rfl) rfl ls hls
  | true =>
    -- The introducer that is passed over is there.
    have hlength : 1 ≤ ls.length := by
      cases ls with
      | nil => simp at hintroduced
      | cons l ls => simp
    exact .skip_then hlength hls (hliteral (fun _ => rfl) rfl)

theorem signedConstant_steady : s.Steady signedConstant := by
  refine Steady.bind (.discard (.token? fun u hu => ?_)) fun _ => constant_steady s
  rcases Token.isMark_iff.1 hu with rfl | rfl | rfl
  · rfl
  · rfl
  · rfl

/-- Each form of a default value stops at the seam. -/
theorem defaultExpressions_steady : ∀ b ∈ defaultExpressions, s.SteadyBranch b := by
  unfold defaultExpressions
  simp only [List.forall_mem_cons]
  refine ⟨.behind rfl (.pure ()), .mk_skip rfl (by decide) .parenthesized, .mk rfl .parenthesized,
    ?_, ?_, ?_, ?_, nofun⟩
  all_goals exact .mk rfl (timestampDefault_steady s)

theorem defaultValue_steady : s.Steady defaultValue := by
  refine Steady.bind (.choose? (defaultExpressions_steady s)) fun found? => ?_
  cases found? with
  | some found => exact .pure ()
  | none => exact signedConstant_steady s

/-! ## Clauses -/

/-- The expression of a generated column stands in its own parentheses. -/
theorem generatedColumn_steady : s.Steady generatedColumn := by
  -- `GENERATED ALWAYS` is left out together, and what stands behind it is the same.
  have hstored : s.Steady (do unless ← eat (.word "VIRTUAL") do discard (eat (.word "STORED"))) :=
    (Steady.eat rfl).bind fun _ => .ite (.pure ()) (.discard (.eat rfl))
  have hend : s.Steady (do
      expect (.keyword "AS")
      parenthesized
      unless ← eat (.word "VIRTUAL") do discard (eat (.word "STORED"))) :=
    (Steady.expect _).bind fun _ => Steady.parenthesized.bind fun _ => hstored
  exact (Steady.eat rfl).bind fun _ => .ite ((Steady.expect _).bind fun _ => hend) hend

theorem columnCheck_steady : s.Steady columnCheck := by
  -- A check is read the same with a name, without one, and with `CONSTRAINT` alone.
  have hend : ∀ name, s.Steady (do
      expect (.keyword "CHECK")
      return ColumnClause.check name (← glued parenthesized)) := fun name =>
    (Steady.expect _).bind fun _ => (Steady.glued .parenthesized).bind fun _ => .pure _
  refine (Steady.eat rfl).bind fun named => .ite ?_ ((Steady.pure none).bind hend)
  refine (Steady.ahead rfl).bind fun bare => .ite ((Steady.pure none).bind hend) ?_
  exact (Steady.identifier.map some).bind hend

/-- Each clause of a column stops at the seam. -/
theorem columnClauses_steady : ∀ b ∈ columnClauses, s.SteadyBranch b := by
  unfold columnClauses
  simp only [List.forall_mem_cons]
  refine ⟨?notNull, ?null, ?default, ?visible, ?invisible, ?increment, ?onUpdate, ?primary, ?key,
    ?unique, ?comment, ?format, ?storage, ?references, ?collate, ?generated, ?as, ?serial,
    ?constraint, ?check, nofun⟩
  -- A clause takes its opener first; where the opener is only looked at, the body takes it.
  case notNull => exact .behind rfl ((Steady.expect _).bind fun _ => .pure _)
  case null => exact .behind rfl (.pure _)
  case default => exact .behind rfl ((Steady.glued (defaultValue_steady s)).bind fun _ => .pure _)
  case visible => exact .behind rfl (.pure _)
  case invisible => exact .behind rfl (.pure _)
  case increment => exact .behind rfl (.pure _)
  case onUpdate =>
    exact .behind rfl ((Steady.glued (currentTimestamp_steady s)).bind fun _ => .pure _)
  case primary => exact .behind rfl ((Steady.expect _).bind fun _ => .pure _)
  case key => exact .behind rfl (.pure _)
  case unique => exact .behind rfl ((Steady.eat rfl).bind fun _ => .pure _)
  case comment => exact .behind rfl (Steady.stringLiteral.bind fun _ => .pure _)
  case format => exact .behind rfl ((Steady.oneOf _).bind fun _ => .pure _)
  case storage => exact .behind rfl ((Steady.oneOf _).bind fun _ => .pure _)
  case references => exact .mk rfl ((reference_steady s).bind fun _ => .pure _)
  case collate => exact .behind rfl ((charsetName_steady s).bind fun _ => .pure _)
  case generated => exact .mk rfl ((Steady.glued (generatedColumn_steady s)).bind fun _ => .pure _)
  case as => exact .mk rfl ((Steady.glued (generatedColumn_steady s)).bind fun _ => .pure _)
  case serial =>
    refine .behind rfl ((Steady.expect _).bind fun _ => ?_)
    exact (Steady.expect _).bind fun _ => .pure _
  case constraint => exact .mk rfl (columnCheck_steady s)
  case check => exact .mk rfl (columnCheck_steady s)

theorem columnClause_steady : s.Steady columnClause :=
  .choose (columnClauses_steady s)

/-- A column that ends at the end of its text ends at the seam as well. -/
theorem isColumnEnd_steady : s.Steady (asks isColumnEnd) := by
  refine .asks fun ls ls' hleft hls' => ?_
  cases ls with
  | nil =>
    cases ls' with
    | nil => rfl
    | cons l' ls' =>
      have hmark := isMark_of_tail hleft nofun hls'
      -- A column ends at each of the three marks.
      rcases Token.isMark_iff.1 hmark with h | h | h
      · simp [isColumnEnd, Terminal.opensAny, Terminal.opens, Terminal.accepts, h]
      · simp [isColumnEnd, Terminal.opensAny, Terminal.opens, Terminal.accepts, h]
      · simp [isColumnEnd, Terminal.opensAny, Terminal.opens, Terminal.accepts, h]
  | cons l ls =>
    obtain ⟨l', ls'', rfl, hhead, -⟩ := continues_cons hls'
    simp [isColumnEnd, Terminal.opensAny, Terminal.opens, hhead]

/-- A column takes nothing behind the seam. -/
theorem columnDefinition_steady : s.Steady columnDefinition := by
  refine (dataType_steady s).bind fun type => Steady.bind (.many ?_) fun clauses => .pure _
  refine (isColumnEnd_steady s).bind fun ends => .ite (.pure none) ?_
  exact (columnClause_steady s).map some

end TableSchema.Grammar
