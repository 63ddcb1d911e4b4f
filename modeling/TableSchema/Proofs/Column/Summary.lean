import Mathlib.Data.List.Induction
import TableSchema.Proofs.Column.Clause
import TableSchema.Proofs.Script.Findings

/-!
# What the clauses of a column say together

The clauses of a column are read one after the other, but few of them depend on what stands before
them. Most set a mark that no other clause takes back, or they are left out. Three kinds of clauses
replace what an earlier one of the same kind said: those on `NULL`, on the default value and on the
comment. So clauses may change places as long as those of each of these three kinds stay in order.

## Main definitions

* `ColumnConstraint.summary`: what the clauses say, seen from the list as a whole.

## Main results

* `ColumnConstraint.gives_summary`: reading the clauses one after the other gives their summary;
* `ColumnConstraint.ofClauses_perm`: clauses in another order say the same.
-/

namespace TableSchema

open Resolve

namespace ColumnClause

/-- For `NOT NULL` and `NULL`, whether it is the former. -/
def notNull? : ColumnClause → Option Bool
  | nullability notNull => some notNull
  | _ => none

/-- The literal of a `COMMENT` clause. -/
def commentLiteral? : ColumnClause → Option String
  | comment literal => some literal
  | _ => none

end ColumnClause

namespace ColumnConstraint

/-- What the clauses say together. On `NULL`, on the default value and on the comment the last
clause of the kind decides; each of the other marks is set if there is a clause for it. -/
def summary (clauses : List ColumnClause) : ColumnConstraint where
  notNull := (clauses.filterMap ColumnClause.notNull?).getLast?.getD false
  defaultValue := (clauses.filterMap ColumnClause.defaultText?).getLast?.map .ofText
  autoIncrement := .autoIncrement ∈ clauses
  primary := .key true ∈ clauses
  key := .key false ∈ clauses
  unique := .unique true ∈ clauses ∨ .unique false ∈ clauses
  comment :=
    ((clauses.filterMap ColumnClause.commentLiteral?).getLast?.map commentOfLiteral).getD ""

/-- One more clause at the end adds what it says itself. -/
theorem addClause_gives_summary (clauses : List ColumnClause) (clause : ColumnClause) :
    Gives ((summary clauses).addClause clause) (summary (clauses ++ [clause])) clause.findings := by
  have hpure : ∀ {c c' : ColumnConstraint}, c' = c → Gives (pure c) c' [] := by
    rintro c c' rfl
    exact Gives.pure _
  cases clause with
  | nullability | default | autoIncrement | comment =>
    exact hpure (by simp [summary, ColumnClause.notNull?, ColumnClause.defaultText?,
      ColumnClause.commentLiteral?])
  | key flag | unique flag =>
    cases flag <;>
      exact hpure (by simp [summary, ColumnClause.notNull?, ColumnClause.defaultText?,
        ColumnClause.commentLiteral?, setKeyKind])
  | onUpdate | reference | storage | visible | invisible | serialDefault | generated | columnFormat
    | collation | check =>
    -- What is left out is noted and changes nothing.
    exact (hpure (by simp [summary, ColumnClause.notNull?, ColumnClause.defaultText?,
      ColumnClause.commentLiteral?])).note_then _

/-- Reading clauses one after the other gives their summary and notes those that are left out. -/
theorem gives_summary (clauses : List ColumnClause) :
    Gives (ofClauses clauses) (summary clauses) (clauses.flatMap ColumnClause.findings) := by
  -- The induction takes clauses off the end, where a summary grows.
  induction clauses using List.reverseRecOn with
  | nil => exact Gives.pure _
  | append_singleton clauses clause ih =>
    have hstep := ih.bind (f := (addClause · clause)) (addClause_gives_summary clauses clause)
    simpa [ofClauses] using hstep

/-- Clauses in another order have the same summary if those on `NULL`, on the default value and on
the comment stay in order, each kind among themselves. -/
theorem summary_perm {clauses others : List ColumnClause} (hperm : clauses.Perm others)
    (hnull : clauses.filterMap ColumnClause.notNull? = others.filterMap ColumnClause.notNull?)
    (hdefault : clauses.filterMap ColumnClause.defaultText? =
      others.filterMap ColumnClause.defaultText?)
    (hcomment : clauses.filterMap ColumnClause.commentLiteral? =
      others.filterMap ColumnClause.commentLiteral?) :
    summary clauses = summary others := by
  -- The other marks only ask which clauses there are.
  have hmem (clause : ColumnClause) : clause ∈ clauses ↔ clause ∈ others := hperm.mem_iff
  simp only [summary, hnull, hdefault, hcomment, hmem]

/-- Column clauses commute: in another order, in which the clauses on `NULL`, on the default value
and on the comment stay in order, each kind among themselves, clauses say the same, whatever was
noted before, and the same is noted, perhaps in another order. -/
theorem ofClauses_perm {clauses others : List ColumnClause} (hperm : clauses.Perm others)
    (hnull : clauses.filterMap ColumnClause.notNull? = others.filterMap ColumnClause.notNull?)
    (hdefault : clauses.filterMap ColumnClause.defaultText? =
      others.filterMap ColumnClause.defaultText?)
    (hcomment : clauses.filterMap ColumnClause.commentLiteral? =
      others.filterMap ColumnClause.commentLiteral?) :
    ∃ c findings findings', Gives (ofClauses clauses) c findings ∧
      Gives (ofClauses others) c findings' ∧ findings.Perm findings' := by
  refine ⟨summary clauses, _, _, gives_summary clauses, ?_, hperm.flatMap_right _⟩
  rw [summary_perm hperm hnull hdefault hcomment]
  exact gives_summary others

/-- A primary key, a default value and a comment may change places with clauses that are left out
and with one on `NULL`, here of a column that is declared twice to have a default value. -/
theorem ofClauses_perm_key :
    [ColumnClause.default "1", .visible, .key true, .nullability true, .default "2", .comment "'a'"].Perm
        [.comment "'a'", .nullability true, .default "1", .key true, .default "2", .visible] ∧
      ∃ c findings findings',
        Gives (ofClauses [.default "1", .visible, .key true, .nullability true, .default "2",
          .comment "'a'"]) c findings ∧
        Gives (ofClauses [.comment "'a'", .nullability true, .default "1", .key true, .default "2",
          .visible]) c findings' ∧ findings.Perm findings' :=
  ⟨by decide, ofClauses_perm (by decide) rfl rfl rfl⟩

end ColumnConstraint

end TableSchema
