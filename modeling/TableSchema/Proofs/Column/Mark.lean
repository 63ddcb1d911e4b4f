import TableSchema.Proofs.Column.Summary

/-!
# The marks of a key on a column

A clause marks its column as a primary key or as a key, and so does recording a kind of key. One
clause sets one of the two marks. No clause takes a mark back, so a column that is declared both
ways carries both marks, in whatever order its clauses stand, and then the primary key counts as its
kind.

## Main definitions

* `ColumnClause.keyKind?`: the kind of key that a clause declares;
* `ColumnConstraint.MarkedBy`: the marks of a column are those of kinds of keys.

## Main results

* `ColumnConstraint.MarkedBy.setKeyKind`: recording one more kind;
* `ColumnConstraint.primary_and_key_iff`: when a column carries both marks.
-/

namespace TableSchema

open Resolve

namespace ColumnClause

/-- The kind of key that a clause declares, if it declares one. -/
def keyKind? : ColumnClause → Option KeyKind
  | key primary => some (if primary then .primary else .key)
  | _ => none

/-- A kind of key is declared by its own clause only. -/
theorem mem_keyKinds (primary : Bool) (clauses : List ColumnClause) :
    (if primary then .primary else .key) ∈ clauses.filterMap keyKind? ↔ .key primary ∈ clauses := by
  have hkind (clause : ColumnClause) :
      clause.keyKind? = some (if primary then .primary else .key) ↔ .key primary = clause := by
    cases clause with
    | key flag => cases flag <;> cases primary <;> simp [keyKind?]
    | _ => simp [keyKind?]
  simp only [List.mem_filterMap, hkind, exists_eq_right']

end ColumnClause

namespace ColumnConstraint

variable {c : ColumnConstraint} {kinds : List KeyKind}

/-- The column carries the marks of the kinds, and no others. -/
structure MarkedBy (c : ColumnConstraint) (kinds : List KeyKind) : Prop where
  primary : c.primary = true ↔ .primary ∈ kinds
  key : c.key = true ↔ .key ∈ kinds

namespace MarkedBy

/-- A column without clauses carries no mark. -/
theorem empty : MarkedBy {} [] :=
  ⟨by simp, by simp⟩

/-- Recording a kind adds its mark to those that are there. -/
theorem setKeyKind (h : c.MarkedBy kinds) (kind : KeyKind) :
    (c.setKeyKind kind).MarkedBy (kinds ++ [kind]) := by
  obtain ⟨hprimary, hkey⟩ := h
  cases kind with
  | none => exact ⟨by simpa [ColumnConstraint.setKeyKind], by simpa [ColumnConstraint.setKeyKind]⟩
  | key => exact ⟨by simpa [ColumnConstraint.setKeyKind], by simp [ColumnConstraint.setKeyKind]⟩
  | primary => exact ⟨by simp [ColumnConstraint.setKeyKind], by simpa [ColumnConstraint.setKeyKind]⟩

/-- Recording kinds one after the other leaves the marks of all of them. -/
theorem foldl_setKeyKind (kinds : List KeyKind) :
    (kinds.foldl ColumnConstraint.setKeyKind {}).MarkedBy kinds := by
  induction kinds using List.reverseRecOn with
  | nil => exact empty
  | append_singleton kinds kind ih =>
    rw [List.foldl_append, List.foldl_cons, List.foldl_nil]
    exact ih.setKeyKind kind

/-- What clauses say together has the marks of the kinds that they declare. -/
theorem summary (clauses : List ColumnClause) :
    (summary clauses).MarkedBy (clauses.filterMap ColumnClause.keyKind?) :=
  ⟨decide_eq_true_iff.trans (ColumnClause.mem_keyKinds true clauses).symm,
    decide_eq_true_iff.trans (ColumnClause.mem_keyKinds false clauses).symm⟩

/-- A column carries both marks exactly if both kinds are among those that mark it. -/
theorem both_iff (h : c.MarkedBy kinds) :
    (c.primary = true ∧ c.key = true) ↔ .primary ∈ kinds ∧ .key ∈ kinds :=
  and_congr h.primary h.key

/-- Of two marks that of the primary key counts. -/
theorem keyKind_eq (h : c.MarkedBy kinds) :
    c.keyKind = if .primary ∈ kinds then .primary else if .key ∈ kinds then .key else .none := by
  simp only [keyKind, h.primary, h.key]

end MarkedBy

/-- A column carries the marks of a primary key and of a key together exactly if its clauses declare
both, and recorded kinds leave both marks exactly if both are recorded, in whatever order and
whatever else is declared or recorded. The kind of such a column is the primary key. -/
theorem primary_and_key_iff (clauses : List ColumnClause) (kinds : List KeyKind) :
    (∃ c findings, Gives (ofClauses clauses) c findings ∧
      ((c.primary = true ∧ c.key = true) ↔ .key true ∈ clauses ∧ .key false ∈ clauses) ∧
      c.keyKind =
        if .key true ∈ clauses then .primary else if .key false ∈ clauses then .key else .none) ∧
    (((kinds.foldl setKeyKind {}).primary = true ∧ (kinds.foldl setKeyKind {}).key = true) ↔
      .primary ∈ kinds ∧ .key ∈ kinds) ∧
    (kinds.foldl setKeyKind {}).keyKind =
      if .primary ∈ kinds then .primary else if .key ∈ kinds then .key else .none := by
  -- Both sequences are marked by the kinds in them; nothing takes a mark away.
  have hclauses := MarkedBy.summary clauses
  have hkinds := MarkedBy.foldl_setKeyKind kinds
  have hprimary : .primary ∈ clauses.filterMap ColumnClause.keyKind? ↔ .key true ∈ clauses :=
    ColumnClause.mem_keyKinds true clauses
  have hkey : .key ∈ clauses.filterMap ColumnClause.keyKind? ↔ .key false ∈ clauses :=
    ColumnClause.mem_keyKinds false clauses
  refine ⟨⟨summary clauses, _, gives_summary clauses, ?_, ?_⟩, hkinds.both_iff, hkinds.keyKind_eq⟩
  · rw [hclauses.both_iff, hprimary, hkey]
  · simp only [hclauses.keyKind_eq, hprimary, hkey]

/-- So it is not true that a column never carries both marks, neither by its clauses nor by recorded
kinds. -/
theorem not_forall_primary_or_key :
    (¬ ∀ (clauses : List ColumnClause) (ds : Diagnostics),
      ¬ (((ofClauses clauses).run ds).1.primary = true ∧
        ((ofClauses clauses).run ds).1.key = true)) ∧
    ¬ ∀ kinds : List KeyKind, ¬ ((kinds.foldl setKeyKind {}).primary = true ∧
      (kinds.foldl setKeyKind {}).key = true) :=
  ⟨fun h => h [.key false, .key true] .empty ⟨rfl, rfl⟩, fun h => h [.key, .primary] ⟨rfl, rfl⟩⟩

end ColumnConstraint

end TableSchema
