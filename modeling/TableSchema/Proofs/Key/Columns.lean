import TableSchema.Proofs.Key.Acceptance
import TableSchema.Proofs.Key.Steady
import TableSchema.Proofs.Script.Findings

/-!
# The columns of a written key

A key that is written in one of its forms is read as it is written, and it resolves to the names of
its parts, in the order in which they are written and without anything to note: no part of a form is
computed. The names are in the list for the kind of the key, and the other two lists are empty.

## Main definitions

* `KeyPart.name`: the name of the column that a part refers to;
* `ConstraintDecl.keyColumns`: the columns of a key, in the list for its kind.

## Main results

* `tableConstraint_of_form`: a form of a key is accepted in full, read as the constraint, and
  resolved to its columns.
-/

namespace TableSchema

open Token Resolve

variable {α : Type} {phrase : List Token → α → Prop} {ts : List Token}

/-- The values of repeated phrases are those of phrases. -/
theorem Token.Repeated.exists_phrase {as : List α} (h : Repeated phrase ts as) :
    ∀ a ∈ as, ∃ us, phrase us a := by
  induction h with
  | nil => nofun
  | cons h hs ih => exact List.forall_mem_cons.2 ⟨⟨_, h⟩, ih⟩

/-- The values of listed phrases are those of phrases. -/
theorem Token.Listed.exists_phrase {as : List α} (h : Listed phrase ts as) :
    ∀ a ∈ as, ∃ us, phrase us a := by
  obtain ⟨h, hs⟩ := h
  refine List.forall_mem_cons.2 ⟨⟨_, h⟩, fun a ha => ?_⟩
  obtain ⟨_, ⟨h⟩⟩ := hs.exists_phrase a ha
  exact ⟨_, h⟩

/-- What is written for a key part. -/
def KeyTarget.text : KeyTarget → String
  | column name => name
  | literal text => text
  | expression text => text

/-- The name of the column that a key part refers to, as the schema keeps it. -/
def KeyPart.name (part : KeyPart) : String :=
  Text.cleanIdentifier part.target.text

/-- The columns of a key in the list for its kind. -/
def ConstraintDecl.keyColumns : ConstraintDecl → KeyColumns
  | primaryKey _ _ _ parts => { primary := parts.map KeyPart.name, unique := [], foreign := [] }
  | uniqueKey _ _ _ parts => { primary := [], unique := parts.map KeyPart.name, foreign := [] }
  | foreignKey _ _ parts _ => { primary := [], unique := [], foreign := parts.map KeyPart.name }
  | check _ _ => { primary := [], unique := [], foreign := [] }

/-- A part of a form names a column, and nothing is found about it. -/
theorem KeyPart.Form.columnName?_value {part : KeyPart} (h : KeyPart.Form ts part) :
    part.columnName?.value = some part.name ∧ part.findings = [] := by
  obtain ⟨htarget, -, -⟩ := h
  cases htarget with
  | column quote name => exact ⟨rfl, rfl⟩
  | literal h => exact ⟨rfl, rfl⟩

/-- Listed parts resolve to their names, in order. -/
theorem KeyPart.columnNames_gives {parts : List KeyPart} (h : Listed KeyPart.Form ts parts) :
    Gives (KeyPart.columnNames parts) (parts.map KeyPart.name) [] := by
  have hgives := Gives.filterMapM KeyPart.columnName?_gives parts
  have hparts : ∀ part ∈ parts, part.columnName?.value = some part.name ∧ part.findings = [] := by
    intro part hpart
    obtain ⟨us, hform⟩ := h.exists_phrase part hpart
    exact hform.columnName?_value
  have hnames : (parts.filterMap fun part => part.columnName?.value) = parts.map KeyPart.name :=
    List.filterMap_eq_map_iff_forall_eq_some.2 fun part hpart => (hparts part hpart).1
  have hfindings : parts.flatMap KeyPart.findings = [] :=
    List.flatMap_eq_nil_iff.2 fun part hpart => (hparts part hpart).2
  rwa [hnames, hfindings] at hgives

/-- A form of a key resolves to its columns, and nothing is found about it. -/
theorem ConstraintDecl.Form.resolve_gives {decl : ConstraintDecl} (h : decl.Form ts) :
    Gives decl.resolve (some decl.keyColumns) [] := by
  cases h with
  | primaryKey hname hprimary hkey hindex htype hparts hoptions =>
    exact (KeyPart.columnNames_gives hparts).map fun names => some (KeyColumns.mk names [] [])
  | uniqueKey hname hunique hword hindex htype hparts hoptions =>
    exact (KeyPart.columnNames_gives hparts).map fun names => some (KeyColumns.mk [] names [])
  | foreignKey hname hforeign hkey hindex hparts hreference =>
    exact (KeyPart.columnNames_gives hparts).map fun names => some (KeyColumns.mk [] [] names)

/-- A constraint that is written in a form of a key is accepted in full and read as it is written.
It resolves to the names of its parts, in order, in the list for its kind, and nothing is noted. -/
theorem Grammar.tableConstraint_of_form (ts : List Token) (decl : ConstraintDecl)
    (ls : List Lexeme) (hform : decl.Form ts) (hls : Lexeme.tokens ls = ts) :
    Parser.readAll tableConstraint ls = .ok decl ∧
      ∀ ds : Diagnostics, decl.resolve.run ds = (some decl.keyColumns, ds) := by
  constructor
  · have hok := tableConstraint_ok hform
    refine Parser.readAll_eq_ok.2 ?_
    exact (tableConstraint_steady .textEnd).ok_of_tokens hok (by simp [hls])
  · intro ds
    rw [hform.resolve_gives ds, List.map_nil, Diagnostics.append_nil]

/-- A foreign key over two columns, one of them with a length and an order. -/
theorem Grammar.tableConstraint_of_form_foreignKey :
    Parser.readAll tableConstraint (Lexeme.ofTokens [.word none "constraint",
      .word (some '\x60') "c", .word none "FOREIGN", .word none "KEY", .symbol .openParen,
      .word (some '\x60') "a", .symbol .comma, .word none "b", .symbol .openParen, .number "8",
      .symbol .closeParen, .word none "desc", .symbol .closeParen, .word none "REFERENCES",
      .word none "t", .word none "ON", .word none "DELETE", .word none "SET", .word none "NULL"]) =
        .ok (.foreignKey (some "\x60c\x60") none [⟨.column "\x60a\x60", none, none⟩,
          ⟨.column "b", some "8", some .descending⟩] ⟨"t", none, none, some "SET NULL", none⟩) ∧
      ∀ ds : Diagnostics, (ConstraintDecl.foreignKey (some "\x60c\x60") none
        [⟨.column "\x60a\x60", none, none⟩, ⟨.column "b", some "8", some .descending⟩]
        ⟨"t", none, none, some "SET NULL", none⟩).resolve.run ds =
          (some { foreign := ["a", "b"] }, ds) := by
  have hfirst : KeyPart.Form [.word (some '\x60') "a"] ⟨.column "\x60a\x60", none, none⟩ :=
    KeyPart.Form.mk (.column (some '\x60') "a") .absent .absent
  have hsecond : KeyPart.Form [.word none "b", .symbol .openParen, .number "8",
      .symbol .closeParen, .word none "desc"] ⟨.column "b", some "8", some .descending⟩ :=
    KeyPart.Form.mk (.column none "b") (.present (.mk "8"))
      (.present (.descending ⟨"desc", rfl, by decide⟩))
  have hparts := Listed.mk hfirst (.cons (.mk hsecond) .nil)
  have hnull : OneOf ["NULL", "DEFAULT"] [.word none "NULL"] "NULL" :=
    .mk (by decide) ⟨_, rfl, by decide⟩
  have hrule : ReferenceRule "DELETE" [.word none "ON", .word none "DELETE", .word none "SET",
      .word none "NULL"] "SET NULL" :=
    .mk ⟨_, rfl, by decide⟩ ⟨_, rfl, by decide⟩ (.set ⟨"SET", rfl, by decide⟩ hnull)
  have hreference := Reference.Form.mk ⟨"REFERENCES", rfl, by decide⟩ (.plain none "t") .absent
    .absent (.deleteFirst (.present hrule) .absent)
  have hname : ConstraintName [.word none "constraint", .word (some '\x60') "c"]
      (some "\x60c\x60") := .named ⟨_, rfl, by decide⟩ (.mk '\x60' "c")
  have hform := ConstraintDecl.Form.foreignKey hname ⟨"FOREIGN", rfl, by decide⟩
    ⟨"KEY", rfl, by decide⟩ .absent hparts hreference
  exact tableConstraint_of_form _ _ _ hform (Lexeme.tokens_ofTokens _)

end TableSchema
