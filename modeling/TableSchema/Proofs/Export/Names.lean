import TableSchema.Proofs.Export.Qualified
import TableSchema.Proofs.Script.Tables
import TableSchema.Proofs.Table.Names

/-!
# The names of an export

The names of a table, of its columns and of the columns of its keys are cleaned texts of the script,
and the name of the table is cut at the last mark between two names. They have no control
characters. Whether a name is in normal form is decided by what comes to stand at its ends: a
quotation mark does if only control characters were between it and the quotation marks around the
name, or if it stands behind the mark. Names with plain contents are in normal form.

## Main definitions

* `Table.names`: all names of a table;
* `Token.HasPlainContent`: what stands between the quotation marks is plain and not empty.

## Main results

* `Export.names_ofText`: the names of an export, where they are written, and when they are in normal
  form.
-/

namespace TableSchema

open Text Token

/-- The names of the columns and of the columns of keys. -/
def Table.columnNames (t : Table) : List String :=
  t.columns.map Column.name ++ t.constraints.flatMap KeyColumns.names

/-- The name of the table and those of its columns and keys. -/
def Table.names (t : Table) : List String :=
  t.name :: t.columnNames

/-! ## Plain contents -/

/-- What stands between the quotation marks of a word or a literal, or the bare word, is plain and
not empty. -/
def Token.HasPlainContent : Token → Prop
  | word _ value => IsPlain value ∧ value ≠ ""
  | literal _ body => IsPlain body ∧ body ≠ ""
  | _ => True

/-- The marks that a word may stand between and that are taken off its ends. -/
def wordMarks : List String := ["", "\x60", "\""]

/-- A word with plain content is a plain text between two equal marks. -/
theorem exists_plain_of_word {quote : Option Char} {value : String}
    (h : (word quote value).HasPlainContent) :
    ∃ mark ∈ wordMarks, ∃ core, wordText quote value = mark ++ core ++ mark ∧ IsPlain core ∧
      core ≠ "" := by
  obtain ⟨hplain, hne⟩ := h
  unfold wordText
  split
  · rw [Piece.doubled_of_notMem hplain.notMem]
    exact ⟨"\x60", by decide, value, rfl, hplain, hne⟩
  · rw [Piece.doubled_of_notMem (hplain.notMem_of_isQuote (by decide))]
    exact ⟨"\"", by decide, value, rfl, hplain, hne⟩
  · -- Brackets are no quotation marks, so they belong to the name.
    have hbrackets : IsPlain ("[" ++ value ++ "]") :=
      ((by decide : IsPlain "[").append hplain).append (by decide)
    exact ⟨"", by decide, "[" ++ value ++ "]", by simp, hbrackets, by simp⟩
  · exact ⟨"", by decide, value, by simp, hplain, hne⟩

theorem isQuote_of_wordMarks : ∀ mark ∈ wordMarks, ∀ c ∈ mark.toList, isQuote c = true := by
  simp [wordMarks, isQuote]

/-- A name with plain content is cleaned to a name in normal form. -/
theorem Token.HasPlainContent.isNormal {u : Token} (h : u.HasPlainContent) {s : String}
    (hs : u.nameText? = some s) : IsNormal (cleanIdentifier s) := by
  have hquoted : ∀ {mark core : String}, (∀ c ∈ mark.toList, isQuote c = true) → IsPlain core →
      core ≠ "" → IsNormal (cleanIdentifier (mark ++ core ++ mark)) := by
    intro mark core hmark hplain hne
    rw [cleanIdentifier_quoted hmark hmark, hplain.cleanIdentifier_eq]
    exact hplain.isNormal hne
  cases u with
  | word quote value =>
    obtain rfl : wordText quote value = s := Option.some.inj hs
    obtain ⟨mark, hmark, core, htext, hplain, hne⟩ := exists_plain_of_word h
    rw [htext]
    exact hquoted (isQuote_of_wordMarks mark hmark) hplain hne
  | literal kind body =>
    obtain ⟨hplain, hne⟩ := h
    cases kind with
    | single =>
      obtain rfl : "'" ++ body ++ "'" = s := Option.some.inj hs
      exact hquoted (by simp [isQuote]) hplain hne
    | double =>
      obtain rfl : "\"" ++ body ++ "\"" = s := Option.some.inj hs
      exact hquoted (by simp [isQuote]) hplain hne
    | national =>
      -- The letter in front keeps the quotation mark behind it from being taken off.
      obtain rfl : "N'" ++ body ++ "'" = s := Option.some.inj hs
      have hname : IsNormal ("N" ++ "'" ++ body) :=
        (by decide : IsNormal "N").append (hplain.isNormal hne) (by simp [isControl, isLineBreak])
      have hclean : cleanIdentifier ("" ++ ("N" ++ "'" ++ body) ++ "'") = "N" ++ "'" ++ body :=
        (cleanIdentifier_quoted (by simp) (by simp [isQuote]) _).trans hname.cleanIdentifier_eq
      exact hclean.symm ▸ hname
    | _ => simp [nameText?, stringText?, wordText?] at hs
  | _ => simp [nameText?, stringText?, wordText?] at hs

/-! ## Names of tables -/

/-- What stands between the contents of two words is the mark between two names, or it has one
backtick at most. -/
theorem between_wordMarks : ∀ mark ∈ wordMarks, ∀ mark' ∈ wordMarks,
    (mark ++ "." ++ mark' = qualifierMark ∨ (mark ++ "." ++ mark').toList.count '\x60' ≤ 1) ∧
      ∀ c ∈ (mark ++ "." ++ mark').toList, isControl c = false := by
  simp [wordMarks, qualifierMark, isControl, isLineBreak]

/-- The name of a table that is written in words with plain contents is in normal form. -/
theorem TableName.isNormal {ts : List Token} {s : String} (h : TableName ts s)
    (hplain : ∀ u ∈ ts, u.HasPlainContent) : IsNormal (unqualifiedName (cleanIdentifier s)) := by
  cases h with
  | plain quote name =>
    obtain ⟨mark, hmark, core, htext, hcore, hne⟩ :=
      exists_plain_of_word (hplain _ List.mem_cons_self)
    have hquote := isQuote_of_wordMarks mark hmark
    rw [htext, cleanIdentifier_quoted hquote hquote, hcore.cleanIdentifier_eq,
      unqualifiedName_of_notMem hcore.notMem]
    exact hcore.isNormal hne
  | qualified quote database quote' name =>
    obtain ⟨mark, hmark, front, htext, hfront, hne⟩ :=
      exists_plain_of_word (hplain _ List.mem_cons_self)
    obtain ⟨mark', hmark', back, htext', hback, hne'⟩ :=
      exists_plain_of_word (hplain (.word quote' name) (by simp))
    obtain ⟨hbetween, hcontrol⟩ := between_wordMarks mark hmark mark' hmark'
    have hwhole : IsNormal (front ++ (mark ++ "." ++ mark') ++ back) :=
      (hfront.isNormal hne).append (hback.isNormal hne') hcontrol
    have htexts : wordText quote database ++ "." ++ wordText quote' name =
        mark ++ (front ++ (mark ++ "." ++ mark') ++ back) ++ mark' := by
      rw [htext, htext']
      simp only [String.append_assoc]
    rw [htexts, cleanIdentifier_quoted (isQuote_of_wordMarks mark hmark)
      (isQuote_of_wordMarks mark' hmark'), hwhole.cleanIdentifier_eq]
    -- Only between two words in backticks there is a mark at which the whole is cut.
    obtain hmarks | hcount := hbetween
    · rw [hmarks, unqualifiedName_append front hback.notMem]
      exact hback.isNormal hne'
    · have hone : (front ++ (mark ++ "." ++ mark') ++ back).toList.count '\x60' ≤ 1 := by
        rw [String.toList_append, String.toList_append, List.count_append, List.count_append,
          List.count_eq_zero.2 hfront.notMem, List.count_eq_zero.2 hback.notMem]
        omega
      rw [unqualifiedName_of_count hone]
      exact hwhole

/-- The name of a table has no control characters. -/
theorem isControl_of_mem_unqualifiedName {s : String} {c : Char}
    (h : c ∈ (unqualifiedName (cleanIdentifier s)).toList) : isControl c = false :=
  isControl_of_mem_cleanIdentifier ((afterLast_suffix qualifierMark _).subset h)

/-- What stands behind the last mark of a cleaned text is in normal form exactly if it begins free
and the text ends free. -/
theorem isNormal_unqualifiedName_iff (s : String) :
    IsNormal (unqualifiedName (cleanIdentifier s)) ↔
      BeginsFree (unqualifiedName (cleanIdentifier s)).toList ∧
        BeginsFree (stripQuotes s).toList.reverse := by
  obtain ⟨front, hfront⟩ := afterLast_suffix qualifierMark (cleanIdentifier s)
  have hcontrol : ∀ c ∈ (unqualifiedName (cleanIdentifier s)).toList, isControl c = false :=
    fun c hc => isControl_of_mem_unqualifiedName hc
  -- A name that begins free has characters, so it ends like the text it is the end of.
  have hlast : BeginsFree (unqualifiedName (cleanIdentifier s)).toList →
      (BeginsFree (unqualifiedName (cleanIdentifier s)).toList.reverse ↔
        BeginsFree (stripQuotes s).toList.reverse) := by
    rintro ⟨c, hc, -⟩
    have hmem := List.mem_of_find?_eq_some hc
    have hany : ∃ c ∈ (unqualifiedName (cleanIdentifier s)).toList.reverse, isControl c = false :=
      ⟨c, List.mem_reverse.2 hmem, hcontrol c hmem⟩
    rw [← beginsFree_append hany front.reverse, ← List.reverse_append, unqualifiedName, hfront,
      toList_cleanIdentifier, ← List.filter_reverse, beginsFree_filter]
  rw [isNormal_iff_hasFreeEnds hcontrol]
  constructor
  · rintro ⟨hfirst, hfinal⟩
    exact ⟨hfirst, (hlast hfirst).1 hfinal⟩
  · rintro ⟨hfirst, hfinal⟩
    exact ⟨hfirst, (hlast hfirst).2 hfinal⟩

/-! ## The names of a list -/

/-- The name of a table is the text of its name, cleaned and without the name of the database. -/
theorem Table.name_declared (name : String) (items : List TableItem) :
    (declared name items).exported.name = unqualifiedName (cleanIdentifier name) := by
  simp only [declared, exported]

/-- The names of columns and keys are the texts of the entries of the list, cleaned. -/
theorem Table.exists_of_mem_columnNames {name : String} {items : List TableItem} {n : String}
    (h : n ∈ (declared name items).exported.columnNames) :
    ∃ item ∈ items, ∃ s ∈ item.columnText?.toList ++ item.keyTexts, n = cleanIdentifier s := by
  obtain ⟨hcolumns, hkeys⟩ := names_declared name items
  rw [columnNames, names_exported, hcolumns, List.mem_append] at h
  obtain hcolumn | hkey := h
  · obtain ⟨s, hs, rfl⟩ := List.mem_map.1 hcolumn
    obtain ⟨item, hitem, htext⟩ := List.mem_filterMap.1 hs
    exact ⟨item, hitem, s, List.mem_append_left _ (Option.mem_toList.2 htext), rfl⟩
  · obtain ⟨s, hs, rfl⟩ := List.mem_map.1 (hkeys ▸ hkey)
    obtain ⟨item, hitem, htext⟩ := List.mem_flatMap.1 hs
    exact ⟨item, hitem, s, List.mem_append_right _ htext, rfl⟩

namespace Export

/-- The names of a table that a text declares have no control characters. Each name of a column,
also of a key, is a word or a string literal of the text, cleaned, and it is in normal form exactly
if no quotation mark comes to stand at an end. The name of the table is the end of a name that
stands in the text, cleaned as a whole, and it is in normal form exactly if it begins free and the
whole ends free. What is written with plain contents is in normal form. -/
theorem names_ofText {text : String} {e : Export} (h : ofText text = .ok e) :
    (∀ t ∈ e.tables, ∀ n ∈ t.names, ∀ c ∈ n.toList, isControl c = false) ∧
    ∃ ls, Lexeme.ofString text = .ok ls ∧ ∀ t ∈ e.tables,
      (∃ ts s, ts <:+: Lexeme.tokens ls ∧ TableName ts s ∧
        t.name = unqualifiedName (cleanIdentifier s) ∧
        (IsNormal t.name ↔ BeginsFree t.name.toList ∧ BeginsFree (stripQuotes s).toList.reverse) ∧
        ((∀ u ∈ ts, u.HasPlainContent) → IsNormal t.name)) ∧
      ∀ n ∈ t.columnNames, ∃ u ∈ Lexeme.tokens ls, ∃ s, u.nameText? = some s ∧
        n = cleanIdentifier s ∧ (IsNormal n ↔ HasFreeEnds (stripQuotes s)) ∧
        (u.HasPlainContent → IsNormal n) := by
  -- What the grammar keeps of a table are texts of names that stand in the script.
  obtain ⟨ls, hls, htables⟩ := tables_of_yields h
  have hwritten := htables _ _ (Grammar.tableName_yields ls)
    (Grammar.tableItems_names (N := fun s => ∃ u ∈ Lexeme.tokens ls, u.nameText? = some s)
      fun l hl s hs => ⟨l.token, List.mem_map_of_mem hl, hs⟩)
  refine ⟨fun t ht n hn c hc => ?_, ls, hls, fun t ht => ⟨?_, fun n hn => ?_⟩⟩
  · obtain ⟨name, items, rfl, -, -⟩ := hwritten t ht
    obtain hname | hn := List.mem_cons.1 hn
    · rw [hname, Table.name_declared] at hc
      exact isControl_of_mem_unqualifiedName hc
    · obtain ⟨item, -, s, -, rfl⟩ := Table.exists_of_mem_columnNames hn
      exact isControl_of_mem_cleanIdentifier hc
  · obtain ⟨name, items, rfl, ⟨ts, hts, hname⟩, -⟩ := hwritten t ht
    rw [Table.name_declared]
    exact ⟨ts, name, hts, hname, rfl, isNormal_unqualifiedName_iff name, hname.isNormal⟩
  · obtain ⟨name, items, rfl, -, htexts⟩ := hwritten t ht
    obtain ⟨item, hitem, s, hs, rfl⟩ := Table.exists_of_mem_columnNames hn
    obtain ⟨u, hu, hname⟩ := htexts item hitem s hs
    have hiff := isNormal_cleanIdentifier_iff s
    exact ⟨u, hu, s, hname, rfl, hiff, fun hplain => hplain.isNormal hname⟩

/-! ### Quotation marks at the ends -/

/-- A quotation mark stands in front of both names. -/
theorem ofText_quotes :
    ofText "CREATE TABLE \x60d\x60.\x60't\x60 (\x60\n'c\x60 INT)" =
      .ok (oneColumn "'t" "'c") := by
  have hlist := reads_oneColumn "\n'c" (by decide)
  have hname : Reads ('\x60' :: ("'t".toList ++ '\x60' :: _)) _ :=
    hlist.quoted (by decide) (by rintro _ ⟨⟩; decide)
  have hpoint := hname.period (by rintro _ ⟨⟩; decide)
  have hdatabase : Reads ('\x60' :: ("d".toList ++ '\x60' :: _)) _ :=
    hpoint.quoted (by decide) (by rintro _ ⟨⟩; decide)
  have hreads := reads_createTable hdatabase
  have htable : unqualifiedName (cleanIdentifier (glue (Grammar.quotedName (some "d") "'t"))) =
      "'t" := by
    decide
  have hcolumn : cleanIdentifier (wordText (some '\x60') "\n'c") = "'c" := by decide
  rw [← htable, ← hcolumn]
  exact ofText_oneColumn (some "d") "'t" "\n'c" (by simpa [Grammar.quotedName] using hreads)

/-- The name of the column has no control characters, and a quotation mark came to stand in front of
it. -/
theorem names_of_quotes :
    ofText "CREATE TABLE \x60d\x60.\x60't\x60 (\x60\n'c\x60 INT)" =
        .ok (oneColumn "'t" "'c") ∧
      (∀ t ∈ (oneColumn "'t" "'c").tables, ∀ n ∈ t.names, ∀ c ∈ n.toList, isControl c = false) ∧
      ∃ s, "'c" = cleanIdentifier s ∧ ¬ HasFreeEnds (stripQuotes s) := by
  obtain ⟨hcontrol, ls, -, htables⟩ := names_ofText ofText_quotes
  obtain ⟨-, hcolumns⟩ := htables _ (List.mem_singleton_self _)
  obtain ⟨u, -, s, -, hclean, hiff, -⟩ := hcolumns "'c" (by decide)
  exact ⟨ofText_quotes, hcontrol, s, hclean, mt hiff.2 (by decide)⟩

/-- So the names of an export need not be in normal form. -/
theorem not_forall_isNormal : ¬ ∀ (text : String) (e : Export), ofText text = .ok e →
    ∀ t ∈ e.tables, ∀ n ∈ t.names, IsNormal n := by
  intro h
  have hname : IsNormal "'t" := h _ _ ofText_quotes _ (List.mem_singleton_self _) "'t" (by decide)
  exact absurd hname (by decide)

end Export

end TableSchema
