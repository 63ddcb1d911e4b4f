import TableSchema.Key.Declaration
import TableSchema.Proofs.DataType.Form
import TableSchema.Proofs.Grammar.Completion

/-!
# The forms of a key

What the constraint of a table that declares a key can look like, as phrases: runs of tokens with
the constraints that are read off them. The words of the language may be in any case; the names of
constraints and of indexes are quoted, since a bare word can be a word of the language.

Index options leave no trace in the constraint. Nor does the type of the index of a unique key.

## Main definitions

* `TableName`: the phrases of the names of tables;
* `Reference.Form`: the phrases of references;
* `ConstraintDecl.Form`: the phrases of the constraints that declare a key.
-/

namespace TableSchema

open Token

/-! ## Names -/

/-- `table` or `database.table`, where each part is a word, quoted or not. -/
inductive TableName : List Token → String → Prop
  | plain (quote : Option Char) (name : String) :
    TableName [.word quote name] (wordText quote name)
  | qualified (quote : Option Char) (database : String) (quote' : Option Char) (name : String) :
    TableName [.word quote database, .symbol .period, .word quote' name]
      (wordText quote database ++ "." ++ wordText quote' name)

/-- The name is what its tokens are glued to. -/
theorem TableName.glue_eq {ts : List Token} {name : String} (h : TableName ts name) :
    glue ts = name := by
  cases h <;> simp [Token.text, Symbol.text, String.append_assoc]

theorem TableName.ne_nil {ts : List Token} {name : String} (h : TableName ts name) : ts ≠ [] := by
  cases h <;> exact List.cons_ne_nil _ _

/-- A word between quotes. -/
inductive QuotedName : List Token → String → Prop
  | mk (quote : Char) (name : String) :
    QuotedName [.word (some quote) name] (wordText (some quote) name)

/-! ## Key parts -/

/-- What a key part names: a word, quoted or not, or a string literal. -/
inductive KeyTarget.Form : Token → KeyTarget → Prop
  | column (quote : Option Char) (name : String) :
    Form (.word quote name) (.column (wordText quote name))
  | literal {t : Token} (h : t.IsString) : Form t (.literal t.text)

/-- `(n)` -/
inductive PrefixLength : List Token → String → Prop
  | mk (n : String) : PrefixLength [.symbol .openParen, .number n, .symbol .closeParen] n

/-- `ASC` or `DESC` -/
inductive SortOrder.Form : List Token → SortOrder → Prop
  | ascending {t : Token} (h : t.IsWord "ASC") : Form [t] .ascending
  | descending {t : Token} (h : t.IsWord "DESC") : Form [t] .descending

/-- `{column | 'column'} [(n)] [ASC | DESC]` -/
inductive KeyPart.Form : List Token → KeyPart → Prop
  | mk {t : Token} {target : KeyTarget} {ls os : List Token} {length : Option String}
      {order : Option SortOrder} (htarget : target.Form t)
      (hlength : Optional PrefixLength ls length) (horder : Optional SortOrder.Form os order) :
    Form (t :: (ls ++ os)) ⟨target, length, order⟩

/-! ## Indexes -/

/-- `USING {BTREE | HASH}` -/
inductive IndexType : List Token → String → Prop
  | mk {t : Token} {us : List Token} {type : String} (h : t.IsWord "USING")
      (htype : OneOf ["BTREE", "HASH"] us type) : IndexType (t :: us) type

/-- An option of an index. -/
inductive IndexOption : List Token → Unit → Prop
  /-- `KEY_BLOCK_SIZE [=] n` -/
  | blockSize {t : Token} {es : List Token} (h : t.IsWord "KEY_BLOCK_SIZE")
      (hes : es = [] ∨ es = [.symbol .equals]) (n : String) :
    IndexOption (t :: (es ++ [.number n])) ()
  /-- `USING {BTREE | HASH}` -/
  | type {us : List Token} {type : String} (h : IndexType us type) : IndexOption us ()
  /-- `WITH PARSER name` -/
  | parser {t u : Token} (h : t.IsWord "WITH") (hu : u.IsWord "PARSER") (quote : Option Char)
      (name : String) : IndexOption [t, u, .word quote name] ()
  /-- `COMMENT 'text'` -/
  | comment {t u : Token} (h : t.IsWord "COMMENT") (hu : u.IsString) : IndexOption [t, u] ()
  /-- `VISIBLE` or `INVISIBLE` -/
  | visibility {ts : List Token} {word : String} (h : OneOf ["VISIBLE", "INVISIBLE"] ts word) :
    IndexOption ts ()
  /-- `{ENGINE_ATTRIBUTE | SECONDARY_ENGINE_ATTRIBUTE} [=] 'text'` -/
  | engineAttribute {ts es : List Token} {word : String} {u : Token}
      (h : OneOf ["ENGINE_ATTRIBUTE", "SECONDARY_ENGINE_ATTRIBUTE"] ts word)
      (hes : es = [] ∨ es = [.symbol .equals]) (hu : u.IsString) :
    IndexOption (ts ++ (es ++ [u])) ()

/-! ## References -/

/-- `MATCH {FULL | PARTIAL | SIMPLE}` -/
inductive MatchClause : List Token → String → Prop
  | mk {t : Token} {us : List Token} {matching : String} (h : t.IsWord "MATCH")
      (hmatching : OneOf ["FULL", "PARTIAL", "SIMPLE"] us matching) : MatchClause (t :: us) matching

/-- `RESTRICT`, `CASCADE`, `SET NULL`, `SET DEFAULT` or `NO ACTION` -/
inductive ReferenceAction : List Token → String → Prop
  | single {ts : List Token} {word : String} (h : OneOf ["RESTRICT", "CASCADE"] ts word) :
    ReferenceAction ts word
  | set {t : Token} {us : List Token} {word : String} (h : t.IsWord "SET")
      (hword : OneOf ["NULL", "DEFAULT"] us word) : ReferenceAction (t :: us) ("SET " ++ word)
  | noAction {t u : Token} (h : t.IsWord "NO") (hu : u.IsWord "ACTION") :
    ReferenceAction [t, u] "NO ACTION"

/-- `ON event action` -/
inductive ReferenceRule (event : String) : List Token → String → Prop
  | mk {t u : Token} {as : List Token} {action : String} (h : t.IsWord "ON")
      (hevent : u.IsWord event) (haction : ReferenceAction as action) :
    ReferenceRule event (t :: u :: as) action

/-- `[ON DELETE action] [ON UPDATE action]`, in either order. -/
inductive ReferenceRules : List Token → Option String → Option String → Prop
  | deleteFirst {ds us : List Token} {onDelete onUpdate : Option String}
      (hdelete : Optional (ReferenceRule "DELETE") ds onDelete)
      (hupdate : Optional (ReferenceRule "UPDATE") us onUpdate) :
    ReferenceRules (ds ++ us) onDelete onUpdate
  | updateFirst {ds us : List Token} {onDelete onUpdate : Option String}
      (hdelete : Optional (ReferenceRule "DELETE") ds onDelete)
      (hupdate : Optional (ReferenceRule "UPDATE") us onUpdate) :
    ReferenceRules (us ++ ds) onDelete onUpdate

/-- `REFERENCES table [(part, ...)] [MATCH way] [ON DELETE action] [ON UPDATE action]` -/
inductive Reference.Form : List Token → Reference → Prop
  | mk {t : Token} {ns ps ms rs : List Token} {table : String} {parts : Option (List KeyPart)}
      {matching onDelete onUpdate : Option String} (h : t.IsWord "REFERENCES")
      (htable : TableName ns table) (hparts : Optional (Listed KeyPart.Form) ps parts)
      (hmatching : Optional MatchClause ms matching)
      (hrules : ReferenceRules rs onDelete onUpdate) :
    Form (t :: (ns ++ (ps ++ (ms ++ rs)))) ⟨table, parts, matching, onDelete, onUpdate⟩

/-! ## Constraints -/

/-- `[CONSTRAINT [name]]` -/
inductive ConstraintName : List Token → Option String → Prop
  | absent : ConstraintName [] none
  | unnamed {t : Token} (h : t.IsWord "CONSTRAINT") : ConstraintName [t] none
  | named {t : Token} {ns : List Token} {name : String} (h : t.IsWord "CONSTRAINT")
      (hname : QuotedName ns name) : ConstraintName (t :: ns) (some name)

/-- The tokens are a form of a constraint that declares a key, and the constraint is read off it. -/
inductive ConstraintDecl.Form : List Token → ConstraintDecl → Prop
  /-- `[CONSTRAINT [name]] PRIMARY KEY [index] [USING type] (part, ...) option*` -/
  | primaryKey {cs is us ps os : List Token} {t k : Token} {name index type : Option String}
      {parts : List KeyPart} {options : List Unit} (hname : ConstraintName cs name)
      (hprimary : t.IsWord "PRIMARY") (hkey : k.IsWord "KEY")
      (hindex : Optional QuotedName is index) (htype : Optional IndexType us type)
      (hparts : Listed KeyPart.Form ps parts)
      (hoptions : Repeated IndexOption os options) :
    Form (cs ++ t :: k :: (is ++ (us ++ (ps ++ os)))) (.primaryKey name index type parts)
  /-- `[CONSTRAINT [name]] UNIQUE [INDEX | KEY] [index] [USING type] (part, ...) option*` -/
  | uniqueKey {cs ws is us ps os : List Token} {t : Token} {name word index type : Option String}
      {parts : List KeyPart} {options : List Unit} (hname : ConstraintName cs name)
      (hunique : t.IsWord "UNIQUE") (hword : Optional (OneOf ["INDEX", "KEY"]) ws word)
      (hindex : Optional QuotedName is index) (htype : Optional IndexType us type)
      (hparts : Listed KeyPart.Form ps parts) (hoptions : Repeated IndexOption os options) :
    Form (cs ++ t :: (ws ++ (is ++ (us ++ (ps ++ os))))) (.uniqueKey name word index parts)
  /-- `[CONSTRAINT [name]] FOREIGN KEY [index] (part, ...) reference` -/
  | foreignKey {cs is ps rs : List Token} {t k : Token} {name index : Option String}
      {parts : List KeyPart} {reference : Reference} (hname : ConstraintName cs name)
      (hforeign : t.IsWord "FOREIGN") (hkey : k.IsWord "KEY")
      (hindex : Optional QuotedName is index) (hparts : Listed KeyPart.Form ps parts)
      (hreference : reference.Form rs) :
    Form (cs ++ t :: k :: (is ++ (ps ++ rs))) (.foreignKey name index parts reference)

/-! ## First tokens -/

/-- No terminal tells quoted words from each other. -/
theorem QuotedName.starts : Starts [.word (some '\x60') ""] QuotedName := by
  rintro _ _ ⟨quote, name⟩
  refine ⟨List.cons_ne_nil _ _, ?_⟩
  rintro u ⟨⟩
  exact ⟨_, List.mem_singleton_self _, fun o => by cases o <;> rfl⟩

theorem SortOrder.Form.starts : Starts [.word none "ASC", .word none "DESC"] SortOrder.Form := by
  intro ts order h
  cases h with
  | ascending h => exact ⟨List.cons_ne_nil _ _, (Begins.word h []).mono (by simp)⟩
  | descending h => exact ⟨List.cons_ne_nil _ _, (Begins.word h []).mono (by simp)⟩

/-- The words that the options of an index begin with. -/
def indexOptionSamples : List Token :=
  ["KEY_BLOCK_SIZE", "USING", "WITH", "COMMENT", "VISIBLE", "INVISIBLE", "ENGINE_ATTRIBUTE",
    "SECONDARY_ENGINE_ATTRIBUTE"].map (Token.word none)

theorem IndexOption.starts : Starts indexOptionSamples IndexOption := by
  have hword : ∀ {spelling : String} {t : Token} {ts : List Token}, t.IsWord spelling →
      Token.word none spelling ∈ indexOptionSamples →
      t :: ts ≠ [] ∧ Begins indexOptionSamples (t :: ts) :=
    fun h hmem => ⟨List.cons_ne_nil _ _, (Begins.word h _).mono (by simpa using hmem)⟩
  intro ts _ h
  cases h with
  | blockSize h hes n => exact hword h (by decide)
  | type h =>
    obtain ⟨h, -⟩ := h
    exact hword h (by decide)
  | parser h hu quote name => exact hword h (by decide)
  | comment h hu => exact hword h (by decide)
  | visibility h =>
    obtain ⟨hne, hbegins⟩ := OneOf.starts h
    exact ⟨hne, hbegins.mono (by decide)⟩
  | engineAttribute h hes hu =>
    obtain ⟨hne, hbegins⟩ := OneOf.starts h
    exact ⟨List.append_ne_nil_of_left_ne_nil hne _,
      (hbegins.append_left hne _).mono (by decide)⟩

theorem IndexType.starts : Starts [.word none "USING"] IndexType := by
  refine starts_of_isWord ?_
  rintro _ type ⟨h, -⟩
  exact ⟨_, _, rfl, h⟩

theorem MatchClause.starts : Starts [.word none "MATCH"] MatchClause := by
  refine starts_of_isWord ?_
  rintro _ matching ⟨h, -⟩
  exact ⟨_, _, rfl, h⟩

/-- An action begins with one of four words. -/
theorem ReferenceAction.exists_word {ts : List Token} {action : String}
    (h : ReferenceAction ts action) : ∃ t us word, ts = t :: us ∧ t.IsWord word ∧
      word ∈ ["RESTRICT", "CASCADE", "SET", "NO"] := by
  cases h with
  | single h =>
    obtain ⟨hmem, h⟩ := h
    exact ⟨_, _, _, rfl, h, List.mem_append_left ["SET", "NO"] hmem⟩
  | set h hword => exact ⟨_, _, _, rfl, h, by simp⟩
  | noAction h hu => exact ⟨_, _, _, rfl, h, by simp⟩

end TableSchema
