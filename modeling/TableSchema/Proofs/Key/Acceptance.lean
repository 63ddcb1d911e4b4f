import TableSchema.Key.Grammar
import TableSchema.Proofs.DataType.Clause
import TableSchema.Proofs.Key.Form

/-!
# Keys are accepted

Every constraint that is written in a form of a key is taken in full, with the value that is read
off the form. Clauses that may be left out are told from what stands behind them by its first token:
the name of an index is quoted, its type begins with `USING`, and its parts with a parenthesis.

## Main results

* `tableName_append`: the name of a table is taken up to what follows;
* `keyPart_completes`, `reference_completes`: key parts and references are taken in full;
* `indexOptions_completes`: so is an option of an index, wherever it stands among the others;
* `tableConstraint_ok`: a form of a key is read as the constraint.
-/

namespace TableSchema.Grammar

open TableSchema.Parser TableSchema.Lexeme TableSchema.Token

variable {ts us : List Token}

/-! ## Names -/

/-- The name of a table is taken up to what follows, unless that is a point. -/
theorem tableName_append {front rest : List Lexeme} {name : String}
    (h : TableName (tokens front) name)
    (hrest : Terminal.opens [.symbol .period] rest = false) :
    tableName (front ++ rest) = .ok (name, rest) := by
  have hword : ∀ {l ls quote value}, l.token = .word quote value →
      discard identifier (l :: ls) = .ok ((), ls) := fun {l ls quote value} hl =>
    discard_of_ok (token_eq_ok.2 ⟨l, rfl, by rw [hl]; rfl⟩)
  rw [← h.glue_eq]
  refine glued_of_ok ?_ (tokens_append front rest)
  generalize hts : tokens front = ts at h
  -- The point belongs to the name if there is a database, and else it would lengthen the name.
  cases h with
  | plain quote name =>
    obtain ⟨l, _, rfl, hl, hnil⟩ := tokens_eq_cons.1 hts
    obtain rfl := List.map_eq_nil_iff.1 hnil
    have hperiod : eat (.symbol .period) rest = .ok (false, rest) := eatAll_eq_ok.2 ⟨hrest, rfl⟩
    exact (bind_of_ok (hword hl)).trans ((bind_of_ok hperiod).trans rfl)
  | qualified quote database quote' name =>
    obtain ⟨l, _, rfl, hl, htail⟩ := tokens_eq_cons.1 hts
    obtain ⟨m, _, rfl, hm, htail⟩ := tokens_eq_cons.1 htail
    obtain ⟨n, _, rfl, hn, hnil⟩ := tokens_eq_cons.1 htail
    obtain rfl := List.map_eq_nil_iff.1 hnil
    have hperiod : eat (.symbol .period) (m :: n :: rest) = .ok (true, n :: rest) :=
      eat_cons (by rw [hm]; rfl)
    exact (bind_of_ok (hword hl)).trans ((bind_of_ok hperiod).trans (hword hn))

/-- A name is taken in full in front of another token than a point. -/
theorem tableName_completes : Completes tableName TableName fun _ => [.symbol .period] := by
  intro ts us name h hstop
  rw [ofTokens_append]
  exact tableName_append (by rwa [tokens_ofTokens]) ((hstop _ (List.mem_singleton_self _)).opens [])

/-! ## Key parts -/

/-- A key part refers to a name or a literal, whatever follows. -/
theorem keyTarget_completes :
    Completes keyTarget (fun ts target => ∃ t, ts = [t] ∧ target.Form t) fun _ => [] := by
  rintro _ us target ⟨t, rfl, h⟩ -
  cases h with
  | column quote name => rfl
  | literal h =>
    obtain ⟨kind, hkind, body, rfl⟩ := h
    simp only [List.mem_cons, List.not_mem_nil, or_false] at hkind
    rcases hkind with rfl | rfl | rfl <;> rfl

theorem prefixLength_completes :
    Completes (after [.symbol .openParen] numberInParens) (Optional PrefixLength)
      fun _ => [.symbol .openParen] := by
  have hnumber : Completes numberInParens
      (fun ts n => ts = [.number n, .symbol .closeParen]) fun _ => [] := by
    rintro _ us n rfl -
    rfl
  refine (hnumber.after ?_).always
  rintro _ _ ⟨n⟩
  exact ⟨_, _, rfl, rfl, rfl⟩

theorem sortOrder_completes : Completes (choose? [
    .behind [.keyword "ASC"] (return SortOrder.ascending),
    .behind [.keyword "DESC"] (return .descending)]) (Optional SortOrder.Form)
      fun _ => [.keyword "ASC", .keyword "DESC"] := by
  refine (completes_choose? (by simp [Branch.behind]) ?_).always
  intro ts us order h
  cases h with
  | ascending h => exact choose?_of_word h rfl rfl
  | descending h => exact choose?_of_word h rfl rfl

/-- A key part is taken with the length and the order that are written. -/
theorem keyPart_completes : Completes keyPart KeyPart.Form
    fun _ => [.symbol .openParen, .keyword "ASC", .keyword "DESC"] := by
  rintro _ us _ ⟨htarget, hlength, horder⟩ hstop
  rename_i t target ls os length order
  obtain ⟨hopen, horders⟩ := List.forall_mem_cons.1 hstop
  have htokens : t :: (ls ++ os) ++ us = [t] ++ (ls ++ (os ++ us)) := by simp
  rw [htokens]
  -- An order is a word, so what begins with a parenthesis behind a name is its length.
  refine keyTarget_completes.bind_ok ⟨t, rfl, htarget⟩ nofun ?_
  refine prefixLength_completes.bind_ok hlength ?_ (sortOrder_completes.bind_ok horder horders rfl)
  exact List.forall_mem_singleton.2 (horder.avoids SortOrder.Form.starts (by decide) hopen)

/-- The list of key parts is taken in full, in order. -/
theorem keyParts_completes : Completes keyParts (Listed KeyPart.Form) fun _ => [] :=
  keyPart_completes.list (by decide) (by decide)

/-! ## Indexes -/

/-- The name of an index is taken in front of its type and of its parts. -/
theorem indexName_ok {index : Option String} (h : Optional QuotedName ts index)
    (hus : Begins [.word none "USING", .symbol .openParen] us) :
    indexName (ofTokens (ts ++ us)) = .ok (index, ofTokens us) := by
  cases h with
  | present h =>
    obtain ⟨quote, name⟩ := h
    rfl
  | absent =>
    refine token?_eq_ok.2 (.inr ⟨rfl, rfl, fun l hl => ?_⟩)
    obtain ⟨u, vs, rfl⟩ : ∃ u vs, us = u :: vs := by
      cases us with
      | nil => simp [ofTokens] at hl
      | cons u vs => exact ⟨u, vs, rfl⟩
    obtain rfl : l = ⟨u, .start, .start⟩ := by simpa [ofTokens, eq_comm] using hl
    -- Any other word would be taken for the name, quoted or not.
    obtain ⟨s, hs, haccepts⟩ := hus u rfl
    simp only [List.mem_cons, List.not_mem_nil, or_false] at hs
    rcases hs with rfl | rfl
    · have husing : (Terminal.keyword "USING").accepts u = true := (haccepts _).trans (by decide)
      exact if_pos husing
    · obtain rfl : u = .symbol .openParen := by
        simpa [Terminal.accepts] using haccepts (.symbol .openParen)
      rfl

theorem indexType_completes :
    Completes indexType (Optional IndexType) fun _ => [.keyword "USING"] := by
  refine ((completes_oneOf (by decide)).after ?_).always
  rintro _ type ⟨h, htype⟩
  exact ⟨_, _, rfl, h.accepts (by decide), htype⟩

theorem indexWord_completes :
    Completes indexWord (Optional (OneOf ["INDEX", "KEY"]))
      fun _ => [.keyword "INDEX", .keyword "KEY"] := by
  refine (completes_choose? (by simp [Branch.behind]) ?_).always
  rintro _ us word ⟨hmem, h⟩
  simp only [List.mem_cons, List.not_mem_nil, or_false] at hmem
  rcases hmem with rfl | rfl
  · exact choose?_of_word h rfl rfl
  · exact choose?_of_word h rfl rfl

/-- The first words of the options of an index. -/
def indexOptionWords : List Terminal :=
  [.word "KEY_BLOCK_SIZE", .keyword "USING", .keyword "WITH", .keyword "COMMENT", .word "VISIBLE",
    .word "INVISIBLE", .word "ENGINE_ATTRIBUTE", .word "SECONDARY_ENGINE_ATTRIBUTE"]

/-- A value is taken behind an equals sign that may be left out. -/
theorem assigned_ok {p : Parser Unit} {es : List Token} {u : Token}
    (hes : es = [] ∨ es = [.symbol .equals]) (hu : u ≠ .symbol .equals)
    (hp : p (ofTokens (u :: us)) = .ok ((), ofTokens us)) :
    (do equalsSign; p) (ofTokens (es ++ [u] ++ us)) = .ok ((), ofTokens us) := by
  rcases hes with rfl | rfl
  · have hother : (Terminal.symbol .equals).accepts u = false := by
      simpa [Terminal.accepts] using hu
    exact (bind_of_ok (discard_of_ok (eat_cons_other hother))).trans hp
  · exact (bind_of_ok (discard_of_ok (eat_cons rfl))).trans hp

/-- Each option of an index is taken, and the words of options are looked for behind them. -/
theorem indexOptions_completes : Completes (choose? indexOptions) (Optional IndexOption)
    fun option => if option.isSome then [] else indexOptionWords := by
  refine completes_choose? (by simp [indexOptions, indexOptionWords, Branch.behind]) ?_
  have hstring : ∀ {u us}, u.IsString →
      u ≠ .symbol .equals ∧ discard stringLiteral (ofTokens (u :: us)) = .ok ((), ofTokens us) := by
    rintro u us ⟨kind, hkind, body, rfl⟩
    have hliteral : (Token.literal kind body).IsString := ⟨_, hkind, _, rfl⟩
    exact ⟨nofun, discard_of_ok (reads_stringLiteral.complete ⟨_, rfl, hliteral, rfl⟩ nofun)⟩
  -- Each option has a first word of its own, by which the choice is made.
  intro ts us _ h
  cases h with
  | blockSize h hes n => exact choose?_of_word h rfl (assigned_ok hes nofun rfl)
  | type h =>
    obtain ⟨h, htype⟩ := h
    exact choose?_of_word h rfl (discard_of_ok (completes_oneOf (by decide) htype nofun))
  | parser h hu quote name =>
    exact choose?_of_word h rfl ((bind_of_ok (expect_cons (hu.accepts (by decide)))).trans rfl)
  | comment h hu => exact choose?_of_word h rfl (hstring hu).2
  | visibility h =>
    obtain ⟨hmem, h⟩ := h
    simp only [List.mem_cons, List.not_mem_nil, or_false] at hmem
    rcases hmem with rfl | rfl
    · exact choose?_of_word h rfl rfl
    · exact choose?_of_word h rfl rfl
  | engineAttribute h hes hu =>
    obtain ⟨hmem, h⟩ := h
    obtain ⟨hne, hliteral⟩ := hstring hu
    simp only [List.mem_cons, List.not_mem_nil, or_false] at hmem
    rcases hmem with rfl | rfl
    · exact choose?_of_word h rfl (assigned_ok hes hne hliteral)
    · exact choose?_of_word h rfl (assigned_ok hes hne hliteral)

/-- Key parts are taken with the options behind them. -/
theorem optionedParts_ok {ps os : List Token} {parts : List KeyPart} {options : List Unit}
    (hparts : Listed KeyPart.Form ps parts) (hoptions : Repeated IndexOption os options) :
    optionedParts (ofTokens (ps ++ os)) = .ok (parts, []) := by
  refine keyParts_completes.bind_ok hparts nofun ?_
  have hmany := (indexOptions_completes.many IndexOption.starts nofun).alone hoptions
  exact (bind_of_ok (discard_of_ok hmany)).trans rfl

/-! ## References -/

/-- Both words of an action are taken. -/
theorem referenceAction_completes :
    Completes referenceAction ReferenceAction fun _ => [] := by
  rintro ts us action h -
  cases h with
  | single h =>
    obtain ⟨hne, hbegins⟩ := OneOf.starts h
    have hfirst : Begins [.word none "RESTRICT", .word none "CASCADE"] (ts ++ us) :=
      hbegins.append_left hne us
    -- No action of two words begins with one of these.
    refine (bind_of_ok (choose?_of_forall ?_)).trans (completes_oneOf (by decide) h nofun)
    simp only [List.forall_mem_cons]
    exact ⟨(hfirst.avoids (by decide)).opens _, (hfirst.avoids (by decide)).opens _, nofun⟩
  | @set t ts word h hword =>
    have hsecond : oneOf ["NULL", "DEFAULT"] (ofTokens (ts ++ us)) = .ok (word, ofTokens us) :=
      completes_oneOf (by decide) hword nofun
    exact (bind_of_ok (choose?_of_word h rfl ((bind_of_ok hsecond).trans rfl))).trans rfl
  | @noAction t u h hu =>
    have hsecond : expect (.word "ACTION") (ofTokens (u :: us)) = .ok ((), ofTokens us) :=
      expect_cons (isWord_iff.1 hu)
    exact (bind_of_ok (choose?_of_word h rfl ((bind_of_ok hsecond).trans rfl))).trans rfl

/-- The word for what a rule is about. -/
def ReferenceEvent.spelling : ReferenceEvent → String
  | .delete => "DELETE"
  | .update => "UPDATE"

/-- A rule of a reference with what it is about. -/
def RuleForm (ts : List Token) (rule : ReferenceEvent × String) : Prop :=
  ReferenceRule rule.1.spelling ts rule.2

/-- The alternative for the rules about an event whose action begins with the word. -/
def ruleBranch (event : ReferenceEvent) (word : String) : Branch (ReferenceEvent × String) :=
  ⟨[.keyword "ON", .keyword event.spelling, .word word], do
    skip 2
    return (event, ← referenceAction)⟩

/-- A rule of a reference is taken with its action. -/
theorem referenceRules_completes : Completes (choose? referenceRules) (Optional RuleForm)
    fun rule => if rule.isSome then [] else [.keyword "ON"] := by
  refine completes_choose? (by simp [referenceRules]) ?_
  rintro _ us ⟨event, action⟩ ⟨h, hevent, haction⟩
  rename_i t u as
  obtain ⟨v, vs, word, rfl, hv, hmem⟩ := haction.exists_word
  -- The first word of the action decides that there is a rule, and belongs to the action.
  have hskip : skip 2 (ofTokens (t :: u :: v :: (vs ++ us))) = .ok ((), ofTokens (v :: vs ++ us)) :=
    rfl
  have htaken : referenceAction (ofTokens (v :: vs ++ us)) = .ok (action, ofTokens us) :=
    referenceAction_completes haction nofun
  have hbody : (ruleBranch event word).body (ofTokens ([t, u, v] ++ (vs ++ us))) =
      .ok ((event, action), ofTokens us) :=
    (bind_of_ok hskip).trans ((bind_of_ok htaken).trans rfl)
  have hwords : List.Forall₂ IsWord ["ON", event.spelling, word] [t, u, v] :=
    .cons h (.cons hevent (.cons hv .nil))
  have hchosen : choose? referenceRules (ofTokens ([t, u, v] ++ (vs ++ us))) =
      .ok (some (event, action), ofTokens us) := by
    refine choose?_of_words hwords ?_ hbody
    simp only [List.mem_cons, List.not_mem_nil, or_false] at hmem
    cases event <;> rcases hmem with rfl | rfl | rfl | rfl <;> rfl
  exact hchosen

theorem RuleForm.starts : Starts [.word none "ON"] RuleForm := by
  refine starts_of_isWord ?_
  rintro _ ⟨event, action⟩ ⟨h, -, -⟩
  exact ⟨_, _, rfl, h⟩

/-- Rules about both events are repeated rules, and the last one about each event is the only
one. -/
theorem exists_rules {onDelete onUpdate : Option String} (h : ReferenceRules ts onDelete onUpdate) :
    ∃ rules, Repeated RuleForm ts rules ∧ lastAction .delete rules = onDelete ∧
      lastAction .update rules = onUpdate := by
  have hdelete : ∀ {ds : List Token} {action : Option String},
      Optional (ReferenceRule "DELETE") ds action →
        Repeated RuleForm ds (action.toList.map (ReferenceEvent.delete, ·)) :=
    fun h => h.repeated fun _ _ hrule => hrule
  have hupdate : ∀ {ds : List Token} {action : Option String},
      Optional (ReferenceRule "UPDATE") ds action →
        Repeated RuleForm ds (action.toList.map (ReferenceEvent.update, ·)) :=
    fun h => h.repeated fun _ _ hrule => hrule
  -- In either order the rules of one event stand together, and there is one of them at most.
  cases h with
  | deleteFirst hd hu =>
    refine ⟨_, (hdelete hd).append (hupdate hu), ?_, ?_⟩
    · cases onDelete <;> cases onUpdate <;> rfl
    · cases onDelete <;> cases onUpdate <;> rfl
  | updateFirst hd hu =>
    refine ⟨_, (hupdate hu).append (hdelete hd), ?_, ?_⟩
    · cases onDelete <;> cases onUpdate <;> rfl
    · cases onDelete <;> cases onUpdate <;> rfl

/-- `MATCH` is taken with the word behind it. -/
theorem matching_completes :
    Completes (after [.word "MATCH"] (oneOf ["FULL", "PARTIAL", "SIMPLE"])) (Optional MatchClause)
      fun _ => [.word "MATCH"] := by
  refine ((completes_oneOf (by decide)).after ?_).always
  rintro _ matching ⟨h, hmatching⟩
  exact ⟨_, _, rfl, h.accepts (by decide), hmatching⟩

/-- The parts that a reference names are taken if they are there. -/
theorem referenceParts_completes :
    Completes (ifAhead [.symbol .openParen] keyParts) (Optional (Listed KeyPart.Form))
      fun _ => [.symbol .openParen] := by
  refine (keyParts_completes.ifAhead ?_).always
  rintro _ parts ⟨-, -⟩
  exact ⟨_, _, rfl, rfl⟩

/-- A reference is taken in full in front of a token with which it does not go on. -/
theorem reference_completes : Completes reference Reference.Form
    fun _ => [.symbol .period, .symbol .openParen, .word "MATCH", .keyword "ON"] := by
  rintro _ us _ ⟨h, htable, hparts, hmatching, hrules⟩ hstop
  rename_i t ns ps ms rs table parts matching onDelete onUpdate
  obtain ⟨rules, hrepeated, rfl, rfl⟩ := exists_rules hrules
  simp only [List.forall_mem_cons] at hstop
  obtain ⟨hperiod, hopen, hmatch, hon, -⟩ := hstop
  -- What begins no clause does not come next, wherever the clauses are left out.
  have hbehind : ∀ {o : Terminal}, (∀ s ∈ [Token.word none "ON"], o.accepts s = false) →
      o.Avoids us → o.Avoids (rs ++ us) := fun ho hus => hrepeated.avoids RuleForm.starts ho hus
  have hbehind' : ∀ {o : Terminal}, (∀ s ∈ [Token.word none "ON"], o.accepts s = false) →
      (∀ s ∈ [Token.word none "MATCH"], o.accepts s = false) →
      o.Avoids us → o.Avoids (ms ++ (rs ++ us)) :=
    fun ho ho' hus => hmatching.avoids MatchClause.starts ho' (hbehind ho hus)
  have hperiod' : (Terminal.symbol .period).Avoids (ps ++ (ms ++ (rs ++ us))) :=
    hparts.avoids Listed.starts (by decide) (hbehind' (by decide) (by decide) hperiod)
  have htokens : t :: (ns ++ (ps ++ (ms ++ rs))) ++ us =
      t :: (ns ++ (ps ++ (ms ++ (rs ++ us)))) := by simp
  rw [htokens]
  refine (bind_of_ok (expect_cons (h.accepts (by decide)))).trans ?_
  refine tableName_completes.bind_ok htable (List.forall_mem_singleton.2 hperiod') ?_
  refine referenceParts_completes.bind_ok hparts
    (List.forall_mem_singleton.2 (hbehind' (by decide) (by decide) hopen)) ?_
  refine matching_completes.bind_ok hmatching
    (List.forall_mem_singleton.2 (hbehind (by decide) hmatch)) ?_
  have hmany := referenceRules_completes.many RuleForm.starts nofun
  exact hmany.bind_ok hrepeated (List.forall_mem_singleton.2 hon) rfl

/-! ## Constraints -/

/-- The words that stand behind the name of a constraint that declares a key. -/
def keyWords : List String :=
  ["PRIMARY", "UNIQUE", "FOREIGN"]

/-- The name of a constraint is taken in front of the words that tell what it declares. -/
theorem constraintName_ok {name : Option String} {u : Token} {word : String}
    (h : ConstraintName ts name) (hword : word ∈ keyWords) (hu : u.IsWord word) :
    constraintName (ofTokens (ts ++ u :: us)) = .ok (name, ofTokens (u :: us)) := by
  have hother : ∀ word ∈ keyWords,
      (Terminal.keyword "CONSTRAINT").accepts (.word none word) = false := by decide
  -- In front of these words no name is looked for.
  have hunnamed : Terminal.opensAny [[.keyword "PRIMARY"], [.keyword "UNIQUE"],
      [.keyword "FOREIGN"], [.keyword "CHECK"]] (ofTokens (u :: us)) = true := by
    simp only [keyWords, List.mem_cons, List.not_mem_nil, or_false] at hword
    change List.any _ (Terminal.opens · (ofTokens ([u] ++ us))) = true
    simp only [opens_words (.cons hu .nil)]
    rcases hword with rfl | rfl | rfl <;> rfl
  cases h with
  | absent =>
    have heat :
        eat (.keyword "CONSTRAINT") (ofTokens (u :: us)) = .ok (false, ofTokens (u :: us)) :=
      eat_cons_other ((hu.accepts_eq _).trans (hother word hword))
    exact (bind_of_ok heat).trans rfl
  | @unnamed t h =>
    have heat :
        eat (.keyword "CONSTRAINT") (ofTokens (t :: u :: us)) = .ok (true, ofTokens (u :: us)) :=
      eat_cons (h.accepts (by decide))
    refine (bind_of_ok heat).trans ((bind_of_ok (asks_ok _ _)).trans ?_)
    rw [hunnamed]
    rfl
  | @named t ns name h hname =>
    obtain ⟨quote, name⟩ := hname
    have heat : eat (.keyword "CONSTRAINT") (ofTokens (t :: .word (some quote) name :: u :: us)) =
        .ok (true, ofTokens (.word (some quote) name :: u :: us)) :=
      eat_cons (h.accepts (by decide))
    exact (bind_of_ok heat).trans rfl

section Keys

variable {is ms ps os : List Token} {index type : Option String} {parts : List KeyPart}
  {options : List Unit}

/-- The type and the parts of an index begin with `USING` or a parenthesis. -/
theorem indexType_begins (htype : Optional IndexType ms type)
    (hparts : Listed KeyPart.Form ps parts) (os : List Token) :
    Begins [.word none "USING", .symbol .openParen] (ms ++ (ps ++ os)) := by
  obtain ⟨hne, hopen⟩ := Listed.starts hparts
  have htypes : Begins [.word none "USING"] ms := htype.begins fun _ _ h => (IndexType.starts h).2
  exact htypes.append (hopen.append_left hne os)

/-- The name of an index is quoted, so that no word of the language comes next but `USING`. -/
theorem index_begins (hindex : Optional QuotedName is index) (htype : Optional IndexType ms type)
    (hparts : Listed KeyPart.Form ps parts) (os : List Token) :
    Begins [.word (some '\x60') "", .word none "USING", .symbol .openParen]
      (is ++ (ms ++ (ps ++ os))) := by
  have hnames : Begins [.word (some '\x60') ""] is :=
    hindex.begins fun _ _ h => (QuotedName.starts h).2
  exact hnames.append (indexType_begins htype hparts os)

/-- The index of a key is taken part by part: its name, its type, and its parts with the options
behind them. -/
theorem index_ok (hindex : Optional QuotedName is index) (htype : Optional IndexType ms type)
    (hparts : Listed KeyPart.Form ps parts) (hoptions : Repeated IndexOption os options) :
    indexName (ofTokens (is ++ (ms ++ (ps ++ os)))) = .ok (index, ofTokens (ms ++ (ps ++ os))) ∧
      indexType (ofTokens (ms ++ (ps ++ os))) = .ok (type, ofTokens (ps ++ os)) ∧
      optionedParts (ofTokens (ps ++ os)) = .ok (parts, []) := by
  obtain ⟨hne, hopen⟩ := Listed.starts hparts
  have hlist : Begins [.symbol .openParen] (ps ++ os) := hopen.append_left hne os
  exact ⟨indexName_ok hindex (indexType_begins htype hparts os),
    indexType_completes htype (List.forall_mem_singleton.2 (hlist.avoids (by decide))),
    optionedParts_ok hparts hoptions⟩

/-- Each form of a primary key is taken in full. -/
theorem primaryKey_ok (name : Option String) {k : Token} (hkey : k.IsWord "KEY")
    (hindex : Optional QuotedName is index) (htype : Optional IndexType ms type)
    (hparts : Listed KeyPart.Form ps parts) (hoptions : Repeated IndexOption os options) :
    primaryKey name (ofTokens (k :: (is ++ (ms ++ (ps ++ os))))) =
      .ok (.primaryKey name index type parts, []) := by
  obtain ⟨hindex', htype', hparts'⟩ := index_ok hindex htype hparts hoptions
  refine (bind_of_ok (expect_cons (hkey.accepts (by decide)))).trans ?_
  exact (bind_of_ok hindex').trans ((bind_of_ok htype').trans ((bind_of_ok hparts').trans rfl))

/-- Each form of a unique key is taken in full. -/
theorem uniqueKey_ok (name : Option String) {ws : List Token} {word : Option String}
    (hword : Optional (OneOf ["INDEX", "KEY"]) ws word) (hindex : Optional QuotedName is index)
    (htype : Optional IndexType ms type) (hparts : Listed KeyPart.Form ps parts)
    (hoptions : Repeated IndexOption os options) :
    uniqueKey name (ofTokens (ws ++ (is ++ (ms ++ (ps ++ os))))) =
      .ok (.uniqueKey name word index parts, []) := by
  obtain ⟨hindex', htype', hparts'⟩ := index_ok hindex htype hparts hoptions
  have hapart : ∀ o ∈ [Terminal.keyword "INDEX", .keyword "KEY"],
      ∀ s ∈ [Token.word (some '\x60') "", .word none "USING", .symbol .openParen],
        o.accepts s = false := by decide
  refine indexWord_completes.bind_ok hword (fun o ho => ?_) ?_
  · exact (index_begins hindex htype hparts os).avoids (hapart o ho)
  · exact (bind_of_ok hindex').trans ((bind_of_ok (discard_of_ok htype')).trans
      ((bind_of_ok hparts').trans rfl))

/-- Each form of a foreign key is taken in full, with its reference. -/
theorem foreignKey_ok (name : Option String) {k : Token} {rs : List Token} {reference : Reference}
    (hkey : k.IsWord "KEY") (hindex : Optional QuotedName is index)
    (hparts : Listed KeyPart.Form ps parts) (hreference : reference.Form rs) :
    foreignKey name (ofTokens (k :: (is ++ (ps ++ rs)))) =
      .ok (.foreignKey name index parts reference, []) := by
  obtain ⟨hne, hopen⟩ := Listed.starts hparts
  refine (bind_of_ok (expect_cons (hkey.accepts (by decide)))).trans ?_
  refine (bind_of_ok (indexName_ok hindex ((hopen.append_left hne rs).mono (by simp)))).trans ?_
  refine keyParts_completes.bind_ok hparts nofun ?_
  exact (bind_of_ok (reference_completes.alone hreference)).trans rfl

end Keys

/-- The tokens of a form of a key are read as the constraint. -/
theorem tableConstraint_ok {decl : ConstraintDecl} (h : decl.Form ts) :
    tableConstraint (ofTokens ts) = .ok (decl, []) := by
  -- The word behind the name chooses the kind, and the rest of the form is that of the kind.
  cases h with
  | @primaryKey cs is ms ps os t k name index type parts options hname hprimary hkey hindex htype
      hparts hoptions =>
    have hbody := primaryKey_ok name hkey hindex htype hparts hoptions
    exact (bind_of_ok (constraintName_ok hname (by decide) hprimary)).trans
      ((bind_of_ok (choose?_of_word hprimary rfl hbody)).trans rfl)
  | @uniqueKey cs ws is ms ps os t name word index type parts options hname hunique hword hindex
      htype hparts hoptions =>
    have hbody := uniqueKey_ok name hword hindex htype hparts hoptions
    exact (bind_of_ok (constraintName_ok hname (by decide) hunique)).trans
      ((bind_of_ok (choose?_of_word hunique rfl hbody)).trans rfl)
  | @foreignKey cs is ps rs t k name index parts reference hname hforeign hkey hindex hparts
      hreference =>
    have hbody := foreignKey_ok name hkey hindex hparts hreference
    exact (bind_of_ok (constraintName_ok hname (by decide) hforeign)).trans
      ((bind_of_ok (choose?_of_word hforeign rfl hbody)).trans rfl)

end TableSchema.Grammar
