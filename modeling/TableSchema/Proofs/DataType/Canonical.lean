import TableSchema.Proofs.DataType.Keyword
import TableSchema.Proofs.Token.Written

/-!
# Canonical texts of data types

The canonical text of a data type has the same shape for all types: perhaps a word in front, the
type word, perhaps a list in parentheses, some words, and perhaps a name at the end. The list is
written without spaces, all else is set off by one.

## Main definitions

* `CanonicalType`: the parts of a canonical text, with its `text` and its `tokens`;
* `CanonicalType.IsLegible`: the parts are read again where they stand.

## Main results

* `CanonicalType.IsLegible.lexemes`: the lexemes of the text have the tokens of the parts.
-/

namespace TableSchema

/-- The parts of the canonical text of a data type. -/
structure CanonicalType where
  /-- The word in front of the type word. -/
  lead : Option String := none
  /-- The type word. -/
  keyword : TypeKeyword
  /-- The numbers or literals in parentheses. Without any there are no parentheses. -/
  items : List Token := []
  /-- The words behind. -/
  words : List String := []
  /-- The name at the end. -/
  name : Option Token := none

namespace Token

/-- Items in parentheses with commas between them. -/
def bracketed : List Token → List Token
  | [] => []
  | t :: ts =>
    .symbol .openParen :: ((t :: ts).intersperse (.symbol .comma) ++ [.symbol .closeParen])

/-- The token is no white space and is read in front of a parted text. -/
def IsItem (t : Token) : Prop :=
  t ≠ .blank ∧ ∀ rest, Piece.Parted rest → t.ReadsBefore rest

/-- Items with commas between them are read back in front of what may stand behind them. -/
theorem readsBack_intersperse {items ts : List Token} (hitems : ∀ t ∈ items, t.IsItem)
    (hts : Follows ts) : ReadsBack (items.intersperse (.symbol .comma) ++ ts) := by
  induction items with
  | nil => exact hts.readsBack
  | cons t items ih =>
    obtain ⟨ht, hitems⟩ := List.forall_mem_cons.1 hitems
    have hrest := ih hitems
    cases items with
    | nil => exact ⟨ht.2 _ hts.parted, hrest⟩
    | cons u items =>
      -- A comma may stand behind any token, and the others behind the comma.
      have hcomma := Follows.cons .comma hrest
      exact ⟨ht.2 _ hcomma.parted, hcomma.readsBack⟩

/-- Items in parentheses may stand behind any token. -/
theorem follows_bracketed {items ts : List Token} (hitems : ∀ t ∈ items, t.IsItem)
    (hts : Follows ts) : Follows (bracketed items ++ ts) := by
  cases items with
  | nil => exact hts
  | cons t items =>
    rw [bracketed, List.cons_append, List.append_assoc]
    exact .cons .openParen (readsBack_intersperse hitems (.cons .closeParen hts.readsBack))

/-- Between the items there are commas and nothing else. -/
theorem mem_intersperse {items : List Token} {t : Token}
    (h : t ∈ items.intersperse (.symbol .comma)) : t ∈ items ∨ t = .symbol .comma := by
  induction items with
  | nil => simp at h
  | cons u items ih =>
    cases items with
    | nil => exact .inl h
    | cons v items =>
      rw [List.intersperse_cons_cons, List.mem_cons, List.mem_cons] at h
      obtain rfl | rfl | h := h
      · exact .inl List.mem_cons_self
      · exact .inr rfl
      · exact (ih h).imp_left (List.mem_cons_of_mem u)

/-- Items in parentheses are items, commas and the parentheses. -/
theorem mem_or_symbol_of_mem_bracketed {items : List Token} {t : Token} (h : t ∈ bracketed items) :
    t ∈ items ∨ ∃ s, t = .symbol s := by
  cases items with
  | nil => simp [bracketed] at h
  | cons u items =>
    simp only [bracketed, List.mem_cons, List.mem_append, List.not_mem_nil, or_false] at h
    obtain rfl | h | rfl := h
    · exact .inr ⟨_, rfl⟩
    · exact (mem_intersperse h).imp_right fun h => ⟨_, h⟩
    · exact .inr ⟨_, rfl⟩

/-- There is no white space among items in parentheses. -/
theorem ne_blank_of_mem_bracketed {items : List Token} (hitems : ∀ t ∈ items, t.IsItem) :
    ∀ t ∈ bracketed items, t ≠ .blank := by
  intro t ht
  obtain ht | ⟨s, rfl⟩ := mem_or_symbol_of_mem_bracketed ht
  · exact (hitems t ht).1
  · nofun

/-- A number that was read is an item. -/
theorem isItem_of_numberText? {t : Token} (h : t.Legible)
    (hnumber : t.numberText?.isSome = true) : t.IsItem := by
  cases t with
  | number digits => exact ⟨nofun, fun rest hrest => Piece.readsBefore_number h hrest⟩
  | _ => exact nomatch hnumber

/-- A string literal that was read is an item. -/
theorem isItem_of_stringText? {t : Token} (h : t.Legible)
    (hstring : t.stringText?.isSome = true) : t.IsItem := by
  refine ⟨?_, fun rest hrest => Piece.readsBefore_string h hstring hrest⟩
  rintro rfl
  exact nomatch hstring

@[simp]
theorem glue_bracketed_nil : glue (bracketed []) = "" := rfl

/-- With numbers or literals in parentheses the text is that of the items, with commas. -/
theorem glue_bracketed {items : List Token} (h : items ≠ []) :
    glue (bracketed items) = "(" ++ ",".intercalate (items.map text) ++ ")" := by
  -- The parentheses are put around the text of a run with commas, which is found by induction.
  have hinside (items : List Token) :
      glue (items.intersperse (.symbol .comma)) = ",".intercalate (items.map text) := by
    induction items with
    | nil => rfl
    | cons t items ih =>
      cases items with
      | nil => simp [glue]
      | cons u items =>
        have hcomma : (Token.symbol .comma).text = "," := rfl
        rw [List.map_cons, List.map_cons, String.intercalate_cons_cons, ← List.map_cons, ← ih,
          List.intersperse_cons_cons]
        simp [glue, hcomma, String.append_assoc]
  obtain ⟨t, items, rfl⟩ := List.exists_cons_of_ne_nil h
  rw [← hinside, bracketed]
  simp [glue, String.append_assoc, Token.text, Symbol.text]

end Token

/-- Words set off by spaces from what stands before them. -/
def setOff (words : List String) : String :=
  String.join (words.map (" " ++ ·))

@[simp]
theorem setOff_nil : setOff [] = "" := rfl

@[simp]
theorem setOff_cons (w : String) (words : List String) :
    setOff (w :: words) = " " ++ w ++ setOff words := by
  simp [setOff]

@[simp]
theorem setOff_append (words others : List String) :
    setOff (words ++ others) = setOff words ++ setOff others := by
  simp [setOff]

namespace CanonicalType

open Token

/-- The text of the parts. -/
def text (c : CanonicalType) : String :=
  (match c.lead with
    | some w => w ++ " "
    | none => "") ++
  c.keyword.spelling ++ glue (bracketed c.items) ++ setOff c.words ++
  match c.name with
    | some t => " " ++ t.text
    | none => ""

/-- The tokens of the parts. -/
def tokens (c : CanonicalType) : List Token :=
  c.lead.toList.map (.word none) ++ .word none c.keyword.spelling ::
    (bracketed c.items ++ (c.words.map (.word none) ++ c.name.toList))

/-- The tokens of the parts with the white space between them. -/
def written (c : CanonicalType) : List Token :=
  c.lead.toList.flatMap (fun w => [.word none w, .blank]) ++ .word none c.keyword.spelling ::
    (bracketed c.items ++ (c.words.flatMap (fun w => [.blank, .word none w]) ++
      c.name.toList.flatMap fun t => [.blank, t]))

/-- Every part is read where it stands. -/
structure IsLegible (c : CanonicalType) : Prop where
  /-- The word in front is a plain word. -/
  lead : ∀ w ∈ c.lead, Piece.IsPlainWord w
  /-- The items are read in front of a comma and a parenthesis. -/
  items : ∀ t ∈ c.items, t.IsItem
  /-- The words behind are plain words. -/
  words : ∀ w ∈ c.words, Piece.IsPlainWord w
  /-- The name is read at the end of a text. -/
  name : ∀ t ∈ c.name, t ≠ .blank ∧ t.ReadsBefore []

/-- Words set off by spaces may stand behind any token. -/
theorem follows_words {words : List String} (hwords : ∀ w ∈ words, Piece.IsPlainWord w)
    {ts : List Token} (hts : Follows ts) :
    Follows (words.flatMap (fun w => [.blank, .word none w]) ++ ts) := by
  induction words with
  | nil => exact hts
  | cons w words ih =>
    obtain ⟨hw, hwords⟩ := List.forall_mem_cons.1 hwords
    have hbehind := ih hwords
    exact .cons .blank ⟨Piece.readsBefore_plainWord hw hbehind.parted, hbehind.readsBack⟩

/-- The written parts are read back. -/
theorem IsLegible.readsBack {c : CanonicalType} (h : c.IsLegible) : ReadsBack c.written := by
  -- The run is built from its end, since a token is read in front of what stands behind it.
  have hname : Follows (c.name.toList.flatMap fun t => [.blank, t]) := by
    cases hc : c.name with
    | none => exact .nil
    | some t => exact .cons .blank ⟨(h.name t hc).2, trivial⟩
  have hbehind := follows_bracketed h.items (follows_words h.words hname)
  have hkeyword : ReadsBack (.word none c.keyword.spelling ::
      (bracketed c.items ++ (c.words.flatMap (fun w => [.blank, .word none w]) ++
        c.name.toList.flatMap fun t => [.blank, t]))) :=
    ⟨Piece.readsBefore_plainWord c.keyword.isPlainWord_spelling hbehind.parted, hbehind.readsBack⟩
  unfold written
  cases hc : c.lead with
  | none => exact hkeyword
  | some w =>
    have hlead := Follows.cons .blank hkeyword
    exact ⟨Piece.readsBefore_plainWord (h.lead w hc) hlead.parted, hlead.readsBack⟩

/-- The text of the parts is what they are written with. -/
theorem IsLegible.toList_text {c : CanonicalType} (h : c.IsLegible) :
    c.text.toList = chars c.written := by
  -- Each part is compared for itself; the word in front only decides where the items stand.
  have hitems := toList_glue (ne_blank_of_mem_bracketed h.items)
  have hwords : (setOff c.words).toList =
      chars (c.words.flatMap fun w => [.blank, .word none w]) := by
    induction c.words with
    | nil => rfl
    | cons w words ih => simpa using ih
  have hname : (match c.name with
      | some t => " " ++ t.text
      | none => "").toList = chars (c.name.toList.flatMap fun t => [.blank, t]) := by
    cases hc : c.name with
    | none => rfl
    | some t => simp [written_of_ne_blank (h.name t hc).1]
  unfold text written
  cases c.lead with
  | none => simp [hitems, hwords, hname]
  | some w => simp [hitems, hwords, hname]

/-- The written parts have the tokens of the parts and white space. -/
theorem IsLegible.filter_written {c : CanonicalType} (h : c.IsLegible) :
    c.written.filter (· != .blank) = c.tokens := by
  -- White space stands only where `written` puts it: no part brings any of its own.
  have hitems : (bracketed c.items).filter (· != .blank) = bracketed c.items :=
    List.filter_eq_self.2 fun t ht => by simpa using ne_blank_of_mem_bracketed h.items t ht
  have hwords : (c.words.flatMap fun w => [.blank, .word none w]).filter (· != .blank) =
      c.words.map (Token.word none) := by
    induction c.words with
    | nil => rfl
    | cons w words ih => simpa using ih
  have hname : (c.name.toList.flatMap fun t => [.blank, t]).filter (· != .blank) =
      c.name.toList := by
    cases hc : c.name with
    | none => rfl
    | some t => simp [(h.name t hc).1]
  unfold written tokens
  cases c.lead with
  | none => simp [hitems, hwords, hname]
  | some w => simp [hitems, hwords, hname]

/-- The lexemes of the text of the parts have the tokens of the parts. -/
theorem IsLegible.lexemes {c : CanonicalType} (h : c.IsLegible) :
    ∃ ls, Lexeme.ofString c.text = .ok ls ∧ Lexeme.tokens ls = c.tokens := by
  rw [← h.filter_written]
  exact h.readsBack.lexemes h.toList_text

end CanonicalType

end TableSchema
