import Mathlib.Data.List.Forall2
import TableSchema.Export
import TableSchema.Proofs.Export.Batch
import TableSchema.Proofs.Text.Encoding

/-!
# Files are exported like their texts

A file that holds a text is exported like the text; only an error of the grammar differs, and it
differs in nothing but the name of the file (`Export.AlikeInFile`). Several files give what each of
them gives, in their order, and fail as the first file that fails, whether they are analysed one by
one or as a batch.
-/

namespace TableSchema

/-- A text that cannot be read fails for its tokens or for the grammar. -/
theorem Parser.readString_eq_error {α : Type} {p : Parser α} {text : String} {error : Error}
    (h : p.readString text = .error error) :
    (∃ e, error = .lexical e) ∨ ∃ e, error = .grammar e := by
  unfold Parser.readString at h
  cases hls : Lexeme.ofString text with
  | error e =>
    rw [hls] at h
    exact .inl ⟨e, (Except.error.inj h).symm⟩
  | ok ls =>
    rw [hls] at h
    change (p.readAll ls).mapError .grammar = .error error at h
    cases hread : p.readAll ls with
    | ok a =>
      rw [hread] at h
      exact nomatch h
    | error e =>
      rw [hread] at h
      exact .inr ⟨e, (Except.error.inj h).symm⟩

namespace Export

/-! ## One file -/

/-- A text and the file at `path` fare alike. -/
inductive AlikeInFile (path : String) : Except Error Export → Except Error Export → Prop
  /-- The same is found. -/
  | found (e : Export) : AlikeInFile path (.ok e) (.ok e)
  /-- The same fault of the tokens. -/
  | lexical (e : LexicalError) : AlikeInFile path (.error (.lexical e)) (.error (.lexical e))
  /-- The same fault of the grammar at the same place; that of the file names the file. -/
  | grammar (e : GrammarError) :
    AlikeInFile path (.error (.grammar e)) (.error (.grammarInFile path e))

/-- A text and a file of the same text fare alike. -/
theorem alikeInFile_mapError (path text : String) :
    AlikeInFile path (ofText text) ((ofText text).mapError (·.inFile path)) := by
  cases hread : Script.parse text with
  | ok script =>
    have htext : ofText text = .ok (ofScript script) := by rw [ofText, hread]; rfl
    rw [htext]
    exact .found _
  | error error =>
    have htext : ofText text = .error error := by rw [ofText, hread]; rfl
    rw [htext]
    obtain ⟨e, rfl⟩ | ⟨e, rfl⟩ := Parser.readString_eq_error hread
    · exact .lexical e
    · exact .grammar e

/-- The text of a file that holds one. -/
theorem readText_eq_ok {files : Files} {path text : String} {bytes : List UInt8}
    (hbytes : files.read? path = some bytes) (hholds : Text.Holds bytes text)
    (hmark : text.toList.head? ≠ some '\uFEFF') : readText files path = .ok text := by
  unfold readText
  rw [hbytes]
  dsimp only
  rw [hholds.ofBytes? hmark]

/-- A file that holds a text is analysed like the text; an error of the grammar names the file. -/
theorem ofFile_eq_mapError {files : Files} {path text : String} {bytes : List UInt8}
    (hbytes : files.read? path = some bytes) (hholds : Text.Holds bytes text)
    (hmark : text.toList.head? ≠ some '\uFEFF') :
    ofFile files path = (ofText text).mapError (·.inFile path) := by
  unfold ofFile
  rw [readText_eq_ok hbytes hholds hmark]
  rfl

/-- A file that holds a text fares like the text. -/
theorem alikeInFile_ofFile {files : Files} {path text : String} {bytes : List UInt8}
    (hbytes : files.read? path = some bytes) (hholds : Text.Holds bytes text)
    (hmark : text.toList.head? ≠ some '\uFEFF') :
    AlikeInFile path (ofText text) (ofFile files path) := by
  rw [ofFile_eq_mapError hbytes hholds hmark]
  exact alikeInFile_mapError path text

/-- An input that names a file is taken as the name. -/
theorem ofInput_eq_ofFile {files : Files} {path : String} {bytes : List UInt8}
    (hbytes : files.read? path = some bytes) : ofInput files path = ofFile files path := by
  unfold ofInput Input.detect Files.isFile
  rw [hbytes]
  rfl

/-! ## Several files -/

/-- What several exports hold, one after the other. -/
def concat (es : List Export) : Export :=
  ⟨es.flatMap tables, ⟨es.flatMap (·.diagnostics.entries)⟩⟩

/-- Appending is associative. -/
theorem append_assoc (e f g : Export) : (e.append f).append g = e.append (f.append g) := by
  simp [append, Diagnostics.append]

/-- What is found before several analyses stays in front of what they find. -/
theorem foldlM_append (results : List (Except Error Export)) (e : Export) :
    results.foldlM addResult e = (combine results).map e.append := by
  unfold combine
  induction results generalizing e with
  | nil =>
    -- Nothing is put behind `e`.
    show Except.ok e = .ok (e.append empty)
    simp [append, empty, Diagnostics.append, Diagnostics.empty]
  | cons result results ih =>
    cases result with
    | error error => rfl
    | ok f =>
      change results.foldlM addResult (e.append f) = (results.foldlM addResult f).map e.append
      rw [ih (e.append f), ih f]
      cases results.foldlM addResult empty with
      | error error => rfl
      | ok g => exact congrArg Except.ok (append_assoc e f g)

/-- An analysis that succeeds comes before the others. -/
theorem combine_ok_cons (e : Export) (results : List (Except Error Export)) :
    combine (.ok e :: results) = (combine results).map e.append :=
  foldlM_append results e

/-- Either all analyses succeed, or some of them do and the next one fails. -/
theorem exists_ok_or_error (results : List (Except Error Export)) :
    (∃ es : List Export, results = es.map .ok) ∨
      ∃ (es : List Export) (error : Error) (later : List (Except Error Export)),
        results = es.map .ok ++ .error error :: later := by
  induction results with
  | nil => exact .inl ⟨[], rfl⟩
  | cons result results ih =>
    cases result with
    | error error => exact .inr ⟨[], error, results, rfl⟩
    | ok e =>
      obtain ⟨es, rfl⟩ | ⟨es, error, later, rfl⟩ := ih
      · exact .inl ⟨e :: es, rfl⟩
      · exact .inr ⟨e :: es, error, later, rfl⟩

/-- What analyses that succeed find is put together in their order. -/
theorem combine_map_ok (es : List Export) : combine (es.map .ok) = .ok (concat es) := by
  induction es with
  | nil => rfl
  | cons e es ih =>
    rw [List.map_cons, combine_ok_cons, ih]
    rfl

/-- The first analysis that fails decides. -/
theorem combine_append_error (es : List Export) (error : Error)
    (later : List (Except Error Export)) :
    combine (es.map .ok ++ .error error :: later) = .error error := by
  induction es with
  | nil => rfl
  | cons e es ih =>
    rw [List.map_cons, List.cons_append, combine_ok_cons, ih]
    rfl

/-- Several analyses succeed if each of them does, and find what these find in their order. -/
theorem combine_eq_ok {results : List (Except Error Export)} {e : Export} :
    combine results = .ok e ↔ ∃ es : List Export, results = es.map .ok ∧ e = concat es := by
  constructor
  · intro h
    obtain ⟨es, rfl⟩ | ⟨es, error, later, rfl⟩ := exists_ok_or_error results
    · rw [combine_map_ok] at h
      exact ⟨es, rfl, (Except.ok.inj h).symm⟩
    · rw [combine_append_error] at h
      cases h
  · rintro ⟨es, rfl, rfl⟩
    exact combine_map_ok es

/-- Several analyses fail as the first of them that fails. -/
theorem combine_eq_error {results : List (Except Error Export)} {error : Error} :
    combine results = .error error ↔
      ∃ (es : List Export) (later : List (Except Error Export)),
        results = es.map .ok ++ .error error :: later := by
  constructor
  · intro h
    obtain ⟨es, rfl⟩ | ⟨es, first, later, rfl⟩ := exists_ok_or_error results
    · rw [combine_map_ok] at h
      cases h
    · rw [combine_append_error] at h
      exact ⟨es, later, by rw [Except.error.inj h]⟩
  · rintro ⟨es, later, rfl⟩
    exact combine_append_error es error later

/-- Whether the files are analysed one by one or as a batch does not matter. -/
theorem resultsOfFiles_eq_map (files : Files) (paths : List String)
    (schedule : Schedule paths.length) :
    resultsOfFiles files paths schedule = paths.map (ofFile files) := by
  unfold resultsOfFiles
  split
  · exact Batch.collect_eq_map (ofFile files) paths schedule
  · rfl

/-- Each of several files succeeds exactly if their results are the exports of a list. -/
theorem map_ofFile_eq_iff {files : Files} {paths : List String} {es : List Export} :
    paths.map (ofFile files) = es.map .ok ↔
      List.Forall₂ (fun path e => ofFile files path = .ok e) paths es := by
  rw [← List.forall₂_eq_eq_eq, List.forall₂_map_left_iff, List.forall₂_map_right_iff]

/-- The results of several files are exports exactly if each of them succeeds. -/
theorem exists_map_ofFile_iff {files : Files} {paths : List String} :
    (∃ es : List Export, paths.map (ofFile files) = es.map .ok) ↔
      ∀ path ∈ paths, ∃ e, ofFile files path = .ok e := by
  constructor
  · rintro ⟨es, hes⟩ path hpath
    have hresult : ofFile files path ∈ es.map .ok := hes ▸ List.mem_map_of_mem hpath
    obtain ⟨e, -, he⟩ := List.mem_map.1 hresult
    exact ⟨e, he.symm⟩
  · intro h
    induction paths with
    | nil => exact ⟨[], rfl⟩
    | cons path paths ih =>
      obtain ⟨e, he⟩ := h path List.mem_cons_self
      obtain ⟨es, hes⟩ := ih fun other hother => h other (List.mem_cons_of_mem path hother)
      exact ⟨e :: es, by rw [List.map_cons, List.map_cons, he, hes]⟩

/-- Some files succeed and the next one fails exactly if their results are exports and then the
error. -/
theorem map_ofFile_eq_append_iff {files : Files} {paths : List String} {error : Error} :
    (∃ (es : List Export) (later : List (Except Error Export)),
        paths.map (ofFile files) = es.map .ok ++ .error error :: later) ↔
      ∃ before path after, paths = before ++ path :: after ∧
        (∀ earlier ∈ before, ∃ e, ofFile files earlier = .ok e) ∧
          ofFile files path = .error error := by
  constructor
  · rintro ⟨es, later, h⟩
    obtain ⟨before, rest, rfl, hbefore, hrest⟩ := List.map_eq_append_iff.1 h
    obtain ⟨path, after, rfl, hpath, -⟩ := List.map_eq_cons_iff.1 hrest
    exact ⟨before, path, after, rfl, exists_map_ofFile_iff.1 ⟨es, hbefore⟩, hpath⟩
  · rintro ⟨before, path, after, rfl, hbefore, hpath⟩
    obtain ⟨es, hes⟩ := exists_map_ofFile_iff.2 hbefore
    exact ⟨es, after.map (ofFile files), by rw [List.map_append, List.map_cons, hes, hpath]⟩

/-- A file that holds a text which does not begin with the byte order mark is exported like the
text, by its path and as an input. Several files, one by one or as a batch, succeed exactly if each
of them does and then give what they give in their order; they fail as the first that fails. -/
theorem alikeInFile_and_ofFiles_iff (files : Files) :
    (∀ (path text : String) (bytes : List UInt8), files.read? path = some bytes →
      Text.Holds bytes text → text.toList.head? ≠ some '\uFEFF' →
        AlikeInFile path (ofText text) (ofFile files path) ∧
          ofInput files path = ofFile files path) ∧
    ∀ (paths : List String) (schedule : Schedule paths.length),
      (∀ found, ofFiles files paths schedule = .ok found ↔
        ∃ es, List.Forall₂ (fun path e => ofFile files path = .ok e) paths es ∧
          found = concat es) ∧
      ∀ error, ofFiles files paths schedule = .error error ↔
        ∃ before path after, paths = before ++ path :: after ∧
          (∀ earlier ∈ before, ∃ e, ofFile files earlier = .ok e) ∧
            ofFile files path = .error error := by
  constructor
  · intro path text bytes hbytes hholds hmark
    exact ⟨alikeInFile_ofFile hbytes hholds hmark, ofInput_eq_ofFile hbytes⟩
  · intro paths schedule
    -- The results stand in the order of the paths, whatever the schedule was.
    unfold ofFiles
    rw [resultsOfFiles_eq_map]
    constructor
    · intro found
      simp only [combine_eq_ok, map_ofFile_eq_iff]
    · intro error
      rw [combine_eq_error, map_ofFile_eq_append_iff]

/-- A file with a byte order mark, and a batch of nine files that are finished from the last to the
first. The fifth is outside of the language and the sixth does not exist; the fifth decides. -/
theorem alikeInFile_and_ofFiles_iff_of_mark :
    let files : Files := ⟨fun path => [("/sql/a", Text.utf8Mark ++ Text.toUtf8 "USE b"),
      ("/sql/b", Text.toUtf8 "b")].lookup path⟩
    let before := List.replicate 4 "/sql/a"
    let after := "/sql/c" :: List.replicate 3 "/sql/a"
    AlikeInFile "/sql/a" (ofText "USE b") (ofFile files "/sql/a") ∧
      ofInput files "/sql/a" = ofFile files "/sql/a" ∧
      ofFiles files (before ++ "/sql/b" :: after) ⟨(List.range 9).reverse, List.reverse_perm _⟩ =
        .error (.grammarInFile "/sql/b" ⟨.statement, some (.word none "b"), ⟨1, 1⟩⟩) := by
  intro files before after
  have hbytes : files.read? "/sql/a" = some (Text.utf8Mark ++ Text.toUtf8 "USE b") := rfl
  have hmark : "USE b".toList.head? ≠ some '\uFEFF' := by decide
  have hbytes' : files.read? "/sql/b" = some (Text.toUtf8 "b") := rfl
  have hmark' : "b".toList.head? ≠ some '\uFEFF' := by decide
  obtain ⟨hfile, hbatch⟩ := alikeInFile_and_ofFiles_iff files
  obtain ⟨halike, hinput⟩ := hfile "/sql/a" "USE b" _ hbytes (.inr rfl) hmark
  -- Nine files are exported as a batch, and their results are combined from the first on.
  refine ⟨halike, hinput, ((hbatch _ _).2 _).2 ⟨before, "/sql/b", after, rfl, ?_, ?_⟩⟩
  · intro earlier hearlier
    obtain rfl := List.eq_of_mem_replicate hearlier
    rw [ofFile_eq_mapError hbytes (.inr rfl) hmark]
    exact ⟨⟨[], ⟨[⟨.unsupported, "unsupported utility statement: USE b"⟩]⟩⟩, by decide +kernel⟩
  · rw [ofFile_eq_mapError hbytes' (.inl rfl) hmark']
    decide +kernel

end Export

end TableSchema
