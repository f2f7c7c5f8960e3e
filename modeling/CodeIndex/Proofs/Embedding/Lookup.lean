import CodeIndex.Embedding.Lookup
import CodeIndex.Proofs.Embedding.Tokenizer
import CodeIndex.Proofs.Json.Layout
import CodeIndex.Proofs.Text.Words

set_option autoImplicit false

namespace CodeIndex

theorem add_weighted_length (width : Nat) (sum row : Embedding) (weight : Float32) (left : sum.length = width)
    (right : row.length = width) : (addWeighted sum row weight).length = width := by
  rw [addWeighted, List.length_zipWith, left, right, Nat.min_self]

theorem weighted_sum_length (width : Nat) (pairs : List (Embedding × Nat)) (each : ∀ pair ∈ pairs, pair.1.length = width)
    (start : Embedding × Float32) (begun : start.1.length = width) :
    (pairs.foldl (fun (sum, weight) (row, m) =>
      (addWeighted sum row m.toUInt64.toFloat32, weight + m.toUInt64.toFloat32)) start).1.length = width := by
  induction pairs generalizing start with
  | nil => exact begun
  | cons pair pairs ih =>
      obtain ⟨here, later⟩ := List.forall_mem_cons.mp each
      exact ih later _ (add_weighted_length width _ _ _ begun here)

theorem mean_pool_length (width : Nat) (rows : List Embedding) (mask : List Nat) (each : ∀ row ∈ rows, row.length = width) :
    (meanPool width rows mask).length = width := by
  have summed := weighted_sum_length width (rows.zip mask) (fun pair member => each _ (List.of_mem_zip member).1)
    (List.replicate width 0, 0) List.length_replicate
  rw [meanPool]
  dsimp only
  split
  · rw [List.length_map]
    exact summed
  · exact summed

theorem unit_length_length (vector : Embedding) : (unitLength vector).length = vector.length := by
  rw [unitLength]
  split
  · rfl
  · rw [List.length_map]

theorem mismatch_told_apart (expected actual : Nat) :
    (EmbedError.widthMismatch expected actual).message ≠ "inference failed: empty token sequence" := by
  intro told
  have text : "embedding has " ++ Text.decimalText actual ++ " dimensions, index expects " ++ Text.decimalText expected =
      "inference failed: empty token sequence" := told
  have here : "embedding has ".toList.head? = some 'e' := by decide
  have there : "inference failed: empty token sequence".toList.head? = some 'i' := by decide
  have first := congrArg (·.toList.head?) text
  simp only [String.toList_append, List.head?_append, here, there, Option.some_or] at first
  cases first

namespace LookupEmbedder

structure Runs (encoder : LookupEmbedder) (ids : List Nat) : Prop where
  accepted : encoder.feedSegments = true → encoder.model.takesSegments = true
  inside : ∀ id ∈ ids, id < encoder.model.rows.length

def Ran (encoder : LookupEmbedder) (text : String) : Prop :=
  ∃ encoded, encoder.tokenizer.encode? text = some encoded ∧ encoded.ids ≠ [] ∧ encoder.Runs encoded.ids

def Blank (encoder : LookupEmbedder) (text : String) : Prop :=
  ∃ encoded, encoder.tokenizer.encode? text = some encoded ∧ encoded.ids = []

-- The ways to end, each with what it takes. Of several reasons to fail the first one here is told.
inductive Outcome (encoder : LookupEmbedder) (width : Nat) (text : String) : Except EmbedError Embedding → Prop where
  | unencoded (unknown : encoder.tokenizer.encode? text = none) : Outcome encoder width text (.error .unknownWord)
  | empty (blank : encoder.Blank text) : Outcome encoder width text (.error .emptySequence)
  | failed (encoded : Encoded) (found : encoder.tokenizer.encode? text = some encoded) (filled : encoded.ids ≠ [])
      (fails : ¬ encoder.Runs encoded.ids) : Outcome encoder width text (.error .modelRun)
  | mismatch (ran : encoder.Ran text) (differs : width ≠ encoder.dimensions) :
      Outcome encoder width text (.error (.widthMismatch encoder.dimensions width))
  | vector (vector : Embedding) (ran : encoder.Ran text) (fits : width = encoder.dimensions)
      (length : vector.length = encoder.dimensions) : Outcome encoder width text (.ok vector)

theorem embed_blank (encoder : LookupEmbedder) (text : String) (blank : encoder.Blank text) :
    encoder.embed text = .error .emptySequence := by
  obtain ⟨encoded, found, none⟩ := blank
  rw [embed, found]
  simp only [none, List.isEmpty_nil, if_true]

theorem infer_runs (encoder : LookupEmbedder) (ids : List Nat) (runs : encoder.Runs ids) : ∃ rows,
    encoder.infer ids = .ok rows ∧ List.Forall₂ (fun id row => encoder.model.rows[id]? = some row) ids rows := by
  have fed : ¬ (encoder.feedSegments && !encoder.model.takesSegments) = true := by
    simpa using runs.accepted
  rw [infer, if_neg fed, LookupModel.run?]
  cases looked : ids.mapM (encoder.model.rows[·]?) with
  | some rows => exact ⟨rows, rfl, (Json.all_some_iff _ _ _).mp looked⟩
  | none =>
      obtain ⟨id, member, missing⟩ := (Json.one_none_iff _ _).mp looked
      have outside := List.getElem?_eq_none_iff.mp missing
      have inside := runs.inside id member
      omega

theorem infer_fails (encoder : LookupEmbedder) (ids : List Nat) (fails : ¬ encoder.Runs ids) :
    encoder.infer ids = .error .modelRun := by
  rw [infer]
  split
  · rfl
  · rename_i fed
    have accepted : encoder.feedSegments = true → encoder.model.takesSegments = true := by simpa using fed
    have missing : encoder.model.run? ids = none := by
      by_contra found
      refine fails ⟨accepted, fun id member => ?_⟩
      by_contra outside
      exact found ((Json.one_none_iff _ _).mpr ⟨id, member, List.getElem?_eq_none (by omega)⟩)
    rw [missing]

theorem pool_length (encoder : LookupEmbedder) (width : Nat) (rows : List Embedding) (mask : List Nat) (filled : rows ≠ [])
    (each : ∀ row ∈ rows, row.length = width) :
    (rows.headD []).length = width ∧ (encoder.pool rows mask).length = width := by
  obtain ⟨first, rest, rfl⟩ := List.exists_cons_of_ne_nil filled
  have head : first.length = width := each first List.mem_cons_self
  refine ⟨head, ?_⟩
  rw [pool]
  cases encoder.pooling with
  | cls => exact head
  | mean =>
      rw [List.headD_cons, head]
      exact mean_pool_length width _ mask each

section Table

variable (encoder : LookupEmbedder) (width : Nat) (table : ∀ row ∈ encoder.model.rows, row.length = width)

include table

theorem inferred_widths (ids : List Nat) (rows : List Embedding)
    (looked : List.Forall₂ (fun id row => encoder.model.rows[id]? = some row) ids rows) : ∀ row ∈ rows, row.length = width := by
  induction looked with
  | nil => exact fun _ member => nomatch member
  | cons here _ ih => exact List.forall_mem_cons.mpr ⟨table _ (List.mem_of_getElem? here), ih⟩

theorem embed_ran (text : String) (ran : encoder.Ran text) :
    (width = encoder.dimensions → ∃ vector, encoder.embed text = .ok vector ∧ vector.length = encoder.dimensions) ∧
    (width ≠ encoder.dimensions → encoder.embed text = .error (.widthMismatch encoder.dimensions width)) := by
  obtain ⟨encoded, found, filled, runs⟩ := ran
  obtain ⟨rows, inferred, looked⟩ := encoder.infer_runs encoded.ids runs
  have some : rows ≠ [] := by
    rintro rfl
    exact filled (List.forall₂_nil_right_iff.mp looked)
  obtain ⟨head, pooled⟩ := encoder.pool_length width rows encoded.mask some
    (encoder.inferred_widths width table encoded.ids rows looked)
  have answer : encoder.embed text = if width = encoder.dimensions then .ok (unitLength (encoder.pool rows encoded.mask))
      else .error (.widthMismatch encoder.dimensions width) := by
    rw [embed, found]
    simp only [List.isEmpty_iff, filled, if_false, inferred]
    change (if (rows.headD []).length = _ then _ else _) = _
    rw [head]
    rfl
  rw [answer]
  constructor
  · intro fits
    exact ⟨_, if_pos fits, by rw [unit_length_length, pooled, fits]⟩
  · exact fun differs => if_neg differs

theorem embed_outcome (text : String) : Outcome encoder width text (encoder.embed text) := by
  cases found : encoder.tokenizer.encode? text with
  | none =>
      rw [embed, found]
      exact .unencoded found
  | some encoded =>
      by_cases blank : encoded.ids = []
      · rw [encoder.embed_blank text ⟨encoded, found, blank⟩]
        exact .empty ⟨encoded, found, blank⟩
      · by_cases runs : encoder.Runs encoded.ids
        · have ran : encoder.Ran text := ⟨encoded, found, blank, runs⟩
          by_cases fits : width = encoder.dimensions
          · obtain ⟨vector, answer, length⟩ := (encoder.embed_ran width table text ran).1 fits
            rw [answer]
            exact .vector vector ran fits length
          · rw [(encoder.embed_ran width table text ran).2 fits]
            exact .mismatch ran fits
        · rw [embed, found]
          simp only [List.isEmpty_iff, blank, if_false, encoder.infer_fails _ runs]
          exact .failed encoded found blank runs

theorem empty_message_iff (text : String) : (∃ error, encoder.embed text = .error error ∧
    error.message = "inference failed: empty token sequence") ↔ encoder.Blank text := by
  constructor
  · rintro ⟨error, answer, told⟩
    have outcome := encoder.embed_outcome width table text
    rw [answer] at outcome
    cases outcome with
    | unencoded => exact absurd told (by decide)
    | empty blank => exact blank
    | failed => exact absurd told (by decide)
    | mismatch => exact absurd told (mismatch_told_apart _ _)
  · intro blank
    exact ⟨.emptySequence, encoder.embed_blank text blank, rfl⟩

theorem mismatch_iff (text : String) (expected actual : Nat) :
    encoder.embed text = .error (.widthMismatch expected actual) ↔
    encoder.Ran text ∧ width ≠ encoder.dimensions ∧ expected = encoder.dimensions ∧ actual = width := by
  constructor
  · intro answer
    have outcome := encoder.embed_outcome width table text
    rw [answer] at outcome
    cases outcome with
    | mismatch ran differs => exact ⟨ran, differs, rfl, rfl⟩
  · rintro ⟨ran, differs, rfl, rfl⟩
    exact (encoder.embed_ran _ table text ran).2 differs

theorem vector_length (text : String) (vector : Embedding) (answer : encoder.embed text = .ok vector) :
    vector.length = encoder.dimensions := by
  have outcome := encoder.embed_outcome width table text
  rw [answer] at outcome
  cases outcome with
  | vector _ _ _ length => exact length

theorem vector_iff (text : String) :
    (∃ vector, encoder.embed text = .ok vector) ↔ encoder.Ran text ∧ width = encoder.dimensions := by
  constructor
  · rintro ⟨vector, answer⟩
    have outcome := encoder.embed_outcome width table text
    rw [answer] at outcome
    cases outcome with
    | vector _ ran fits _ => exact ⟨ran, fits⟩
  · rintro ⟨ran, fits⟩
    obtain ⟨vector, answer, _⟩ := (encoder.embed_ran width table text ran).1 fits
    exact ⟨vector, answer⟩

end Table

theorem first_tokens_decide (encoder : LookupEmbedder) (specials : Option (Nat × Nat))
    (template : encoder.tokenizer.template = Tokenizer.frame specials) (width : Nat)
    (table : ∀ row ∈ encoder.model.rows, row.length = width) :
    (∀ directory document other reloaded, Tokenizer.load directory (some document) = .ok encoder.tokenizer →
      Tokenizer.load directory (some other) = .ok reloaded →
      (Json.read? document).map (Json.without "truncation") = (Json.read? other).map (Json.without "truncation") →
      encoder.tokenizer = reloaded) ∧
    ∀ text : String,
      (encoder.tokenizer.encode? text = none ↔
        (∃ word ∈ Text.words text.toList, ¬ encoder.tokenizer.Knows (.ofList word)) ∧
        ¬ encoder.tokenizer.Knows encoder.tokenizer.unknown) ∧
      (∀ encoded, encoder.tokenizer.encode? text = some encoded →
        encoded.mask = List.replicate encoded.ids.length 1 ∧ encoded.ids.length ≤ 512 ∧
        ∃ ids, List.Forall₂ encoder.tokenizer.Stands ((Text.words text.toList).take (Tokenizer.room specials)) ids ∧
          encoded.ids = Tokenizer.framed specials ids) ∧
      (∀ vector, encoder.embed text = .ok vector → vector.length = encoder.dimensions) ∧
      ((∃ vector, encoder.embed text = .ok vector) ↔ encoder.Ran text ∧ width = encoder.dimensions) ∧
      ((∃ error, encoder.embed text = .error error ∧ error.message = "inference failed: empty token sequence") ↔
        encoder.Blank text) ∧
      (∀ expected actual, encoder.embed text = .error (.widthMismatch expected actual) ↔
        encoder.Ran text ∧ width ≠ encoder.dimensions ∧ expected = encoder.dimensions ∧ actual = width) ∧
      ∀ other : String, encoder.tokenizer.encode? text ≠ none → encoder.tokenizer.encode? other ≠ none →
        (Text.words text.toList).take (Tokenizer.room specials) =
          (Text.words other.toList).take (Tokenizer.room specials) →
        encoder.embed text = encoder.embed other := by
  refine ⟨fun directory document other reloaded loaded again alike =>
    Tokenizer.load_same directory document other _ _ loaded again alike, fun text => ?_⟩
  refine ⟨encoder.tokenizer.encode_none_iff specials template text, encoder.tokenizer.encode_some specials template text,
    encoder.vector_length width table text, encoder.vector_iff width table text,
    encoder.empty_message_iff width table text, encoder.mismatch_iff width table text, fun other left right alike => ?_⟩
  rw [embed, embed, encoder.tokenizer.encode_same_start specials template text other left right alike]

end LookupEmbedder

def wordDocument (truncation : Json) : Json :=
  let special (name : String) (id : Nat) : String × Json := (name, .object [("id", .text name), ("ids", .arr [.nat id])])
  let place (kind name : String) : Json := .object [(kind, .object [("id", .text name), ("type_id", .nat 0)])]
  .object [("version", .text "1.0"), ("truncation", truncation),
    ("pre_tokenizer", .object [("type", .text "WhitespaceSplit")]),
    ("post_processor", .object [("type", .text "TemplateProcessing"),
      ("single", .arr [place "SpecialToken" "[CLS]", place "Sequence" "A", place "SpecialToken" "[SEP]"]),
      ("special_tokens", .object [special "[CLS]" 1, special "[SEP]" 2])]),
    ("model", .object [("type", .text "WordLevel"), ("unk_token", .text "[UNK]"),
      ("vocab", .object [("[UNK]", .nat 0), ("[CLS]", .nat 1), ("[SEP]", .nat 2), ("def", .nat 3), ("add", .nat 4)])])]

def wordTokenizer : Tokenizer :=
  ⟨[("[UNK]", 0), ("[CLS]", 1), ("[SEP]", 2), ("def", 3), ("add", 4)], "[UNK]", Tokenizer.frame (some (1, 2))⟩

def wordEncoder : LookupEmbedder :=
  ⟨wordTokenizer, ⟨[[0, 0], [1, 0], [0, 1], [1, 1], [2, 1]], false⟩, 2, .mean, false, fun _ none => nomatch none⟩

def longText (last : List (List Char)) : String := .ofList (Text.join [' '] (List.replicate 510 "def".toList ++ last))

def shortCut : Json :=
  .object [("direction", .text "Right"), ("max_length", .nat 8), ("strategy", .text "LongestFirst"), ("stride", .nat 0)]

theorem word_document_loaded (truncation : Json) (proper : Tokenizer.truncates truncation = true) :
    Tokenizer.load "model" (some (wordDocument truncation).compactText) = .ok wordTokenizer := by
  have accepted : Tokenizer.known (wordDocument truncation) = true := by
    simp [wordDocument, Tokenizer.known, Tokenizer.allowed, proper, Json.object, Json.text, Json.asText?, Json.last?,
      Json.valuesOf]
  rw [Tokenizer.load_ok_iff, Json.read_compact_text, Option.bind_some, Tokenizer.ofJson?, accepted]
  rfl

theorem long_text_words (last : List (List Char)) (proper : ∀ word ∈ last, Text.Word word) :
    Text.words (longText last).toList = List.replicate 510 "def".toList ++ last := by
  rw [longText, String.toList_ofList]
  refine Text.words_of_layout _ _ (Text.join_laid_out _ fun word member => ?_)
  rcases List.mem_append.mp member with here | there
  · rw [List.eq_of_mem_replicate here]
    decide
  · exact proper word there

theorem long_texts_embedded_alike :
    (∃ reloaded, Tokenizer.load "model" (some (wordDocument shortCut).compactText) = .ok reloaded ∧
      wordTokenizer = reloaded) ∧
    (∃ vector, wordEncoder.embed (longText ["add".toList]) = .ok vector ∧ vector.length = 2) ∧
    wordEncoder.embed (longText ["add".toList]) = wordEncoder.embed (longText ["return".toList, "add".toList]) := by
  have facts := wordEncoder.first_tokens_decide (some (1, 2)) rfl 2 (by decide)
  have short := long_text_words ["add".toList] (by decide)
  have long := long_text_words ["return".toList, "add".toList] (by decide)
  have encoded : wordTokenizer.encode? (longText ["add".toList]) =
      some ⟨1 :: (List.replicate 510 3 ++ [2]), List.replicate 512 1⟩ := by
    rw [Tokenizer.encode?, short]
    decide +kernel
  have other : wordTokenizer.encode? (longText ["return".toList, "add".toList]) ≠ none := by
    rw [Tokenizer.encode?, long]
    decide +kernel
  have ran : wordEncoder.Ran (longText ["add".toList]) := by
    refine ⟨_, encoded, List.cons_ne_nil _ _, ⟨?_, ?_⟩⟩
    · decide
    · decide +kernel
  obtain ⟨reloading, each⟩ := facts
  obtain ⟨-, -, lengths, given, -, -, later⟩ := each (longText ["add".toList])
  have cut := word_document_loaded shortCut (by decide +kernel)
  have found : wordTokenizer.encode? (longText ["add".toList]) ≠ none := by
    rw [encoded]
    exact Option.some_ne_none _
  refine ⟨⟨wordTokenizer, cut, ?_⟩, ?_, later _ found other ?_⟩
  · refine reloading "model" _ _ wordTokenizer (word_document_loaded .null rfl) cut ?_
    rw [Json.read_compact_text, Json.read_compact_text]
    rfl
  · obtain ⟨vector, answer⟩ := given.mpr ⟨ran, rfl⟩
    exact ⟨vector, answer, lengths vector answer⟩
  · rw [short, long]
    decide +kernel

end CodeIndex
