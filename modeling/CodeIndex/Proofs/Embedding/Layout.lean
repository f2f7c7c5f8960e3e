import CodeIndex.Proofs.Reconcile.Outcome
import CodeIndex.Proofs.Text.Words

set_option autoImplicit false

namespace CodeIndex

def sourceWords (element : Element) : List (List Char) := Text.words element.sourceText.toList

theorem collapse_words (source : String) : Text.words (collapse source).toList = Text.words source.toList := by
  rw [collapse, String.toList_ofList, Text.words_joined]

theorem collapse_eq_iff (a b : String) : collapse a = collapse b ↔ Text.words a.toList = Text.words b.toList := by
  constructor
  · intro same
    rw [← collapse_words a, same, collapse_words b]
  · intro same
    rw [collapse, collapse, same]

structure Headed (a b : Element) : Prop where
  kind : a.kind = b.kind
  name : a.name = b.name
  docstring : a.docstring.filter (· ≠ "") = b.docstring.filter (· ≠ "")
  parentClass : a.parentClass = b.parentClass

theorem embedding_header_same (a b : Element) (headed : Headed a b) (language : Language) :
    embeddingHeader a language = embeddingHeader b language := by
  rw [embeddingHeader, embeddingHeader, headed.kind, headed.name, headed.docstring, headed.parentClass]

theorem embedding_text_eq_iff (a b : Element) (headed : Headed a b) (language : Language) :
    embeddingText a language = embeddingText b language ↔ sourceWords a = sourceWords b := by
  rw [embeddingText, embeddingText, embedding_header_same a b headed, String.append_right_inj, collapse_eq_iff]
  rfl

structure Relaid (a b : Element) : Prop extends Headed a b where
  words : sourceWords a = sourceWords b

theorem relaid_source (element : Element) (text : String)
    (same : Text.words text.toList = Text.words element.sourceText.toList) :
    Relaid { element with sourceText := text } element := ⟨⟨rfl, rfl, rfl, rfl⟩, same⟩

theorem relaid_moved (element : Element) (comments : List String) (startLine endLine : UInt64) :
    Relaid { element with comments := comments, startLine := startLine, endLine := endLine } element :=
  ⟨⟨rfl, rfl, rfl, rfl⟩, rfl⟩

theorem relaid_undocumented (element : Element) :
    Relaid { element with docstring := some "" } { element with docstring := none } :=
  ⟨⟨rfl, rfl, by simp, rfl⟩, rfl⟩

theorem relaid_text (a b : Element) (relaid : Relaid a b) (language : Language) :
    embeddingText a language = embeddingText b language :=
  (embedding_text_eq_iff a b relaid.toHeaded language).mpr relaid.words

namespace Reconciler

theorem relaid_embeds (reconciler : Reconciler) (language : Language) (width : Nat) (a b : Element) (relaid : Relaid a b) :
    reconciler.embeds language width a = reconciler.embeds language width b := by
  rw [embeds, embeds, relaid_text a b relaid]

theorem relaid_filter (reconciler : Reconciler) (language : Language) (width : Nat) (before after : List Element)
    (relaid : List.Forall₂ Relaid before after) : List.Forall₂ Relaid (before.filter (reconciler.embeds language width))
      (after.filter (reconciler.embeds language width)) := by
  refine List.rel_filter ?_ relaid
  intro a b both
  exact Bool.eq_iff_iff.mp (reconciler.relaid_embeds language width a b both)

theorem reconcile_indexes (reconciler : Reconciler) (fresh : Nat → ChunkId) (store after : Store) (kept : WellKept store)
    (path : String) (source : Source) (language : Language) (elements : List Element) (result : ReconcileResult)
    (selected : reconciler.select source language = .ok elements)
    (done : reconciler.reconcile fresh store path source language = (.ok result, after)) :
    result = ⟨1, (elements.filter (reconciler.embeds language store.dimensions)).length,
      elements.length - (elements.filter (reconciler.embeds language store.dimensions)).length⟩ ∧
    after.dimensions = store.dimensions ∧
    ∃ file, after.fileByPath? path = some file ∧ List.Forall₂ (Indexed after reconciler.embedder path language file.id)
      (elements.filter (reconciler.embeds language store.dimensions)) (after.rowsOf file.id) := by
  obtain ⟨found, removed, chosen, counted, replaced⟩ :=
    reconciler.reconcile_ok fresh store after path source language result done
  cases selected.symm.trans chosen
  have step := upsert_file_registers store kept path language.name
  have frame := Store.replace_frame _ after _ _ removed replaced
  refine ⟨counted, frame.dimensions.trans step.dimensions, _, ?_,
    reconciler.swapped_rows_indexed _ after step.kept fresh path language store.dimensions elements _ removed replaced⟩
  rw [Store.fileByPath?, ← List.head?_filter, frame.files, step.only]
  rfl

end Reconciler

def Store.vectorsOf (store : Store) (fileId : Int) : List (Option Embedding) :=
  (store.rowsOf fileId).map fun row => (store.lookup? row.embeddingId).map (·.vector)

theorem indexed_vectors (store : Store) (kept : WellKept store) (embedder : Embedder) (path : String) (language : Language)
    (fileId : Int) (elements : List Element)
    (indexed : List.Forall₂ (Indexed store embedder path language fileId) elements (store.rowsOf fileId)) :
    store.vectorsOf fileId = elements.map (fun element => (embedder.embed (embeddingText element language)).toOption) ∧
      none ∉ store.vectorsOf fileId := by
  have named : ∀ row ∈ store.rowsOf fileId, row.embeddingId = row.id := fun row member =>
    kept.embeddingIds row ((store.rows_of_mem fileId row).mp member).1
  rw [Store.vectorsOf]
  generalize store.rowsOf fileId = rows at indexed named
  induction indexed with
  | nil => exact ⟨rfl, List.not_mem_nil⟩
  | @cons element row elements rows here later ih =>
      obtain ⟨same, present⟩ := ih fun next member => named next (List.mem_cons_of_mem row member)
      obtain ⟨entry, found, -, -, -, embedded⟩ := here.stored
      rw [List.map_cons, List.map_cons, same, named row List.mem_cons_self, found, embedded]
      refine ⟨rfl, fun absent => ?_⟩
      rcases List.mem_cons.mp absent with here | there
      · cases here
      · exact present (same ▸ there)

theorem relaid_vectors (embedder : Embedder) (language : Language) (before after : List Element)
    (relaid : List.Forall₂ Relaid before after) :
    before.map (fun element => (embedder.embed (embeddingText element language)).toOption) =
      after.map (fun element => (embedder.embed (embeddingText element language)).toOption) := by
  induction relaid with
  | nil => rfl
  | cons here later ih => rw [List.map_cons, List.map_cons, ih, relaid_text _ _ here]

section Again

variable (store later indexed : Store) (reachable : Reachable store) (laterReachable : Reachable later)
  (reconciler : Reconciler) (fresh refresh : Nat → ChunkId) (path : String) (old new : Source) (language : Language)
  (elements changed : List Element) (result : ReconcileResult)
  (selected : reconciler.select old language = .ok elements) (reselected : reconciler.select new language = .ok changed)
  (relaid : List.Forall₂ Relaid elements changed)
  (done : reconciler.reconcile fresh store path old language = (.ok result, indexed))
  (width : later.dimensions = indexed.dimensions)

include reachable laterReachable selected reselected relaid done width

theorem relaid_indexed_again (recount : ReconcileResult) (again : Store)
    (redone : reconciler.reconcile refresh later path new language = (.ok recount, again)) :
    recount = result ∧ ∃ file refiled, indexed.fileByPath? path = some file ∧ again.fileByPath? path = some refiled ∧
      again.vectorsOf refiled.id = indexed.vectorsOf file.id ∧ none ∉ indexed.vectorsOf file.id ∧
      (indexed.vectorsOf file.id).length = result.chunksAdded := by
  obtain ⟨counted, kept, file, found, rows⟩ := reconciler.reconcile_indexes fresh store indexed (reachable_kept store reachable)
    path old language elements result selected done
  obtain ⟨recounted, -, refiled, refound, rerows⟩ := reconciler.reconcile_indexes refresh later again
    (reachable_kept later laterReachable) path new language changed recount reselected redone
  have same := reconciler.relaid_filter language store.dimensions elements changed relaid
  rw [width, kept] at recounted rerows
  have indexedKept : WellKept indexed := by
    have reached := reconcile_reachable store reachable reconciler fresh path old language
    rw [done] at reached
    exact reachable_kept indexed reached
  have againKept : WellKept again := by
    have reached := reconcile_reachable later laterReachable reconciler refresh path new language
    rw [redone] at reached
    exact reachable_kept again reached
  obtain ⟨vectors, present⟩ := indexed_vectors indexed indexedKept reconciler.embedder path language file.id _ rows
  obtain ⟨revectors, -⟩ := indexed_vectors again againKept reconciler.embedder path language refiled.id _ rerows
  refine ⟨?_, file, refiled, found, refound, ?_, present, ?_⟩
  · rw [recounted, counted, same.length_eq, relaid.length_eq]
  · rw [revectors, vectors, relaid_vectors reconciler.embedder language _ _ same]
  · rw [vectors, List.length_map, counted]

theorem relaid_reconciles (unused : Unused later (reconciler.drawn refresh new language later.dimensions)) :
    ∃ again, reconciler.reconcile refresh later path new language = (.ok result, again) := by
  obtain ⟨failure, failed, -⟩ | ⟨_, _, again, _, _, redone⟩ :=
    reconciler.reconcile_cases later (reachable_kept later laterReachable) refresh path new language unused
  · cases reselected.symm.trans failed
  · refine ⟨again, ?_⟩
    rw [redone, (relaid_indexed_again store later indexed reachable laterReachable reconciler fresh refresh path old new language
      elements changed result selected reselected relaid done width _ again redone).1]

end Again

theorem embedding_blind_to_layout :
    (∀ text words, Text.words text = words ↔ Text.LaidOut words text) ∧
    (∀ (element : Element) (language : Language),
      (∀ text, Text.words text.toList = Text.words element.sourceText.toList →
        embeddingText { element with sourceText := text } language = embeddingText element language) ∧
      embeddingText { element with sourceText := collapse element.sourceText } language = embeddingText element language ∧
      (∀ comments startLine endLine,
        embeddingText { element with comments := comments, startLine := startLine, endLine := endLine } language =
          embeddingText element language) ∧
      embeddingText { element with docstring := some "" } language =
        embeddingText { element with docstring := none } language) ∧
    (∀ source, collapse (collapse source) = collapse source) ∧
    (∀ (a b : Element) (language : Language), a.kind = b.kind → a.name = b.name → a.docstring = b.docstring →
      a.parentClass = b.parentClass → embeddingText a language = embeddingText b language →
      Text.words a.sourceText.toList = Text.words b.sourceText.toList) ∧
    -- The file is indexed, and indexed again after anything that keeps the width of the vectors.
    ∀ (store indexed later : Store) (reconciler : Reconciler) (fresh refresh : Nat → ChunkId) (path : String)
      (old new : Source) (language : Language) (elements changed : List Element) (result : ReconcileResult),
      Reachable store → Reachable later → reconciler.select old language = .ok elements →
      reconciler.select new language = .ok changed → List.Forall₂ Relaid elements changed →
      reconciler.reconcile fresh store path old language = (.ok result, indexed) → later.dimensions = indexed.dimensions →
      (Unused later (reconciler.drawn refresh new language later.dimensions) →
        ∃ again, reconciler.reconcile refresh later path new language = (.ok result, again)) ∧
      ∀ recount again, reconciler.reconcile refresh later path new language = (.ok recount, again) →
        recount = result ∧ ∃ file refiled, indexed.fileByPath? path = some file ∧ again.fileByPath? path = some refiled ∧
          again.vectorsOf refiled.id = indexed.vectorsOf file.id ∧ none ∉ indexed.vectorsOf file.id ∧
          (indexed.vectorsOf file.id).length = result.chunksAdded := by
  refine ⟨Text.words_iff, fun element language => ⟨?_, ?_, ?_, ?_⟩, ?_, ?_, ?_⟩
  · exact fun text same => relaid_text _ _ (relaid_source element text same) language
  · exact relaid_text _ _ (relaid_source element _ (collapse_words element.sourceText)) language
  · exact fun comments startLine endLine => relaid_text _ _ (relaid_moved element comments startLine endLine) language
  · exact relaid_text _ _ (relaid_undocumented element) language
  · exact fun source => (collapse_eq_iff _ _).mpr (collapse_words source)
  · intro a b language kind name docstring parentClass same
    exact (embedding_text_eq_iff a b ⟨kind, name, by rw [docstring], parentClass⟩ language).mp same
  · intro store indexed later reconciler fresh refresh path old new language elements changed result reachable laterReachable
      selected reselected relaid done width
    exact ⟨relaid_reconciles store later indexed reachable laterReachable reconciler fresh refresh path old new language
        elements changed result selected reselected relaid done width,
      relaid_indexed_again store later indexed reachable laterReachable reconciler fresh refresh path old new language
        elements changed result selected reselected relaid done width⟩

def oneTextOnly : Reconciler where
  embedder := ⟨1, fun text =>
    if text = "Language: python Type: function Name: f def f(): a b" then .ok [1] else .error .modelRun⟩
  classChunks := false
  moduleFallback := none

def functionAt (start stop startRow endRow name : Nat) : Node :=
  .mk "module" true ⟨0, stop, 0, .ofNat endRow⟩ [] [
    .mk "function_definition" true ⟨start, stop, .ofNat startRow, .ofNat endRow⟩ [("name", 0)] [
      .mk "identifier" true ⟨name, name + 1, .ofNat startRow, .ofNat startRow⟩ [] []]]

def narrowSource : Source := ⟨"def f(): a b", .ok (functionAt 0 12 0 0 4)⟩

def wideSource : Source := ⟨"\n\ndef f():\n\ta\u00a0\u2003b\n", .ok (functionAt 2 19 2 3 6)⟩

def narrowElement : Element := ⟨.function, "f", "def f(): a b", none, [], none, 0, 0⟩

def wideElement : Element := ⟨.function, "f", "def f():\n\ta\u00a0\u2003b", none, [], none, 2, 3⟩

def narrowIndexed : Store := (oneTextOnly.reconcile ChunkId.serial oneFile "a.py" narrowSource .python).2

theorem widened_function_indexed_again : ∃ again file refiled,
    oneTextOnly.reconcile laterIds narrowIndexed "a.py" wideSource .python = (.ok ⟨1, 1, 0⟩, again) ∧
    narrowIndexed.fileByPath? "a.py" = some file ∧ again.fileByPath? "a.py" = some refiled ∧
    again.vectorsOf refiled.id = narrowIndexed.vectorsOf file.id ∧ (narrowIndexed.vectorsOf file.id).length = 1 := by
  have reachable : Reachable oneFile := ⟨1, _, _, rfl, rfl⟩
  have counted : (oneTextOnly.reconcile ChunkId.serial oneFile "a.py" narrowSource .python).1 = .ok ⟨1, 1, 0⟩ := by
    decide +kernel
  have done : oneTextOnly.reconcile ChunkId.serial oneFile "a.py" narrowSource .python = (.ok ⟨1, 1, 0⟩, narrowIndexed) :=
    Prod.ext counted rfl
  have relaid : Relaid narrowElement wideElement := ⟨⟨rfl, rfl, rfl, rfl⟩, by decide +kernel⟩
  have both := embedding_blind_to_layout.2.2.2.2 oneFile narrowIndexed narrowIndexed oneTextOnly ChunkId.serial laterIds "a.py"
    narrowSource wideSource .python [narrowElement] [wideElement] ⟨1, 1, 0⟩ reachable
    (reconcile_reachable oneFile reachable oneTextOnly ChunkId.serial "a.py" narrowSource .python)
    (by decide +kernel) (by decide +kernel) (.cons relaid .nil) done rfl
  obtain ⟨again, redone⟩ := both.1 ⟨by decide +kernel, by decide +kernel⟩
  obtain ⟨-, file, refiled, found, refound, same, -, size⟩ := both.2 _ again redone
  exact ⟨again, file, refiled, redone, found, refound, same, size⟩

end CodeIndex
