import Mathlib.Data.List.Forall2
import CodeIndex.Proofs.Metadata
import CodeIndex.Proofs.ModulePieces
import CodeIndex.Proofs.Traversal

set_option autoImplicit false

namespace CodeIndex

namespace Reconciler

def embeds (reconciler : Reconciler) (language : Language) (width : Nat) (element : Element) : Bool :=
  match reconciler.embedder.embed (embeddingText element language) with
  | .ok vector => vector.length == width
  | .error _ => false

theorem embed_element_ok_iff (reconciler : Reconciler) (language : Language) (width : Nat) (element : Element)
    (vector : Embedding) : reconciler.embedElement language width element = .ok vector ↔
      reconciler.embedder.embed (embeddingText element language) = .ok vector ∧ vector.length = width := by
  rw [embedElement, bind_ok_iff]
  constructor
  · rintro ⟨found, embedded, checked⟩
    by_cases fits : found.length = width
    · rw [if_pos fits] at checked
      cases checked
      exact ⟨embedded, fits⟩
    · rw [if_neg fits] at checked
      cases checked
  · rintro ⟨embedded, fits⟩
    exact ⟨vector, embedded, if_pos fits⟩

theorem embeds_iff (reconciler : Reconciler) (language : Language) (width : Nat) (element : Element) :
    reconciler.embeds language width element = true ↔
      ∃ vector, reconciler.embedElement language width element = .ok vector := by
  simp only [embed_element_ok_iff, embeds]
  cases reconciler.embedder.embed (embeddingText element language) with
  | error error => exact ⟨(nomatch ·), fun ⟨_, same, _⟩ => nomatch same⟩
  | ok found =>
      refine ⟨fun fits => ⟨found, rfl, by simpa using fits⟩, ?_⟩
      rintro ⟨vector, same, fits⟩
      cases same
      simpa using fits

theorem embed_all_elements (reconciler : Reconciler) (language : Language) (width : Nat) (elements : List Element) :
    (reconciler.embedAll language width elements).map Prod.fst = elements.filter (reconciler.embeds language width) := by
  induction elements with
  | nil => rfl
  | cons element rest ih =>
      rw [embedAll, List.filterMap_cons]
      cases embedded : reconciler.embedElement language width element with
      | ok vector =>
          have good := (reconciler.embeds_iff language width element).mpr ⟨vector, embedded⟩
          rw [List.filter_cons_of_pos good]
          exact congrArg (element :: ·) ih
      | error error =>
          have bad : ¬ reconciler.embeds language width element = true := by
            rw [embeds_iff, embedded]
            rintro ⟨_, same⟩
            cases same
          rw [List.filter_cons_of_neg bad]
          exact ih

theorem embed_all_vectors (reconciler : Reconciler) (language : Language) (width : Nat) (elements : List Element)
    (pair : Element × Embedding) (member : pair ∈ reconciler.embedAll language width elements) :
    reconciler.embedder.embed (embeddingText pair.1 language) = .ok pair.2 := by
  obtain ⟨element, _, found⟩ := List.mem_filterMap.mp member
  cases embedded : reconciler.embedElement language width element with
  | ok vector =>
      rw [embedded] at found
      cases found
      exact ((reconciler.embed_element_ok_iff language width element vector).mp embedded).1
  | error error =>
      rw [embedded] at found
      cases found

def newChunks (fresh : Nat → ChunkId) (path : String) (language : Language)
    (embedded : List (Element × Embedding)) : List NewChunk :=
  embedded.mapIdx fun i (element, vector) => .ofElement path language (fresh i) element vector

theorem new_chunks_follow (fresh : Nat → ChunkId) (path : String) (language : Language)
    (embedded : List (Element × Embedding)) (related : Element × Embedding → NewChunk → Prop)
    (each : ∀ pair ∈ embedded, ∀ id, NewChunk.ofElement path language id pair.1 pair.2 ∈ newChunks fresh path language embedded →
      related pair (.ofElement path language id pair.1 pair.2)) :
    List.Forall₂ related embedded (newChunks fresh path language embedded) := by
  refine numbered_follow _ _ _ fun position inside => ?_
  apply each _ (List.getElem_mem inside)
  exact List.mem_mapIdx.mpr ⟨position, inside, rfl⟩

theorem register_prepares (reconciler : Reconciler) (fresh : Nat → ChunkId) (store : Store) (path : String)
    (language : Language) (elements : List Element) : reconciler.register fresh store path language elements =
      (⟨(store.upsertFile path language.name).1.id,
        newChunks fresh path language (reconciler.embedAll language store.dimensions elements),
        elements.length - (elements.filter (reconciler.embeds language store.dimensions)).length⟩,
       (store.upsertFile path language.name).2) := by
  have width : (store.upsertFile path language.name).2.dimensions = store.dimensions := by rw [Store.upsert_file_rest]
  rw [← embed_all_elements, List.length_map, ← width]
  rfl

theorem reconcile_ok (reconciler : Reconciler) (fresh : Nat → ChunkId) (store after : Store) (path : String)
    (source : Source) (language : Language) (result : ReconcileResult)
    (done : reconciler.reconcile fresh store path source language = (.ok result, after)) :
    ∃ elements removed, reconciler.select source language = .ok elements ∧
      result = ⟨1, (elements.filter (reconciler.embeds language store.dimensions)).length,
        elements.length - (elements.filter (reconciler.embeds language store.dimensions)).length⟩ ∧
      (store.upsertFile path language.name).2.replaceChunks (store.upsertFile path language.name).1.id
        (newChunks fresh path language (reconciler.embedAll language store.dimensions elements)) = .ok (removed, after) := by
  cases selected : reconciler.select source language with
  | error error =>
      rw [reconcile, selected] at done
      cases done
  | ok elements =>
      rw [reconcile, selected] at done
      simp only [register_prepares] at done
      cases committed : commit (store.upsertFile path language.name).2 ⟨(store.upsertFile path language.name).1.id,
          newChunks fresh path language (reconciler.embedAll language store.dimensions elements),
          elements.length - (elements.filter (reconciler.embeds language store.dimensions)).length⟩ with
      | error error =>
          rw [committed] at done
          cases done
      | ok swapped =>
          obtain ⟨counted, swapped⟩ := swapped
          rw [committed] at done
          cases done
          obtain ⟨rfl, removed, replaced⟩ := Session.commit_replaces _ _ _ _ committed
          have added : (newChunks fresh path language (reconciler.embedAll language store.dimensions elements)).length =
              (elements.filter (reconciler.embeds language store.dimensions)).length := by
            rw [newChunks, List.length_mapIdx, ← embed_all_elements, List.length_map]
          exact ⟨elements, removed, rfl, by rw [added], replaced⟩

theorem select_unsupported (reconciler : Reconciler) (source : Source) (language : Language) (elements : List Element)
    (unsupported : language.supported = false) (selected : reconciler.select source language = .ok elements) :
    elements = [] := by
  rw [select, unsupported] at selected
  exact (Except.ok.inj selected).symm

end Reconciler

structure Indexed (store : Store) (embedder : Embedder) (path : String) (language : Language) (fileId : Int)
    (element : Element) (row : ChunkRow) : Prop where
  read : ∃ id, row.read = .ok ⟨id, fileId, element.kind, element.name, element.parentClass, element.startLine,
    element.endLine, row.id⟩
  stored : ∃ entry, store.lookup? row.id = some entry ∧
    entry.row.content = element.sourceText ∧ entry.row.filePath = path ∧
    (Json.read? entry.row.metadata).bind Metadata.ofJson? = some ⟨path, language.name, element.kind, element.name,
      element.parentClass, element.startLine, element.endLine⟩ ∧
    embedder.embed (embeddingText element language) = .ok entry.vector

structure Registered (store registered : Store) (path language : String) (file : FileRow) : Prop where
  kept : WellKept registered
  only : registered.files.filter (·.path == path) = [file]
  language : file.language = language
  oldId : ∀ old ∈ store.files, old.path = path → file.id = old.id
  others : registered.files.filter (·.path != path) = store.files.filter (·.path != path)
  rows : ∀ fileId, registered.rowsOf fileId = store.rowsOf fileId
  lookups : ∀ id, registered.lookup? id = store.lookup? id
  feedback : registered.feedback = store.feedback
  dimensions : registered.dimensions = store.dimensions

theorem upsert_file_registers (store : Store) (kept : WellKept store) (path language : String) :
    Registered store (store.upsertFile path language).2 path language (store.upsertFile path language).1 := by
  have registeredKept := store.upsert_file_kept kept path language
  have present := (store.upsert_file_mem kept path language _).mpr (.inl rfl)
  have others := store.upsert_file_others kept path language
  obtain ⟨named, speaks, oldId⟩ := store.upsert_file_row kept path language
  have only := filter_by_key FileRow.path _ registeredKept.paths _ present
  rw [named] at only
  have rest := store.upsert_file_rest path language
  refine ⟨registeredKept, only, speaks, oldId, others, ?_, ?_, ?_, ?_⟩
  · intro fileId
    rw [rest]
    rfl
  · intro id
    rw [rest]
    rfl
  · rw [rest]
  · rw [rest]

namespace Reconciler

theorem new_chunk_indexed (store after : Store) (kept : WellKept store) (reconciler : Reconciler) (path : String)
    (language : Language) (fileId : Int) (chunks : List NewChunk) (removed : Nat)
    (replaced : store.replaceChunks fileId chunks = .ok (removed, after)) (id : ChunkId) (element : Element)
    (vector : Embedding) (embedded : reconciler.embedder.embed (embeddingText element language) = .ok vector)
    (member : NewChunk.ofElement path language id element vector ∈ chunks) :
    Indexed after reconciler.embedder path language fileId element
      ((NewChunk.ofElement path language id element vector).row fileId) := by
  obtain ⟨entry, found, stored⟩ := store.replace_lookup_new after kept fileId chunks removed replaced _ member
  refine ⟨⟨id, new_chunk_read _ fileId⟩, entry, found, stored.content, stored.filePath, ?_, ?_⟩
  · rw [stored.metadata, Metadata.read_written]
    rfl
  · rw [stored.vector]
    exact embedded

theorem swapped_rows_indexed (store after : Store) (kept : WellKept store) (reconciler : Reconciler)
    (fresh : Nat → ChunkId) (path : String) (language : Language) (width : Nat) (elements : List Element) (fileId : Int)
    (removed : Nat) (replaced : store.replaceChunks fileId
      (newChunks fresh path language (reconciler.embedAll language width elements)) = .ok (removed, after)) :
    List.Forall₂ (Indexed after reconciler.embedder path language fileId)
      (elements.filter (reconciler.embeds language width)) (after.rowsOf fileId) := by
  rw [store.replace_rows after fileId _ removed replaced, ← embed_all_elements, List.forall₂_map_right_iff,
    List.forall₂_map_left_iff]
  apply new_chunks_follow
  intro pair member id chunkMember
  have embedded := reconciler.embed_all_vectors language width elements pair member
  exact reconciler.new_chunk_indexed store after kept path language fileId _ removed replaced id pair.1 pair.2 embedded
    chunkMember

end Reconciler

theorem reconcile_brings_file_in_line (store after : Store) (reachable : Reachable store) (reconciler : Reconciler)
    (fresh : Nat → ChunkId) (path : String) (source : Source) (language : Language) (result : ReconcileResult)
    (done : reconciler.reconcile fresh store path source language = (.ok result, after)) :
    ∃ elements good file, reconciler.select source language = .ok elements ∧
      (language.supported = false → elements = []) ∧
      good = elements.filter (reconciler.embeds language store.dimensions) ∧
      result.filesTouched = 1 ∧ result.chunksAdded = good.length ∧ result.chunksFailed = elements.length - good.length ∧
      after.files.filter (·.path == path) = [file] ∧ file.language = language.name ∧
      (∀ old ∈ store.files, old.path = path → file.id = old.id) ∧
      List.Forall₂ (Indexed after reconciler.embedder path language file.id) good (after.rowsOf file.id) ∧
      ((after.rowsOf file.id).map (·.id)).Nodup ∧
      after.files.filter (·.path != path) = store.files.filter (·.path != path) ∧
      (∀ other, other ≠ file.id → after.rowsOf other = store.rowsOf other ∧
        ∀ row ∈ store.rowsOf other, after.lookup? row.embeddingId = store.lookup? row.embeddingId) ∧
      (∀ id, id ∉ (after.rowsOf file.id).map (·.id) → after.lookup? id =
        if id ∈ (store.rowsOf file.id).map (·.embeddingId) then none else store.lookup? id) ∧
      after.feedback = store.feedback ∧ after.dimensions = store.dimensions := by
  have kept := reachable_kept store reachable
  obtain ⟨elements, removed, selected, rfl, replaced⟩ :=
    reconciler.reconcile_ok fresh store after path source language result done
  have step := upsert_file_registers store kept path language.name
  obtain ⟨registered, registeredEq⟩ : ∃ registered, registered = (store.upsertFile path language.name).2 := ⟨_, rfl⟩
  obtain ⟨file, fileEq⟩ : ∃ file, file = (store.upsertFile path language.name).1 := ⟨_, rfl⟩
  rw [← registeredEq, ← fileEq] at step replaced
  have frame := registered.replace_frame after file.id _ removed replaced
  have rows := registered.replace_rows after file.id _ removed replaced
  have able := ((registered.replace_chunks_ok_iff after file.id _ removed).mp replaced).1
  have indexed := reconciler.swapped_rows_indexed registered after step.kept fresh path language store.dimensions elements
    file.id removed replaced
  have ids : (after.rowsOf file.id).map (·.id) = (Reconciler.newChunks fresh path language
      (reconciler.embedAll language store.dimensions elements)).map (·.id.text) := by
    rw [rows, List.map_map]
    rfl
  refine ⟨elements, _, file, selected, fun unsupported => reconciler.select_unsupported source language elements unsupported selected,
    rfl, rfl, rfl, rfl, frame.files ▸ step.only, step.language, step.oldId, indexed, ?_, frame.files ▸ step.others, ?_, ?_,
    frame.feedback.trans step.feedback, frame.dimensions.trans step.dimensions⟩
  · rw [ids, ← Function.comp_def, ← List.map_map]
    exact able.distinct.map ChunkId.text_injective
  · intro other different
    have same := registered.replace_rows_other after file.id _ removed replaced other different
    refine ⟨same.trans (step.rows other), fun row member => ?_⟩
    obtain ⟨stored, own⟩ := (registered.rows_of_mem other row).mp (step.rows other ▸ member)
    rw [registered.replace_lookup_foreign after step.kept file.id _ removed replaced row stored (own ▸ different), step.lookups]
  · intro id absent
    rw [registered.replace_lookup_old after step.kept file.id _ removed replaced id (ids ▸ absent), step.rows, step.lookups]

-- Fails on the method `n` of `Extraction.nestedClasses` and on no other.
def failsOnce : Reconciler where
  embedder := ⟨1, fun text =>
    if text = "Language: ruby Type: method Name: n Part of class: A n" then .error .modelRun else .ok [1]⟩
  classChunks := false
  moduleFallback := none

def reconciledBefore : Store := (Session.run ⟨⟨{ declaration := some (Width.declaration 1) }, 1⟩, []⟩
  [.register wholeFiles ChunkId.serial "a.rb" plainSource .python, .commit 0, .upsertFile "b.rb" "ruby"]).store

-- The old chunk of the file has an identifier that is given again.
theorem reconcile_leaves_out_failed : ∃ after,
    failsOnce.reconcile ChunkId.serial reconciledBefore "a.rb" ⟨"A B m n f", .ok Extraction.nestedClasses⟩ .ruby =
      (.ok ⟨1, 2, 1⟩, after) ∧
    ∃ file, after.files.filter (·.path == "a.rb") = [file] ∧ file.language = "ruby" ∧ (after.rowsOf file.id).length = 2 := by
  have counted : (failsOnce.reconcile ChunkId.serial reconciledBefore "a.rb" ⟨"A B m n f", .ok Extraction.nestedClasses⟩
      .ruby).1 = .ok ⟨1, 2, 1⟩ := by decide +kernel
  rcases reconciled : failsOnce.reconcile ChunkId.serial reconciledBefore "a.rb"
    ⟨"A B m n f", .ok Extraction.nestedClasses⟩ .ruby with ⟨returned, after⟩
  rw [reconciled] at counted
  cases counted
  obtain ⟨_, _, file, _, _, _, _, added, _, only, language, _, indexed, _⟩ :=
    reconcile_brings_file_in_line _ after ⟨1, _, _, rfl, rfl⟩ failsOnce ChunkId.serial "a.rb" _ .ruby _ reconciled
  exact ⟨after, rfl, file, only, language, indexed.length_eq.symm.trans added.symm⟩

end CodeIndex
