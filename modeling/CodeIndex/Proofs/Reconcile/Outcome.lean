import CodeIndex.Proofs.Reconcile

set_option autoImplicit false

namespace CodeIndex

structure Unused (store : Store) (ids : List ChunkId) : Prop where
  distinct : ids.Nodup
  absent : ∀ id ∈ ids, ∀ row ∈ store.chunks, row.id ≠ id.text

namespace Reconciler

def drawnFor (reconciler : Reconciler) (fresh : Nat → ChunkId) (language : Language) (width : Nat)
    (elements : List Element) : List ChunkId :=
  (List.range (elements.filter (reconciler.embeds language width)).length).map fresh

def drawn (reconciler : Reconciler) (fresh : Nat → ChunkId) (source : Source) (language : Language) (width : Nat) :
    List ChunkId :=
  match reconciler.select source language with
  | .ok elements => reconciler.drawnFor fresh language width elements
  | .error _ => []

theorem select_error_iff (reconciler : Reconciler) (source : Source) (language : Language) (error : ParseError) :
    reconciler.select source language = .error error ↔ language.supported = true ∧ source.parsed = .error error := by
  cases supported : language.supported with
  | false => simp [select, supported]
  | true =>
      cases parsed : source.parsed with
      | error failure => simp [select, supported, parsed, bind, Except.bind]
      | ok tree =>
          cases fallback : reconciler.moduleFallback with
          | none => simp [select, supported, parsed, fallback, bind, Except.bind, pure, Except.pure]
          | some budget =>
              simp only [select, supported, parsed, fallback, bind, Except.bind]
              by_cases empty : (reconciler.structural language tree source.text).isEmpty <;> simp [empty, pure, Except.pure]

def chunksFor (reconciler : Reconciler) (fresh : Nat → ChunkId) (path : String) (language : Language) (width : Nat)
    (elements : List Element) : List NewChunk :=
  newChunks fresh path language (reconciler.embedAll language width elements)

theorem chunks_for_ids (reconciler : Reconciler) (fresh : Nat → ChunkId) (path : String) (language : Language) (width : Nat)
    (elements : List Element) :
    (reconciler.chunksFor fresh path language width elements).map (·.id) = reconciler.drawnFor fresh language width elements := by
  rw [drawnFor, ← embed_all_elements, List.length_map]
  apply List.ext_getElem
  · simp [chunksFor, newChunks]
  · intro i inside _
    simp [chunksFor, newChunks, NewChunk.ofElement]

theorem embed_all_width (reconciler : Reconciler) (language : Language) (width : Nat) (elements : List Element)
    (pair : Element × Embedding) (member : pair ∈ reconciler.embedAll language width elements) : pair.2.length = width := by
  obtain ⟨element, _, found⟩ := List.mem_filterMap.mp member
  cases embedded : reconciler.embedElement language width element with
  | error error =>
      rw [embedded] at found
      cases found
  | ok vector =>
      rw [embedded] at found
      cases found
      exact ((reconciler.embed_element_ok_iff language width element vector).mp embedded).2

theorem chunks_for_widths (reconciler : Reconciler) (fresh : Nat → ChunkId) (path : String) (language : Language)
    (width : Nat) (elements : List Element) (chunk : NewChunk)
    (member : chunk ∈ reconciler.chunksFor fresh path language width elements) : chunk.vector.length = width := by
  obtain ⟨i, inside, rfl⟩ := List.mem_mapIdx.mp member
  exact reconciler.embed_all_width language width elements _ (List.getElem_mem inside)

theorem chunks_for_replaceable (reconciler : Reconciler) (store : Store) (file : FileRow) (known : file ∈ store.files)
    (fresh : Nat → ChunkId) (path : String) (language : Language) (elements : List Element)
    (unused : Unused store (reconciler.drawnFor fresh language store.dimensions elements)) :
    Store.Replaceable store file.id (reconciler.chunksFor fresh path language store.dimensions elements) := by
  have ids := reconciler.chunks_for_ids fresh path language store.dimensions elements
  refine ⟨reconciler.chunks_for_widths fresh path language _ elements, ids ▸ unused.distinct, ?_, .inr ⟨file, known, rfl⟩⟩
  intro chunk member row stored _
  exact unused.absent chunk.id (ids ▸ List.mem_map_of_mem member) row stored

theorem register_replaceable (reconciler : Reconciler) (store : Store) (kept : WellKept store) (fresh : Nat → ChunkId)
    (path : String) (language : Language) (elements : List Element)
    (unused : Unused store (reconciler.drawnFor fresh language store.dimensions elements)) :
    Store.Replaceable (store.upsertFile path language.name).2 (store.upsertFile path language.name).1.id
      (reconciler.chunksFor fresh path language store.dimensions elements) := by
  have known := (store.upsert_file_mem kept path language.name _).mpr (.inl rfl)
  have rest := store.upsert_file_rest path language.name
  have width : (store.upsertFile path language.name).2.dimensions = store.dimensions := by rw [rest]
  have rows : (store.upsertFile path language.name).2.chunks = store.chunks := by rw [rest]
  rw [← width] at unused ⊢
  exact reconciler.chunks_for_replaceable _ _ known fresh path language elements ⟨unused.distinct, rows ▸ unused.absent⟩

theorem register_chunks (reconciler : Reconciler) (fresh : Nat → ChunkId) (store : Store) (path : String)
    (language : Language) (elements : List Element) : reconciler.register fresh store path language elements =
      (⟨(store.upsertFile path language.name).1.id, reconciler.chunksFor fresh path language store.dimensions elements,
        elements.length - (elements.filter (reconciler.embeds language store.dimensions)).length⟩,
       (store.upsertFile path language.name).2) :=
  reconciler.register_prepares fresh store path language elements

theorem chunks_for_length (reconciler : Reconciler) (fresh : Nat → ChunkId) (path : String) (language : Language)
    (width : Nat) (elements : List Element) : (reconciler.chunksFor fresh path language width elements).length =
      (elements.filter (reconciler.embeds language width)).length := by
  rw [chunksFor, newChunks, List.length_mapIdx, ← embed_all_elements, List.length_map]

theorem commit_ok (store swapped : Store) (prepared : Prepared) (removed : Nat)
    (replaced : store.replaceChunks prepared.fileId prepared.chunks = .ok (removed, swapped)) :
    commit store prepared = .ok (⟨1, prepared.chunks.length, prepared.failed⟩, swapped) := by
  rw [commit, replaced]
  rfl

theorem reconcile_cases (reconciler : Reconciler) (store : Store) (kept : WellKept store) (fresh : Nat → ChunkId)
    (path : String) (source : Source) (language : Language)
    (unused : Unused store (reconciler.drawn fresh source language store.dimensions)) :
    (∃ failure, reconciler.select source language = .error failure ∧
      reconciler.reconcile fresh store path source language = (.error (.parse failure), store)) ∨
    ∃ elements removed after, reconciler.select source language = .ok elements ∧
      (store.upsertFile path language.name).2.replaceChunks (store.upsertFile path language.name).1.id
        (reconciler.chunksFor fresh path language store.dimensions elements) = .ok (removed, after) ∧
      reconciler.reconcile fresh store path source language =
        (.ok ⟨1, (elements.filter (reconciler.embeds language store.dimensions)).length,
          elements.length - (elements.filter (reconciler.embeds language store.dimensions)).length⟩, after) := by
  cases selected : reconciler.select source language with
  | error failure =>
      left
      refine ⟨failure, rfl, ?_⟩
      rw [reconcile, selected]
  | ok elements =>
      right
      rw [drawn, selected] at unused
      have able := reconciler.register_replaceable store kept fresh path language elements unused
      have replaced := (Store.replace_chunks_ok_iff _ _ _ _ _).mpr ⟨able, rfl, rfl⟩
      have committed := commit_ok _ _ ⟨(store.upsertFile path language.name).1.id,
        reconciler.chunksFor fresh path language store.dimensions elements,
        elements.length - (elements.filter (reconciler.embeds language store.dimensions)).length⟩ _ replaced
      refine ⟨elements, _, _, rfl, replaced, ?_⟩
      rw [reconcile, selected]
      simp only [register_chunks, committed, chunks_for_length]

end Reconciler

theorem reconcile_fails_only_to_parse (store : Store) (reachable : Reachable store) (reconciler : Reconciler)
    (fresh : Nat → ChunkId) (path : String) (source : Source) (language : Language)
    (unused : Unused store (reconciler.drawn fresh source language store.dimensions)) :
    (∀ error after, reconciler.reconcile fresh store path source language = (.error error, after) ↔
      language.supported = true ∧ (∃ failure, source.parsed = .error failure ∧ error = .parse failure) ∧ after = store) ∧
    (∀ failure, (reconciler.reconcile fresh store path source language).1 ≠ .error (.store failure)) ∧
    ∀ elements, Unused store (reconciler.drawnFor fresh language store.dimensions elements) →
      ∃ removed swapped, (reconciler.register fresh store path language elements).2.replaceChunks
        (reconciler.register fresh store path language elements).1.fileId
        (reconciler.register fresh store path language elements).1.chunks = .ok (removed, swapped) := by
  have kept := reachable_kept store reachable
  have cases := reconciler.reconcile_cases store kept fresh path source language unused
  refine ⟨fun error after => ?_, fun failure => ?_, fun elements free => ?_⟩
  · obtain ⟨failure, selected, done⟩ | ⟨elements, removed, swapped, selected, _, done⟩ := cases
    · have parsing := (reconciler.select_error_iff source language failure).mp selected
      rw [done]
      constructor
      · intro same
        cases same
        exact ⟨parsing.1, ⟨failure, parsing.2, rfl⟩, rfl⟩
      · rintro ⟨_, ⟨other, parsed, rfl⟩, rfl⟩
        rw [parsing.2] at parsed
        cases parsed
        rfl
    · rw [done]
      refine ⟨(nomatch ·), fun ⟨supported, ⟨failure, parsed, _⟩, _⟩ => ?_⟩
      rw [(reconciler.select_error_iff source language failure).mpr ⟨supported, parsed⟩] at selected
      cases selected
  · obtain ⟨parse, _, done⟩ | ⟨_, _, _, _, _, done⟩ := cases
    · simp [done]
    · simp [done]
  · have able := reconciler.register_replaceable store kept fresh path language elements free
    rw [Reconciler.register_chunks]
    exact ⟨_, _, (Store.replace_chunks_ok_iff _ _ _ _ _).mpr ⟨able, rfl, rfl⟩⟩

def unparsed : Source := ⟨"x", .error .noTree⟩

def laterIds (i : Nat) : ChunkId := .serial (i + 10)

theorem reconcile_fails_unparsed :
    wholeFiles.reconcile laterIds reconciledBefore "a.rb" unparsed .ruby = (.error (.parse .noTree), reconciledBefore) ∧
    ∀ failure, (wholeFiles.reconcile laterIds reconciledBefore "a.rb" plainSource .ruby).1 ≠ .error (.store failure) := by
  have reachable : Reachable reconciledBefore := ⟨1, _, _, rfl, rfl⟩
  have unparsedIds : Unused reconciledBefore (wholeFiles.drawn laterIds unparsed .ruby reconciledBefore.dimensions) :=
    ⟨by decide +kernel, by decide +kernel⟩
  have plainIds : Unused reconciledBefore (wholeFiles.drawn laterIds plainSource .ruby reconciledBefore.dimensions) :=
    ⟨by decide +kernel, by decide +kernel⟩
  constructor
  · apply ((reconcile_fails_only_to_parse _ reachable wholeFiles laterIds "a.rb" unparsed .ruby unparsedIds).1 _ _).mpr
    exact ⟨by decide, ⟨.noTree, rfl, rfl⟩, rfl⟩
  · exact (reconcile_fails_only_to_parse _ reachable wholeFiles laterIds "a.rb" plainSource .ruby plainIds).2.1

end CodeIndex
