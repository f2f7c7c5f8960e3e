import Mathlib.Logic.Relation
import CodeIndex.Proofs.Reconcile.Outcome
import CodeIndex.Proofs.Store.Hits

set_option autoImplicit false

namespace CodeIndex

inductive Upkeep : Store → Store → Prop
  | reconcile (store : Store) (reconciler : Reconciler) (fresh : Nat → ChunkId) (path : String) (source : Source)
      (language : Language) (unused : Unused store (reconciler.drawn fresh source language store.dimensions)) :
      Upkeep store (reconciler.reconcile fresh store path source language).2
  | deleteFile (store : Store) (path : String) : Upkeep store (store.deleteFile path).2
  | rebuild (store next : Store) (width : Nat) (rebuilt : store.rebuild width = .ok next) : Upkeep store next
  | clear (store : Store) : Upkeep store store.clear
  | addFeedback (store : Store) (chunkId kind : String) (comment : Option String) :
      Upkeep store (store.addFeedback chunkId kind comment).2
  | reopen (store next : Store) (requested : Nat) (opened : Store.ofTables store.toTables requested = .ok next) :
      Upkeep store next

def Described (store : Store) (row : ChunkRow) : Prop :=
  ∃ chunk file entry, row = NewChunk.row chunk file.id ∧ file ∈ store.files ∧
    chunk.metadata = ⟨file.path, file.language, chunk.kind, chunk.name, chunk.parentClass, chunk.startLine, chunk.endLine⟩ ∧
    store.lookup? row.id = some entry ∧ entry.row.metadata = chunk.metadata.toJson.compactText

structure Agrees (store : Store) : Prop where
  consistent : Consistent store
  described : ∀ row ∈ store.chunks, Described store row

theorem described_elsewhere (before after : Store) (row : ChunkRow) (described : Described before row)
    (files : ∀ file ∈ before.files, file.id = row.fileId → file ∈ after.files)
    (lookups : after.lookup? row.id = before.lookup? row.id) : Described after row := by
  obtain ⟨chunk, file, entry, rfl, known, metadata, found, stored⟩ := described
  exact ⟨chunk, file, entry, rfl, files file known rfl, metadata, lookups.trans found, stored⟩

namespace Store

theorem drop_chunks_lookup_foreign (store : Store) (kept : WellKept store) (fileId : Int) (row : ChunkRow)
    (member : row ∈ store.chunks) (foreign : row.fileId ≠ fileId) :
    (store.dropChunks fileId).2.lookup? row.id = store.lookup? row.id := by
  have fresh : row.id ∉ (store.rowsOf fileId).map (·.embeddingId) := by
    rw [store.stale_id_iff kept]
    rintro ⟨twin, twinMember, own, same⟩
    rw [List.inj_on_of_nodup_map kept.chunkIds twinMember member same] at own
    exact foreign own
  rw [store.drop_chunks_lookup kept.vectors, if_neg fresh]

theorem delete_file_agrees (store : Store) (agrees : Agrees store) (path : String) : Agrees (store.deleteFile path).2 := by
  refine ⟨store.delete_file_consistent agrees.consistent path, ?_⟩
  obtain ⟨_, same⟩ | ⟨file, _, same⟩ := store.delete_file_cases path
  · rw [same]
    exact agrees.described
  · rw [same]
    intro row member
    obtain ⟨stored, other⟩ := (store.drop_chunks_mem file.id row).mp member
    apply described_elsewhere store _ row (agrees.described row stored)
    · intro owner known own
      exact List.mem_filter.mpr ⟨known, by simpa [own] using other⟩
    · exact store.drop_chunks_lookup_foreign agrees.consistent.kept file.id row stored other

theorem no_chunks_agree (store : Store) (consistent : Consistent store) (empty : store.chunks = []) : Agrees store :=
  ⟨consistent, fun _ member => by simp [empty] at member⟩

end Store

namespace Reconciler

theorem chunk_described (reconciler : Reconciler) (fresh : Nat → ChunkId) (path : String) (language : Language)
    (width : Nat) (elements : List Element) (chunk : NewChunk)
    (member : chunk ∈ reconciler.chunksFor fresh path language width elements) :
    chunk.metadata = ⟨path, language.name, chunk.kind, chunk.name, chunk.parentClass, chunk.startLine, chunk.endLine⟩ := by
  obtain ⟨i, _, rfl⟩ := List.mem_mapIdx.mp member
  rfl

-- Rows of the file are those of the new chunks; all others stand as they stood, with their files.
theorem swap_agrees (reconciler : Reconciler) (store after : Store) (agrees : Agrees store) (fresh : Nat → ChunkId)
    (path : String) (language : Language) (elements : List Element) (removed : Nat)
    (replaced : (store.upsertFile path language.name).2.replaceChunks (store.upsertFile path language.name).1.id
      (reconciler.chunksFor fresh path language store.dimensions elements) = .ok (removed, after)) : Agrees after := by
  have kept := agrees.consistent.kept
  have step := upsert_file_registers store kept path language.name
  have registered := store.upsert_file_consistent agrees.consistent path language.name
  have known := store.upsert_file_mem kept path language.name
  have rest := store.upsert_file_rest path language.name
  obtain ⟨named, speaks, oldId⟩ := store.upsert_file_row kept path language.name
  generalize (store.upsertFile path language.name).2 = next at *
  generalize (store.upsertFile path language.name).1 = file at *
  have files := (next.replace_frame after file.id _ removed replaced).files
  refine ⟨next.replace_chunks_consistent after registered file.id _ removed replaced, fun row member => ?_⟩
  by_cases own : row.fileId = file.id
  · have listed := (after.rows_of_mem file.id row).mpr ⟨member, own⟩
    rw [next.replace_rows after file.id _ removed replaced] at listed
    obtain ⟨chunk, new, rfl⟩ := List.mem_map.mp listed
    obtain ⟨entry, found, stored⟩ := next.replace_lookup_new after step.kept file.id _ removed replaced chunk new
    refine ⟨chunk, file, entry, rfl, files ▸ (known file).mpr (.inl rfl), ?_, found, stored.metadata⟩
    rw [named, speaks]
    exact reconciler.chunk_described fresh path language _ elements chunk new
  · have listed := (after.rows_of_mem row.fileId row).mpr ⟨member, rfl⟩
    rw [next.replace_rows_other after file.id _ removed replaced row.fileId own, step.rows] at listed
    have stored := ((store.rows_of_mem row.fileId row).mp listed).1
    have here : row ∈ next.chunks := by
      rw [rest]
      exact stored
    apply described_elsewhere store after row (agrees.described row stored)
    · intro owner ownerKnown owns
      refine files ▸ (known owner).mpr (.inr ⟨ownerKnown, fun same => own ?_⟩)
      exact (oldId owner ownerKnown same ▸ owns).symm
    · have lookups := next.replace_lookup_foreign after step.kept file.id _ removed replaced row here own
      rw [kept.embeddingIds row stored, step.lookups] at lookups
      exact lookups

end Reconciler

theorem upkeep_agrees (store next : Store) (agrees : Agrees store) (step : Upkeep store next) : Agrees next := by
  have kept := agrees.consistent.kept
  cases step with
  | reconcile reconciler fresh path source language unused =>
      obtain ⟨_, _, done⟩ | ⟨elements, removed, after, _, replaced, done⟩ :=
        reconciler.reconcile_cases store kept fresh path source language unused
      · rw [done]
        exact agrees
      · rw [done]
        exact reconciler.swap_agrees store after agrees fresh path language elements removed replaced
  | deleteFile path => exact store.delete_file_agrees agrees path
  | rebuild next width rebuilt =>
      have empty := ((store.rebuild_ok_iff next width).mp rebuilt).2
      exact next.no_chunks_agree (store.rebuild_consistent next kept width rebuilt) (by rw [empty])
  | clear => exact Store.no_chunks_agree _ (store.clear_consistent kept) rfl
  | addFeedback chunkId kind comment =>
      refine ⟨⟨store.add_feedback_kept kept chunkId kind comment, agrees.consistent.registered⟩, fun row member => ?_⟩
      exact described_elsewhere store _ row (agrees.described row member) (fun _ known _ => known) rfl
  | reopen next requested opened =>
      rw [store.reopen_same kept requested] at opened
      exact Except.ok.inj opened ▸ agrees

theorem upkeep_run_agrees (store next : Store) (agrees : Agrees store) (run : Relation.ReflTransGen Upkeep store next) :
    Agrees next := by
  induction run with
  | refl => exact agrees
  | tail _ step ih => exact upkeep_agrees _ _ ih step

theorem opened_agrees (requested : Nat) (store : Store) (opened : Store.ofTables {} requested = .ok store) : Agrees store := by
  obtain ⟨_, _, same⟩ := (bind_ok_iff (Width.check requested) _ store).mp opened
  apply store.no_chunks_agree (Store.opened_consistent requested store opened)
  cases same
  rfl

theorem get_chunk_described (store : Store) (kept : WellKept store) (chunk : NewChunk) (fileId : Int)
    (member : chunk.row fileId ∈ store.chunks) : store.getChunk chunk.id.text = .ok (some (chunk.stored fileId)) := by
  have found : store.chunks.find? (·.id == chunk.id.text) = some (chunk.row fileId) :=
    (find_by_key ChunkRow.id store.chunks kept.chunkIds _ _).mpr ⟨member, rfl⟩
  rw [Store.getChunk, found]
  change (chunk.row fileId).read.map some = _
  rw [new_chunk_read]
  rfl

theorem hit_described (store : Store) (agrees : Agrees store) (distance : Embedding → Embedding → Option Float32)
    (query : Embedding) (k : UInt64) (hits : List Hit) (found : store.searchBy distance query k = .ok hits) (hit : Hit)
    (member : hit ∈ hits) : ∃ (chunk : NewChunk) (file : FileRow),
      store.getChunk hit.embeddingId = .ok (some (chunk.stored file.id)) ∧ file ∈ store.files ∧ hit.metadata =
        ⟨file.path, file.language, chunk.kind, chunk.name, chunk.parentClass, chunk.startLine, chunk.endLine⟩ := by
  have kept := agrees.consistent.kept
  obtain ⟨stored, embedded, named, decoded⟩ := store.hit_stored kept.vectors distance query k hits found hit member
  obtain ⟨row, registered, same⟩ :=
    List.mem_map.mp ((agrees.consistent.registered hit.embeddingId).mp (List.mem_map.mpr ⟨stored, embedded, named⟩))
  obtain ⟨chunk, file, entry, rfl, known, metadata, looked, written⟩ := agrees.described row registered
  obtain ⟨entryStored, entryNamed, _⟩ := (store.lookup_iff kept.vectors _ entry).mp looked
  have one : entry.row = stored :=
    List.inj_on_of_nodup_map kept.vectors.ids entryStored embedded ((entryNamed.trans same).trans named.symm)
  rw [← one, written, Metadata.read_written] at decoded
  refine ⟨chunk, file, same ▸ get_chunk_described store kept chunk file.id registered, known, ?_⟩
  rw [← Option.some.inj decoded, metadata]

theorem chunk_found_once (store : Store) (consistent : Consistent store) (distance : Embedding → Embedding → Option Float32)
    (query : Embedding) (k : UInt64) (hits : List Hit) (found : store.searchBy distance query k = .ok hits)
    (enough : store.chunks.length ≤ k.toNat) (row : ChunkRow) (member : row ∈ store.chunks) :
    ∃ hit, hits.filter (·.embeddingId == row.id) = [hit] := by
  have valid := consistent.kept.vectors
  have ids : (store.embeddings.map (·.embeddingId)).Perm (store.chunks.map (·.id)) :=
    (List.perm_ext_iff_of_nodup valid.ids consistent.kept.chunkIds).mpr consistent.registered
  have size : store.embeddings.length = store.chunks.length := by simpa using ids.length_eq
  have complete := (store.hits_complete valid distance query k hits found (size ▸ enough)).trans ids
  obtain ⟨hit, listed, named⟩ := List.mem_map.mp (complete.mem_iff.mpr (List.mem_map_of_mem member))
  refine ⟨hit, ?_⟩
  rw [← named]
  exact filter_by_key Hit.embeddingId hits (complete.nodup_iff.mpr consistent.kept.chunkIds) hit listed

theorem search_agrees_with_registry (requested : Nat) (opened store : Store)
    (fresh : Store.ofTables {} requested = .ok opened) (run : Relation.ReflTransGen Upkeep opened store)
    (query : Embedding) (k : UInt64) (hits : List Hit) (found : store.search query k = .ok hits) :
    (∀ hit ∈ hits, ∃ (chunk : Chunk) (file : FileRow), store.getChunk hit.embeddingId = .ok (some chunk) ∧
      hit.metadata.kind = chunk.kind ∧ hit.metadata.name = chunk.name ∧ hit.metadata.parentClass = chunk.parentClass ∧
      hit.metadata.startLine = chunk.startLine ∧ hit.metadata.endLine = chunk.endLine ∧
      store.files.filter (·.id == chunk.fileId) = [file] ∧
      hit.metadata.filePath = file.path ∧ hit.metadata.language = file.language) ∧
    (store.chunks.length ≤ k.toNat → ∀ row ∈ store.chunks, ∃ hit, hits.filter (·.embeddingId == row.id) = [hit]) := by
  have agrees := upkeep_run_agrees opened store (opened_agrees requested opened fresh) run
  refine ⟨fun hit member => ?_, chunk_found_once store agrees.consistent cosineDistance query k hits found⟩
  obtain ⟨chunk, file, read, known, metadata⟩ := hit_described store agrees cosineDistance query k hits found hit member
  refine ⟨chunk.stored file.id, file, read, ?_⟩
  rw [metadata]
  exact ⟨rfl, rfl, rfl, rfl, rfl, filter_by_key FileRow.id store.files agrees.consistent.kept.fileIds file known, rfl, rfl⟩

def emptyStore : Store := ⟨{ declaration := some (Width.declaration 1) }, 1⟩

def indexedOnce : Store := (wholeFiles.reconcile ChunkId.serial emptyStore "a.py" plainSource .python).2

def indexedAgain : Store := (wholeFiles.reconcile laterIds indexedOnce "a.py" plainSource .ruby).2

theorem search_after_language_change : ∃ hits, indexedAgain.search [1] 1 = .ok hits ∧ hits.length = 1 ∧
    ∀ hit ∈ hits, hit.metadata.language = "ruby" := by
  have once : Upkeep emptyStore indexedOnce :=
    .reconcile emptyStore wholeFiles ChunkId.serial "a.py" plainSource .python ⟨by decide +kernel, by decide +kernel⟩
  have again : Upkeep indexedOnce indexedAgain :=
    .reconcile indexedOnce wholeFiles laterIds "a.py" plainSource .ruby ⟨by decide +kernel, by decide +kernel⟩
  have one : (indexedAgain.search [1] 1).map List.length = .ok 1 := by decide +kernel
  have files : indexedAgain.files = [⟨1, "a.py", "ruby"⟩] := by decide +kernel
  cases found : indexedAgain.search [1] 1 with
  | error error =>
      rw [found] at one
      cases one
  | ok hits =>
      rw [found] at one
      refine ⟨hits, rfl, Except.ok.inj one, fun hit member => ?_⟩
      obtain ⟨_, file, _, _, _, _, _, _, only, _, language⟩ :=
        (search_agrees_with_registry 1 emptyStore indexedAgain rfl ((Relation.ReflTransGen.single once).tail again) [1] 1
          hits found).1 hit member
      have known : file ∈ indexedAgain.files := List.mem_of_mem_filter (only ▸ List.mem_singleton.mpr rfl)
      rw [files, List.mem_singleton] at known
      rw [language, known]

end CodeIndex
