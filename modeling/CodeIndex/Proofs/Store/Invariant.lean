import CodeIndex.Proofs.Store.Swap
import CodeIndex.Proofs.Width

set_option autoImplicit false

namespace CodeIndex

structure WellKept (store : Store) : Prop where
  paths : (store.files.map (·.path)).Nodup
  fileIds : (store.files.map (·.id)).Nodup
  fileBound : ∀ file ∈ store.files, file.id ≤ store.lastFile
  owners : ∀ chunk ∈ store.chunks, chunk.fileId ∈ store.files.map (·.id)
  chunkIds : (store.chunks.map (·.id)).Nodup
  embeddingIds : ∀ chunk ∈ store.chunks, chunk.embeddingId = chunk.id
  vectors : store.Vectors
  possible : Width.check store.dimensions = .ok ()
  declared : store.declaration = some (Width.declaration store.dimensions)

-- Vectors that are written past the registry are not registered, so this is a condition of its own.
structure Consistent (store : Store) : Prop where
  kept : WellKept store
  registered : ∀ id, id ∈ store.embeddings.map (·.embeddingId) ↔ id ∈ store.chunks.map (·.id)

namespace Store

theorem persisted_width (store : Store) (kept : WellKept store) :
    store.declaration.bind Width.parse? = some store.dimensions := by
  have bound : store.dimensions < UInt64.size :=
    Nat.lt_of_le_of_lt ((Width.check_ok_iff _).mp kept.possible).2 (by decide)
  rw [kept.declared, Option.bind_some, Width.parse_declaration _ bound]

theorem reopen_same (store : Store) (kept : WellKept store) (requested : Nat) :
    Store.ofTables store.toTables requested = .ok store := by
  have width := store.persisted_width kept
  rw [kept.declared, Option.bind_some] at width
  simp only [ofTables, kept.declared, width, Option.getD_some]

theorem no_vectors (last width : Nat) : Paired [] [] last width :=
  ⟨List.nodup_nil, List.nodup_nil, .nil, fun _ member => (nomatch member), fun _ member => (nomatch member)⟩

theorem opened_consistent (requested : Nat) (store : Store) (opened : Store.ofTables {} requested = .ok store) :
    Consistent store := by
  have steps : (Width.check requested >>= fun _ =>
      pure ⟨{ declaration := some (Width.declaration requested) }, requested⟩) = Except.ok store := opened
  obtain ⟨_, possible, same⟩ := (bind_ok_iff _ _ _).mp steps
  cases same
  exact ⟨⟨List.nodup_nil, List.nodup_nil, fun _ member => (nomatch member), fun _ member => (nomatch member),
    List.nodup_nil, fun _ member => (nomatch member), no_vectors _ _, possible, rfl⟩, fun _ => Iff.rfl⟩

theorem rows_of_mem (store : Store) (fileId : Int) (row : ChunkRow) :
    row ∈ store.rowsOf fileId ↔ row ∈ store.chunks ∧ row.fileId = fileId := by
  rw [rowsOf, List.mem_filter, beq_iff_eq]

theorem same_frame_kept (before after : Store) (kept : WellKept before) (frame : SameFrame before after)
    (owners : ∀ chunk ∈ after.chunks, chunk.fileId ∈ before.files.map (·.id)) (chunkIds : (after.chunks.map (·.id)).Nodup)
    (embeddingIds : ∀ chunk ∈ after.chunks, chunk.embeddingId = chunk.id) (vectors : after.Vectors) : WellKept after where
  paths := frame.files ▸ kept.paths
  fileIds := frame.files ▸ kept.fileIds
  fileBound := by
    rw [frame.files, frame.lastFile]
    exact kept.fileBound
  owners := frame.files ▸ owners
  chunkIds := chunkIds
  embeddingIds := embeddingIds
  vectors := vectors
  possible := frame.dimensions ▸ kept.possible
  declared := by
    rw [frame.declaration, frame.dimensions]
    exact kept.declared

theorem drop_chunks_kept (store : Store) (kept : WellKept store) (fileId : Int) :
    WellKept (store.dropChunks fileId).2 := by
  refine same_frame_kept store _ kept (store.drop_chunks_frame fileId) ?_ ?_ ?_ (store.drop_chunks_valid kept.vectors fileId)
  · intro chunk member
    exact kept.owners chunk ((store.drop_chunks_mem fileId chunk).mp member).1
  · rw [drop_chunks_chunks]
    exact kept.chunkIds.sublist (List.filter_sublist.map _)
  · intro chunk member
    exact kept.embeddingIds chunk ((store.drop_chunks_mem fileId chunk).mp member).1

theorem stale_id_iff (store : Store) (kept : WellKept store) (fileId : Int) (id : String) :
    id ∈ (store.rowsOf fileId).map (·.embeddingId) ↔ ∃ row ∈ store.chunks, row.fileId = fileId ∧ row.id = id := by
  constructor
  · intro stale
    obtain ⟨row, listed, same⟩ := List.mem_map.mp stale
    obtain ⟨member, own⟩ := (store.rows_of_mem fileId row).mp listed
    exact ⟨row, member, own, (kept.embeddingIds row member).symm.trans same⟩
  · rintro ⟨row, member, own, same⟩
    exact List.mem_map.mpr ⟨row, (store.rows_of_mem fileId row).mpr ⟨member, own⟩, (kept.embeddingIds row member).trans same⟩

theorem drop_chunks_consistent (store : Store) (consistent : Consistent store) (fileId : Int) :
    Consistent (store.dropChunks fileId).2 := by
  refine ⟨store.drop_chunks_kept consistent.kept fileId, fun id => ?_⟩
  have left : id ∈ (store.dropChunks fileId).2.embeddings.map (·.embeddingId) ↔
      id ∈ store.embeddings.map (·.embeddingId) ∧ id ∉ (store.rowsOf fileId).map (·.embeddingId) := by
    rw [drop_chunks_embeddings]
    simp only [List.mem_map, List.mem_filter, decide_eq_true_eq]
    constructor
    · rintro ⟨row, ⟨member, fresh⟩, rfl⟩
      exact ⟨⟨row, member, rfl⟩, fresh⟩
    · rintro ⟨⟨row, member, rfl⟩, fresh⟩
      exact ⟨row, ⟨member, fresh⟩, rfl⟩
  rw [left, consistent.registered id, store.stale_id_iff consistent.kept]
  simp only [List.mem_map, drop_chunks_mem]
  constructor
  · rintro ⟨⟨row, member, rfl⟩, fresh⟩
    exact ⟨row, ⟨member, fun own => fresh ⟨row, member, own, rfl⟩⟩, rfl⟩
  · rintro ⟨row, ⟨member, other⟩, rfl⟩
    refine ⟨⟨row, member, rfl⟩, ?_⟩
    rintro ⟨twin, twinMember, own, same⟩
    rw [List.inj_on_of_nodup_map consistent.kept.chunkIds twinMember member same] at own
    exact other own

theorem put_chunks_kept (store : Store) (kept : WellKept store) (fileId : Int) (chunks : List NewChunk)
    (able : Insertable store fileId chunks) : WellKept (putChunks fileId store chunks) := by
  have rows := put_chunks_chunks fileId store chunks
  have ids : (chunks.map (·.row fileId)).map (·.id) = (chunks.map (·.id)).map ChunkId.text := by
    rw [List.map_map, List.map_map]
    rfl
  refine same_frame_kept store _ kept (put_chunks_frame fileId store chunks) ?_ ?_ ?_
    (put_chunks_valid fileId store kept.vectors chunks able.widths)
  · intro row member
    rcases List.mem_append.mp (rows ▸ member) with old | new
    · exact kept.owners row old
    · obtain ⟨chunk, listed, rfl⟩ := List.mem_map.mp new
      obtain ⟨file, known, same⟩ := able.owner.resolve_left (List.ne_nil_of_mem listed)
      exact List.mem_map.mpr ⟨file, known, same⟩
  · rw [rows, List.map_append, ids]
    refine kept.chunkIds.append (able.distinct.map ChunkId.text_injective) ?_
    intro id old new
    obtain ⟨row, member, rfl⟩ := List.mem_map.mp old
    obtain ⟨chunkId, listed, same⟩ := List.mem_map.mp new
    obtain ⟨chunk, chunkMember, rfl⟩ := List.mem_map.mp listed
    exact able.unused chunk chunkMember row member same.symm
  · intro row member
    rcases List.mem_append.mp (rows ▸ member) with old | new
    · exact kept.embeddingIds row old
    · obtain ⟨chunk, _, rfl⟩ := List.mem_map.mp new
      rfl

theorem put_chunks_consistent (store : Store) (consistent : Consistent store) (fileId : Int) (chunks : List NewChunk)
    (able : Insertable store fileId chunks) : Consistent (putChunks fileId store chunks) := by
  refine ⟨store.put_chunks_kept consistent.kept fileId chunks able, fun id => ?_⟩
  rw [put_chunks_ids, put_chunks_chunks, List.map_append, List.mem_append, consistent.registered id, List.map_map]
  rfl

theorem replace_chunks_kept (store after : Store) (kept : WellKept store) (fileId : Int) (chunks : List NewChunk)
    (removed : Nat) (replaced : store.replaceChunks fileId chunks = .ok (removed, after)) : WellKept after := by
  obtain ⟨able, _, rfl⟩ := (store.replace_chunks_ok_iff after fileId chunks removed).mp replaced
  exact put_chunks_kept _ (store.drop_chunks_kept kept fileId) fileId chunks ((store.replaceable_iff fileId chunks).mp able)

theorem replace_chunks_consistent (store after : Store) (consistent : Consistent store) (fileId : Int)
    (chunks : List NewChunk) (removed : Nat) (replaced : store.replaceChunks fileId chunks = .ok (removed, after)) :
    Consistent after := by
  obtain ⟨able, _, rfl⟩ := (store.replace_chunks_ok_iff after fileId chunks removed).mp replaced
  exact put_chunks_consistent _ (store.drop_chunks_consistent consistent fileId) fileId chunks
    ((store.replaceable_iff fileId chunks).mp able)

theorem file_by_path_iff (store : Store) (kept : WellKept store) (path : String) (file : FileRow) :
    store.fileByPath? path = some file ↔ file ∈ store.files ∧ file.path = path :=
  find_by_key FileRow.path store.files kept.paths path file

theorem file_by_path_none_iff (store : Store) (path : String) :
    store.fileByPath? path = none ↔ path ∉ store.files.map (·.path) := by
  simp [fileByPath?]

theorem upsert_file_known (store : Store) (path language : String) (known : FileRow)
    (found : store.fileByPath? path = some known) : store.upsertFile path language =
      ({ known with language := language },
       { store with
         files := store.files.map fun old => if old.path = path then { known with language := language } else old
         lastFile := store.lastFile + 1 }) := by
  rw [upsertFile, found]

theorem upsert_file_new (store : Store) (path language : String) (absent : store.fileByPath? path = none) :
    store.upsertFile path language =
      (⟨store.lastFile + 1, path, language⟩,
       { store with
         files := store.files ++ [⟨store.lastFile + 1, path, language⟩]
         lastFile := store.lastFile + 1 }) := by
  rw [upsertFile, absent]

theorem upsert_file_mem (store : Store) (kept : WellKept store) (path language : String) (row : FileRow) :
    row ∈ (store.upsertFile path language).2.files ↔
      row = (store.upsertFile path language).1 ∨ row ∈ store.files ∧ row.path ≠ path := by
  cases found : store.fileByPath? path with
  | some known =>
      have present := List.mem_map.mpr ⟨known, (store.file_by_path_iff kept path known).mp found⟩
      rw [store.upsert_file_known path language known found]
      exact replaced_mem_iff FileRow.path store.files path _ present row
  | none =>
      rw [store.upsert_file_new path language found]
      exact appended_mem_iff FileRow.path store.files path _ ((store.file_by_path_none_iff path).mp found) row

theorem upsert_file_row (store : Store) (kept : WellKept store) (path language : String) :
    (store.upsertFile path language).1.path = path ∧ (store.upsertFile path language).1.language = language ∧
      ∀ old ∈ store.files, old.path = path → (store.upsertFile path language).1.id = old.id := by
  cases found : store.fileByPath? path with
  | some known =>
      obtain ⟨member, named⟩ := (store.file_by_path_iff kept path known).mp found
      rw [store.upsert_file_known path language known found]
      refine ⟨named, rfl, fun old oldMember here => ?_⟩
      rw [List.inj_on_of_nodup_map kept.paths oldMember member (here.trans named.symm)]
  | none =>
      rw [store.upsert_file_new path language found]
      refine ⟨rfl, rfl, fun old oldMember here => ?_⟩
      exact absurd (List.mem_map.mpr ⟨old, oldMember, here⟩) ((store.file_by_path_none_iff path).mp found)

theorem upsert_file_others (store : Store) (kept : WellKept store) (path language : String) :
    (store.upsertFile path language).2.files.filter (·.path != path) = store.files.filter (·.path != path) := by
  cases found : store.fileByPath? path with
  | some known =>
      obtain ⟨_, rfl⟩ := (store.file_by_path_iff kept path known).mp found
      rw [store.upsert_file_known _ language known found]
      dsimp only
      induction store.files with
      | nil => rfl
      | cons old rest ih =>
          by_cases here : old.path = known.path <;> simp [here, ih]
  | none =>
      rw [store.upsert_file_new path language found, List.filter_append]
      simp

theorem upsert_file_columns (store : Store) (kept : WellKept store) (path language : String) :
    ((store.upsertFile path language).2.files.map (·.path) = store.files.map (·.path) ∧
      (store.upsertFile path language).2.files.map (·.id) = store.files.map (·.id)) ∨
    (path ∉ store.files.map (·.path) ∧
      (store.upsertFile path language).2.files.map (·.path) = store.files.map (·.path) ++ [path] ∧
      (store.upsertFile path language).2.files.map (·.id) = store.files.map (·.id) ++ [store.lastFile + 1]) := by
  cases found : store.fileByPath? path with
  | some known =>
      obtain ⟨member, named⟩ := (store.file_by_path_iff kept path known).mp found
      left
      rw [store.upsert_file_known path language known found]
      constructor
      · exact replaced_column FileRow.path FileRow.path store.files path _ fun old _ here => named.trans here.symm
      · refine replaced_column FileRow.path FileRow.id store.files path _ fun old oldMember here => ?_
        rw [List.inj_on_of_nodup_map kept.paths oldMember member (here.trans named.symm)]
  | none =>
      right
      rw [store.upsert_file_new path language found]
      simp only [List.map_append, List.map_cons, List.map_nil, and_true]
      exact (store.file_by_path_none_iff path).mp found

theorem upsert_file_bound (store : Store) (kept : WellKept store) (path language : String) (file : FileRow)
    (member : file ∈ (store.upsertFile path language).2.files) : file.id ≤ store.lastFile + 1 := by
  rcases (store.upsert_file_mem kept path language file).mp member with rfl | ⟨old, _⟩
  · cases found : store.fileByPath? path with
    | some known =>
        have bound := kept.fileBound known ((store.file_by_path_iff kept path known).mp found).1
        rw [store.upsert_file_known path language known found]
        exact Int.le_add_one bound
    | none =>
        rw [store.upsert_file_new path language found]
  · exact Int.le_add_one (kept.fileBound file old)

theorem upsert_file_rest (store : Store) (path language : String) : (store.upsertFile path language).2 =
    { store with
      files := (store.upsertFile path language).2.files
      lastFile := store.lastFile + 1 } := by
  rw [upsertFile]
  cases store.fileByPath? path <;> rfl

theorem upsert_file_kept (store : Store) (kept : WellKept store) (path language : String) :
    WellKept (store.upsertFile path language).2 := by
  have bounded := store.upsert_file_bound kept path language
  have columns := store.upsert_file_columns kept path language
  rw [upsert_file_rest]
  generalize (store.upsertFile path language).2.files = files at bounded columns
  rcases columns with ⟨paths, ids⟩ | ⟨absent, paths, ids⟩
  · exact ⟨paths ▸ kept.paths, ids ▸ kept.fileIds, bounded, ids ▸ kept.owners, kept.chunkIds, kept.embeddingIds,
      kept.vectors, kept.possible, kept.declared⟩
  · have unused : store.lastFile + 1 ∉ store.files.map (·.id) := by
      intro used
      obtain ⟨file, member, same⟩ := List.mem_map.mp used
      have bound := kept.fileBound file member
      omega
    refine ⟨?_, ?_, bounded, ?_, kept.chunkIds, kept.embeddingIds, kept.vectors, kept.possible, kept.declared⟩
    · rw [paths]
      exact kept.paths.append (List.nodup_singleton path) (List.disjoint_singleton.mpr absent)
    · rw [ids]
      exact kept.fileIds.append (List.nodup_singleton _) (List.disjoint_singleton.mpr unused)
    · intro chunk member
      rw [ids]
      exact List.mem_append_left _ (kept.owners chunk member)

theorem upsert_file_consistent (store : Store) (consistent : Consistent store) (path language : String) :
    Consistent (store.upsertFile path language).2 := by
  refine ⟨store.upsert_file_kept consistent.kept path language, ?_⟩
  rw [upsert_file_rest]
  exact consistent.registered

def withoutFile (store : Store) (fileId : Int) : Store :=
  { (store.dropChunks fileId).2 with files := store.files.filter (·.id != fileId) }

theorem delete_file_cases (store : Store) (path : String) :
    (store.fileByPath? path = none ∧ store.deleteFile path = (false, store)) ∨
    ∃ file, store.fileByPath? path = some file ∧ store.deleteFile path = (true, store.withoutFile file.id) := by
  cases found : store.fileByPath? path with
  | none => exact .inl ⟨rfl, by rw [deleteFile, found]⟩
  | some file =>
      refine .inr ⟨file, rfl, ?_⟩
      have files := (store.drop_chunks_frame file.id).files
      rw [deleteFile, found]
      simp only [files]
      rfl

theorem without_file_kept (store : Store) (kept : WellKept store) (fileId : Int) : WellKept (store.withoutFile fileId) := by
  have dropped := store.drop_chunks_kept kept fileId
  have frame := store.drop_chunks_frame fileId
  refine ⟨kept.paths.sublist (List.filter_sublist.map _), kept.fileIds.sublist (List.filter_sublist.map _), ?_, ?_,
    dropped.chunkIds, dropped.embeddingIds, dropped.vectors, dropped.possible, dropped.declared⟩
  · intro file member
    change file.id ≤ (store.dropChunks fileId).2.lastFile
    rw [frame.lastFile]
    exact kept.fileBound file (List.mem_of_mem_filter member)
  · intro chunk member
    obtain ⟨stored, other⟩ := (store.drop_chunks_mem fileId chunk).mp member
    obtain ⟨file, known, same⟩ := List.mem_map.mp (kept.owners chunk stored)
    exact List.mem_map.mpr ⟨file, List.mem_filter.mpr ⟨known, by simpa [same] using other⟩, same⟩

theorem delete_file_kept (store : Store) (kept : WellKept store) (path : String) : WellKept (store.deleteFile path).2 := by
  obtain ⟨_, same⟩ | ⟨file, _, same⟩ := store.delete_file_cases path
  · rw [same]
    exact kept
  · rw [same]
    exact store.without_file_kept kept file.id

theorem delete_file_consistent (store : Store) (consistent : Consistent store) (path : String) :
    Consistent (store.deleteFile path).2 := by
  refine ⟨store.delete_file_kept consistent.kept path, ?_⟩
  obtain ⟨_, same⟩ | ⟨file, _, same⟩ := store.delete_file_cases path
  · rw [same]
    exact consistent.registered
  · rw [same]
    exact (store.drop_chunks_consistent consistent file.id).registered

theorem clear_consistent (store : Store) (kept : WellKept store) : Consistent store.clear :=
  ⟨⟨List.nodup_nil, List.nodup_nil, fun _ member => (nomatch member), fun _ member => (nomatch member), List.nodup_nil,
    fun _ member => (nomatch member), no_vectors _ _, kept.possible, kept.declared⟩, fun _ => Iff.rfl⟩

theorem rebuild_ok_iff (store next : Store) (width : Nat) :
    store.rebuild width = .ok next ↔ Width.check width = .ok () ∧ next =
      { store with chunks := [], embeddings := [], vectors := [], declaration := some (Width.declaration width),
                   dimensions := width } := by
  rw [rebuild, bind_ok_iff]
  exact ⟨fun ⟨_, possible, same⟩ => ⟨possible, (Except.ok.inj same).symm⟩, fun ⟨possible, same⟩ => ⟨(), possible, same ▸ rfl⟩⟩

theorem rebuild_consistent (store next : Store) (kept : WellKept store) (width : Nat)
    (rebuilt : store.rebuild width = .ok next) : Consistent next := by
  obtain ⟨possible, rfl⟩ := (store.rebuild_ok_iff next width).mp rebuilt
  exact ⟨⟨kept.paths, kept.fileIds, kept.fileBound, fun _ member => (nomatch member), List.nodup_nil,
    fun _ member => (nomatch member), no_vectors _ _, possible, rfl⟩, fun _ => Iff.rfl⟩

theorem add_feedback_kept (store : Store) (kept : WellKept store) (chunkId kind : String) (comment : Option String) :
    WellKept (store.addFeedback chunkId kind comment).2 :=
  ⟨kept.paths, kept.fileIds, kept.fileBound, kept.owners, kept.chunkIds, kept.embeddingIds, kept.vectors,
    kept.possible, kept.declared⟩

theorem upsert_vector_kept (store next : Store) (kept : WellKept store) (id content : String) (vector : Embedding)
    (metadata : Metadata) (upserted : store.upsertVector id content vector metadata = .ok next) : WellKept next := by
  obtain ⟨fits, rfl⟩ := (store.upsert_vector_ok_iff next id content vector metadata).mp upserted
  exact same_frame_kept store _ kept ⟨rfl, rfl, rfl, rfl, rfl, rfl⟩ kept.owners kept.chunkIds kept.embeddingIds
    (store.put_vector_valid kept.vectors id content vector metadata fits)

theorem delete_vectors_kept (store : Store) (kept : WellKept store) (ids : List String) :
    WellKept (store.deleteVectors ids).2 := by
  obtain ⟨frame, chunks⟩ := store.delete_vectors_frame ids
  exact same_frame_kept store _ kept frame (chunks ▸ kept.owners) (chunks ▸ kept.chunkIds) (chunks ▸ kept.embeddingIds)
    (store.delete_vectors_valid kept.vectors ids)

end Store
end CodeIndex
