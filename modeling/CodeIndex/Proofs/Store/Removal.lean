import CodeIndex.Proofs.Reconcile.Sections

set_option autoImplicit false

namespace CodeIndex

namespace Store

def rowIdsOf (store : Store) (ids : List String) : List Nat :=
  (store.embeddings.filter fun row => row.embeddingId ∈ ids).map (·.rowId)

theorem row_ids_of_mem (store : Store) (ids : List String) (rowId : Nat) :
    rowId ∈ store.rowIdsOf ids ↔ ∃ row ∈ store.embeddings, row.embeddingId ∈ ids ∧ row.rowId = rowId := by
  simp [rowIdsOf, and_assoc]

-- A row that was erased first is no longer found by a later identifier, but its number was counted before.
theorem row_ids_of_cons (store : Store) (id : String) (rest : List String) (rowId : Nat) :
    rowId ∈ store.rowIdsOf (id :: rest) ↔
      rowId ∈ (store.embeddings.filter (·.embeddingId == id)).map (·.rowId) ∨ rowId ∈ (store.eraseVector id).rowIdsOf rest := by
  rw [row_ids_of_mem, row_ids_of_mem]
  simp only [eraseVector, List.mem_map, List.mem_filter, beq_iff_eq, bne_iff_ne, List.mem_cons, and_assoc]
  constructor
  · rintro ⟨row, stored, named | listed, same⟩
    · exact .inl ⟨row, stored, named, same⟩
    · by_cases named : row.embeddingId = id
      · exact .inl ⟨row, stored, named, same⟩
      · exact .inr ⟨row, stored, named, listed, same⟩
  · rintro (⟨row, stored, named, same⟩ | ⟨row, stored, _, listed, same⟩)
    · exact ⟨row, stored, .inl named, same⟩
    · exact ⟨row, stored, .inr listed, same⟩

theorem delete_vectors_vectors (store : Store) (ids : List String) :
    (store.deleteVectors ids).2.vectors = store.vectors.filter fun row => row.rowId ∉ store.rowIdsOf ids := by
  induction ids generalizing store with
  | nil => simp [deleteVectors, rowIdsOf]
  | cons id rest ih =>
      have both (row : VectorRow) := store.row_ids_of_cons id rest row.rowId
      have erased : (store.eraseVector id).vectors = store.vectors.filter fun row =>
          row.rowId ∉ (store.embeddings.filter (·.embeddingId == id)).map (·.rowId) := by
        simp only [eraseVector, List.contains_eq_mem, decide_not]
      rw [deleteVectors, ih (store.eraseVector id), erased, List.filter_filter]
      refine List.filter_congr fun row _ => ?_
      rw [← Bool.decide_and]
      simp only [both, not_or, and_comm]

theorem drop_chunks_vectors (store : Store) (fileId : Int) : (store.dropChunks fileId).2.vectors =
    store.vectors.filter fun row => row.rowId ∉ store.rowIdsOf ((store.rowsOf fileId).map (·.embeddingId)) :=
  store.delete_vectors_vectors ((store.rowsOf fileId).map ChunkRow.embeddingId)

theorem without_file_rows (store : Store) (fileId : Int) :
    (store.withoutFile fileId).chunks = store.chunks.filter (·.fileId != fileId) ∧
    (store.withoutFile fileId).embeddings =
      store.embeddings.filter (fun row => row.embeddingId ∉ (store.rowsOf fileId).map (·.embeddingId)) ∧
    (store.withoutFile fileId).vectors =
      store.vectors.filter (fun row => row.rowId ∉ store.rowIdsOf ((store.rowsOf fileId).map (·.embeddingId))) :=
  ⟨store.drop_chunks_chunks fileId, store.drop_chunks_embeddings fileId, store.drop_chunks_vectors fileId⟩

theorem without_file_unowned (store : Store) (fileId : Int) (unowned : store.rowsOf fileId = []) :
    store.withoutFile fileId = { store with files := store.files.filter (·.id != fileId) } := by
  have chunks : store.chunks.filter (·.fileId != fileId) = store.chunks := by
    simpa [rowsOf] using unowned
  simp [withoutFile, dropChunks, unowned, deleteVectors, chunks]

theorem without_file_unassigned (store : Store) (kept : WellKept store) : store.withoutFile (store.lastFile + 1) = store := by
  have files : store.files.filter (·.id != store.lastFile + 1) = store.files := by
    apply List.filter_eq_self.mpr
    intro file member
    have bound := kept.fileBound file member
    simp only [bne_iff_ne]
    omega
  rw [store.without_file_unowned _ (store.rows_of_unassigned kept _ (Int.lt_succ _)), files]

theorem files_by_path (store : Store) (kept : WellKept store) (file : FileRow) (known : file ∈ store.files) :
    store.files.filter (·.id != file.id) = store.files.filter (·.path != file.path) := by
  refine List.filter_congr fun other member => ?_
  by_cases same : other = file
  · simp [same]
  · have ids : other.id ≠ file.id := fun equal => same (List.inj_on_of_nodup_map kept.fileIds member known equal)
    have paths : other.path ≠ file.path := fun equal => same (List.inj_on_of_nodup_map kept.paths member known equal)
    rw [bne_iff_ne.mpr ids, bne_iff_ne.mpr paths]

end Store

structure SameRows (before after : Store) : Prop where
  files : after.files = before.files
  chunks : after.chunks = before.chunks
  embeddings : after.embeddings = before.embeddings
  vectors : after.vectors = before.vectors
  feedback : after.feedback = before.feedback
  lastFeedback : after.lastFeedback = before.lastFeedback
  declaration : after.declaration = before.declaration
  dimensions : after.dimensions = before.dimensions
  lastFile : before.lastFile ≤ after.lastFile
  lastEmbedding : before.lastEmbedding ≤ after.lastEmbedding

theorem same_rows_refl (store : Store) : SameRows store store :=
  ⟨rfl, rfl, rfl, rfl, rfl, rfl, rfl, rfl, Int.le_refl _, Nat.le_refl _⟩

theorem same_rows_trans (first second third : Store) (before : SameRows first second) (after : SameRows second third) :
    SameRows first third where
  files := after.files.trans before.files
  chunks := after.chunks.trans before.chunks
  embeddings := after.embeddings.trans before.embeddings
  vectors := after.vectors.trans before.vectors
  feedback := after.feedback.trans before.feedback
  lastFeedback := after.lastFeedback.trans before.lastFeedback
  declaration := after.declaration.trans before.declaration
  dimensions := after.dimensions.trans before.dimensions
  lastFile := Int.le_trans before.lastFile after.lastFile
  lastEmbedding := Nat.le_trans before.lastEmbedding after.lastEmbedding

namespace Store

theorem filter_appended {α : Type} (old new : List α) (keeps : α → Bool) (keepsOld : ∀ row ∈ old, keeps row = true)
    (dropsNew : ∀ row ∈ new, ¬ keeps row = true) : (old ++ new).filter keeps = old := by
  rw [List.filter_append, List.filter_eq_self.mpr keepsOld, List.filter_eq_nil_iff.mpr dropsNew, List.append_nil]

theorem put_vector_appends (store : Store) (valid : store.Vectors) (id content : String) (vector : Embedding)
    (metadata : Metadata) (absent : id ∉ store.embeddings.map (·.embeddingId)) :
    (store.putVector id content vector metadata).embeddings = store.embeddings ++ [store.writtenRow id content metadata] ∧
    (store.putVector id content vector metadata).vectors = store.vectors ++ [⟨store.rowIdFor id, vector⟩] := by
  have unused := store.row_id_for_unused valid id absent
  refine ⟨put_embedding_appends store.embeddings (store.writtenRow id content metadata) absent, ?_⟩
  have others : store.vectors.filter (·.rowId != store.rowIdFor id) = store.vectors := by
    apply List.filter_eq_self.mpr
    intro row member
    have different : row.rowId ≠ store.rowIdFor id := fun same =>
      unused (same ▸ valid.paired.mem_iff.mp (List.mem_map_of_mem member))
    simpa using different
  rw [putVector, others]

theorem put_chunks_append (fileId : Int) (store : Store) (valid : store.Vectors) (chunks : List NewChunk)
    (widths : ∀ chunk ∈ chunks, chunk.vector.length = store.dimensions) (distinct : (chunks.map (·.id)).Nodup)
    (free : ∀ chunk ∈ chunks, chunk.id.text ∉ store.embeddings.map (·.embeddingId)) : ∃ rows vectors,
      (putChunks fileId store chunks).embeddings = store.embeddings ++ rows ∧
      (putChunks fileId store chunks).vectors = store.vectors ++ vectors ∧
      rows.map (·.embeddingId) = chunks.map (·.id.text) ∧ vectors.map (·.rowId) = rows.map (·.rowId) := by
  induction chunks generalizing store with
  | nil => exact ⟨[], [], by simp [putChunks]⟩
  | cons chunk rest ih =>
      have fits := widths chunk List.mem_cons_self
      obtain ⟨apart, restDistinct⟩ := List.nodup_cons.mp distinct
      obtain ⟨embeddings, vectors⟩ := store.put_vector_appends valid chunk.id.text chunk.content chunk.vector chunk.metadata
        (free chunk List.mem_cons_self)
      have restFree : ∀ later ∈ rest, later.id.text ∉ (putChunk fileId store chunk).embeddings.map (·.embeddingId) := by
        intro later member listed
        change later.id.text ∈ (store.putVector chunk.id.text chunk.content chunk.vector chunk.metadata).embeddings.map
          (·.embeddingId) at listed
        rw [embeddings, List.map_append, List.mem_append] at listed
        rcases listed with old | new
        · exact free later (List.mem_cons_of_mem _ member) old
        · have same : later.id.text = chunk.id.text := List.mem_singleton.mp new
          exact apart (List.mem_map.mpr ⟨later, member, ChunkId.text_injective _ _ same⟩)
      obtain ⟨rows, rest, embeddingsRest, vectorsRest, ids, rowIds⟩ :=
        ih (putChunk fileId store chunk) (put_chunk_valid fileId store valid chunk fits)
          (fun later member => widths later (List.mem_cons_of_mem _ member)) restDistinct restFree
      refine ⟨store.writtenRow chunk.id.text chunk.content chunk.metadata :: rows, ⟨store.rowIdFor chunk.id.text, chunk.vector⟩ :: rest,
        ?_, ?_, ?_, ?_⟩
      · exact embeddingsRest.trans ((congrArg (· ++ rows) embeddings).trans (List.append_assoc _ _ _))
      · exact vectorsRest.trans ((congrArg (· ++ rest) vectors).trans (List.append_assoc _ _ _))
      · rw [List.map_cons, List.map_cons, ids]
        rfl
      · rw [List.map_cons, List.map_cons, rowIds]
        rfl

theorem appended_removed (before after : Store) (valid : before.Vectors) (afterValid : after.Vectors)
    (rows : List EmbeddingRow) (vectors : List VectorRow) (embeddingsEq : after.embeddings = before.embeddings ++ rows)
    (vectorsEq : after.vectors = before.vectors ++ vectors) (rowIds : vectors.map (·.rowId) = rows.map (·.rowId))
    (free : ∀ row ∈ before.embeddings, row.embeddingId ∉ rows.map (·.embeddingId)) :
    after.embeddings.filter (fun row => row.embeddingId ∉ rows.map (·.embeddingId)) = before.embeddings ∧
    after.vectors.filter (fun row => row.rowId ∉ after.rowIdsOf (rows.map (·.embeddingId))) = before.vectors := by
  have numbers : ∀ rowId, rowId ∈ after.rowIdsOf (rows.map (·.embeddingId)) ↔ rowId ∈ rows.map (·.rowId) := by
    intro rowId
    rw [row_ids_of_mem, List.mem_map, embeddingsEq]
    constructor
    · rintro ⟨row, stored, listed, same⟩
      rcases List.mem_append.mp stored with old | new
      · exact absurd listed (free row old)
      · exact ⟨row, new, same⟩
    · rintro ⟨row, new, same⟩
      exact ⟨row, List.mem_append_right _ new, List.mem_map_of_mem new, same⟩
  have distinct := afterValid.rowIds
  rw [embeddingsEq, List.map_append] at distinct
  constructor
  · rw [embeddingsEq]
    apply filter_appended
    · intro row member
      exact decide_eq_true (free row member)
    · intro row member
      simpa using ⟨row, member, rfl⟩
  · rw [vectorsEq]
    simp only [numbers]
    apply filter_appended
    · intro row member
      apply decide_eq_true
      intro new
      have old := valid.paired.mem_iff.mp (List.mem_map_of_mem member)
      exact (List.nodup_append.mp distinct).2.2 _ old _ new rfl
    · intro row member
      have listed : row.rowId ∈ rows.map (·.rowId) := rowIds ▸ List.mem_map_of_mem member
      simpa using listed

theorem replace_forgotten (store after : Store) (kept : WellKept store) (fileId : Int) (chunks : List NewChunk) (removed : Nat)
    (replaced : store.replaceChunks fileId chunks = .ok (removed, after))
    (free : ∀ chunk ∈ chunks, chunk.id.text ∉ (store.withoutFile fileId).embeddings.map (·.embeddingId)) :
    SameRows (store.withoutFile fileId) (after.withoutFile fileId) := by
  have valid := store.drop_chunks_valid kept.vectors fileId
  have afterValid := (store.replace_chunks_kept after kept fileId chunks removed replaced).vectors
  have frame := store.replace_frame after fileId chunks removed replaced
  have dropped := store.drop_chunks_frame fileId
  have droppedAfter := after.drop_chunks_frame fileId
  obtain ⟨able, _, same⟩ := (store.replace_chunks_ok_iff after fileId chunks removed).mp replaced
  obtain ⟨rows, vectors, embeddingsEq, vectorsEq, ids, rowIds⟩ := put_chunks_append fileId (store.dropChunks fileId).2
    valid chunks ((store.replaceable_iff fileId chunks).mp able).widths able.distinct free
  rw [← same] at embeddingsEq vectorsEq
  have stale : (after.rowsOf fileId).map (·.embeddingId) = rows.map (·.embeddingId) := by
    rw [ids, store.replace_rows after fileId chunks removed replaced, List.map_map]
    rfl
  obtain ⟨embeddings, vectors⟩ := appended_removed (store.dropChunks fileId).2 after valid afterValid rows vectors
    embeddingsEq vectorsEq rowIds fun row member listed => by
      obtain ⟨chunk, chunkMember, named⟩ := List.mem_map.mp (ids ▸ listed)
      exact free chunk chunkMember (List.mem_map.mpr ⟨row, member, named.symm⟩)
  obtain ⟨withoutChunks, withoutEmbeddings, withoutVectors⟩ := after.without_file_rows fileId
  refine ⟨?_, ?_, ?_, ?_, ?_, ?_, ?_, ?_, ?_, ?_⟩
  · simp [withoutFile, frame.files]
  · rw [withoutChunks, same, put_chunks_chunks]
    apply filter_appended
    · intro row member
      simpa using ((store.drop_chunks_mem fileId row).mp member).2
    · intro row member
      obtain ⟨chunk, _, rfl⟩ := List.mem_map.mp member
      simp [NewChunk.row]
  · rw [withoutEmbeddings, stale]
    exact embeddings
  · rw [withoutVectors, stale]
    exact vectors
  · simp [withoutFile, dropped.feedback, droppedAfter.feedback, frame.feedback]
  · simp [withoutFile, dropped.lastFeedback, droppedAfter.lastFeedback, frame.lastFeedback]
  · simp [withoutFile, dropped.declaration, droppedAfter.declaration, frame.declaration]
  · simp [withoutFile, dropped.dimensions, droppedAfter.dimensions, frame.dimensions]
  · simp [withoutFile, dropped.lastFile, droppedAfter.lastFile, frame.lastFile]
  · simp [withoutFile, drop_chunks_last, same, put_chunks_last]

theorem delete_file_known (store : Store) (kept : WellKept store) (file : FileRow) (known : file ∈ store.files) :
    store.deleteFile file.path = (true, store.withoutFile file.id) := by
  have found := (store.file_by_path_iff kept file.path file).mpr ⟨known, rfl⟩
  obtain ⟨absent, _⟩ | ⟨other, present, same⟩ := store.delete_file_cases file.path
  · rw [found] at absent
    cases absent
  · rw [found] at present
    cases present
    exact same

theorem delete_file_absent (store : Store) (path : String) (absent : path ∉ store.files.map (·.path)) :
    store.deleteFile path = (false, store) := by
  rw [deleteFile, (store.file_by_path_none_iff path).mpr absent]

theorem without_file_alike (before after : Store) (fileId : Int)
    (alike : after = { before with files := after.files, lastFile := after.lastFile })
    (last : before.lastFile ≤ after.lastFile)
    (files : after.files.filter (·.id != fileId) = before.files.filter (·.id != fileId)) :
    SameRows (before.withoutFile fileId) (after.withoutFile fileId) := by
  have chunks : after.chunks = before.chunks := by rw [alike]
  have embeddings : after.embeddings = before.embeddings := by rw [alike]
  have vectors : after.vectors = before.vectors := by rw [alike]
  have feedback : after.feedback = before.feedback := by rw [alike]
  have frame := before.drop_chunks_frame fileId
  have frameAfter := after.drop_chunks_frame fileId
  obtain ⟨chunksBefore, embeddingsBefore, vectorsBefore⟩ := before.without_file_rows fileId
  obtain ⟨chunksAfter, embeddingsAfter, vectorsAfter⟩ := after.without_file_rows fileId
  refine ⟨files, ?_, ?_, ?_, ?_, ?_, ?_, ?_, ?_, ?_⟩
  · rw [chunksAfter, chunksBefore, chunks]
  · rw [embeddingsAfter, embeddingsBefore, rowsOf, rowsOf, chunks, embeddings]
  · rw [vectorsAfter, vectorsBefore, rowIdsOf, rowIdsOf, rowsOf, rowsOf, chunks, embeddings, vectors]
  · simp [withoutFile, frame.feedback, frameAfter.feedback, feedback]
  · simp only [withoutFile, frame.lastFeedback, frameAfter.lastFeedback]
    rw [alike]
  · simp only [withoutFile, frame.declaration, frameAfter.declaration]
    rw [alike]
  · simp only [withoutFile, frame.dimensions, frameAfter.dimensions]
    rw [alike]
  · simp [withoutFile, frame.lastFile, frameAfter.lastFile, last]
  · simp only [withoutFile, drop_chunks_last]
    rw [alike]

theorem upsert_forgotten (store : Store) (kept : WellKept store) (path language : String) :
    SameRows (store.deleteFile path).2 ((store.upsertFile path language).2.deleteFile path).2 := by
  have registered := upsert_file_registers store kept path language
  have rest := store.upsert_file_rest path language
  have known := (store.upsert_file_mem kept path language _).mpr (.inl rfl)
  obtain ⟨named, _, oldId⟩ := store.upsert_file_row kept path language
  have files := files_by_path _ registered.kept _ known
  have deleted := delete_file_known _ registered.kept _ known
  rw [named] at files deleted
  rw [registered.others] at files
  have alike (same : store.files.filter (·.id != (store.upsertFile path language).1.id) = store.files.filter (·.path != path)) :
      SameRows (store.withoutFile (store.upsertFile path language).1.id)
        ((store.upsertFile path language).2.withoutFile (store.upsertFile path language).1.id) := by
    apply without_file_alike _ _ _ _ _ (files.trans same.symm)
    · rw [rest]
    · rw [rest]
      exact Int.le_add_one (Int.le_refl _)
  rw [deleted]
  by_cases present : path ∈ store.files.map (·.path)
  · obtain ⟨file, member, rfl⟩ := List.mem_map.mp present
    rw [store.delete_file_known kept file member]
    have number := oldId file member rfl
    rw [number] at alike ⊢
    exact alike (store.files_by_path kept file member)
  · have number : (store.upsertFile path language).1.id = store.lastFile + 1 := by
      rw [store.upsert_file_new path language ((store.file_by_path_none_iff path).mpr present)]
    have whole := store.without_file_unassigned kept
    have byPath : store.files.filter (·.path != path) = store.files := by
      apply List.filter_eq_self.mpr
      intro file member
      simpa using fun same => present (List.mem_map.mpr ⟨file, member, same⟩)
    rw [number, whole] at alike
    rw [number, store.delete_file_absent path present]
    exact alike ((congrArg (·.files) whole).trans byPath.symm)

end Store
end CodeIndex
