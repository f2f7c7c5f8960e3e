import CodeIndex.Proofs.ChunkId
import CodeIndex.Proofs.Store.VectorMap
import CodeIndex.Store.Registry

set_option autoImplicit false

namespace CodeIndex

structure StoredFor (entry : VectorEntry) (chunk : NewChunk) : Prop where
  content : entry.row.content = chunk.content
  filePath : entry.row.filePath = chunk.metadata.filePath
  metadata : entry.row.metadata = chunk.metadata.toJson.compactText
  vector : entry.vector = chunk.vector

theorem bind_ok_iff {ε α β : Type} (first : Except ε α) (next : α → Except ε β) (result : β) :
    (first >>= next) = .ok result ↔ ∃ value, first = .ok value ∧ next value = .ok result := by
  cases first with
  | error error => exact ⟨(nomatch ·), fun ⟨_, same, _⟩ => nomatch same⟩
  | ok value => exact ⟨fun done => ⟨value, rfl, done⟩, fun ⟨_, same, done⟩ => Except.ok.inj same ▸ done⟩

namespace Store

theorem drop_chunks_chunks (store : Store) (fileId : Int) :
    (store.dropChunks fileId).2.chunks = store.chunks.filter (·.fileId != fileId) := by
  have kept := (store.delete_vectors_frame ((store.rowsOf fileId).map (·.embeddingId))).2
  exact congrArg (List.filter (·.fileId != fileId)) kept

theorem drop_chunks_mem (store : Store) (fileId : Int) (row : ChunkRow) :
    row ∈ (store.dropChunks fileId).2.chunks ↔ row ∈ store.chunks ∧ row.fileId ≠ fileId := by
  rw [drop_chunks_chunks, List.mem_filter, bne_iff_ne]

theorem drop_chunks_frame (store : Store) (fileId : Int) : SameFrame store (store.dropChunks fileId).2 := by
  have frame := (store.delete_vectors_frame ((store.rowsOf fileId).map (·.embeddingId))).1
  exact ⟨frame.files, frame.feedback, frame.lastFile, frame.lastFeedback, frame.declaration, frame.dimensions⟩

theorem drop_chunks_valid (store : Store) (valid : store.Vectors) (fileId : Int) :
    (store.dropChunks fileId).2.Vectors :=
  store.delete_vectors_valid valid ((store.rowsOf fileId).map ChunkRow.embeddingId)

theorem drop_chunks_embeddings (store : Store) (fileId : Int) :
    (store.dropChunks fileId).2.embeddings =
      store.embeddings.filter fun row => row.embeddingId ∉ (store.rowsOf fileId).map (·.embeddingId) :=
  store.delete_vectors_embeddings ((store.rowsOf fileId).map ChunkRow.embeddingId)

theorem drop_chunks_lookup (store : Store) (valid : store.Vectors) (fileId : Int) (id : String) :
    (store.dropChunks fileId).2.lookup? id =
      if id ∈ (store.rowsOf fileId).map (·.embeddingId) then none else store.lookup? id :=
  store.delete_vectors_lookup valid ((store.rowsOf fileId).map ChunkRow.embeddingId) id

def putChunk (fileId : Int) (store : Store) (chunk : NewChunk) : Store :=
  { store.putVector chunk.id.text chunk.content chunk.vector chunk.metadata with
    chunks := store.chunks ++ [chunk.row fileId] }

def putChunks (fileId : Int) (store : Store) (chunks : List NewChunk) : Store :=
  chunks.foldl (putChunk fileId) store

structure Insertable (store : Store) (fileId : Int) (chunks : List NewChunk) : Prop where
  widths : ∀ chunk ∈ chunks, chunk.vector.length = store.dimensions
  distinct : (chunks.map (·.id)).Nodup
  unused : ∀ chunk ∈ chunks, ∀ row ∈ store.chunks, row.id ≠ chunk.id.text
  owner : chunks = [] ∨ ∃ file ∈ store.files, file.id = fileId

theorem insert_row_ok_iff (store next : Store) (row : ChunkRow) :
    store.insertRow row = .ok next ↔ (∀ other ∈ store.chunks, other.id ≠ row.id) ∧
      (∃ file ∈ store.files, file.id = row.fileId) ∧ next = { store with chunks := store.chunks ++ [row] } := by
  by_cases taken : store.chunks.any (·.id == row.id) = true
  · rw [insertRow, if_pos taken]
    obtain ⟨other, member, same⟩ := List.any_eq_true.mp taken
    exact ⟨(nomatch ·), fun ⟨unused, _⟩ => absurd (by simpa using same) (unused other member)⟩
  · have unused : ∀ other ∈ store.chunks, other.id ≠ row.id := by simpa using taken
    rw [insertRow, if_neg taken]
    by_cases known : store.files.any (·.id == row.fileId) = true
    · obtain ⟨file, member, same⟩ := List.any_eq_true.mp known
      rw [if_neg (by simp [known])]
      exact ⟨fun inserted => ⟨unused, ⟨file, member, by simpa using same⟩, (Except.ok.inj inserted).symm⟩,
        fun ⟨_, _, same⟩ => same ▸ rfl⟩
    · rw [if_pos (by simpa using known)]
      refine ⟨(nomatch ·), fun ⟨_, ⟨file, member, same⟩, _⟩ => absurd ?_ known⟩
      exact List.any_eq_true.mpr ⟨file, member, by simpa using same⟩

theorem insert_chunk_ok_iff (store next : Store) (fileId : Int) (chunk : NewChunk) :
    insertChunk fileId store chunk = .ok next ↔ chunk.vector.length = store.dimensions ∧
      (∀ row ∈ store.chunks, row.id ≠ chunk.id.text) ∧ (∃ file ∈ store.files, file.id = fileId) ∧
      next = putChunk fileId store chunk := by
  rw [insertChunk, bind_ok_iff]
  constructor
  · rintro ⟨stored, upserted, inserted⟩
    obtain ⟨fits, rfl⟩ := (store.upsert_vector_ok_iff _ _ _ _ _).mp upserted
    obtain ⟨unused, owner, same⟩ := (insert_row_ok_iff _ _ _).mp inserted
    exact ⟨fits, unused, owner, same⟩
  · rintro ⟨fits, unused, owner, same⟩
    exact ⟨_, (store.upsert_vector_ok_iff _ _ _ _ _).mpr ⟨fits, rfl⟩, (insert_row_ok_iff _ _ _).mpr ⟨unused, owner, same⟩⟩

theorem insertable_cons_iff (store : Store) (fileId : Int) (chunk : NewChunk) (rest : List NewChunk) :
    Insertable store fileId (chunk :: rest) ↔ chunk.vector.length = store.dimensions ∧
      (∀ row ∈ store.chunks, row.id ≠ chunk.id.text) ∧ (∃ file ∈ store.files, file.id = fileId) ∧
      Insertable (putChunk fileId store chunk) fileId rest := by
  constructor
  · intro whole
    have owner : ∃ file ∈ store.files, file.id = fileId := whole.owner.resolve_left (List.cons_ne_nil _ _)
    obtain ⟨apart, distinct⟩ := List.nodup_cons.mp whole.distinct
    refine ⟨whole.widths chunk List.mem_cons_self, whole.unused chunk List.mem_cons_self, owner,
      fun later member => whole.widths later (List.mem_cons_of_mem _ member), distinct, ?_, .inr owner⟩
    intro later member row stored
    rcases List.mem_append.mp stored with old | new
    · exact whole.unused later (List.mem_cons_of_mem _ member) row old
    · rw [List.mem_singleton.mp new]
      intro same
      exact apart (List.mem_map.mpr ⟨later, member, (ChunkId.text_injective _ _ same).symm⟩)
  · rintro ⟨fits, unused, owner, after⟩
    refine ⟨?_, ?_, ?_, .inr owner⟩
    · intro item member
      rcases List.mem_cons.mp member with rfl | later
      · exact fits
      · exact after.widths item later
    · refine List.nodup_cons.mpr ⟨?_, after.distinct⟩
      intro repeated
      obtain ⟨later, member, same⟩ := List.mem_map.mp repeated
      exact after.unused later member (chunk.row fileId) (List.mem_append_right _ (List.mem_singleton.mpr rfl))
        (congrArg ChunkId.text same).symm
    · intro item member row stored
      rcases List.mem_cons.mp member with rfl | later
      · exact unused row stored
      · exact after.unused item later row (List.mem_append_left _ stored)

-- The induction runs over the batch with the partly written tables: what is left must go into the
-- tables as the chunks before it have made them.
theorem insert_chunks_ok_iff (store filled : Store) (fileId : Int) (chunks : List NewChunk) :
    chunks.foldlM (insertChunk fileId) store = .ok filled ↔
      Insertable store fileId chunks ∧ filled = putChunks fileId store chunks := by
  induction chunks generalizing store with
  | nil =>
      have empty : Insertable store fileId [] :=
        ⟨fun _ member => (nomatch member), List.nodup_nil, fun _ member => (nomatch member), .inl rfl⟩
      exact ⟨fun same => ⟨empty, (Except.ok.inj same).symm⟩, fun ⟨_, same⟩ => same ▸ rfl⟩
  | cons chunk rest ih =>
      rw [List.foldlM_cons, bind_ok_iff, insertable_cons_iff]
      constructor
      · rintro ⟨next, inserted, done⟩
        obtain ⟨fits, unused, owner, rfl⟩ := (insert_chunk_ok_iff _ _ _ _).mp inserted
        obtain ⟨after, same⟩ := (ih _).mp done
        exact ⟨⟨fits, unused, owner, after⟩, same⟩
      · rintro ⟨⟨fits, unused, owner, after⟩, same⟩
        exact ⟨_, (insert_chunk_ok_iff _ _ _ _).mpr ⟨fits, unused, owner, rfl⟩, (ih _).mpr ⟨after, same⟩⟩

-- What the tables must be like for a file's chunks to be swapped: its own old chunks do not count.
structure Replaceable (store : Store) (fileId : Int) (chunks : List NewChunk) : Prop where
  widths : ∀ chunk ∈ chunks, chunk.vector.length = store.dimensions
  distinct : (chunks.map (·.id)).Nodup
  unused : ∀ chunk ∈ chunks, ∀ row ∈ store.chunks, row.fileId ≠ fileId → row.id ≠ chunk.id.text
  owner : chunks = [] ∨ ∃ file ∈ store.files, file.id = fileId

theorem replaceable_iff (store : Store) (fileId : Int) (chunks : List NewChunk) :
    Replaceable store fileId chunks ↔ Insertable (store.dropChunks fileId).2 fileId chunks := by
  have frame := store.drop_chunks_frame fileId
  have rows := store.drop_chunks_mem fileId
  constructor
  · intro able
    refine ⟨frame.dimensions ▸ able.widths, able.distinct, ?_, frame.files ▸ able.owner⟩
    intro chunk member row stored
    exact able.unused chunk member row ((rows row).mp stored).1 ((rows row).mp stored).2
  · intro able
    refine ⟨frame.dimensions ▸ able.widths, able.distinct, ?_, frame.files ▸ able.owner⟩
    intro chunk member row stored other
    exact able.unused chunk member row ((rows row).mpr ⟨stored, other⟩)

theorem replace_chunks_ok_iff (store after : Store) (fileId : Int) (chunks : List NewChunk) (removed : Nat) :
    store.replaceChunks fileId chunks = .ok (removed, after) ↔ Replaceable store fileId chunks ∧
      removed = (store.rowsOf fileId).length ∧ after = putChunks fileId (store.dropChunks fileId).2 chunks := by
  rw [replaceable_iff, replaceChunks, bind_ok_iff]
  constructor
  · rintro ⟨filled, inserted, done⟩
    obtain ⟨able, same⟩ := (insert_chunks_ok_iff _ _ _ _).mp inserted
    cases done
    exact ⟨able, rfl, same⟩
  · rintro ⟨able, rfl, rfl⟩
    exact ⟨_, (insert_chunks_ok_iff _ _ _ _).mpr ⟨able, rfl⟩, rfl⟩

theorem put_chunks_chunks (fileId : Int) (store : Store) (chunks : List NewChunk) :
    (putChunks fileId store chunks).chunks = store.chunks ++ chunks.map (·.row fileId) := by
  induction chunks generalizing store with
  | nil => exact (List.append_nil _).symm
  | cons chunk rest ih =>
      rw [putChunks, List.foldl_cons, ← putChunks, ih, putChunk, List.append_assoc]
      rfl

theorem put_chunks_frame (fileId : Int) (store : Store) (chunks : List NewChunk) :
    SameFrame store (putChunks fileId store chunks) := by
  induction chunks generalizing store with
  | nil => exact ⟨rfl, rfl, rfl, rfl, rfl, rfl⟩
  | cons chunk rest ih =>
      exact same_frame_trans store (putChunk fileId store chunk) _ ⟨rfl, rfl, rfl, rfl, rfl, rfl⟩ (ih _)

theorem put_chunk_valid (fileId : Int) (store : Store) (valid : store.Vectors) (chunk : NewChunk)
    (fits : chunk.vector.length = store.dimensions) : (putChunk fileId store chunk).Vectors :=
  store.put_vector_valid valid chunk.id.text chunk.content chunk.vector chunk.metadata fits

theorem put_chunks_valid (fileId : Int) (store : Store) (valid : store.Vectors) (chunks : List NewChunk)
    (widths : ∀ chunk ∈ chunks, chunk.vector.length = store.dimensions) : (putChunks fileId store chunks).Vectors := by
  induction chunks generalizing store with
  | nil => exact valid
  | cons chunk rest ih =>
      exact ih (putChunk fileId store chunk) (put_chunk_valid fileId store valid chunk (widths chunk List.mem_cons_self))
        fun later member => widths later (List.mem_cons_of_mem _ member)

theorem put_chunks_ids (fileId : Int) (store : Store) (chunks : List NewChunk) (id : String) :
    id ∈ (putChunks fileId store chunks).embeddings.map (·.embeddingId) ↔
      id ∈ store.embeddings.map (·.embeddingId) ∨ id ∈ chunks.map (·.id.text) := by
  induction chunks generalizing store with
  | nil => simp [putChunks]
  | cons chunk rest ih =>
      have step : id ∈ (putChunk fileId store chunk).embeddings.map (·.embeddingId) ↔
          id = chunk.id.text ∨ id ∈ store.embeddings.map (·.embeddingId) :=
        put_embedding_ids store.embeddings (store.writtenRow chunk.id.text chunk.content chunk.metadata) id
      rw [putChunks, List.foldl_cons, ← putChunks, ih, step, List.map_cons, List.mem_cons]
      exact or_assoc.trans or_left_comm

theorem put_chunks_lookup_other (fileId : Int) (store : Store) (valid : store.Vectors) (chunks : List NewChunk)
    (widths : ∀ chunk ∈ chunks, chunk.vector.length = store.dimensions) (id : String)
    (absent : id ∉ chunks.map (·.id.text)) : (putChunks fileId store chunks).lookup? id = store.lookup? id := by
  induction chunks generalizing store with
  | nil => rfl
  | cons chunk rest ih =>
      have fits := widths chunk List.mem_cons_self
      have later := ih (putChunk fileId store chunk) (put_chunk_valid fileId store valid chunk fits)
        (fun item member => widths item (List.mem_cons_of_mem _ member)) (fun member => absent (List.mem_cons_of_mem _ member))
      have different : id ≠ chunk.id.text := fun same => absent (same ▸ List.mem_cons_self)
      exact later.trans (store.put_vector_lookup_other valid _ chunk.content chunk.vector chunk.metadata fits id different)

theorem put_chunks_lookup (fileId : Int) (store : Store) (valid : store.Vectors) (chunks : List NewChunk)
    (widths : ∀ chunk ∈ chunks, chunk.vector.length = store.dimensions) (distinct : (chunks.map (·.id)).Nodup)
    (chunk : NewChunk) (member : chunk ∈ chunks) :
    ∃ entry, (putChunks fileId store chunks).lookup? chunk.id.text = some entry ∧ StoredFor entry chunk := by
  induction chunks generalizing store with
  | nil => cases member
  | cons first rest ih =>
      have fits := widths first List.mem_cons_self
      have stepValid := put_chunk_valid fileId store valid first fits
      have restWidths : ∀ item ∈ rest, item.vector.length = store.dimensions := fun item later =>
        widths item (List.mem_cons_of_mem _ later)
      obtain ⟨apart, restDistinct⟩ := List.nodup_cons.mp distinct
      rcases List.mem_cons.mp member with rfl | later
      · have untouched : chunk.id.text ∉ rest.map (·.id.text) := by
          intro repeated
          obtain ⟨item, itemMember, same⟩ := List.mem_map.mp repeated
          exact apart (List.mem_map.mpr ⟨item, itemMember, ChunkId.text_injective _ _ same⟩)
        refine ⟨⟨store.writtenRow chunk.id.text chunk.content chunk.metadata, chunk.vector⟩, ?_, ⟨rfl, rfl, rfl, rfl⟩⟩
        exact (put_chunks_lookup_other fileId (putChunk fileId store chunk) stepValid rest restWidths _ untouched).trans
          (store.put_vector_lookup valid _ chunk.content chunk.vector chunk.metadata fits)
      · exact ih (putChunk fileId store first) stepValid restWidths restDistinct later

end Store
end CodeIndex
