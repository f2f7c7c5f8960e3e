import Mathlib.Data.List.Forall2
import CodeIndex.Proofs.Metadata
import CodeIndex.Store.Search

set_option autoImplicit false

namespace CodeIndex

theorem map_m_follows {ε α β : Type} (f : α → Except ε β) (items : List α) (results : List β)
    (done : items.mapM f = .ok results) : List.Forall₂ (fun item result => f item = .ok result) items results := by
  induction items generalizing results with
  | nil =>
      cases done
      exact .nil
  | cons item rest ih =>
      rw [List.mapM_cons] at done
      obtain ⟨first, here, done⟩ := (bind_ok_iff _ _ _).mp done
      obtain ⟨others, later, done⟩ := (bind_ok_iff _ _ _).mp done
      cases done
      exact .cons here (ih others later)

theorem filter_map_column {α β κ : Type} (pick : α → Option β) (key : β → κ) (column : α → κ) (rows : List α)
    (each : ∀ row ∈ rows, ∃ found, pick row = some found ∧ key found = column row) :
    (rows.filterMap pick).map key = rows.map column := by
  induction rows with
  | nil => rfl
  | cons row rest ih =>
      obtain ⟨found, picked, same⟩ := each row List.mem_cons_self
      rw [List.filterMap_cons_some picked, List.map_cons, List.map_cons, same,
        ih fun later member => each later (List.mem_cons_of_mem _ member)]

theorem candidate_read_cases (candidate : Candidate) (hit : Hit) (read : candidate.read = .ok hit) :
    ∃ metadata near, (Json.read? candidate.row.metadata).bind Metadata.ofJson? = some metadata ∧
      candidate.distance = some near ∧
      hit = ⟨candidate.row.embeddingId, candidate.row.content, metadata, similarity near⟩ := by
  rw [Candidate.read] at read
  cases decoded : (Json.read? candidate.row.metadata).bind Metadata.ofJson? with
  | none =>
      rw [decoded] at read
      cases read
  | some metadata =>
      rw [decoded] at read
      cases away : candidate.distance with
      | none =>
          rw [away] at read
          cases read
      | some near =>
          rw [away] at read
          cases read
          exact ⟨metadata, near, rfl, rfl, rfl⟩

theorem candidate_read (candidate : Candidate) (hit : Hit) (read : candidate.read = .ok hit) :
    hit.embeddingId = candidate.row.embeddingId ∧
      (Json.read? candidate.row.metadata).bind Metadata.ofJson? = some hit.metadata := by
  obtain ⟨metadata, near, decoded, _, rfl⟩ := candidate_read_cases candidate hit read
  exact ⟨rfl, decoded⟩

theorem hit_candidate (candidates : List Candidate) (hits : List Hit)
    (follows : List.Forall₂ (fun candidate hit => candidate.read = .ok hit) candidates hits) (hit : Hit)
    (member : hit ∈ hits) : ∃ candidate ∈ candidates, candidate.read = .ok hit := by
  induction follows with
  | nil => cases member
  | cons read _ ih =>
      rcases List.mem_cons.mp member with rfl | later
      · exact ⟨_, List.mem_cons_self, read⟩
      · obtain ⟨candidate, listed, here⟩ := ih later
        exact ⟨candidate, List.mem_cons_of_mem _ listed, here⟩

theorem hit_ids (candidates : List Candidate) (hits : List Hit)
    (follows : List.Forall₂ (fun candidate hit => candidate.read = .ok hit) candidates hits) :
    hits.map (·.embeddingId) = (candidates.map (·.row)).map (·.embeddingId) := by
  induction follows with
  | nil => rfl
  | cons read _ ih => simp only [List.map_cons, ih, (candidate_read _ _ read).1]

theorem limit_all {α : Type} (k : UInt64) (items : List α) (few : items.length ≤ k.toNat) : limit k items = items := by
  rw [limit]
  split
  · exact List.take_of_length_le few
  · rfl

theorem limit_initial {α : Type} (k : UInt64) (items : List α) : limit k items <+: items := by
  rw [limit]
  split
  · exact List.take_prefix _ _
  · exact List.prefix_rfl

theorem limit_mem {α : Type} (k : UInt64) (items : List α) (item : α) (member : item ∈ limit k items) : item ∈ items :=
  (limit_initial k items).subset member

namespace Store

variable (store : Store) (valid : store.Vectors) (distance : Embedding → Embedding → Option Float32) (query : Embedding)

include valid

theorem joined_row (vector : VectorRow) (row : EmbeddingRow) :
    store.embeddings.find? (·.rowId == vector.rowId) = some row ↔ row ∈ store.embeddings ∧ row.rowId = vector.rowId :=
  find_by_key EmbeddingRow.rowId store.embeddings valid.rowIds vector.rowId row

theorem embedding_of_vector (vector : VectorRow) (member : vector ∈ store.vectors) :
    ∃ row ∈ store.embeddings, row.rowId = vector.rowId :=
  List.mem_map.mp (valid.paired.mem_iff.mp (List.mem_map_of_mem member))

theorem candidate_rows : ((store.candidates distance query).map (·.row)).Perm store.embeddings := by
  have rows : (store.candidates distance query).map (·.row) =
      store.vectors.filterMap fun vector => store.embeddings.find? (·.rowId == vector.rowId) := by
    rw [candidates, List.map_filterMap]
    refine List.filterMap_congr fun vector _ => ?_
    cases store.embeddings.find? (·.rowId == vector.rowId) <;> rfl
  have rowIds : ((store.candidates distance query).map (·.row)).map (·.rowId) = store.vectors.map (·.rowId) := by
    rw [rows]
    apply filter_map_column
    intro vector member
    obtain ⟨row, stored, same⟩ := store.embedding_of_vector valid vector member
    exact ⟨row, (store.joined_row valid vector row).mpr ⟨stored, same⟩, same⟩
  have distinct : ((store.candidates distance query).map (·.row)).Nodup :=
    List.Nodup.of_map _ (rowIds ▸ store.vector_row_ids valid)
  refine (List.perm_ext_iff_of_nodup distinct (List.Nodup.of_map _ valid.rowIds)).mpr fun row => ?_
  rw [rows, List.mem_filterMap]
  constructor
  · rintro ⟨vector, _, found⟩
    exact ((store.joined_row valid vector row).mp found).1
  · intro member
    obtain ⟨vector, stored⟩ := store.vector_of_embedding valid row member
    exact ⟨⟨row.rowId, vector⟩, stored, (store.joined_row valid _ row).mpr ⟨member, rfl⟩⟩

theorem search_ranks (k : UInt64) (hits : List Hit) (found : store.searchBy distance query k = .ok hits) :
    ∃ ranked : List Candidate, (ranked.map (·.row)).Perm store.embeddings ∧
      List.Forall₂ (fun candidate hit => candidate.read = .ok hit) (limit k ranked) hits := by
  rw [searchBy] at found
  split at found
  · cases found
  · refine ⟨_, ?_, map_m_follows _ _ _ found⟩
    exact ((List.mergeSort_perm _ _).map _).trans (store.candidate_rows valid distance query)

theorem hit_stored (k : UInt64) (hits : List Hit) (found : store.searchBy distance query k = .ok hits) (hit : Hit)
    (member : hit ∈ hits) : ∃ row ∈ store.embeddings, row.embeddingId = hit.embeddingId ∧
      (Json.read? row.metadata).bind Metadata.ofJson? = some hit.metadata := by
  obtain ⟨ranked, rows, follows⟩ := store.search_ranks valid distance query k hits found
  obtain ⟨candidate, chosen, read⟩ := hit_candidate _ hits follows hit member
  obtain ⟨named, decoded⟩ := candidate_read candidate hit read
  have listed : candidate ∈ ranked := limit_mem k ranked candidate chosen
  exact ⟨candidate.row, rows.mem_iff.mp (List.mem_map_of_mem listed), named.symm, decoded⟩

theorem hits_complete (k : UInt64) (hits : List Hit) (found : store.searchBy distance query k = .ok hits)
    (enough : store.embeddings.length ≤ k.toNat) :
    (hits.map (·.embeddingId)).Perm (store.embeddings.map (·.embeddingId)) := by
  obtain ⟨ranked, rows, follows⟩ := store.search_ranks valid distance query k hits found
  have size : ranked.length = store.embeddings.length := by simpa using rows.length_eq
  rw [limit_all k ranked (size ▸ enough)] at follows
  rw [hit_ids ranked hits follows]
  exact rows.map _

end Store
end CodeIndex
