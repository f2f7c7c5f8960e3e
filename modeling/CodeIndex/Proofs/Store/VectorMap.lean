import Mathlib.Data.List.Nodup
import Mathlib.Data.List.Perm.Basic
import CodeIndex.Store.Vectors

set_option autoImplicit false

namespace CodeIndex

structure VectorEntry where
  row : EmbeddingRow
  vector : Embedding

structure Paired (embeddings : List EmbeddingRow) (vectors : List VectorRow) (last width : Nat) : Prop where
  ids : (embeddings.map (·.embeddingId)).Nodup
  rowIds : (embeddings.map (·.rowId)).Nodup
  paired : (vectors.map (·.rowId)).Perm (embeddings.map (·.rowId))
  bounded : ∀ row ∈ embeddings, row.rowId ≤ last
  widths : ∀ row ∈ vectors, row.vector.length = width

theorem find_by_key {α κ : Type} [DecidableEq κ] (key : α → κ) (rows : List α) (unique : (rows.map key).Nodup)
    (wanted : κ) (row : α) : rows.find? (fun other => key other == wanted) = some row ↔ row ∈ rows ∧ key row = wanted := by
  constructor
  · intro found
    exact ⟨List.mem_of_find?_eq_some found, by simpa using List.find?_some found⟩
  · rintro ⟨member, rfl⟩
    cases found : rows.find? (fun other => key other == key row) with
    | none => exact absurd (beq_self_eq_true (key row)) (List.find?_eq_none.mp found row member)
    | some other =>
        have same : key other = key row := by simpa using List.find?_some found
        rw [List.inj_on_of_nodup_map unique (List.mem_of_find?_eq_some found) member same]

theorem filter_by_key {α κ : Type} [DecidableEq κ] (key : α → κ) (rows : List α) (unique : (rows.map key).Nodup)
    (row : α) (member : row ∈ rows) : rows.filter (fun other => key other == key row) = [row] := by
  induction rows with
  | nil => cases member
  | cons head tail ih =>
      obtain ⟨apart, rest⟩ := List.nodup_cons.mp unique
      rcases List.mem_cons.mp member with rfl | later
      · have none : tail.filter (fun other => key other == key row) = [] := by
          apply List.filter_eq_nil_iff.mpr
          intro other otherMember same
          exact apart (List.mem_map.mpr ⟨other, otherMember, by simpa using same⟩)
        rw [List.filter_cons, if_pos (beq_self_eq_true _), none]
      · have different : ¬ (key head == key row) = true := by
          intro same
          exact apart (List.mem_map.mpr ⟨row, later, (beq_iff_eq.mp same).symm⟩)
        rw [List.filter_cons, if_neg different]
        exact ih rest later

theorem replaced_mem_iff {α κ : Type} [DecidableEq κ] (key : α → κ) (rows : List α) (wanted : κ) (fresh : α)
    (present : wanted ∈ rows.map key) (row : α) :
    row ∈ rows.map (fun old => if key old = wanted then fresh else old) ↔ row = fresh ∨ row ∈ rows ∧ key row ≠ wanted := by
  obtain ⟨own, ownMember, named⟩ := List.mem_map.mp present
  rw [List.mem_map]
  constructor
  · rintro ⟨old, member, rfl⟩
    by_cases here : key old = wanted
    · exact .inl (if_pos here)
    · rw [if_neg here]
      exact .inr ⟨member, here⟩
  · rintro (rfl | ⟨member, other⟩)
    · exact ⟨own, ownMember, if_pos named⟩
    · exact ⟨row, member, if_neg other⟩

theorem appended_mem_iff {α κ : Type} (key : α → κ) (rows : List α) (wanted : κ) (fresh : α)
    (absent : wanted ∉ rows.map key) (row : α) :
    row ∈ rows ++ [fresh] ↔ row = fresh ∨ row ∈ rows ∧ key row ≠ wanted := by
  rw [List.mem_append, List.mem_singleton]
  constructor
  · rintro (member | new)
    · exact .inr ⟨member, fun same => absent (List.mem_map.mpr ⟨row, member, same⟩)⟩
    · exact .inl new
  · rintro (new | ⟨member, _⟩)
    · exact .inr new
    · exact .inl member

theorem replaced_column {α β κ : Type} [DecidableEq κ] (key : α → κ) (column : α → β) (rows : List α) (wanted : κ)
    (fresh : α) (same : ∀ old ∈ rows, key old = wanted → column fresh = column old) :
    (rows.map fun old => if key old = wanted then fresh else old).map column = rows.map column := by
  rw [List.map_map]
  apply List.map_congr_left
  intro old member
  by_cases here : key old = wanted
  · simp only [Function.comp_apply, if_pos here, same old member here]
  · simp only [Function.comp_apply, if_neg here]

theorem map_key_filter {α κ : Type} [DecidableEq κ] (key : α → κ) (rows : List α) (dropped : κ) :
    (rows.filter (fun row => key row != dropped)).map key = (rows.map key).filter (· != dropped) := by
  rw [List.filter_map]
  rfl

theorem filter_ne_append_perm {κ : Type} [DecidableEq κ] (keys : List κ) (key : κ) (unique : keys.Nodup)
    (member : key ∈ keys) : (keys.filter (· != key) ++ [key]).Perm keys := by
  rw [← unique.erase_eq_filter]
  exact (List.perm_append_singleton key _).trans (List.perm_cons_erase member).symm

namespace Store

def Vectors (store : Store) : Prop :=
  Paired store.embeddings store.vectors store.lastEmbedding store.dimensions

def lookup? (store : Store) (id : String) : Option VectorEntry :=
  (store.embeddingOf? id).bind fun row =>
    (store.vectors.find? (·.rowId == row.rowId)).map fun vector => ⟨row, vector.vector⟩

theorem embedding_of_iff (store : Store) (valid : store.Vectors) (id : String) (row : EmbeddingRow) :
    store.embeddingOf? id = some row ↔ row ∈ store.embeddings ∧ row.embeddingId = id :=
  find_by_key EmbeddingRow.embeddingId store.embeddings valid.ids id row

theorem embedding_of_none_iff (store : Store) (id : String) :
    store.embeddingOf? id = none ↔ ∀ row ∈ store.embeddings, row.embeddingId ≠ id := by
  simp [embeddingOf?]

theorem vector_row_ids (store : Store) (valid : store.Vectors) : (store.vectors.map (·.rowId)).Nodup :=
  valid.paired.nodup_iff.mpr valid.rowIds

theorem lookup_iff (store : Store) (valid : store.Vectors) (id : String) (entry : VectorEntry) :
    store.lookup? id = some entry ↔
      entry.row ∈ store.embeddings ∧ entry.row.embeddingId = id ∧ ⟨entry.row.rowId, entry.vector⟩ ∈ store.vectors := by
  have joined (row : EmbeddingRow) (vector : VectorRow) :
      store.vectors.find? (·.rowId == row.rowId) = some vector ↔ vector ∈ store.vectors ∧ vector.rowId = row.rowId :=
    find_by_key VectorRow.rowId store.vectors (store.vector_row_ids valid) row.rowId vector
  simp only [lookup?, Option.bind_eq_some_iff, Option.map_eq_some_iff, store.embedding_of_iff valid, joined]
  constructor
  · rintro ⟨row, ⟨member, named⟩, vector, ⟨stored, rowId⟩, rfl⟩
    exact ⟨member, named, rowId ▸ stored⟩
  · rintro ⟨member, named, stored⟩
    exact ⟨entry.row, ⟨member, named⟩, _, ⟨stored, rfl⟩, rfl⟩

theorem vector_of_embedding (store : Store) (valid : store.Vectors) (row : EmbeddingRow)
    (member : row ∈ store.embeddings) : ∃ vector, ⟨row.rowId, vector⟩ ∈ store.vectors := by
  have rowId : row.rowId ∈ store.vectors.map (·.rowId) := valid.paired.mem_iff.mpr (List.mem_map_of_mem member)
  obtain ⟨vector, stored, same⟩ := List.mem_map.mp rowId
  exact ⟨vector.vector, same ▸ stored⟩

theorem lookup_none_iff (store : Store) (valid : store.Vectors) (id : String) :
    store.lookup? id = none ↔ id ∉ store.embeddings.map (·.embeddingId) := by
  constructor
  · intro absent listed
    obtain ⟨row, member, named⟩ := List.mem_map.mp listed
    obtain ⟨vector, stored⟩ := store.vector_of_embedding valid row member
    have present := (store.lookup_iff valid id ⟨row, vector⟩).mpr ⟨member, named, stored⟩
    rw [absent] at present
    cases present
  · intro unlisted
    cases present : store.lookup? id with
    | none => rfl
    | some entry =>
        obtain ⟨member, named, _⟩ := (store.lookup_iff valid id entry).mp present
        exact absurd (List.mem_map.mpr ⟨entry.row, member, named⟩) unlisted

def rowIdFor (store : Store) (id : String) : Nat :=
  ((store.embeddingOf? id).map (·.rowId)).getD (store.lastEmbedding + 1)

def writtenRow (store : Store) (id content : String) (metadata : Metadata) : EmbeddingRow :=
  ⟨store.rowIdFor id, id, metadata.filePath, content, metadata.toJson.compactText⟩

def putVector (store : Store) (id content : String) (vector : Embedding) (metadata : Metadata) : Store :=
  { store with
    embeddings := putEmbedding store.embeddings (store.writtenRow id content metadata)
    vectors := store.vectors.filter (·.rowId != store.rowIdFor id) ++ [⟨store.rowIdFor id, vector⟩]
    lastEmbedding := store.lastEmbedding + 1 }

theorem upsert_vector_ok_iff (store next : Store) (id content : String) (vector : Embedding) (metadata : Metadata) :
    store.upsertVector id content vector metadata = .ok next ↔
      vector.length = store.dimensions ∧ next = store.putVector id content vector metadata := by
  by_cases fits : vector.length = store.dimensions
  · have stored : store.upsertVector id content vector metadata = .ok (store.putVector id content vector metadata) := by
      rw [upsertVector, if_neg (fun misfit => misfit fits)]
      rfl
    rw [stored]
    exact ⟨fun same => ⟨fits, (Except.ok.inj same).symm⟩, fun ⟨_, same⟩ => same ▸ rfl⟩
  · have refused : store.upsertVector id content vector metadata =
        .error (.vectorWidth vector.length store.dimensions) := by
      rw [upsertVector, if_pos fits]
    rw [refused]
    exact ⟨(nomatch ·), fun ⟨same, _⟩ => absurd same fits⟩

theorem row_id_for_present (store : Store) (valid : store.Vectors) (row : EmbeddingRow)
    (member : row ∈ store.embeddings) : store.rowIdFor row.embeddingId = row.rowId := by
  rw [rowIdFor, (store.embedding_of_iff valid _ row).mpr ⟨member, rfl⟩]
  rfl

theorem row_id_for_absent (store : Store) (id : String) (absent : ∀ row ∈ store.embeddings, row.embeddingId ≠ id) :
    store.rowIdFor id = store.lastEmbedding + 1 := by
  rw [rowIdFor, (store.embedding_of_none_iff id).mpr absent]
  rfl

theorem row_id_for_other (store : Store) (valid : store.Vectors) (id : String) (row : EmbeddingRow)
    (member : row ∈ store.embeddings) (other : row.embeddingId ≠ id) : row.rowId ≠ store.rowIdFor id := by
  cases known : store.embeddingOf? id with
  | none =>
      rw [store.row_id_for_absent id ((store.embedding_of_none_iff id).mp known)]
      have bound := valid.bounded row member
      omega
  | some own =>
      obtain ⟨ownMember, named⟩ := (store.embedding_of_iff valid id own).mp known
      intro same
      rw [← named, store.row_id_for_present valid own ownMember] at same
      have equal := List.inj_on_of_nodup_map valid.rowIds member ownMember same
      exact other (equal ▸ named)

theorem put_embedding_replaces (rows : List EmbeddingRow) (fresh : EmbeddingRow)
    (present : fresh.embeddingId ∈ rows.map (·.embeddingId)) :
    putEmbedding rows fresh = rows.map fun old => if old.embeddingId = fresh.embeddingId then fresh else old := by
  obtain ⟨row, member, named⟩ := List.mem_map.mp present
  rw [putEmbedding, if_pos (List.any_eq_true.mpr ⟨row, member, by simpa using named⟩)]

theorem put_embedding_appends (rows : List EmbeddingRow) (fresh : EmbeddingRow)
    (absent : fresh.embeddingId ∉ rows.map (·.embeddingId)) : putEmbedding rows fresh = rows ++ [fresh] := by
  have unknown : ¬ rows.any (·.embeddingId == fresh.embeddingId) = true := by
    intro known
    obtain ⟨row, member, named⟩ := List.any_eq_true.mp known
    exact absent (List.mem_map.mpr ⟨row, member, by simpa using named⟩)
  rw [putEmbedding, if_neg unknown]

theorem put_embedding_mem (rows : List EmbeddingRow) (fresh row : EmbeddingRow) :
    row ∈ putEmbedding rows fresh ↔ row = fresh ∨ row ∈ rows ∧ row.embeddingId ≠ fresh.embeddingId := by
  by_cases present : fresh.embeddingId ∈ rows.map (·.embeddingId)
  · rw [put_embedding_replaces rows fresh present]
    exact replaced_mem_iff EmbeddingRow.embeddingId rows _ fresh present row
  · rw [put_embedding_appends rows fresh present]
    exact appended_mem_iff EmbeddingRow.embeddingId rows _ fresh present row

theorem put_embedding_ids (rows : List EmbeddingRow) (fresh : EmbeddingRow) (id : String) :
    id ∈ (putEmbedding rows fresh).map (·.embeddingId) ↔ id = fresh.embeddingId ∨ id ∈ rows.map (·.embeddingId) := by
  simp only [List.mem_map, put_embedding_mem]
  constructor
  · rintro ⟨row, rfl | ⟨member, _⟩, rfl⟩
    · exact .inl rfl
    · exact .inr ⟨row, member, rfl⟩
  · rintro (rfl | ⟨row, member, rfl⟩)
    · exact ⟨fresh, .inl rfl, rfl⟩
    · by_cases same : row.embeddingId = fresh.embeddingId
      · exact ⟨fresh, .inl rfl, same.symm⟩
      · exact ⟨row, .inr ⟨member, same⟩, rfl⟩

theorem put_embedding_keeps_column {β : Type} (column : EmbeddingRow → β) (rows : List EmbeddingRow)
    (fresh : EmbeddingRow) (present : fresh.embeddingId ∈ rows.map (·.embeddingId))
    (same : ∀ old ∈ rows, old.embeddingId = fresh.embeddingId → column fresh = column old) :
    (putEmbedding rows fresh).map column = rows.map column := by
  rw [put_embedding_replaces rows fresh present]
  exact replaced_column EmbeddingRow.embeddingId column rows _ fresh same

theorem put_vector_row_ids (store : Store) (id content : String) (vector : Embedding) (metadata : Metadata) :
    (store.putVector id content vector metadata).vectors.map (·.rowId) =
      (store.vectors.map (·.rowId)).filter (· != store.rowIdFor id) ++ [store.rowIdFor id] := by
  rw [putVector, List.map_append, map_key_filter VectorRow.rowId]
  rfl

theorem put_vector_widths (store : Store) (valid : store.Vectors) (id content : String) (vector : Embedding)
    (metadata : Metadata) (fits : vector.length = store.dimensions) (row : VectorRow)
    (member : row ∈ (store.putVector id content vector metadata).vectors) :
    row.vector.length = store.dimensions := by
  rcases List.mem_append.mp member with old | new
  · exact valid.widths row (List.mem_of_mem_filter old)
  · rw [List.mem_singleton.mp new]
    exact fits

theorem row_id_for_unused (store : Store) (valid : store.Vectors) (id : String)
    (absent : id ∉ store.embeddings.map (·.embeddingId)) : store.rowIdFor id ∉ store.embeddings.map (·.rowId) := by
  intro used
  obtain ⟨row, member, same⟩ := List.mem_map.mp used
  exact store.row_id_for_other valid id row member (fun named => absent (List.mem_map.mpr ⟨row, member, named⟩)) same

theorem row_id_for_bound (store : Store) (valid : store.Vectors) (id : String) :
    store.rowIdFor id ≤ store.lastEmbedding + 1 := by
  cases known : store.embeddingOf? id with
  | none => exact Nat.le_of_eq (store.row_id_for_absent id ((store.embedding_of_none_iff id).mp known))
  | some own =>
      obtain ⟨member, named⟩ := (store.embedding_of_iff valid id own).mp known
      rw [← named, store.row_id_for_present valid own member]
      exact Nat.le_succ_of_le (valid.bounded own member)

-- A known identifier keeps its row, so both columns stay as they are and only its vector moves to
-- the end; a new one is appended to both tables under an unused number.
theorem put_vector_valid (store : Store) (valid : store.Vectors) (id content : String) (vector : Embedding)
    (metadata : Metadata) (fits : vector.length = store.dimensions) :
    (store.putVector id content vector metadata).Vectors := by
  have bounded : ∀ row ∈ (store.putVector id content vector metadata).embeddings, row.rowId ≤ store.lastEmbedding + 1 := by
    intro row member
    rcases (put_embedding_mem _ _ row).mp member with rfl | ⟨old, _⟩
    · exact store.row_id_for_bound valid id
    · exact Nat.le_succ_of_le (valid.bounded row old)
  by_cases present : id ∈ store.embeddings.map (·.embeddingId)
  · obtain ⟨own, ownMember, named⟩ := List.mem_map.mp present
    have ids := put_embedding_keeps_column (·.embeddingId) store.embeddings (store.writtenRow id content metadata)
      present fun _ _ same => same.symm
    have rowIds := put_embedding_keeps_column (·.rowId) store.embeddings (store.writtenRow id content metadata)
      present fun old member same => by
        rw [← store.row_id_for_present valid old member, same]
        rfl
    have member : store.rowIdFor id ∈ store.vectors.map (·.rowId) := by
      rw [← named, store.row_id_for_present valid own ownMember]
      exact valid.paired.mem_iff.mpr (List.mem_map_of_mem ownMember)
    refine ⟨ids ▸ valid.ids, rowIds ▸ valid.rowIds, ?_, bounded, store.put_vector_widths valid id content vector metadata fits⟩
    rw [put_vector_row_ids]
    exact ((filter_ne_append_perm _ _ (store.vector_row_ids valid) member).trans valid.paired).trans
      (List.Perm.of_eq rowIds.symm)
  · have unused := store.row_id_for_unused valid id present
    have appended := put_embedding_appends store.embeddings (store.writtenRow id content metadata) present
    have ids : (store.putVector id content vector metadata).embeddings.map (·.embeddingId) =
        store.embeddings.map (·.embeddingId) ++ [id] := by rw [putVector, appended, List.map_append]; rfl
    have rowIds : (store.putVector id content vector metadata).embeddings.map (·.rowId) =
        store.embeddings.map (·.rowId) ++ [store.rowIdFor id] := by rw [putVector, appended, List.map_append]; rfl
    have kept : (store.vectors.map (·.rowId)).filter (· != store.rowIdFor id) = store.vectors.map (·.rowId) :=
      List.filter_eq_self.mpr fun other member => by
        have different : other ≠ store.rowIdFor id := fun same => unused (valid.paired.mem_iff.mp (same ▸ member))
        simpa using different
    refine ⟨?_, ?_, ?_, bounded, store.put_vector_widths valid id content vector metadata fits⟩
    · rw [ids]
      exact valid.ids.append (List.nodup_singleton id) (List.disjoint_singleton.mpr present)
    · rw [rowIds]
      exact valid.rowIds.append (List.nodup_singleton _) (List.disjoint_singleton.mpr unused)
    · rw [put_vector_row_ids, kept, rowIds]
      exact valid.paired.append_right [store.rowIdFor id]

theorem put_vector_lookup (store : Store) (valid : store.Vectors) (id content : String) (vector : Embedding)
    (metadata : Metadata) (fits : vector.length = store.dimensions) :
    (store.putVector id content vector metadata).lookup? id = some ⟨store.writtenRow id content metadata, vector⟩ := by
  apply (lookup_iff _ (store.put_vector_valid valid id content vector metadata fits) id _).mpr
  exact ⟨(put_embedding_mem _ _ _).mpr (.inl rfl), rfl, List.mem_append_right _ (List.mem_singleton.mpr rfl)⟩

theorem put_vector_lookup_other (store : Store) (valid : store.Vectors) (id content : String) (vector : Embedding)
    (metadata : Metadata) (fits : vector.length = store.dimensions) (other : String) (different : other ≠ id) :
    (store.putVector id content vector metadata).lookup? other = store.lookup? other := by
  have after := store.put_vector_valid valid id content vector metadata fits
  apply Option.ext
  intro entry
  rw [lookup_iff _ after, lookup_iff _ valid]
  have rows : entry.row.embeddingId = other →
      (entry.row ∈ (store.putVector id content vector metadata).embeddings ↔ entry.row ∈ store.embeddings) := by
    rintro rfl
    refine (put_embedding_mem _ _ _).trans ⟨?_, fun member => .inr ⟨member, different⟩⟩
    rintro (same | ⟨member, _⟩)
    · exact absurd (congrArg EmbeddingRow.embeddingId same) different
    · exact member
  have vectors : entry.row ∈ store.embeddings → entry.row.embeddingId = other →
      (⟨entry.row.rowId, entry.vector⟩ ∈ (store.putVector id content vector metadata).vectors ↔
        ⟨entry.row.rowId, entry.vector⟩ ∈ store.vectors) := by
    intro member named
    have apart := store.row_id_for_other valid id entry.row member (named ▸ different)
    simp [putVector, apart]
  constructor
  · rintro ⟨member, named, stored⟩
    have old := (rows named).mp member
    exact ⟨old, named, (vectors old named).mp stored⟩
  · rintro ⟨member, named, stored⟩
    exact ⟨(rows named).mpr member, named, (vectors member named).mpr stored⟩

theorem erased_row_id_iff (store : Store) (valid : store.Vectors) (id : String) (row : EmbeddingRow)
    (member : row ∈ store.embeddings) :
    row.rowId ∈ (store.embeddings.filter (·.embeddingId == id)).map (·.rowId) ↔ row.embeddingId = id := by
  constructor
  · intro listed
    obtain ⟨own, kept, same⟩ := List.mem_map.mp listed
    obtain ⟨ownMember, named⟩ := List.mem_filter.mp kept
    rw [← List.inj_on_of_nodup_map valid.rowIds ownMember member same]
    simpa using named
  · intro named
    exact List.mem_map.mpr ⟨row, List.mem_filter.mpr ⟨member, by simpa using named⟩, rfl⟩

theorem erase_vector_valid (store : Store) (valid : store.Vectors) (id : String) : (store.eraseVector id).Vectors := by
  refine ⟨?_, ?_, ?_, fun row member => valid.bounded row (List.mem_of_mem_filter member),
    fun row member => valid.widths row (List.mem_of_mem_filter member)⟩
  · exact valid.ids.sublist (List.filter_sublist.map _)
  · exact valid.rowIds.sublist (List.filter_sublist.map _)
  · let erased := (store.embeddings.filter (·.embeddingId == id)).map (·.rowId)
    have vectors : (store.eraseVector id).vectors.map (·.rowId) =
        (store.vectors.map (·.rowId)).filter fun rowId => !erased.contains rowId := by
      rw [List.filter_map]
      rfl
    have embeddings : (store.eraseVector id).embeddings.map (·.rowId) =
        (store.embeddings.map (·.rowId)).filter fun rowId => !erased.contains rowId := by
      rw [List.filter_map]
      refine congrArg (List.map EmbeddingRow.rowId) (List.filter_congr fun row member => ?_)
      have same := store.erased_row_id_iff valid id row member
      by_cases named : row.embeddingId = id
      · have listed : row.rowId ∈ erased := same.mpr named
        simp [named, listed]
      · have unlisted : row.rowId ∉ erased := fun listed => named (same.mp listed)
        simp [named, unlisted]
    rw [vectors, embeddings]
    exact valid.paired.filter _

theorem erase_vector_lookup (store : Store) (valid : store.Vectors) (id wanted : String) :
    (store.eraseVector id).lookup? wanted = if wanted = id then none else store.lookup? wanted := by
  have after := store.erase_vector_valid valid id
  by_cases same : wanted = id
  · rw [if_pos same, lookup_none_iff _ after]
    simp [eraseVector, same]
  · rw [if_neg same]
    apply Option.ext
    intro entry
    rw [lookup_iff _ after, lookup_iff _ valid]
    constructor
    · rintro ⟨member, named, stored⟩
      exact ⟨List.mem_of_mem_filter member, named, List.mem_of_mem_filter stored⟩
    · rintro ⟨member, named, stored⟩
      have other : entry.row.embeddingId ≠ id := named ▸ same
      have apart := mt (store.erased_row_id_iff valid id entry.row member).mp other
      exact ⟨List.mem_filter.mpr ⟨member, by simpa using other⟩, named,
        List.mem_filter.mpr ⟨stored, by simpa using apart⟩⟩

theorem delete_vectors_valid (store : Store) (valid : store.Vectors) (ids : List String) :
    (store.deleteVectors ids).2.Vectors := by
  induction ids generalizing store with
  | nil => exact valid
  | cons id rest ih => exact ih (store.eraseVector id) (store.erase_vector_valid valid id)

theorem delete_vectors_lookup (store : Store) (valid : store.Vectors) (ids : List String) (wanted : String) :
    (store.deleteVectors ids).2.lookup? wanted = if wanted ∈ ids then none else store.lookup? wanted := by
  induction ids generalizing store with
  | nil => rfl
  | cons id rest ih =>
      have later := ih (store.eraseVector id) (store.erase_vector_valid valid id)
      rw [deleteVectors, later, store.erase_vector_lookup valid]
      by_cases listed : wanted ∈ rest
      · rw [if_pos listed, if_pos (List.mem_cons_of_mem id listed)]
      · by_cases same : wanted = id
        · rw [if_neg listed, if_pos same, if_pos (same ▸ List.mem_cons_self)]
        · rw [if_neg listed, if_neg same, if_neg (by simp [same, listed])]

theorem delete_vectors_embeddings (store : Store) (ids : List String) :
    (store.deleteVectors ids).2.embeddings = store.embeddings.filter fun row => row.embeddingId ∉ ids := by
  induction ids generalizing store with
  | nil => simp [deleteVectors]
  | cons id rest ih =>
      rw [deleteVectors, ih (store.eraseVector id), eraseVector, List.filter_filter]
      refine List.filter_congr fun row _ => ?_
      by_cases same : row.embeddingId = id <;> simp [same]

structure SameFrame (before after : Store) : Prop where
  files : after.files = before.files
  feedback : after.feedback = before.feedback
  lastFile : after.lastFile = before.lastFile
  lastFeedback : after.lastFeedback = before.lastFeedback
  declaration : after.declaration = before.declaration
  dimensions : after.dimensions = before.dimensions

theorem same_frame_trans (a b c : Store) (first : SameFrame a b) (second : SameFrame b c) : SameFrame a c :=
  ⟨second.files.trans first.files, second.feedback.trans first.feedback, second.lastFile.trans first.lastFile,
    second.lastFeedback.trans first.lastFeedback, second.declaration.trans first.declaration,
    second.dimensions.trans first.dimensions⟩

theorem delete_vectors_last (store : Store) (ids : List String) :
    (store.deleteVectors ids).2.lastEmbedding = store.lastEmbedding := by
  induction ids generalizing store with
  | nil => rfl
  | cons id rest ih => exact ih (store.eraseVector id)

theorem delete_vectors_frame (store : Store) (ids : List String) :
    SameFrame store (store.deleteVectors ids).2 ∧ (store.deleteVectors ids).2.chunks = store.chunks := by
  induction ids generalizing store with
  | nil => exact ⟨⟨rfl, rfl, rfl, rfl, rfl, rfl⟩, rfl⟩
  | cons id rest ih =>
      obtain ⟨frame, chunks⟩ := ih (store.eraseVector id)
      exact ⟨same_frame_trans store (store.eraseVector id) _ ⟨rfl, rfl, rfl, rfl, rfl, rfl⟩ frame, chunks⟩

end Store
end CodeIndex
