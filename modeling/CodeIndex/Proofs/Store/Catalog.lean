import Mathlib.Data.Finset.Card
import CodeIndex.Proofs.Metadata

set_option autoImplicit false

namespace CodeIndex

def Store.Written (store : Store) : Prop :=
  ∀ row ∈ store.embeddings, ∃ metadata : Metadata,
    row.filePath = metadata.filePath ∧ row.metadata = metadata.toJson.compactText

namespace Store

theorem put_vector_written (store : Store) (written : store.Written) (id content : String) (vector : Embedding)
    (metadata : Metadata) : (store.putVector id content vector metadata).Written := by
  intro row member
  rcases (put_embedding_mem _ _ row).mp member with rfl | ⟨old, _⟩
  · exact ⟨metadata, rfl, rfl⟩
  · exact written row old

theorem delete_vectors_written (store : Store) (written : store.Written) (ids : List String) :
    (store.deleteVectors ids).2.Written := by
  intro row member
  rw [delete_vectors_embeddings] at member
  exact written row (List.mem_of_mem_filter member)

theorem put_chunks_written (fileId : Int) (store : Store) (written : store.Written) (chunks : List NewChunk) :
    (putChunks fileId store chunks).Written := by
  induction chunks generalizing store with
  | nil => exact written
  | cons chunk rest ih =>
      exact ih (putChunk fileId store chunk)
        (store.put_vector_written written chunk.id.text chunk.content chunk.vector chunk.metadata)

theorem drop_chunks_written (store : Store) (written : store.Written) (fileId : Int) :
    (store.dropChunks fileId).2.Written :=
  store.delete_vectors_written written ((store.rowsOf fileId).map ChunkRow.embeddingId)

theorem delete_file_written (store : Store) (written : store.Written) (path : String) :
    (store.deleteFile path).2.Written := by
  obtain ⟨_, same⟩ | ⟨file, _, same⟩ := store.delete_file_cases path
  · rw [same]
    exact written
  · rw [same]
    exact store.drop_chunks_written written file.id

end Store

theorem Session.step_written (session : Session) (kept : WellKept session.store) (written : session.store.Written)
    (operation : Operation) : (session.step operation).store.Written := by
  apply session.step_store operation Store.Written written
  · intro path language
    rw [Store.upsert_file_rest]
    exact written
  · intro fileId chunks removed after replaced
    obtain ⟨_, _, rfl⟩ := (session.store.replace_chunks_ok_iff after fileId chunks removed).mp replaced
    exact Store.put_chunks_written fileId _ (session.store.drop_chunks_written written fileId) chunks
  · exact session.store.delete_file_written written
  · exact fun _ member => nomatch member
  · intro width after rebuilt
    obtain ⟨_, rfl⟩ := (session.store.rebuild_ok_iff after width).mp rebuilt
    exact fun _ member => nomatch member
  · exact fun _ _ _ => written
  · intro requested after opened
    rw [session.store.reopen_same kept requested] at opened
    exact Except.ok.inj opened ▸ written
  · intro _ id content vector metadata after upserted
    obtain ⟨_, rfl⟩ := (session.store.upsert_vector_ok_iff after id content vector metadata).mp upserted
    exact session.store.put_vector_written written id content vector metadata
  · exact fun _ => session.store.delete_vectors_written written

theorem Session.run_written (session : Session) (kept : WellKept session.store) (written : session.store.Written)
    (operations : List Operation) : (session.run operations).store.Written := by
  induction operations generalizing session with
  | nil => exact written
  | cons operation rest ih =>
      exact ih (session.step operation) (session.step_kept kept operation) (session.step_written kept written operation)

theorem reachable_written (store : Store) (reachable : Reachable store) : store.Written := by
  obtain ⟨requested, opened, operations, fresh, rfl⟩ := reachable
  have kept := (Store.opened_consistent requested opened fresh).kept
  apply Session.run_written ⟨opened, []⟩ kept
  obtain ⟨_, _, same⟩ := (bind_ok_iff (Width.check requested) _ opened).mp fresh
  cases same
  exact fun _ member => nomatch member

structure Item where
  content : String
  vector : Embedding
  metadata : Metadata
deriving DecidableEq

abbrev Catalog := String → Option Item

inductive VectorChange where
  | upsert (id content : String) (vector : Embedding) (metadata : Metadata)
  | delete (ids : List String)

inductive VectorReply where
  | stored
  | refused (error : StoreError)
  | removed (count : Nat)
deriving DecidableEq

def VectorChange.deletes : VectorChange → String → Prop
  | .upsert .., _ => False
  | .delete ids, id => id ∈ ids

def Catalog.change (width : Nat) (catalog : Catalog) : VectorChange → VectorReply × Catalog
  | .upsert id content vector metadata =>
      if vector.length = width then (.stored, Function.update catalog id (some ⟨content, vector, metadata⟩))
      else (.refused (.vectorWidth vector.length width), catalog)
  | .delete ids =>
      (.removed (ids.toFinset.filter fun id => (catalog id).isSome).card, fun id => if id ∈ ids then none else catalog id)

def history {σ : Type} (change : σ → VectorChange → VectorReply × σ) (state : σ) :
    List VectorChange → List VectorReply × σ
  | [] => ([], state)
  | first :: rest =>
      let later := history change (change state first).2 rest
      ((change state first).1 :: later.1, later.2)

theorem history_append {σ : Type} (change : σ → VectorChange → VectorReply × σ) (state : σ)
    (first rest : List VectorChange) :
    (history change state (first ++ rest)).2 = (history change (history change state first).2 rest).2 := by
  induction first generalizing state with
  | nil => rfl
  | cons head tail ih => exact ih (change state head).2

namespace Store

def item? (store : Store) : Catalog := fun id =>
  (store.lookup? id).bind fun entry =>
    ((Json.read? entry.row.metadata).bind Metadata.ofJson?).map fun metadata =>
      ⟨entry.row.content, entry.vector, metadata⟩

def change (store : Store) : VectorChange → VectorReply × Store
  | .upsert id content vector metadata =>
      match store.upsertVector id content vector metadata with
      | .ok next => (.stored, next)
      | .error error => (.refused error, store)
  | .delete ids =>
      let (count, next) := store.deleteVectors ids
      (.removed count, next)

theorem change_fitting (store : Store) (id content : String) (vector : Embedding) (metadata : Metadata)
    (fits : vector.length = store.dimensions) :
    store.change (.upsert id content vector metadata) = (.stored, store.putVector id content vector metadata) := by
  rw [change, (store.upsert_vector_ok_iff _ id content vector metadata).mpr ⟨fits, rfl⟩]

theorem change_misfit (store : Store) (id content : String) (vector : Embedding) (metadata : Metadata)
    (misfit : vector.length ≠ store.dimensions) :
    store.change (.upsert id content vector metadata) =
      (.refused (.vectorWidth vector.length store.dimensions), store) := by
  rw [change, upsertVector, if_pos misfit]

theorem item_of_written (store : Store) (id : String) (entry : VectorEntry) (metadata : Metadata)
    (found : store.lookup? id = some entry) (written : entry.row.metadata = metadata.toJson.compactText) :
    store.item? id = some ⟨entry.row.content, entry.vector, metadata⟩ := by
  rw [item?, found, Option.bind_some, written, Metadata.read_written]
  rfl

theorem item_congr (first second : Store) (id : String) (same : first.lookup? id = second.lookup? id) :
    first.item? id = second.item? id := by
  rw [item?, item?, same]

section Refinement

variable (store : Store) (valid : store.Vectors)

include valid

theorem item_some_iff (written : store.Written) (id : String) :
    (store.item? id).isSome = true ↔ id ∈ store.embeddings.map (·.embeddingId) := by
  cases found : store.lookup? id with
  | none =>
      have absent := (store.lookup_none_iff valid id).mp found
      rw [item?, found, Option.bind_none]
      exact ⟨(nomatch ·), fun listed => absurd listed absent⟩
  | some entry =>
      obtain ⟨member, named, _⟩ := (store.lookup_iff valid id entry).mp found
      obtain ⟨metadata, _, text⟩ := written entry.row member
      rw [store.item_of_written id entry metadata found text]
      exact ⟨fun _ => List.mem_map.mpr ⟨entry.row, member, named⟩, fun _ => rfl⟩

theorem put_vector_item (id content : String) (vector : Embedding) (metadata : Metadata)
    (fits : vector.length = store.dimensions) : (store.putVector id content vector metadata).item? =
      Function.update store.item? id (some ⟨content, vector, metadata⟩) := by
  funext wanted
  by_cases same : wanted = id
  · rw [same, Function.update_self]
    exact item_of_written _ id _ metadata (store.put_vector_lookup valid id content vector metadata fits) rfl
  · rw [Function.update_of_ne same]
    exact item_congr _ _ wanted (store.put_vector_lookup_other valid id content vector metadata fits wanted same)

theorem delete_vectors_item (ids : List String) :
    (store.deleteVectors ids).2.item? = fun id => if id ∈ ids then none else store.item? id := by
  funext wanted
  have lookups := store.delete_vectors_lookup valid ids wanted
  by_cases listed : wanted ∈ ids
  · rw [if_pos listed] at lookups ⊢
    rw [item?, lookups, Option.bind_none]
  · rw [if_neg listed] at lookups ⊢
    exact item_congr _ _ wanted lookups

theorem rows_named (id : String) : (store.embeddings.filter (·.embeddingId == id)).length =
    if id ∈ store.embeddings.map (·.embeddingId) then 1 else 0 := by
  by_cases present : id ∈ store.embeddings.map (·.embeddingId)
  · obtain ⟨row, member, rfl⟩ := List.mem_map.mp present
    rw [if_pos present, filter_by_key EmbeddingRow.embeddingId store.embeddings valid.ids row member]
    rfl
  · have none : store.embeddings.filter (·.embeddingId == id) = [] := by
      apply List.filter_eq_nil_iff.mpr
      intro row member named
      exact present (List.mem_map.mpr ⟨row, member, by simpa using named⟩)
    rw [if_neg present, none]
    rfl

-- An identifier that is listed again is not there any more, so it counts once.
theorem delete_vectors_count (ids : List String) : (store.deleteVectors ids).1 =
    (ids.toFinset.filter fun id => id ∈ store.embeddings.map (·.embeddingId)).card := by
  induction ids generalizing store with
  | nil => rfl
  | cons id rest ih =>
      let listed := (id :: rest).toFinset.filter fun other => other ∈ store.embeddings.map (·.embeddingId)
      have later := ih (store.eraseVector id) (store.erase_vector_valid valid id)
      have left : (rest.toFinset.filter fun other => other ∈ (store.eraseVector id).embeddings.map (·.embeddingId)) =
          listed.erase id := by
        ext other
        simp only [listed, List.toFinset_cons, Finset.mem_filter, Finset.mem_erase, Finset.mem_insert, eraseVector,
          map_key_filter EmbeddingRow.embeddingId, List.mem_filter, bne_iff_ne]
        tauto
      rw [deleteVectors, store.rows_named valid]
      simp only [later, left]
      by_cases present : id ∈ store.embeddings.map (·.embeddingId)
      · have member : id ∈ listed := Finset.mem_filter.mpr ⟨by simp, present⟩
        rw [if_pos present, Nat.add_comm, Finset.card_erase_add_one member]
      · have absent : id ∉ listed := fun member => present (Finset.mem_filter.mp member).2
        rw [if_neg present, Nat.zero_add, Finset.erase_eq_of_notMem absent]

theorem change_refines (written : store.Written) (change : VectorChange) :
    store.item?.change store.dimensions change = ((store.change change).1, (store.change change).2.item?) := by
  cases change with
  | upsert id content vector metadata =>
      by_cases fits : vector.length = store.dimensions
      · rw [Catalog.change, if_pos fits, store.change_fitting id content vector metadata fits,
          store.put_vector_item valid id content vector metadata fits]
      · rw [Catalog.change, if_neg fits, store.change_misfit id content vector metadata fits]
  | delete ids =>
      have present : (ids.toFinset.filter fun id => (store.item? id).isSome) =
          ids.toFinset.filter fun id => id ∈ store.embeddings.map (·.embeddingId) :=
        Finset.filter_congr fun id _ => store.item_some_iff valid written id
      rw [Catalog.change, present, ← store.delete_vectors_count valid, ← store.delete_vectors_item valid]
      rfl

end Refinement

-- What was given out before is not given out again: a later row has an earlier number only if it is
-- the row of the same identifier.
structure Follows (early late : Store) : Prop where
  last : early.lastEmbedding ≤ late.lastEmbedding
  origin : ∀ row ∈ late.embeddings, row.rowId ≤ early.lastEmbedding →
    ∃ old ∈ early.embeddings, old.rowId = row.rowId ∧ old.embeddingId = row.embeddingId

theorem follows_refl (store : Store) : Follows store store :=
  ⟨Nat.le_refl _, fun row member _ => ⟨row, member, rfl, rfl⟩⟩

theorem follows_trans (first second third : Store) (before : Follows first second) (after : Follows second third) :
    Follows first third := by
  refine ⟨Nat.le_trans before.last after.last, fun row member early => ?_⟩
  obtain ⟨middle, middleMember, number, named⟩ := after.origin row member (Nat.le_trans early before.last)
  obtain ⟨old, oldMember, oldNumber, oldNamed⟩ := before.origin middle middleMember (number ▸ early)
  exact ⟨old, oldMember, oldNumber.trans number, oldNamed.trans named⟩

theorem follows_names (early late : Store) (valid : early.Vectors) (follows : Follows early late)
    (row later : EmbeddingRow) (member : row ∈ early.embeddings) (laterMember : later ∈ late.embeddings)
    (same : row.rowId = later.rowId) : row.embeddingId = later.embeddingId := by
  obtain ⟨old, oldMember, number, named⟩ := follows.origin later laterMember (same ▸ valid.bounded row member)
  rw [List.inj_on_of_nodup_map valid.rowIds member oldMember (same.trans number.symm)]
  exact named

theorem put_vector_follows (store : Store) (valid : store.Vectors) (id content : String) (vector : Embedding)
    (metadata : Metadata) : Follows store (store.putVector id content vector metadata) := by
  refine ⟨Nat.le_succ _, fun row member early => ?_⟩
  rcases (put_embedding_mem _ _ row).mp member with rfl | ⟨old, _⟩
  · cases known : store.embeddingOf? id with
    | none =>
        have beyond := store.row_id_for_absent id ((store.embedding_of_none_iff id).mp known)
        change store.rowIdFor id ≤ store.lastEmbedding at early
        omega
    | some own =>
        obtain ⟨ownMember, named⟩ := (store.embedding_of_iff valid id own).mp known
        exact ⟨own, ownMember, named ▸ (store.row_id_for_present valid own ownMember).symm, named⟩
  · exact ⟨row, old, rfl, rfl⟩

theorem change_follows (store : Store) (valid : store.Vectors) (change : VectorChange) :
    Follows store (store.change change).2 := by
  cases change with
  | upsert id content vector metadata =>
      by_cases fits : vector.length = store.dimensions
      · rw [store.change_fitting id content vector metadata fits]
        exact store.put_vector_follows valid id content vector metadata
      · rw [store.change_misfit id content vector metadata fits]
        exact store.follows_refl
  | delete ids =>
      refine ⟨Nat.le_of_eq (store.delete_vectors_last ids).symm, fun row member _ => ⟨row, ?_, rfl, rfl⟩⟩
      change row ∈ (store.deleteVectors ids).2.embeddings at member
      rw [delete_vectors_embeddings] at member
      exact List.mem_of_mem_filter member

theorem change_keeps_number (store : Store) (valid : store.Vectors) (change : VectorChange) (row : EmbeddingRow)
    (member : row ∈ store.embeddings) (stays : ¬ change.deletes row.embeddingId) :
    ∃ later ∈ (store.change change).2.embeddings, later.embeddingId = row.embeddingId ∧ later.rowId = row.rowId := by
  cases change with
  | upsert id content vector metadata =>
      by_cases fits : vector.length = store.dimensions
      · rw [store.change_fitting id content vector metadata fits]
        by_cases same : row.embeddingId = id
        · refine ⟨store.writtenRow id content metadata, (put_embedding_mem _ _ _).mpr (.inl rfl), same.symm, ?_⟩
          rw [← store.row_id_for_present valid row member, same]
          rfl
        · exact ⟨row, (put_embedding_mem _ _ _).mpr (.inr ⟨member, same⟩), rfl, rfl⟩
      · rw [store.change_misfit id content vector metadata fits]
        exact ⟨row, member, rfl, rfl⟩
  | delete ids =>
      refine ⟨row, ?_, rfl, rfl⟩
      change row ∈ (store.deleteVectors ids).2.embeddings
      rw [delete_vectors_embeddings]
      exact List.mem_filter.mpr ⟨member, decide_eq_true stays⟩

structure Legible (store : Store) : Prop where
  valid : store.Vectors
  written : store.Written

theorem change_legible (store : Store) (legible : Legible store) (change : VectorChange) :
    Legible (store.change change).2 ∧ (store.change change).2.dimensions = store.dimensions := by
  cases change with
  | upsert id content vector metadata =>
      by_cases fits : vector.length = store.dimensions
      · rw [store.change_fitting id content vector metadata fits]
        exact ⟨⟨store.put_vector_valid legible.valid id content vector metadata fits,
          store.put_vector_written legible.written id content vector metadata⟩, rfl⟩
      · rw [store.change_misfit id content vector metadata fits]
        exact ⟨legible, rfl⟩
  | delete ids =>
      exact ⟨⟨store.delete_vectors_valid legible.valid ids, store.delete_vectors_written legible.written ids⟩,
        (store.delete_vectors_frame ids).1.dimensions⟩

theorem history_legible (store : Store) (legible : Legible store) (changes : List VectorChange) :
    Legible (history change store changes).2 := by
  induction changes generalizing store with
  | nil => exact legible
  | cons first rest ih => exact ih (store.change first).2 (store.change_legible legible first).1

theorem history_refines (store : Store) (legible : Legible store) (changes : List VectorChange) :
    history (Catalog.change store.dimensions) store.item? changes =
      ((history change store changes).1, (history change store changes).2.item?) := by
  induction changes generalizing store with
  | nil => rfl
  | cons first rest ih =>
      obtain ⟨nextLegible, width⟩ := store.change_legible legible first
      have later := ih (store.change first).2 nextLegible
      rw [width] at later
      rw [history, store.change_refines legible.valid legible.written first]
      simp only [later]
      rfl

theorem history_follows (store : Store) (legible : Legible store) (changes : List VectorChange) :
    Follows store (history change store changes).2 := by
  induction changes generalizing store with
  | nil => exact store.follows_refl
  | cons first rest ih =>
      exact follows_trans _ _ _ (store.change_follows legible.valid first) (ih _ (store.change_legible legible first).1)

theorem history_keeps_number (store : Store) (legible : Legible store) (changes : List VectorChange) (row : EmbeddingRow)
    (member : row ∈ store.embeddings) (stays : ∀ change ∈ changes, ¬ change.deletes row.embeddingId) :
    ∃ later ∈ (history change store changes).2.embeddings,
      later.embeddingId = row.embeddingId ∧ later.rowId = row.rowId := by
  induction changes generalizing store row with
  | nil => exact ⟨row, member, rfl, rfl⟩
  | cons first rest ih =>
      obtain ⟨next, nextMember, named, number⟩ :=
        store.change_keeps_number legible.valid first row member (stays first List.mem_cons_self)
      obtain ⟨later, laterMember, laterNamed, laterNumber⟩ := ih _ (store.change_legible legible first).1 next nextMember
        fun change listed => named ▸ stays change (List.mem_cons_of_mem _ listed)
      exact ⟨later, laterMember, laterNamed.trans named, laterNumber.trans number⟩

end Store

theorem reachable_legible (store : Store) (reachable : Reachable store) : store.Legible :=
  ⟨(reachable_kept store reachable).vectors, reachable_written store reachable⟩

theorem vector_tables_refine_map (store : Store) (reachable : Reachable store) (changes : List VectorChange) :
    (history (Catalog.change store.dimensions) store.item? changes).1 = (history Store.change store changes).1 ∧
    (history (Catalog.change store.dimensions) store.item? changes).2 = (history Store.change store changes).2.item? ∧
    (∀ id, ((history Store.change store changes).2.item? id).isSome ↔
      id ∈ (history Store.change store changes).2.embeddings.map (·.embeddingId)) ∧
    ((history Store.change store changes).2.embeddings.map (·.embeddingId)).Nodup ∧
    ((history Store.change store changes).2.embeddings.map (·.rowId)).Nodup ∧
    ((history Store.change store changes).2.vectors.map (·.rowId)).Perm
      ((history Store.change store changes).2.embeddings.map (·.rowId)) ∧
    ∀ first rest, changes = first ++ rest → ∀ row ∈ (history Store.change store first).2.embeddings,
      ((∀ change ∈ rest, ¬ change.deletes row.embeddingId) →
        ∃ later ∈ (history Store.change store changes).2.embeddings,
          later.embeddingId = row.embeddingId ∧ later.rowId = row.rowId) ∧
      ∀ later ∈ (history Store.change store changes).2.embeddings, row.rowId = later.rowId →
        row.embeddingId = later.embeddingId := by
  have start := reachable_legible store reachable
  have refines := store.history_refines start changes
  have legible := store.history_legible start changes
  refine ⟨congrArg Prod.fst refines, congrArg Prod.snd refines,
    Store.item_some_iff _ legible.valid legible.written, legible.valid.ids, legible.valid.rowIds, legible.valid.paired, ?_⟩
  rintro first rest rfl row member
  have early := store.history_legible start first
  rw [history_append]
  exact ⟨Store.history_keeps_number _ early rest row member,
    fun later laterMember => Store.follows_names _ _ early.valid (Store.history_follows _ early rest) row later member laterMember⟩

def tagged (line : UInt64) : Metadata := ⟨"a.py", "python", .function, "f", none, line, line⟩

def reinsertion : List VectorChange :=
  [.upsert "a" "old" [1] (tagged 0), .upsert "b" "" [1] (tagged 1), .upsert "a" "new" [0] (tagged 2), .upsert "b" "" [1, 1] (tagged 3),
    .delete ["a", "c", "a"], .upsert "a" "again" [1] (tagged 4)]

theorem vector_tables_refine_reinsertion :
    (history Store.change oneFile reinsertion).1 =
      [.stored, .stored, .stored, .refused (.vectorWidth 2 1), .removed 1, .stored] ∧
    (history Store.change oneFile reinsertion).2.item? "a" = some ⟨"again", [1], tagged 4⟩ ∧
    (history Store.change oneFile reinsertion).2.item? "b" = some ⟨"", [1], tagged 1⟩ := by
  obtain ⟨replies, items, _⟩ := vector_tables_refine_map oneFile ⟨1, _, _, rfl, rfl⟩ reinsertion
  rw [← replies, ← items]
  decide +kernel

end CodeIndex
