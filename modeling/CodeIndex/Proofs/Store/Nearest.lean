import CodeIndex.Proofs.Store.Distance

set_option autoImplicit false

namespace CodeIndex

def lastGiven (given : List (String × Item)) : Catalog := fun id => given.reverse.lookup id

def Catalog.away (catalog : Catalog) (distance : Embedding → Embedding → Option Float32) (query : Embedding)
    (id : String) : Option Float32 :=
  (catalog id).bind fun item => distance item.vector query

def NewChunk.entry (chunk : NewChunk) : String × Item := (chunk.id.text, ⟨chunk.content, chunk.vector, chunk.metadata⟩)

theorem last_given_append (early late : List (String × Item)) (id : String) :
    lastGiven (early ++ late) id = (lastGiven late id).or (lastGiven early id) := by
  rw [lastGiven, List.reverse_append, List.lookup_append]
  rfl

theorem last_given_single (id wanted : String) (item : Item) :
    lastGiven [(id, item)] wanted = if wanted = id then some item else none := by
  by_cases same : wanted = id
  · rw [if_pos same, same]
    exact List.lookup_cons_self
  · rw [if_neg same]
    simp [lastGiven, List.lookup_cons, beq_eq_false_iff_ne.mpr same]

namespace Store

def Receives (before after : Store) (given : List (String × Item)) : Prop :=
  ∀ id item, after.item? id = some item → (lastGiven given id).or (before.item? id) = some item

theorem receives_nothing (before after : Store) (kept : ∀ id, after.item? id = none ∨ after.item? id = before.item? id) :
    Receives before after [] := by
  intro id item there
  rcases kept id with gone | same
  · cases gone.symm.trans there
  · exact same.symm.trans there

theorem put_vector_receives (store : Store) (valid : store.Vectors) (id content : String) (vector : Embedding)
    (metadata : Metadata) (fits : vector.length = store.dimensions) (wanted : String) :
    (store.putVector id content vector metadata).item? wanted =
      (lastGiven [(id, ⟨content, vector, metadata⟩)] wanted).or (store.item? wanted) := by
  rw [store.put_vector_item valid id content vector metadata fits, last_given_single]
  by_cases same : wanted = id
  · rw [same, Function.update_self, if_pos rfl, Option.some_or]
  · rw [Function.update_of_ne same, if_neg same, Option.none_or]

theorem put_chunks_item (fileId : Int) (store : Store) (valid : store.Vectors) (chunks : List NewChunk)
    (widths : ∀ chunk ∈ chunks, chunk.vector.length = store.dimensions) (id : String) :
    (putChunks fileId store chunks).item? id =
      (lastGiven (chunks.map NewChunk.entry) id).or (store.item? id) := by
  induction chunks generalizing store with
  | nil => rfl
  | cons chunk rest ih =>
      have fits := widths chunk List.mem_cons_self
      have here : (putChunk fileId store chunk).item? id = (lastGiven [chunk.entry] id).or (store.item? id) :=
        store.put_vector_receives valid chunk.id.text chunk.content chunk.vector chunk.metadata fits id
      have later := ih (putChunk fileId store chunk) (put_chunk_valid fileId store valid chunk fits)
        fun other member => widths other (List.mem_cons_of_mem _ member)
      calc (putChunks fileId store (chunk :: rest)).item? id
          = (putChunks fileId (putChunk fileId store chunk) rest).item? id := rfl
        _ = (lastGiven (rest.map NewChunk.entry) id).or ((lastGiven [chunk.entry] id).or (store.item? id)) := by
            rw [later, here]
        _ = (lastGiven ([chunk.entry] ++ rest.map NewChunk.entry) id).or (store.item? id) := by
            rw [last_given_append, Option.or_assoc]

theorem delete_vectors_receives (store : Store) (valid : store.Vectors) (ids : List String) :
    Receives store (store.deleteVectors ids).2 [] := by
  apply receives_nothing
  intro id
  rw [store.delete_vectors_item valid ids]
  by_cases listed : id ∈ ids
  · exact .inl (if_pos listed)
  · exact .inr (if_neg listed)

theorem drop_chunks_receives (store : Store) (valid : store.Vectors) (fileId : Int) :
    Receives store (store.dropChunks fileId).2 [] :=
  store.delete_vectors_receives valid ((store.rowsOf fileId).map ChunkRow.embeddingId)

theorem replace_receives (store after : Store) (valid : store.Vectors) (fileId : Int) (chunks : List NewChunk)
    (removed : Nat) (replaced : store.replaceChunks fileId chunks = .ok (removed, after)) :
    Receives store after (chunks.map NewChunk.entry) := by
  obtain ⟨able, _, rfl⟩ := (store.replace_chunks_ok_iff after fileId chunks removed).mp replaced
  have widths := ((store.replaceable_iff fileId chunks).mp able).widths
  intro id item there
  rw [put_chunks_item fileId _ (store.drop_chunks_valid valid fileId) chunks widths] at there
  cases new : lastGiven (chunks.map NewChunk.entry) id with
  | some given =>
      rw [new] at there
      exact there
  | none =>
      rw [new, Option.none_or] at there
      exact store.drop_chunks_receives valid fileId id item there

theorem delete_file_receives (store : Store) (valid : store.Vectors) (path : String) :
    Receives store (store.deleteFile path).2 [] := by
  obtain ⟨_, same⟩ | ⟨file, _, same⟩ := store.delete_file_cases path
  · rw [same]
    exact receives_nothing _ _ fun _ => .inr rfl
  · rw [same]
    exact store.drop_chunks_receives valid file.id

theorem upsert_file_receives (store : Store) (path language : String) :
    Receives store (store.upsertFile path language).2 [] := by
  rw [upsert_file_rest]
  exact receives_nothing _ _ fun _ => .inr rfl

end Store

namespace Session

def gives (session : Session) : Operation → List (String × Item)
  | .replaceChunks fileId chunks =>
      if (session.store.replaceChunks fileId chunks).isOk then chunks.map NewChunk.entry else []
  | .commit position =>
      match session.pending[position]? with
      | none => []
      | some prepared =>
          if (Reconciler.commit session.store prepared).isOk then prepared.chunks.map NewChunk.entry else []
  | .upsertVector id content vector metadata =>
      if (session.store.upsertVector id content vector metadata).isOk then [(id, ⟨content, vector, metadata⟩)] else []
  | _ => []

def given (session : Session) : List Operation → List (String × Item)
  | [] => []
  | operation :: rest => session.gives operation ++ (session.step operation).given rest

theorem step_receives (session : Session) (kept : WellKept session.store) (operation : Operation) :
    Store.Receives session.store (session.step operation).store (session.gives operation) := by
  have valid := kept.vectors
  have unchanged : Store.Receives session.store session.store [] := Store.receives_nothing _ _ fun _ => .inr rfl
  cases operation with
  | upsertFile path language => exact session.store.upsert_file_receives path language
  | replaceChunks fileId chunks =>
      simp only [step, gives]
      cases replaced : session.store.replaceChunks fileId chunks with
      | error error => exact unchanged
      | ok done => exact session.store.replace_receives done.2 valid fileId chunks done.1 replaced
  | deleteFile path => exact session.store.delete_file_receives valid path
  | clear => exact Store.receives_nothing _ _ fun _ => .inl rfl
  | rebuild width =>
      refine session.keep_store _ (Store.Receives session.store · []) unchanged fun after rebuilt => ?_
      obtain ⟨_, rfl⟩ := (session.store.rebuild_ok_iff after width).mp rebuilt
      exact Store.receives_nothing _ _ fun _ => .inl rfl
  | addFeedback chunkId kind comment => exact Store.receives_nothing _ _ fun _ => .inr rfl
  | reopen requested =>
      refine session.keep_store _ (Store.Receives session.store · []) unchanged fun after opened => ?_
      rw [session.store.reopen_same kept requested] at opened
      exact Except.ok.inj opened ▸ unchanged
  | register reconciler fresh path source language =>
      simp only [step]
      cases reconciler.select source language with
      | error error => exact unchanged
      | ok elements => exact session.store.upsert_file_receives path language.name
  | commit position =>
      simp only [step, gives]
      cases session.pending[position]? with
      | none => exact unchanged
      | some prepared =>
          dsimp only
          cases committed : Reconciler.commit session.store prepared with
          | error error => exact unchanged
          | ok done =>
              obtain ⟨_, removed, replaced⟩ := commit_replaces session.store done.2 prepared done.1 committed
              exact session.store.replace_receives done.2 valid prepared.fileId prepared.chunks removed replaced
  | upsertVector id content vector metadata =>
      simp only [step, gives]
      cases upserted : session.store.upsertVector id content vector metadata with
      | error error => exact unchanged
      | ok after =>
          obtain ⟨fits, rfl⟩ := (session.store.upsert_vector_ok_iff after id content vector metadata).mp upserted
          intro wanted item there
          exact (session.store.put_vector_receives valid id content vector metadata fits wanted).symm.trans there
  | deleteVectors ids => exact session.store.delete_vectors_receives valid ids

-- What holds after entries were given: each item in the tables is the last one given for its identifier.
def UpToDate (session : Session) (entries : List (String × Item)) : Prop :=
  ∀ id item, session.store.item? id = some item → lastGiven entries id = some item

theorem step_up_to_date (session : Session) (kept : WellKept session.store) (entries : List (String × Item))
    (current : session.UpToDate entries) (operation : Operation) :
    (session.step operation).UpToDate (entries ++ session.gives operation) := by
  intro id item there
  have origin := session.step_receives kept operation id item there
  rw [last_given_append]
  cases new : lastGiven (session.gives operation) id with
  | some given =>
      rw [new] at origin
      exact origin
  | none =>
      rw [new, Option.none_or] at origin
      exact current id item origin

theorem run_up_to_date (session : Session) (kept : WellKept session.store) (entries : List (String × Item))
    (current : session.UpToDate entries) (operations : List Operation) :
    (session.run operations).UpToDate (entries ++ session.given operations) := by
  induction operations generalizing session entries with
  | nil =>
      rw [given, List.append_nil]
      exact current
  | cons operation rest ih =>
      have next := ih (session.step operation) (session.step_kept kept operation) _
        (session.step_up_to_date kept entries current operation)
      rw [List.append_assoc] at next
      exact next

end Session

theorem opened_up_to_date (requested : Nat) (opened : Store) (fresh : Store.ofTables {} requested = .ok opened) :
    Session.UpToDate ⟨opened, []⟩ [] := by
  obtain ⟨_, _, same⟩ := (bind_ok_iff (Width.check requested) _ opened).mp fresh
  cases same
  exact fun _ _ there => nomatch there

theorem limit_length {α : Type} (k : UInt64) (items : List α) :
    (limit k items).length = if k.toNat < 9223372036854775808 then min k.toNat items.length else items.length := by
  rw [limit]
  split
  · exact List.length_take
  · rfl

namespace Store

variable (store : Store) (distance : Embedding → Embedding → Option Float32) (query : Embedding)
  (k : UInt64) (hits : List Hit) (found : store.searchBy distance query k = .ok hits)

theorem candidate_item (legible : store.Legible) (candidate : Candidate)
    (member : candidate ∈ store.candidates distance query) :
    ∃ item, store.item? candidate.row.embeddingId = some item ∧ item.content = candidate.row.content ∧
      (Json.read? candidate.row.metadata).bind Metadata.ofJson? = some item.metadata ∧
      candidate.distance = distance item.vector query := by
  obtain ⟨vector, stored, joined⟩ := List.mem_filterMap.mp member
  obtain ⟨row, here, rfl⟩ := Option.map_eq_some_iff.mp joined
  obtain ⟨listed, same⟩ := (store.joined_row legible.valid vector row).mp here
  obtain ⟨metadata, _, text⟩ := legible.written row listed
  have entry : store.lookup? row.embeddingId = some ⟨row, vector.vector⟩ :=
    (store.lookup_iff legible.valid _ _).mpr ⟨listed, rfl, same ▸ stored⟩
  refine ⟨⟨row.content, vector.vector, metadata⟩, store.item_of_written _ _ metadata entry text, rfl, ?_, rfl⟩
  rw [text, Metadata.read_written]

theorem row_count_bounded (valid : store.Vectors) (bound : Nat) (below : ∀ row ∈ store.embeddings, row.rowId < bound) :
    store.embeddings.length ≤ bound := by
  have within : store.embeddings.map (·.rowId) ⊆ List.range bound := by
    intro number listed
    obtain ⟨row, member, rfl⟩ := List.mem_map.mp listed
    exact List.mem_range.mpr (below row member)
  simpa using (valid.rowIds.subperm within).length_le

include found

theorem search_follows : List.Forall₂ (fun candidate hit => candidate.read = .ok hit)
    (limit k (ranked (store.candidates distance query))) hits := by
  rw [searchBy] at found
  split at found
  · cases found
  · exact map_m_follows _ _ _ found

theorem search_length (valid : store.Vectors) : hits.length =
    if k.toNat < 9223372036854775808 then min k.toNat store.embeddings.length else store.embeddings.length := by
  have rows := (store.candidate_rows valid distance query).length_eq
  rw [List.length_map] at rows
  rw [← (store.search_follows distance query k hits found).length_eq, limit_length, ranked, List.length_mergeSort, rows]

theorem search_splits (legible : store.Legible) :
    ∃ rest, (hits.map (·.embeddingId) ++ rest).Perm (store.embeddings.map (·.embeddingId)) ∧
      (hits.map (·.embeddingId) ++ rest).Pairwise fun a b =>
        nearer (store.item?.away distance query a) (store.item?.away distance query b) = true := by
  have follows := store.search_follows distance query k hits found
  obtain ⟨others, split⟩ := limit_initial k (ranked (store.candidates distance query))
  have ids : hits.map (·.embeddingId) ++ others.map (·.row.embeddingId) =
      (ranked (store.candidates distance query)).map (·.row.embeddingId) := by
    rw [hit_ids _ hits follows, List.map_map, ← split, List.map_append, split]
    rfl
  have measured (candidate : Candidate) (member : candidate ∈ ranked (store.candidates distance query)) :
      candidate.distance = store.item?.away distance query candidate.row.embeddingId := by
    obtain ⟨item, there, _, _, away⟩ := store.candidate_item distance query legible candidate (List.mem_mergeSort.mp member)
    rw [Catalog.away, there, Option.bind_some, away]
  refine ⟨others.map (·.row.embeddingId), ?_, ?_⟩
  · have sortedRows := (List.mergeSort_perm (store.candidates distance query) fun a b => nearer a.distance b.distance).map
      Candidate.row
    have rows := (sortedRows.trans (store.candidate_rows legible.valid distance query)).map EmbeddingRow.embeddingId
    rw [List.map_map] at rows
    rw [ids]
    exact rows
  · rw [ids, List.pairwise_map]
    refine (ranked_sorted _).imp_of_mem fun first second before => ?_
    rw [← measured _ first, ← measured _ second]
    exact before

theorem hit_item (legible : store.Legible) (hit : Hit) (member : hit ∈ hits) :
    ∃ item near, store.item? hit.embeddingId = some item ∧ hit.content = item.content ∧ hit.metadata = item.metadata ∧
      distance item.vector query = some near ∧ hit.similarity = similarity near := by
  obtain ⟨candidate, chosen, read⟩ := hit_candidate _ hits (store.search_follows distance query k hits found) hit member
  have listed := List.mem_mergeSort.mp (limit_mem k _ candidate chosen)
  obtain ⟨item, there, content, metadata, away⟩ := store.candidate_item distance query legible candidate listed
  obtain ⟨decodedMetadata, near, decoded, measured, rfl⟩ := candidate_read_cases candidate hit read
  exact ⟨item, near, there, content.symm, Option.some.inj (decoded.symm.trans metadata), away.symm.trans measured, rfl⟩

end Store

theorem search_finds_nearest (requested : Nat) (opened store : Store) (operations : List Operation) (catalog : Catalog)
    (fresh : Store.ofTables {} requested = .ok opened) (ran : store = (Session.run ⟨opened, []⟩ operations).store)
    (last : catalog = lastGiven (Session.given ⟨opened, []⟩ operations))
    (distance : Embedding → Embedding → Option Float32) (query : Embedding) (k : UInt64) (hits : List Hit)
    (found : store.searchBy distance query k = .ok hits) :
    (hits.map (·.embeddingId)).Nodup ∧
    (∀ hit ∈ hits, hit.embeddingId ∈ store.embeddings.map (·.embeddingId) ∧
      ∃ item near, catalog hit.embeddingId = some item ∧ hit.content = item.content ∧ hit.metadata = item.metadata ∧
        distance item.vector query = some near ∧ hit.similarity = similarity near) ∧
    hits.length = (if k.toNat < 2 ^ 63 then min k.toNat store.embeddings.length else store.embeddings.length) ∧
    ((∀ row ∈ store.embeddings, row.rowId < 2 ^ 63) → hits.length = min k.toNat store.embeddings.length) ∧
    (hits.Pairwise fun a b =>
      nearer (catalog.away distance query a.embeddingId) (catalog.away distance query b.embeddingId) = true) ∧
    ∀ hit ∈ hits, ∀ row ∈ store.embeddings, row.embeddingId ∉ hits.map (·.embeddingId) →
      nearer (catalog.away distance query hit.embeddingId) (catalog.away distance query row.embeddingId) = true := by
  have legible := reachable_legible store ⟨requested, opened, operations, fresh, ran⟩
  have kept := (Store.opened_consistent requested opened fresh).kept
  have current := Session.run_up_to_date ⟨opened, []⟩ kept [] (opened_up_to_date requested opened fresh) operations
  rw [List.nil_append, Session.UpToDate, ← ran, ← last] at current
  have away (id : String) (stored : id ∈ store.embeddings.map (·.embeddingId)) :
      store.item?.away distance query id = catalog.away distance query id := by
    obtain ⟨item, there⟩ := Option.isSome_iff_exists.mp ((store.item_some_iff legible.valid legible.written id).mpr stored)
    rw [Catalog.away, Catalog.away, there, current id item there]
  have count := store.search_length distance query k hits found legible.valid
  obtain ⟨rest, all, order⟩ := store.search_splits distance query k hits found legible
  replace order := order.imp_of_mem fun {a b} first second before => by
    rw [away a (all.mem_iff.mp first), away b (all.mem_iff.mp second)] at before
    exact before
  obtain ⟨sorted, _, apart⟩ := List.pairwise_append.mp order
  refine ⟨(List.nodup_append.mp (all.nodup_iff.mpr legible.valid.ids)).1, ?_, count, ?_, List.pairwise_map.mp sorted, ?_⟩
  · intro hit member
    obtain ⟨item, near, there, facts⟩ := store.hit_item distance query k hits found legible hit member
    exact ⟨all.mem_iff.mp (List.mem_append_left _ (List.mem_map_of_mem member)), item, near, current _ item there, facts⟩
  · intro signed
    have few := store.row_count_bounded legible.valid (2 ^ 63) signed
    rw [count]
    split <;> omega
  · intro hit member row stored left
    have listed := all.mem_iff.mpr (List.mem_map_of_mem stored)
    exact apart _ (List.mem_map_of_mem member) _ ((List.mem_append.mp listed).resolve_left left)

def shelving : List Operation :=
  [.upsertVector "a" "old" [1, 0] (tagged 0), .upsertVector "b" "slanted" [1, 1] (tagged 1), .upsertVector "c" "" [1, 0] (tagged 2),
    .upsertVector "a" "new" [0, 1] (tagged 3), .upsertVector "b" "" [1] (tagged 4), .deleteVectors ["c"],
    .upsertFile "a.py" "python", .replaceChunks 1 [{ oneLiner 0 3 with vector := [1, 0] }]]

def bareShelf : Session := ⟨⟨{ declaration := some (Width.declaration 2) }, 2⟩, []⟩

def shelf : Store := (bareShelf.run shelving).store

def shelved : Catalog := lastGiven (bareShelf.given shelving)

def rightward : Embedding := [1, 0]

theorem shelf_legible : shelf.Legible := reachable_legible shelf ⟨2, _, shelving, rfl, rfl⟩

theorem shelf_measured : rightward.length = shelf.dimensions ∧ shelf.embeddings.length = 3 ∧
    (∀ row ∈ shelf.vectors, cosineDistance row.vector rightward ≠ none) ∧ ∀ row ∈ shelf.embeddings, row.rowId < 2 ^ 63 := by
  decide +kernel

theorem shelf_farthest : ∀ row ∈ shelf.embeddings, row.embeddingId = "a" ∨
    nearer (shelved.away cosineDistance rightward "a") (shelved.away cosineDistance rightward row.embeddingId) = false := by
  decide +kernel

theorem shelf_left_out (ids : List String) (few : ids.length < shelf.embeddings.length) :
    ∃ row ∈ shelf.embeddings, row.embeddingId ∉ ids := by
  by_contra all
  push Not at all
  have within : shelf.embeddings.map (·.embeddingId) ⊆ ids := by
    intro id listed
    obtain ⟨row, stored, rfl⟩ := List.mem_map.mp listed
    exact all row stored
  have enough := (shelf_legible.valid.ids.subperm within).length_le
  rw [List.length_map] at enough
  omega

-- The text that was moved away is not among the first two, and it is there as it is now where there is no limit.
theorem search_finds_nearest_on_shelf :
    (∃ hits, shelf.search rightward 2 = .ok hits ∧ hits.length = 2 ∧ "a" ∉ hits.map (·.embeddingId)) ∧
    ∃ hits, shelf.search rightward 9223372036854775808 = .ok hits ∧ hits.length = 3 ∧
      ∀ hit ∈ hits, hit.embeddingId = "a" → hit.content = "new" ∧ hit.metadata = tagged 3 := by
  obtain ⟨fits, size, measured, signed⟩ := shelf_measured
  constructor
  · obtain ⟨hits, found⟩ := shelf.search_measured shelf_legible cosineDistance rightward fits 2 (.inr measured)
    obtain ⟨_, _, _, count, _, left⟩ :=
      search_finds_nearest 2 _ shelf shelving shelved rfl rfl rfl cosineDistance rightward 2 hits found
    have two : hits.length = 2 := by
      rw [count signed, size]
      rfl
    refine ⟨hits, found, two, fun far => ?_⟩
    obtain ⟨hit, member, named⟩ := List.mem_map.mp far
    obtain ⟨row, stored, absent⟩ := shelf_left_out (hits.map (·.embeddingId)) (by rw [List.length_map, two, size]; decide)
    rcases shelf_farthest row stored with same | farther
    · exact absent (same ▸ far)
    · have nearest := left hit member row stored absent
      rw [named, farther] at nearest
      cases nearest
  · obtain ⟨hits, found⟩ :=
      shelf.search_measured shelf_legible cosineDistance rightward fits 9223372036854775808 (.inr measured)
    obtain ⟨_, stored, count, _⟩ :=
      search_finds_nearest 2 _ shelf shelving shelved rfl rfl rfl cosineDistance rightward 9223372036854775808 hits found
    refine ⟨hits, found, ?_, ?_⟩
    · rw [count, size]
      rfl
    · intro hit member named
      obtain ⟨_, item, _, last, content, metadata, _⟩ := stored hit member
      rw [named] at last
      have now : item = ⟨"new", [0, 1], tagged 3⟩ := Option.some.inj (last.symm.trans (by decide +kernel))
      rw [content, metadata, now]
      exact ⟨rfl, rfl⟩

end CodeIndex
