import CodeIndex.Proofs.Store.Removal

set_option autoImplicit false

namespace CodeIndex

structure Revision where
  reconciler : Reconciler
  fresh : Nat → ChunkId
  source : Source
  language : Language

namespace Revision

def index (revision : Revision) (store : Store) (path : String) : Except ReconcileError ReconcileResult × Store :=
  revision.reconciler.reconcile revision.fresh store path revision.source revision.language

-- A vector that is stored under one of its identifiers is that of a registered chunk.
def Apart (revision : Revision) (store : Store) : Prop :=
  ∀ number, (revision.fresh number).text ∈ store.embeddings.map (·.embeddingId) →
    (revision.fresh number).text ∈ store.chunks.map (·.id)

theorem index_cases (revision : Revision) (store : Store) (path : String) :
    (∃ error, revision.index store path = (.error error, store)) ∨
    (∃ error, revision.index store path = (.error error, (store.upsertFile path revision.language.name).2)) ∨
    ∃ result after elements removed, revision.index store path = (.ok result, after) ∧
      (store.upsertFile path revision.language.name).2.replaceChunks (store.upsertFile path revision.language.name).1.id
        (revision.reconciler.chunksFor revision.fresh path revision.language store.dimensions elements) = .ok (removed, after) := by
  rw [index, Reconciler.reconcile]
  cases revision.reconciler.select revision.source revision.language with
  | error error => exact .inl ⟨_, rfl⟩
  | ok elements =>
      simp only [Reconciler.register_chunks]
      cases committed : Reconciler.commit (store.upsertFile path revision.language.name).2
          ⟨(store.upsertFile path revision.language.name).1.id,
            revision.reconciler.chunksFor revision.fresh path revision.language store.dimensions elements,
            elements.length - (elements.filter (revision.reconciler.embeds revision.language store.dimensions)).length⟩ with
      | error error => exact .inr (.inl ⟨_, rfl⟩)
      | ok swapped =>
          obtain ⟨_, removed, replaced⟩ := Session.commit_replaces _ _ _ _ committed
          exact .inr (.inr ⟨_, _, elements, removed, rfl, replaced⟩)

theorem index_kept (revision : Revision) (store : Store) (kept : WellKept store) (path : String) :
    WellKept (revision.index store path).2 := by
  have registered := store.upsert_file_kept kept path revision.language.name
  obtain ⟨_, same⟩ | ⟨_, same⟩ | ⟨_, after, _, removed, same, replaced⟩ := revision.index_cases store path
  · rw [same]
    exact kept
  · rw [same]
    exact registered
  · rw [same]
    exact Store.replace_chunks_kept _ after registered _ _ removed replaced

theorem index_known (revision : Revision) (store : Store) (kept : WellKept store) (path : String)
    (known : path ∈ store.files.map (·.path) ∨ ∃ result, (revision.index store path).1 = .ok result) :
    path ∈ (revision.index store path).2.files.map (·.path) := by
  have member := (store.upsert_file_mem kept path revision.language.name _).mpr (.inl rfl)
  have registered := List.mem_map.mpr ⟨_, member, (store.upsert_file_row kept path revision.language.name).1⟩
  obtain ⟨_, same⟩ | ⟨_, same⟩ | ⟨_, after, _, removed, same, replaced⟩ := revision.index_cases store path
  · rw [same] at known ⊢
    rcases known with before | ⟨_, done⟩
    · exact before
    · cases done
  · rw [same]
    exact registered
  · rw [same, (Store.replace_frame _ after _ _ removed replaced).files]
    exact registered

theorem chunk_minted (revision : Revision) (path : String) (width : Nat) (elements : List Element) (chunk : NewChunk)
    (member : chunk ∈ revision.reconciler.chunksFor revision.fresh path revision.language width elements) :
    ∃ number, chunk.id = revision.fresh number := by
  obtain ⟨number, _, rfl⟩ := List.mem_mapIdx.mp member
  exact ⟨number, rfl⟩

theorem index_forgotten (revision : Revision) (store : Store) (kept : WellKept store) (path : String)
    (apart : revision.Apart (store.deleteFile path).2) :
    SameRows (store.deleteFile path).2 ((revision.index store path).2.deleteFile path).2 := by
  have registered := store.upsert_forgotten kept path revision.language.name
  obtain ⟨_, same⟩ | ⟨_, same⟩ | ⟨_, after, elements, removed, same, replaced⟩ := revision.index_cases store path
  · rw [same]
    exact same_rows_refl _
  · rw [same]
    exact registered
  · have registeredKept := store.upsert_file_kept kept path revision.language.name
    have named := (store.upsert_file_row kept path revision.language.name).1
    have known := (store.upsert_file_mem kept path revision.language.name _).mpr (.inl rfl)
    rw [same]
    apply same_rows_trans _ _ _ registered
    generalize (store.upsertFile path revision.language.name).2 = next at *
    generalize (store.upsertFile path revision.language.name).1 = file at *
    subst named
    have files := (next.replace_frame after file.id _ removed replaced).files
    have able := ((next.replace_chunks_ok_iff after file.id _ removed).mp replaced).1
    have afterKept := next.replace_chunks_kept after registeredKept file.id _ removed replaced
    rw [next.delete_file_known registeredKept file known] at registered ⊢
    rw [after.delete_file_known afterKept file (files ▸ known)]
    apply next.replace_forgotten after registeredKept file.id _ removed replaced
    -- A vector under a new identifier would be that of a chunk of another file, and then the swap fails.
    intro chunk member stored
    obtain ⟨number, minted⟩ := revision.chunk_minted _ _ _ chunk member
    rw [registered.embeddings, minted] at stored
    have listed := apart number stored
    rw [← registered.chunks, next.without_file_rows file.id |>.1] at listed
    obtain ⟨row, rowMember, rowNamed⟩ := List.mem_map.mp listed
    obtain ⟨rowStored, foreign⟩ := List.mem_filter.mp rowMember
    exact able.unused chunk member row rowStored (bne_iff_ne.mp foreign) (rowNamed.trans (congrArg ChunkId.text minted.symm))

end Revision

namespace Store

def revise (store : Store) (path : String) (revisions : List Revision) : Store :=
  revisions.foldl (fun store revision => (revision.index store path).2) store

theorem revise_kept (store : Store) (kept : WellKept store) (path : String) (revisions : List Revision) :
    WellKept (store.revise path revisions) := by
  induction revisions generalizing store with
  | nil => exact kept
  | cons revision rest ih => exact ih _ (revision.index_kept store kept path)

theorem revise_known (store : Store) (kept : WellKept store) (path : String) (revisions : List Revision)
    (known : path ∈ store.files.map (·.path)) : path ∈ (store.revise path revisions).files.map (·.path) := by
  induction revisions generalizing store with
  | nil => exact known
  | cons revision rest ih =>
      exact ih _ (revision.index_kept store kept path) (revision.index_known store kept path (.inl known))

theorem revise_forgotten (store : Store) (kept : WellKept store) (path : String) (revisions : List Revision)
    (apart : ∀ revision ∈ revisions, revision.Apart (store.deleteFile path).2) :
    SameRows (store.deleteFile path).2 ((store.revise path revisions).deleteFile path).2 := by
  induction revisions generalizing store with
  | nil => exact same_rows_refl _
  | cons revision rest ih =>
      have first := revision.index_forgotten store kept path (apart revision List.mem_cons_self)
      apply same_rows_trans _ _ _ first
      apply ih _ (revision.index_kept store kept path)
      intro later member number
      rw [first.embeddings, first.chunks]
      exact apart later (List.mem_cons_of_mem _ member) number

end Store

theorem forgetting_undoes_indexing (requested : Nat) (opened store after : Store) (operations : List Operation)
    (fresh : Store.ofTables {} requested = .ok opened) (ran : store = (Session.run ⟨opened, []⟩ operations).store)
    (path : String) (absent : path ∉ store.files.map (·.path)) (first : Revision) (further : List Revision)
    (spare : (∀ operation ∈ operations, operation.throughRegistry = true) ∨
      ∀ revision ∈ first :: further, ∀ number, (revision.fresh number).text ∉ store.embeddings.map (·.embeddingId))
    (result : ReconcileResult) (done : (first.index store path).1 = .ok result)
    (revised : after = store.revise path (first :: further)) :
    (after.deleteFile path).1 = true ∧ SameRows store (after.deleteFile path).2 ∧
      (after.deleteFile path).2.deleteFile path = (false, (after.deleteFile path).2) := by
  have kept := reachable_kept store ⟨requested, opened, operations, fresh, ran⟩
  have afterKept := revised ▸ store.revise_kept kept path (first :: further)
  have apart : ∀ revision ∈ first :: further, revision.Apart store := by
    intro revision member number stored
    rcases spare with registry | unused
    · have consistent := (ran ▸ Session.run_consistent ⟨opened, []⟩ (Store.opened_consistent requested opened fresh) operations
        registry : Consistent store)
      exact (consistent.registered _).mp stored
    · exact absurd stored (unused revision member number)
  have known := Store.revise_known _ (first.index_kept store kept path) path further
    (first.index_known store kept path (.inr ⟨result, done⟩))
  have same := store.revise_forgotten kept path (first :: further)
  rw [store.delete_file_absent path absent, ← revised] at same
  have restored := same apart
  refine ⟨?_, restored, ?_⟩
  · change path ∈ (store.revise path (first :: further)).files.map (·.path) at known
    rw [← revised] at known
    obtain ⟨file, member, rfl⟩ := List.mem_map.mp known
    rw [after.delete_file_known afterKept file member]
  · apply Store.delete_file_absent
    rw [restored.files]
    exact absent

def besideNeighbour : List Operation :=
  [.register wholeFiles ChunkId.serial "b.py" plainSource .python, .commit 0]

theorem forgetting_keeps_neighbour :
    ∃ store after, store = (Session.run ⟨⟨{ declaration := some (Width.declaration 1) }, 1⟩, []⟩ besideNeighbour).store ∧
      after = store.revise "a.py" [⟨wholeFiles, laterIds, plainSource, .python⟩, ⟨wholeFiles, laterIds, unparsed, .python⟩,
        ⟨wholeFiles, fun i => laterIds (i + 10), plainSource, .ruby⟩] ∧
      store.chunks.length = 1 ∧ (after.deleteFile "a.py").1 = true ∧ SameRows store (after.deleteFile "a.py").2 := by
  refine ⟨_, _, rfl, rfl, by decide +kernel, ?_⟩
  obtain ⟨removed, restored, _⟩ := forgetting_undoes_indexing 1 _ _ _ besideNeighbour rfl rfl "a.py" (by decide +kernel)
    ⟨wholeFiles, laterIds, plainSource, .python⟩
    [⟨wholeFiles, laterIds, unparsed, .python⟩, ⟨wholeFiles, fun i => laterIds (i + 10), plainSource, .ruby⟩]
    (.inl (by decide)) ⟨1, 1, 0⟩ (by decide +kernel) rfl
  exact ⟨removed, restored⟩

end CodeIndex
