import CodeIndex.Proofs.Store.Invariant
import CodeIndex.Reconcile

set_option autoImplicit false

namespace CodeIndex

inductive Operation where
  | upsertFile (path language : String)
  | replaceChunks (fileId : Int) (chunks : List NewChunk)
  | deleteFile (path : String)
  | clear
  | rebuild (width : Nat)
  | addFeedback (chunkId kind : String) (comment : Option String)
  | reopen (requested : Nat)
  | register (reconciler : Reconciler) (fresh : Nat → ChunkId) (path : String) (source : Source) (language : Language)
  | commit (position : Nat)
  | upsertVector (id content : String) (vector : Embedding) (metadata : Metadata)
  | deleteVectors (ids : List String)

def Operation.throughRegistry : Operation → Bool
  | .upsertVector .. => false
  | .deleteVectors _ => false
  | _ => true

structure Session where
  store : Store
  pending : List Prepared

namespace Session

def keep (session : Session) : Except StoreError Store → Session
  | .ok store => { session with store := store }
  | .error _ => session

def step (session : Session) : Operation → Session
  | .upsertFile path language => { session with store := (session.store.upsertFile path language).2 }
  | .replaceChunks fileId chunks => session.keep ((session.store.replaceChunks fileId chunks).map (·.2))
  | .deleteFile path => { session with store := (session.store.deleteFile path).2 }
  | .clear => { session with store := session.store.clear }
  | .rebuild width => session.keep (session.store.rebuild width)
  | .addFeedback chunkId kind comment => { session with store := (session.store.addFeedback chunkId kind comment).2 }
  | .reopen requested => session.keep (Store.ofTables session.store.toTables requested)
  | .register reconciler fresh path source language =>
      match reconciler.select source language with
      | .error _ => session
      | .ok elements =>
          let (prepared, registered) := reconciler.register fresh session.store path language elements
          ⟨registered, session.pending ++ [prepared]⟩
  | .commit position =>
      match session.pending[position]? with
      | none => session
      | some prepared =>
          { session.keep ((Reconciler.commit session.store prepared).map (·.2)) with
            pending := session.pending.eraseIdx position }
  | .upsertVector id content vector metadata => session.keep (session.store.upsertVector id content vector metadata)
  | .deleteVectors ids => { session with store := (session.store.deleteVectors ids).2 }

def run (session : Session) (operations : List Operation) : Session := operations.foldl step session

theorem keep_store (session : Session) (result : Except StoreError Store) (holds : Store → Prop)
    (before : holds session.store) (after : ∀ store, result = .ok store → holds store) :
    holds (session.keep result).store := by
  cases result with
  | error error => exact before
  | ok store => exact after store rfl

theorem map_ok {ε α β : Type} (result : Except ε α) (f : α → β) (value : β) (mapped : result.map f = .ok value) :
    ∃ inner, result = .ok inner ∧ f inner = value := by
  cases result with
  | error error => cases mapped
  | ok inner => exact ⟨inner, rfl, Except.ok.inj mapped⟩

theorem commit_replaces (store after : Store) (prepared : Prepared) (result : ReconcileResult)
    (committed : Reconciler.commit store prepared = .ok (result, after)) :
    result = ⟨1, prepared.chunks.length, prepared.failed⟩ ∧
      ∃ removed, store.replaceChunks prepared.fileId prepared.chunks = .ok (removed, after) := by
  obtain ⟨⟨removed, swapped⟩, replaced, same⟩ := (bind_ok_iff _ _ _).mp committed
  cases same
  exact ⟨rfl, removed, replaced⟩

-- Every operation is one of the store's own, so a property that these keep is kept by every step.
theorem step_store (session : Session) (operation : Operation) (holds : Store → Prop) (before : holds session.store)
    (upsertFile : ∀ path language, holds (session.store.upsertFile path language).2)
    (replaceChunks : ∀ fileId chunks removed after,
      session.store.replaceChunks fileId chunks = .ok (removed, after) → holds after)
    (deleteFile : ∀ path, holds (session.store.deleteFile path).2) (clear : holds session.store.clear)
    (rebuild : ∀ width after, session.store.rebuild width = .ok after → holds after)
    (addFeedback : ∀ chunkId kind comment, holds (session.store.addFeedback chunkId kind comment).2)
    (reopen : ∀ requested after, Store.ofTables session.store.toTables requested = .ok after → holds after)
    (upsertVector : operation.throughRegistry = false → ∀ id content vector metadata after,
      session.store.upsertVector id content vector metadata = .ok after → holds after)
    (deleteVectors : operation.throughRegistry = false → ∀ ids, holds (session.store.deleteVectors ids).2) :
    holds (session.step operation).store := by
  cases operation with
  | upsertFile path language => exact upsertFile path language
  | replaceChunks fileId chunks =>
      apply keep_store session _ holds before
      intro after mapped
      obtain ⟨⟨removed, swapped⟩, replaced, rfl⟩ := map_ok _ _ _ mapped
      exact replaceChunks fileId chunks removed swapped replaced
  | deleteFile path => exact deleteFile path
  | clear => exact clear
  | rebuild width => exact keep_store session _ holds before (rebuild width)
  | addFeedback chunkId kind comment => exact addFeedback chunkId kind comment
  | reopen requested => exact keep_store session _ holds before (reopen requested)
  | register reconciler fresh path source language =>
      simp only [step]
      cases reconciler.select source language with
      | error error => exact before
      | ok elements => exact upsertFile path language.name
  | commit position =>
      simp only [step]
      cases session.pending[position]? with
      | none => exact before
      | some prepared =>
          apply keep_store session _ holds before
          intro after mapped
          obtain ⟨⟨result, swapped⟩, committed, rfl⟩ := map_ok _ _ _ mapped
          obtain ⟨_, removed, replaced⟩ := commit_replaces session.store swapped prepared result committed
          exact replaceChunks prepared.fileId prepared.chunks removed swapped replaced
  | upsertVector id content vector metadata =>
      exact keep_store session _ holds before (upsertVector rfl id content vector metadata)
  | deleteVectors ids => exact deleteVectors rfl ids

theorem step_kept (session : Session) (kept : WellKept session.store) (operation : Operation) :
    WellKept (session.step operation).store := by
  apply session.step_store operation WellKept kept
  · exact session.store.upsert_file_kept kept
  · exact fun fileId chunks removed after => session.store.replace_chunks_kept after kept fileId chunks removed
  · exact session.store.delete_file_kept kept
  · exact (session.store.clear_consistent kept).kept
  · exact fun width after rebuilt => (session.store.rebuild_consistent after kept width rebuilt).kept
  · exact session.store.add_feedback_kept kept
  · intro requested after opened
    rw [session.store.reopen_same kept requested] at opened
    exact Except.ok.inj opened ▸ kept
  · exact fun _ id content vector metadata after => session.store.upsert_vector_kept after kept id content vector metadata
  · exact fun _ => session.store.delete_vectors_kept kept

theorem step_consistent (session : Session) (consistent : Consistent session.store) (operation : Operation)
    (registry : operation.throughRegistry = true) : Consistent (session.step operation).store := by
  have kept := consistent.kept
  apply session.step_store operation Consistent consistent
  · exact session.store.upsert_file_consistent consistent
  · exact fun fileId chunks removed after => session.store.replace_chunks_consistent after consistent fileId chunks removed
  · exact session.store.delete_file_consistent consistent
  · exact session.store.clear_consistent kept
  · exact fun width after => session.store.rebuild_consistent after kept width
  · exact fun chunkId kind comment => ⟨session.store.add_feedback_kept kept chunkId kind comment, consistent.registered⟩
  · intro requested after opened
    rw [session.store.reopen_same kept requested] at opened
    exact Except.ok.inj opened ▸ consistent
  · exact fun direct => absurd (registry.symm.trans direct) (by decide)
  · exact fun direct => absurd (registry.symm.trans direct) (by decide)

theorem run_kept (session : Session) (kept : WellKept session.store) (operations : List Operation) :
    WellKept (session.run operations).store := by
  induction operations generalizing session with
  | nil => exact kept
  | cons operation rest ih => exact ih (session.step operation) (session.step_kept kept operation)

theorem run_consistent (session : Session) (consistent : Consistent session.store) (operations : List Operation)
    (registry : ∀ operation ∈ operations, operation.throughRegistry = true) :
    Consistent (session.run operations).store := by
  induction operations generalizing session with
  | nil => exact consistent
  | cons operation rest ih =>
      have next := session.step_consistent consistent operation (registry operation List.mem_cons_self)
      exact ih (session.step operation) next fun later member => registry later (List.mem_cons_of_mem _ member)

theorem run_reconciles (session : Session) (reconciler : Reconciler) (fresh : Nat → ChunkId) (path : String)
    (source : Source) (language : Language) :
    (session.run [.register reconciler fresh path source language, .commit session.pending.length]).store =
      (reconciler.reconcile fresh session.store path source language).2 := by
  simp only [run, List.foldl_cons, List.foldl_nil, step, Reconciler.reconcile]
  cases reconciler.select source language with
  | error error => simp
  | ok elements =>
      simp only [List.getElem?_concat_length]
      cases Reconciler.commit (reconciler.register fresh session.store path language elements).2
          (reconciler.register fresh session.store path language elements).1 with
      | error error => rfl
      | ok committed => rfl

end Session

def Reachable (store : Store) : Prop :=
  ∃ requested opened operations, Store.ofTables {} requested = .ok opened ∧
    store = (Session.run ⟨opened, []⟩ operations).store

theorem reachable_kept (store : Store) (reachable : Reachable store) : WellKept store := by
  obtain ⟨requested, opened, operations, fresh, rfl⟩ := reachable
  exact Session.run_kept ⟨opened, []⟩ (Store.opened_consistent requested opened fresh).kept operations

theorem reconcile_reachable (store : Store) (reachable : Reachable store) (reconciler : Reconciler)
    (fresh : Nat → ChunkId) (path : String) (source : Source) (language : Language) :
    Reachable (reconciler.reconcile fresh store path source language).2 := by
  obtain ⟨requested, opened, operations, opens, rfl⟩ := reachable
  have last := Session.run_reconciles (Session.run ⟨opened, []⟩ operations) reconciler fresh path source language
  exact ⟨requested, opened, operations ++ _, opens, last.symm.trans (congrArg Session.store List.foldl_append.symm)⟩

theorem tables_consistent_throughout (requested : Nat) (opened : Store) (operations : List Operation)
    (fresh : Store.ofTables {} requested = .ok opened)
    (registry : ∀ operation ∈ operations, operation.throughRegistry = true) :
    Consistent (Session.run ⟨opened, []⟩ operations).store ∧
    (Session.run ⟨opened, []⟩ operations).store.declaration.bind Width.parse? =
      some (Session.run ⟨opened, []⟩ operations).store.dimensions := by
  have consistent := Session.run_consistent ⟨opened, []⟩ (Store.opened_consistent requested opened fresh) operations registry
  exact ⟨consistent, Store.persisted_width _ consistent.kept⟩

def wholeFiles : Reconciler := ⟨⟨1, fun _ => .ok [1]⟩, false, some 100⟩

def plainSource : Source := ⟨"x", .ok (.mk "module" true ⟨0, 1, 0, 0⟩ [] [])⟩

theorem tables_consistent_interleaved :
    Consistent (Session.run ⟨⟨{ declaration := some (Width.declaration 1) }, 1⟩, []⟩
      [.register wholeFiles ChunkId.serial "a.py" plainSource .python, .clear, .upsertFile "b.py" "python",
        .commit 0, .rebuild 0, .reopen 7]).store :=
  (tables_consistent_throughout 1 _ _ rfl (by decide)).1

end CodeIndex
