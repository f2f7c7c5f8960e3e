import CodeIndex.Proofs.Command.Persistence

set_option autoImplicit false

namespace CodeIndex

namespace Tables

def without (tables : Tables) (path : String) : Tables :=
  let owners := (tables.files.filter (·.path == path)).map (·.id)
  let stale := (tables.chunks.filter fun row => row.fileId ∈ owners).map (·.embeddingId)
  let numbers := (tables.embeddings.filter fun row => row.embeddingId ∈ stale).map (·.rowId)
  { tables with
    files := tables.files.filter (·.path != path)
    chunks := tables.chunks.filter fun row => row.fileId ∉ owners
    embeddings := tables.embeddings.filter fun row => row.embeddingId ∉ stale
    vectors := tables.vectors.filter fun row => row.rowId ∉ numbers }

structure Rowless (tables : Tables) : Prop where
  files : tables.files = []
  chunks : tables.chunks = []
  embeddings : tables.embeddings = []
  vectors : tables.vectors = []
  feedback : tables.feedback = []

theorem without_absent (tables : Tables) (path : String) (absent : path ∉ tables.files.map (·.path)) :
    tables.without path = tables := by
  have owners : tables.files.filter (·.path == path) = [] := by
    simpa [List.filter_eq_nil_iff] using absent
  have others : tables.files.filter (·.path != path) = tables.files := by
    simpa [List.filter_eq_self] using absent
  simp [without, owners, others]

end Tables

namespace Store

theorem without_file_tables (store : Store) (kept : WellKept store) (file : FileRow) (known : file ∈ store.files) :
    (store.withoutFile file.id).toTables = store.toTables.without file.path := by
  have owner := filter_by_key FileRow.path store.files kept.paths file known
  have files := store.files_by_path kept file known
  have frame := store.drop_chunks_frame file.id
  have last := store.drop_chunks_last file.id
  obtain ⟨chunks, embeddings, vectors⟩ := store.without_file_rows file.id
  have rows : store.rowsOf file.id = store.chunks.filter fun row => row.fileId ∈ [file.id] := by
    simp [rowsOf, beq_eq_decide]
  have foreign : store.chunks.filter (·.fileId != file.id) = store.chunks.filter fun row => row.fileId ∉ [file.id] := by
    simp [bne, beq_eq_decide]
  have whole : (store.withoutFile file.id).toTables = ⟨store.files.filter (·.id != file.id), (store.withoutFile file.id).chunks,
      (store.withoutFile file.id).embeddings, (store.withoutFile file.id).vectors, (store.dropChunks file.id).2.feedback,
      (store.dropChunks file.id).2.lastFile, (store.dropChunks file.id).2.lastEmbedding,
      (store.dropChunks file.id).2.lastFeedback, (store.dropChunks file.id).2.declaration⟩ := rfl
  rw [whole, files, chunks, foreign, embeddings, vectors, frame.feedback, frame.lastFile, last, frame.lastFeedback,
    frame.declaration, rows]
  simp only [Tables.without, owner, List.map_cons, List.map_nil]
  rfl

theorem delete_file_tables (store : Store) (kept : WellKept store) (path : String) :
    (store.deleteFile path).1 = decide (path ∈ store.files.map (·.path)) ∧
    (store.deleteFile path).2.toTables = store.toTables.without path := by
  by_cases present : path ∈ store.files.map (·.path)
  · obtain ⟨file, known, rfl⟩ := List.mem_map.mp present
    rw [store.delete_file_known kept file known]
    exact ⟨(decide_eq_true present).symm, store.without_file_tables kept file known⟩
  · rw [store.delete_file_absent path present]
    exact ⟨(decide_eq_false present).symm, (store.toTables.without_absent path present).symm⟩

end Store

namespace Command

def reads : Command → Bool
  | .files | .chunks _ | .listFeedback _ | .search _ _ | .stats => true
  | .index _ _ _ | .addFeedback _ _ _ | .forget _ | .clear => false

section
variable (around : Surroundings) (config : Config) (fresh : Nat → ChunkId) (store : Store)

theorem reads_idle (command : Command) (reading : command.reads = true) :
    (execute around config fresh store command).2 = store := by
  cases command with
  | files | chunks | listFeedback | search | stats => rfl
  | index | addFeedback | forget | clear => cases reading

theorem index_refused (path : Option String) (extensions : List String) (flat : Bool)
    (unfit : store.dimensions ≠ config.model.dimensions.toNat ∨
      ∃ error, Embedder.ofConfig config.model around.modelFiles = .error error) :
    ∃ failure, execute around config fresh store (.index path extensions flat) = (.error failure, store) := by
  have refused : ∃ failure, embedder around config store = .error failure := by
    by_cases fits : store.dimensions = config.model.dimensions.toNat
    · obtain ⟨error, broken⟩ := unfit.resolve_left (not_not_intro fits)
      exact ⟨.model error, by simp [embedder, fits, broken, Except.mapError]⟩
    · exact ⟨_, if_pos fits⟩
  obtain ⟨failure, same⟩ := refused
  exact ⟨failure, by rw [execute, runIndex, same]⟩

-- The guard is the only place where the width of the model is complained of.
theorem execute_passes (fits : store.dimensions = config.model.dimensions.toNat) (command : Command) (path : String)
    (stored configured : Nat) : (execute around config fresh store command).1 ≠ .error (.modelWidth path stored configured) := by
  have passed : embedder around config store = (Embedder.ofConfig config.model around.modelFiles).mapError .model := by
    simp [embedder, fits]
  intro refused
  cases command with
  | files | addFeedback | listFeedback | forget | stats => cases refused
  | chunks fileId =>
      rw [execute] at refused
      cases listed : store.listChunks fileId with
      | error error => simp [listed, Except.mapError, Except.map] at refused
      | ok chunks => simp [listed, Except.mapError, Except.map] at refused
  | index directory extensions flat =>
      rw [execute, runIndex, passed] at refused
      cases built : Embedder.ofConfig config.model around.modelFiles with
      | error error => simp [built, Except.mapError] at refused
      | ok embedder => simp [built, Except.mapError] at refused
  | search query k =>
      rw [execute, runSearch, passed] at refused
      cases built : Embedder.ofConfig config.model around.modelFiles with
      | error error => simp [built, Except.mapError, bind, Except.bind] at refused
      | ok embedder =>
          cases vector : embedder.embed (queryText query) with
          | error error => simp [built, vector, Except.mapError, bind, Except.bind] at refused
          | ok embedded =>
              cases found : store.search embedded (k.getD config.searchTopK) with
              | error error => simp [built, vector, found, Except.mapError, bind, Except.bind] at refused
              | ok hits => simp [built, vector, found, Except.mapError, bind, Except.bind, pure, Except.pure] at refused
  | clear =>
      rw [execute] at refused
      obtain ⟨_, same⟩ | ⟨_, _, same⟩ | ⟨_, _, same⟩ := run_clear_cases config store
      · simp [same] at refused
      · simp [same] at refused
      · simp [same] at refused

theorem run_clear_done (answer : Answer) (done : (runClear config store).1 = .ok answer) :
    (runClear config store).2.dimensions = config.model.dimensions.toNat ∧ (runClear config store).2.toTables.Rowless := by
  obtain ⟨fits, same⟩ | ⟨_, _, same⟩ | ⟨rebuilt, made, same⟩ := run_clear_cases config store
  · rw [same]
    exact ⟨fits, rfl, rfl, rfl, rfl, rfl⟩
  · rw [same] at done
    cases done
  · obtain ⟨_, rfl⟩ := (store.clear.rebuild_ok_iff rebuilt _).mp made
    rw [same]
    exact ⟨rfl, rfl, rfl, rfl, rfl, rfl⟩

theorem run_clear_possible (possible : Width.check config.model.dimensions.toNat = .ok ()) :
    ∃ answer, (runClear config store).1 = .ok answer := by
  obtain ⟨_, same⟩ | ⟨error, failed, _⟩ | ⟨_, _, same⟩ := run_clear_cases config store
  · exact ⟨_, congrArg Prod.fst same⟩
  · rw [(store.clear.rebuild_ok_iff _ _).mpr ⟨possible, rfl⟩] at failed
    cases failed
  · exact ⟨_, congrArg Prod.fst same⟩

end

end Command

namespace Workspace

def Holds (workspace : Workspace) (names : List String) (width : Nat) : Prop :=
  ∃ store : Store, WellKept store ∧ store.dimensions = width ∧ workspace.database? names = some store.toTables

def Passes (workspace : Workspace) (names : List String) (width : UInt64) : Prop :=
  ∀ environment readModel config store opened, config.model.dimensions = width →
    Surroundings.Opens ⟨workspace, environment, readModel⟩ config names store opened → store.dimensions = width.toNat ∧
    ∀ fresh command path stored configured,
      (Command.invoke ⟨workspace, environment, readModel⟩ config fresh command).1 ≠ .error (.modelWidth path stored configured)

theorem holds_passes (workspace : Workspace) (names : List String) (width : UInt64)
    (holds : workspace.Holds names width.toNat) : workspace.Passes names width := by
  intro environment readModel config store opened same opens
  obtain ⟨held, kept, fits, found⟩ := holds
  have read := Command.opens_tables opens
  rw [found, Option.getD_some, held.reopen_same kept] at read
  have stored : store.dimensions = width.toNat := Except.ok.inj read ▸ fits
  refine ⟨stored, fun fresh command path recorded configured => ?_⟩
  rw [Command.invoke_opened opens]
  exact Command.execute_passes _ config fresh store (same ▸ stored) command path recorded configured

end Workspace

theorem Use.holds (before after : Workspace) (step : Use (· ≠ .clear) before after) (names : List String) (width : Nat)
    (holds : before.Holds names width) : after.Holds names width := by
  obtain ⟨held, kept, fits, found⟩ := holds
  have effect := step.effect _ before after names
  rw [found, Option.getD_some] at effect
  obtain (same | ⟨tables, present, reopened⟩) | ⟨around, config, fresh, command, store, other, opens, written⟩ := effect
  · exact ⟨held, kept, fits, same⟩
  · exact ⟨held, kept, fits, held.reopened_same kept tables reopened ▸ present⟩
  · rw [held.reopen_same kept] at opens
    cases opens
    have width := Command.execute_width around config fresh held command other
    exact ⟨_, Command.execute_kept around config fresh held kept command, width.trans fits, written⟩

theorem uses_hold (before after : Workspace) (uses : Relation.ReflTransGen (Use (· ≠ .clear)) before after) (names : List String)
    (width : Nat) (holds : before.Holds names width) : after.Holds names width := by
  induction uses with
  | refl => exact holds
  | tail _ step ih => exact step.holds _ _ names width ih

theorem width_guarded_and_repaired (around : Surroundings) (used : Used around.workspace) (config : Config)
    (fresh : Nat → ChunkId) :
    (∀ command : Command, command.reads = true →
      around.workspace.Undisturbed (Command.invoke around config fresh command).2) ∧
    ∀ names store opened, around.Opens config names store opened →
      (((around.workspace.database? names).getD {}).Reopened store.toTables ∧
        store.declaration.bind Width.parse? = some store.dimensions) ∧
      (∀ path extensions flat, store.dimensions ≠ config.model.dimensions.toNat ∨
          (∃ error,
            Embedder.ofConfig config.model (Surroundings.modelFiles { around with workspace := opened }) = .error error) →
        (∃ failure, (Command.invoke around config fresh (.index path extensions flat)).1 = .error failure) ∧
          around.workspace.Undisturbed (Command.invoke around config fresh (.index path extensions flat)).2) ∧
      (∀ path, (Command.invoke around config fresh (.forget path)).1 =
          .ok (.forgotten path (decide (path ∈ store.files.map (·.path)))) ∧
        ∀ other, (Command.invoke around config fresh (.forget path)).2.database? other =
          if other = names then some (store.toTables.without path) else around.workspace.database? other) ∧
      ∀ answer, (Command.invoke around config fresh .clear).1 = .ok answer →
        (∃ tables, (Command.invoke around config fresh .clear).2.database? names = some tables ∧ tables.Rowless ∧
          tables.declaration.bind Width.parse? = some config.model.dimensions.toNat) ∧
        ∀ later, Relation.ReflTransGen (Use (· ≠ .clear)) (Command.invoke around config fresh .clear).2 later →
          later.Passes names config.model.dimensions := by
  refine ⟨fun command reading => ?_, fun names store opened opens => ?_⟩
  · apply Command.invoke_undisturbed
    intro names store opened _
    exact Command.reads_idle _ config fresh store command reading
  · have kept := opens_kept around used config names store opened opens
    refine ⟨⟨store.of_tables_reopened _ _ (Command.opens_tables opens), store.persisted_width kept⟩, ?_, ?_, ?_⟩
    · intro path extensions flat unfit
      obtain ⟨failure, refused⟩ := Command.index_refused { around with workspace := opened } config fresh store path extensions
        flat unfit
      refine ⟨⟨failure, ?_⟩, ?_⟩
      · rw [Command.invoke_opened opens, refused]
      · apply Command.invoke_undisturbed
        intro place other reopened again
        cases opens.symm.trans again
        rw [refused]
    · intro path
      obtain ⟨present, removed⟩ := store.delete_file_tables kept path
      refine ⟨?_, fun other => ?_⟩
      · rw [Command.invoke_opened opens, ← present]
        rfl
      · rw [Command.invoke_written opens, ← removed]
        rfl
    · intro answer done
      rw [Command.invoke_opened opens] at done
      obtain ⟨fits, rowless⟩ := Command.run_clear_done config store answer done
      have cleared := Command.run_clear_kept config store kept
      have found := (Command.invoke_written opens fresh .clear names).trans (if_pos rfl)
      refine ⟨⟨_, found, rowless, ?_⟩, fun later uses => ?_⟩
      · exact fits ▸ Store.persisted_width _ cleared
      · apply later.holds_passes names config.model.dimensions
        exact uses_hold _ later uses names _ ⟨_, cleared, fits, found⟩

theorem narrow_notes_repaired :
    (∃ failure, (Command.invoke ratedNotes (ofWidth 8) ChunkId.serial (.index none [] false)).1 = .error failure) ∧
    (Command.invoke ratedNotes (ofWidth 8) ChunkId.serial (.forget "notes.txt")).1 = .ok (.forgotten "notes.txt" true) ∧
    Workspace.Passes (Command.invoke (among (Command.invoke ratedNotes (ofWidth 8) ChunkId.serial .clear).2) (ofWidth 4)
      ChunkId.serial (.index none [] false)).2 notesPlace 8 := by
  have read : (ratedNotes.store? (ofWidth 8) notesPlace).map (fun store => (store.dimensions, store.files.map (·.path))) =
      some (4, ["notes.txt"]) := by decide +kernel
  obtain ⟨store, found, same⟩ := Option.map_eq_some_iff.mp read
  obtain ⟨width, files⟩ := Prod.mk.inj same
  obtain ⟨opened, opens⟩ := store_opens ratedNotes (ofWidth 8) notesPlace store found
  obtain ⟨_, whole⟩ := width_guarded_and_repaired ratedNotes rated_notes_used (ofWidth 8) ChunkId.serial
  obtain ⟨_, refused, forgotten, repaired⟩ := whole notesPlace store opened opens
  refine ⟨(refused none [] false (.inl ?_)).1, ?_, ?_⟩
  · rw [width]
    decide
  · rw [(forgotten "notes.txt").1, files]
    rfl
  · obtain ⟨answer, done⟩ := Command.run_clear_possible (ofWidth 8) store rfl
    have cleared : (Command.invoke ratedNotes (ofWidth 8) ChunkId.serial .clear).1 = .ok answer := by
      rw [Command.invoke_opened opens]
      exact done
    exact (repaired answer cleared).2 _ (.single (.command none _ (ofWidth 4) ChunkId.serial (.index none [] false) nofun))

end CodeIndex
