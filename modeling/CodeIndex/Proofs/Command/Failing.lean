import CodeIndex.Proofs.Command.Repair

set_option autoImplicit false

namespace CodeIndex

theorem Config.validate_width (config : Config) (valid : config.validate = .ok ()) : 0 < config.model.dimensions.toNat := by
  by_cases none : config.model.dimensions = 0
  · rw [Config.validate, none] at valid
    split at valid
    · cases valid
    · split at valid
      · cases valid
      · cases valid
  · apply Nat.pos_of_ne_zero
    intro zero
    exact none (UInt64.toNat_inj.mp zero)

namespace Tables

theorem reopened_rows (before after : Tables) (reopened : before.Reopened after) :
    after.files = before.files ∧ after.chunks = before.chunks ∧ after.embeddings = before.embeddings ∧
      after.vectors = before.vectors ∧ after.feedback = before.feedback := by
  rcases reopened with rfl | ⟨_, width, _, rfl⟩
  · exact ⟨rfl, rfl, rfl, rfl, rfl⟩
  · exact ⟨rfl, rfl, rfl, rfl, rfl⟩

theorem reopened_rowless (before after : Tables) (reopened : before.Reopened after) : after.Rowless ↔ before.Rowless := by
  obtain ⟨files, chunks, embeddings, vectors, feedback⟩ := reopened_rows before after reopened
  constructor
  · intro rowless
    exact ⟨files.symm.trans rowless.files, chunks.symm.trans rowless.chunks, embeddings.symm.trans rowless.embeddings,
      vectors.symm.trans rowless.vectors, feedback.symm.trans rowless.feedback⟩
  · intro rowless
    exact ⟨files.trans rowless.files, chunks.trans rowless.chunks, embeddings.trans rowless.embeddings,
      vectors.trans rowless.vectors, feedback.trans rowless.feedback⟩

end Tables

namespace Store

theorem clear_rowless (store : Store) : store.clear.toTables.Rowless := ⟨rfl, rfl, rfl, rfl, rfl⟩

theorem clear_same (store : Store) (rowless : store.toTables.Rowless) : store.clear = store := by
  obtain ⟨files, chunks, embeddings, vectors, feedback⟩ := rowless
  rw [clear, ← files, ← chunks, ← embeddings, ← vectors, ← feedback]

end Store

namespace Command

section
variable (around : Surroundings) (config : Config) (fresh : Nat → ChunkId) (store : Store)

theorem execute_failed (command : Command) (other : command ≠ .clear) (failure : Failure)
    (failed : (execute around config fresh store command).1 = .error failure) :
    (execute around config fresh store command).2 = store := by
  cases command with
  | files | chunks | listFeedback | search | stats => rfl
  | addFeedback | forget => cases failed
  | index path extensions flat =>
      rw [execute, runIndex] at failed ⊢
      cases built : embedder around config store with
      | error failure => rfl
      | ok embedder => simp [built] at failed
  | clear => exact absurd rfl other

-- Stored widths are possible ones, so the new width is another one.
theorem run_clear_impossible (kept : WellKept store) (wide : 8192 < config.model.dimensions.toNat) :
    ∃ error, runClear config store = (.error (.store error), store.clear) := by
  have narrow := ((Width.check_ok_iff _).mp kept.possible).2
  obtain ⟨fits, _⟩ | ⟨error, _, same⟩ | ⟨rebuilt, made, _⟩ := run_clear_cases config store
  · omega
  · exact ⟨error, same⟩
  · have possible := ((Width.check_ok_iff _).mp ((store.clear.rebuild_ok_iff rebuilt _).mp made).1).2
    omega

end

theorem clear_impossible (around : Surroundings) (used : Used around.workspace) (config : Config) (fresh : Nat → ChunkId)
    (names : List String) (store : Store) (opened : Workspace) (opens : around.Opens config names store opened)
    (wide : 8192 < config.model.dimensions.toNat) :
    (∃ error, (invoke around config fresh .clear).1 = .error (.store error)) ∧
    ∀ other, (invoke around config fresh .clear).2.database? other =
      if other = names then some store.clear.toTables else around.workspace.database? other := by
  obtain ⟨error, cleared⟩ := run_clear_impossible config store (opens_kept around used config names store opened opens) wide
  have done : execute { around with workspace := opened } config fresh store .clear = (.error (.store error), store.clear) :=
    cleared
  refine ⟨⟨error, ?_⟩, fun other => ?_⟩
  · rw [invoke_opened opens, done]
  · rw [invoke_written opens, done]

end Command

theorem failed_command_keeps_databases (around : Surroundings) (used : Used around.workspace) (config : Config)
    (valid : config.validate = .ok ()) (fresh : Nat → ChunkId) :
    (∀ command failure, (Command.invoke around config fresh command).1 = .error failure →
      ¬ (command = .clear ∧ 8192 < config.model.dimensions.toNat) →
        around.workspace.Undisturbed (Command.invoke around config fresh command).2) ∧
    (8192 < config.model.dimensions.toNat → ∀ names store opened, around.Opens config names store opened →
      (∃ error, (Command.invoke around config fresh .clear).1 = .error (.store error)) ∧
      (∃ tables, (Command.invoke around config fresh .clear).2.database? names = some tables ∧ tables.Rowless ∧
        tables.declaration = store.declaration) ∧
      (∀ other, other ≠ names →
        (Command.invoke around config fresh .clear).2.database? other = around.workspace.database? other) ∧
      (around.workspace.Undisturbed (Command.invoke around config fresh .clear).2 ↔ store.toTables.Rowless)) := by
  constructor
  · intro command failure failed exempt
    apply Command.invoke_undisturbed
    intro names store opened opens
    rw [Command.invoke_opened opens] at failed
    by_cases clearing : command = .clear
    · subst clearing
      have possible := (Width.check_ok_iff _).mpr ⟨config.validate_width valid, Nat.not_lt.mp fun wide => exempt ⟨rfl, wide⟩⟩
      obtain ⟨answer, done⟩ := Command.run_clear_possible config store possible
      cases failed.symm.trans done
    · exact Command.execute_failed _ config fresh store command clearing failure failed
  · intro wide names store opened opens
    obtain ⟨failed, written⟩ := Command.clear_impossible around used config fresh names store opened opens wide
    have here := (written names).trans (if_pos rfl)
    have reopened := store.of_tables_reopened _ _ (Command.opens_tables opens)
    refine ⟨failed, ⟨_, here, store.clear_rowless, rfl⟩, fun other apart => (written other).trans (if_neg apart), ?_, ?_⟩
    · intro undisturbed
      rw [Tables.reopened_rowless _ _ reopened]
      rcases undisturbed names with same | ⟨tables, present, again⟩
      · rw [here] at same
        rw [← same]
        exact store.clear_rowless
      · rw [here] at present
        cases present
        exact (Tables.reopened_rowless _ _ again).mp store.clear_rowless
    · intro rowless other
      rw [written other, store.clear_same rowless]
      by_cases same : other = names
      · subst same
        rw [if_pos rfl]
        exact .inr ⟨_, rfl, reopened⟩
      · rw [if_neg same]
        exact .inl rfl

theorem rated_notes_read : (ratedNotes.store? (ofWidth 10000) notesPlace).map
    (fun store => (store.files.length, store.feedback.length, store.dimensions)) = some (1, 1, 4) := by
  decide +kernel

theorem too_wide_for_notes :
    (∃ failure, (Command.invoke ratedNotes (ofWidth 10000) ChunkId.serial (.index none [] false)).1 = .error failure) ∧
    ratedNotes.workspace.Undisturbed (Command.invoke ratedNotes (ofWidth 10000) ChunkId.serial (.index none [] false)).2 ∧
    (∃ error, (Command.invoke ratedNotes (ofWidth 10000) ChunkId.serial .clear).1 = .error (.store error)) ∧
    ¬ ratedNotes.workspace.Undisturbed (Command.invoke ratedNotes (ofWidth 10000) ChunkId.serial .clear).2 := by
  obtain ⟨store, found, same⟩ := Option.map_eq_some_iff.mp rated_notes_read
  obtain ⟨files, rest⟩ := Prod.mk.inj same
  obtain ⟨opened, opens⟩ := store_opens ratedNotes (ofWidth 10000) notesPlace store found
  have unfit : store.dimensions ≠ (ofWidth 10000).model.dimensions.toNat := by
    rw [(Prod.mk.inj rest).2]
    decide
  obtain ⟨failure, refused⟩ := Command.index_refused { ratedNotes with workspace := opened } (ofWidth 10000) ChunkId.serial store
    none [] false (.inl unfit)
  have failed : (Command.invoke ratedNotes (ofWidth 10000) ChunkId.serial (.index none [] false)).1 = .error failure := by
    rw [Command.invoke_opened opens, refused]
  obtain ⟨keeps, clears⟩ := failed_command_keeps_databases ratedNotes rated_notes_used (ofWidth 10000) rfl ChunkId.serial
  obtain ⟨error, _, _, disturbed⟩ := clears (by decide) notesPlace store opened opens
  refine ⟨⟨failure, failed⟩, keeps _ failure failed nofun, error, fun undisturbed => ?_⟩
  have rowless := disturbed.mp undisturbed
  simp [rowless.files] at files

theorem failed_clear_empties :
    Used ratedNotes.workspace ∧ (ofWidth 10000).validate = .ok () ∧
    (∃ store opened, ratedNotes.Opens (ofWidth 10000) notesPlace store opened) ∧
    (∃ failure, (Command.invoke ratedNotes (ofWidth 10000) ChunkId.serial .clear).1 = .error failure) ∧
    ((ratedNotes.workspace.database? notesPlace).getD {}).files.length = 1 ∧
    ((ratedNotes.workspace.database? notesPlace).getD {}).feedback.length = 1 ∧
    ∃ tables, (Command.invoke ratedNotes (ofWidth 10000) ChunkId.serial .clear).2.database? notesPlace = some tables ∧
      tables.files = [] ∧ tables.feedback = [] := by
  obtain ⟨store, found, same⟩ := Option.map_eq_some_iff.mp rated_notes_read
  obtain ⟨files, rest⟩ := Prod.mk.inj same
  obtain ⟨opened, opens⟩ := store_opens ratedNotes (ofWidth 10000) notesPlace store found
  obtain ⟨⟨error, failed⟩, written⟩ := Command.clear_impossible ratedNotes rated_notes_used (ofWidth 10000) ChunkId.serial
    notesPlace store opened opens (by decide)
  obtain ⟨fileRows, _, _, _, feedbackRows⟩ :=
    Tables.reopened_rows _ _ (store.of_tables_reopened _ _ (Command.opens_tables opens))
  have feedback := (Prod.mk.inj rest).1
  rw [fileRows] at files
  rw [feedbackRows] at feedback
  refine ⟨rated_notes_used, rfl, ⟨store, opened, opens⟩, ⟨_, failed⟩, files, feedback, store.clear.toTables, ?_, rfl, rfl⟩
  rw [written notesPlace, if_pos rfl]

end CodeIndex
