import CodeIndex.Proofs.Reconcile.Sections

set_option autoImplicit false

namespace CodeIndex

namespace Session

def registers? (session : Session) : Operation → Option FileRow
  | .upsertFile path language => some (session.store.upsertFile path language).1
  | .register reconciler _ path source language =>
      match reconciler.select source language with
      | .error _ => none
      | .ok _ => some (session.store.upsertFile path language.name).1
  | _ => none

def handedOut (session : Session) : List Operation → List FileRow
  | [] => []
  | operation :: rest => (session.registers? operation).toList ++ (session.step operation).handedOut rest

end Session

def NoNewFile (before after : Store) : Prop := after.lastFile = before.lastFile ∧ after.files ⊆ before.files

namespace Store

theorem same_frame_no_new (before after : Store) (frame : SameFrame before after) : NoNewFile before after :=
  ⟨frame.lastFile, fun _ member => frame.files ▸ member⟩

theorem replace_no_new (store after : Store) (fileId : Int) (chunks : List NewChunk) (removed : Nat)
    (replaced : store.replaceChunks fileId chunks = .ok (removed, after)) : NoNewFile store after :=
  same_frame_no_new store after (store.replace_frame after fileId chunks removed replaced)

theorem delete_file_no_new (store : Store) (path : String) : NoNewFile store (store.deleteFile path).2 := by
  obtain ⟨_, same⟩ | ⟨file, _, same⟩ := store.delete_file_cases path
  · simp [same, NoNewFile]
  · rw [same]
    exact ⟨(store.drop_chunks_frame file.id).lastFile, fun _ member => List.mem_of_mem_filter member⟩

theorem rows_of_gone (store : Store) (kept : WellKept store) (fileId : Int) (gone : fileId ∉ store.files.map (·.id)) :
    store.rowsOf fileId = [] := by
  apply List.filter_eq_nil_iff.mpr
  intro row member own
  have number : row.fileId = fileId := by simpa using own
  exact gone (number ▸ kept.owners row member)

theorem list_chunks_gone (store : Store) (kept : WellKept store) (fileId : Int) (gone : fileId ∉ store.files.map (·.id)) :
    store.listChunks fileId = .ok [] := by
  rw [listChunks, store.rows_of_gone kept fileId gone, List.mergeSort_nil]
  rfl

theorem replace_chunks_gone (store : Store) (fileId : Int) (chunks : List NewChunk)
    (gone : fileId ∉ store.files.map (·.id)) (some : chunks ≠ []) :
    ∃ error, store.replaceChunks fileId chunks = .error error := by
  cases replaced : store.replaceChunks fileId chunks with
  | error error => exact ⟨error, rfl⟩
  | ok swapped =>
      have able := ((store.replace_chunks_ok_iff swapped.2 fileId chunks swapped.1).mp replaced).1
      exact absurd (List.mem_map.mpr (able.owner.resolve_left some)) gone

theorem replace_chunks_none_gone (store after : Store) (kept : WellKept store) (fileId : Int) (removed : Nat)
    (gone : fileId ∉ store.files.map (·.id)) (replaced : store.replaceChunks fileId [] = .ok (removed, after)) :
    after = store := by
  obtain ⟨_, _, rfl⟩ := (store.replace_chunks_ok_iff after fileId [] removed).mp replaced
  have rows := store.rows_of_gone kept fileId gone
  have chunks : store.chunks.filter (·.fileId != fileId) = store.chunks := by
    simpa [rowsOf] using rows
  simp [putChunks, dropChunks, rows, deleteVectors, chunks]

end Store

namespace Session

theorem step_files (session : Session) (kept : WellKept session.store) (operation : Operation) :
    (∃ path language, session.registers? operation = some (session.store.upsertFile path language).1 ∧
      (session.step operation).store = (session.store.upsertFile path language).2) ∨
    (session.registers? operation = none ∧ NoNewFile session.store (session.step operation).store) := by
  have same : NoNewFile session.store session.store := ⟨rfl, fun _ member => member⟩
  cases operation with
  | upsertFile path language => exact .inl ⟨path, language, rfl, rfl⟩
  | register reconciler fresh path source language =>
      simp only [registers?, step]
      cases reconciler.select source language with
      | error error => exact .inr ⟨rfl, same⟩
      | ok elements => exact .inl ⟨path, language.name, rfl, rfl⟩
  | replaceChunks fileId chunks =>
      refine .inr ⟨rfl, keep_store session _ (NoNewFile session.store) same fun after mapped => ?_⟩
      obtain ⟨⟨removed, swapped⟩, replaced, rfl⟩ := map_ok _ _ _ mapped
      exact session.store.replace_no_new swapped fileId chunks removed replaced
  | deleteFile path => exact .inr ⟨rfl, session.store.delete_file_no_new path⟩
  | clear => exact .inr ⟨rfl, rfl, List.nil_subset _⟩
  | rebuild width =>
      refine .inr ⟨rfl, keep_store session _ (NoNewFile session.store) same fun after rebuilt => ?_⟩
      obtain ⟨_, rfl⟩ := (session.store.rebuild_ok_iff after width).mp rebuilt
      exact same
  | addFeedback chunkId kind comment => exact .inr ⟨rfl, same⟩
  | reopen requested =>
      refine .inr ⟨rfl, keep_store session _ (NoNewFile session.store) same fun after opened => ?_⟩
      rw [session.store.reopen_same kept requested] at opened
      exact Except.ok.inj opened ▸ same
  | commit position =>
      refine .inr ⟨rfl, ?_⟩
      simp only [step]
      cases session.pending[position]? with
      | none => exact same
      | some prepared =>
          refine keep_store session _ (NoNewFile session.store) same fun after mapped => ?_
          obtain ⟨⟨result, swapped⟩, committed, rfl⟩ := map_ok _ _ _ mapped
          obtain ⟨_, removed, replaced⟩ := commit_replaces session.store swapped prepared result committed
          exact session.store.replace_no_new swapped prepared.fileId prepared.chunks removed replaced
  | upsertVector id content vector metadata =>
      refine .inr ⟨rfl, keep_store session _ (NoNewFile session.store) same fun after upserted => ?_⟩
      obtain ⟨_, rfl⟩ := (session.store.upsert_vector_ok_iff after id content vector metadata).mp upserted
      exact same
  | deleteVectors ids =>
      exact .inr ⟨rfl, session.store.same_frame_no_new _ (session.store.delete_vectors_frame ids).1⟩

end Session

-- What holds of a session after rows were handed out: each file has one of them, all numbers are
-- behind the counter, and none stands for two paths.
structure Issued (session : Session) (rows : List FileRow) : Prop where
  kept : WellKept session.store
  bounded : ∀ row ∈ rows, row.id ≤ session.store.lastFile
  known : ∀ file ∈ session.store.files, ∃ row ∈ rows, row.id = file.id ∧ row.path = file.path
  onePath : ∀ row ∈ rows, ∀ other ∈ rows, row.id = other.id → row.path = other.path

namespace Store

theorem upsert_file_number (store : Store) (kept : WellKept store) (path language : String) :
    (∃ old ∈ store.files, old.id = (store.upsertFile path language).1.id ∧
      old.path = (store.upsertFile path language).1.path) ∨ store.lastFile < (store.upsertFile path language).1.id := by
  have member := (store.upsert_file_mem kept path language _).mpr (.inl rfl)
  rcases store.upsert_file_origin kept path language _ member with old | ⟨beyond, _⟩
  · exact .inl old
  · exact .inr beyond

theorem upsert_file_last (store : Store) (path language : String) :
    (store.upsertFile path language).2.lastFile = store.lastFile + 1 := by
  rw [upsert_file_rest]

end Store

theorem upsert_file_issued (session : Session) (rows : List FileRow) (issued : Issued session rows) (path language : String)
    (pending : List Prepared) : Issued ⟨(session.store.upsertFile path language).2, pending⟩
      (rows ++ [(session.store.upsertFile path language).1]) := by
  have kept := issued.kept
  have last := session.store.upsert_file_last path language
  have bound := session.store.upsert_file_bound kept path language
  have members := session.store.upsert_file_mem kept path language
  have own := (members _).mpr (.inl rfl)
  -- A row from before with the new row's number has its path: the number is old only if the file was known.
  have apart : ∀ row ∈ rows, row.id = (session.store.upsertFile path language).1.id →
      row.path = (session.store.upsertFile path language).1.path := by
    intro row listed same
    rcases session.store.upsert_file_number kept path language with ⟨old, stored, number, named⟩ | beyond
    · obtain ⟨before, beforeListed, beforeNumber, beforeNamed⟩ := issued.known old stored
      have onePath := issued.onePath row listed before beforeListed (by rw [same, beforeNumber, number])
      rw [onePath, beforeNamed, named]
    · have behind := issued.bounded row listed
      omega
  refine ⟨session.store.upsert_file_kept kept path language, ?_, ?_, ?_⟩
  · intro row listed
    rw [last]
    rcases List.mem_append.mp listed with old | new
    · exact Int.le_add_one (issued.bounded row old)
    · rw [List.mem_singleton.mp new]
      exact bound _ own
  · intro file stored
    rcases (members file).mp stored with rfl | ⟨old, _⟩
    · exact ⟨_, List.mem_append_right _ (List.mem_singleton.mpr rfl), rfl, rfl⟩
    · obtain ⟨row, listed, same⟩ := issued.known file old
      exact ⟨row, List.mem_append_left _ listed, same⟩
  · intro row listed other otherListed same
    rcases List.mem_append.mp listed with old | new
    · rcases List.mem_append.mp otherListed with otherOld | otherNew
      · exact issued.onePath row old other otherOld same
      · rw [List.mem_singleton.mp otherNew] at same ⊢
        exact apart row old same
    · rw [List.mem_singleton.mp new] at same ⊢
      rcases List.mem_append.mp otherListed with otherOld | otherNew
      · exact (apart other otherOld same.symm).symm
      · rw [List.mem_singleton.mp otherNew]

namespace Session

theorem step_issued (session : Session) (rows : List FileRow) (issued : Issued session rows) (operation : Operation) :
    Issued (session.step operation) (rows ++ (session.registers? operation).toList) := by
  rcases session.step_files issued.kept operation with ⟨path, language, handed, stored⟩ | ⟨none, last, files⟩
  · rw [handed]
    have registered := upsert_file_issued session rows issued path language (session.step operation).pending
    rw [← stored] at registered
    exact registered
  · rw [none, Option.toList_none, List.append_nil]
    exact ⟨session.step_kept issued.kept operation, last ▸ issued.bounded,
      fun file member => issued.known file (files member), issued.onePath⟩

theorem run_issued (session : Session) (rows : List FileRow) (issued : Issued session rows) (operations : List Operation) :
    Issued (session.run operations) (rows ++ session.handedOut operations) := by
  induction operations generalizing session rows with
  | nil => simpa [run, handedOut] using issued
  | cons operation rest ih =>
      have next := ih (session.step operation) _ (session.step_issued rows issued operation)
      rw [List.append_assoc] at next
      exact next

theorem run_one_path (session : Session) (rows : List FileRow) (issued : Issued session rows) (operations : List Operation)
    (file other : FileRow) (before : file ∈ session.store.files) (after : other ∈ (session.run operations).store.files)
    (same : file.id = other.id) : file.path = other.path := by
  have later := session.run_issued rows issued operations
  obtain ⟨row, listed, number, named⟩ := issued.known file before
  obtain ⟨twin, twinListed, twinNumber, twinNamed⟩ := later.known other after
  have onePath := later.onePath row (List.mem_append_left _ listed) twin twinListed (by rw [number, same, twinNumber])
  rw [← named, onePath, twinNamed]

def Retired (session : Session) (fileId : Int) : Prop :=
  fileId ≤ session.store.lastFile ∧ fileId ∉ session.store.files.map (·.id)

theorem step_retired (session : Session) (kept : WellKept session.store) (fileId : Int) (retired : session.Retired fileId)
    (operation : Operation) : (session.step operation).Retired fileId := by
  obtain ⟨behind, gone⟩ := retired
  rcases session.step_files kept operation with ⟨path, language, _, stored⟩ | ⟨_, last, files⟩
  · rw [Retired, stored, session.store.upsert_file_last]
    refine ⟨Int.le_add_one behind, ?_⟩
    rcases session.store.upsert_file_columns kept path language with ⟨_, ids⟩ | ⟨_, _, ids⟩
    · rw [ids]
      exact gone
    · rw [ids, List.mem_append, List.mem_singleton]
      rintro (old | new)
      · exact gone old
      · omega
  · refine ⟨last ▸ behind, fun back => gone ?_⟩
    obtain ⟨file, member, same⟩ := List.mem_map.mp back
    exact List.mem_map.mpr ⟨file, files member, same⟩

theorem run_retired (session : Session) (kept : WellKept session.store) (fileId : Int) (retired : session.Retired fileId)
    (operations : List Operation) : (session.run operations).Retired fileId := by
  induction operations generalizing session with
  | nil => exact retired
  | cons operation rest ih =>
      exact ih (session.step operation) (session.step_kept kept operation) (session.step_retired kept fileId retired operation)

theorem commit_retired (session : Session) (kept : WellKept session.store) (position : Nat) (prepared : Prepared)
    (waiting : session.pending[position]? = some prepared) (gone : prepared.fileId ∉ session.store.files.map (·.id)) :
    (session.step (.commit position)).store = session.store := by
  simp only [step, waiting]
  apply keep_store session _ (· = session.store) rfl
  intro after mapped
  obtain ⟨⟨result, swapped⟩, committed, rfl⟩ := map_ok _ _ _ mapped
  obtain ⟨_, removed, replaced⟩ := commit_replaces session.store swapped prepared result committed
  by_cases empty : prepared.chunks = []
  · rw [empty] at replaced
    exact session.store.replace_chunks_none_gone swapped kept prepared.fileId removed gone replaced
  · obtain ⟨error, failed⟩ := session.store.replace_chunks_gone prepared.fileId prepared.chunks gone empty
    rw [failed] at replaced
    cases replaced

end Session

theorem opened_issued (requested : Nat) (opened : Store) (fresh : Store.ofTables {} requested = .ok opened) :
    Issued ⟨opened, []⟩ [] := by
  have kept := (Store.opened_consistent requested opened fresh).kept
  obtain ⟨_, _, same⟩ := (bind_ok_iff (Width.check requested) _ opened).mp fresh
  cases same
  exact ⟨kept, fun _ listed => (nomatch listed), fun _ stored => (nomatch stored), fun _ listed => (nomatch listed)⟩

theorem file_numbers_permanent (requested : Nat) (opened : Store) (operations : List Operation) (session : Session)
    (fresh : Store.ofTables {} requested = .ok opened) (ran : session = Session.run ⟨opened, []⟩ operations) :
    (∀ file ∈ session.store.files, ∃ row ∈ Session.handedOut ⟨opened, []⟩ operations,
      row.id = file.id ∧ row.path = file.path) ∧
    (∀ path language, (session.store.upsertFile path language).1.path = path ∧
      (session.store.upsertFile path language).1.language = language ∧
      (session.store.upsertFile path language).2.files.filter (·.path == path) =
        [(session.store.upsertFile path language).1] ∧
      (session.store.upsertFile path language).2.files.filter (·.path != path) =
        session.store.files.filter (·.path != path)) ∧
    (∀ path language, ∀ file ∈ session.store.files, file.path = path →
      (session.store.upsertFile path language).1.id = file.id ∧
      (session.store.upsertFile path language).2.files.map (·.id) = session.store.files.map (·.id)) ∧
    (∀ path language, path ∉ session.store.files.map (·.path) →
      ∀ row ∈ Session.handedOut ⟨opened, []⟩ operations, row.id < (session.store.upsertFile path language).1.id) ∧
    (∀ row ∈ Session.handedOut ⟨opened, []⟩ operations, ∀ other ∈ Session.handedOut ⟨opened, []⟩ operations,
      row.id = other.id → row.path = other.path) ∧
    (∀ later, ∀ file ∈ session.store.files, ∀ other ∈ (session.run later).store.files,
      file.id = other.id → file.path = other.path) ∧
    ∀ row ∈ Session.handedOut ⟨opened, []⟩ operations, row.id ∉ session.store.files.map (·.id) → ∀ later,
      row.id ∉ (session.run later).store.files.map (·.id) ∧
      (session.run later).store.listChunks row.id = .ok [] ∧
      (∀ chunks, chunks ≠ [] → (∃ error, (session.run later).store.replaceChunks row.id chunks = .error error) ∧
        (session.run later).step (.replaceChunks row.id chunks) = session.run later) ∧
      ∀ position prepared, (session.run later).pending[position]? = some prepared → prepared.fileId = row.id →
        ((session.run later).step (.commit position)).store = (session.run later).store := by
  have issued := Session.run_issued ⟨opened, []⟩ [] (opened_issued requested opened fresh) operations
  rw [← ran, List.nil_append] at issued
  have kept := issued.kept
  refine ⟨issued.known, fun path language => ?_, ?_, ?_, issued.onePath,
    fun later file stored other => session.run_one_path _ issued later file other stored, ?_⟩
  · have registered := upsert_file_registers session.store kept path language
    exact ⟨(session.store.upsert_file_row kept path language).1, registered.language, registered.only, registered.others⟩
  · intro path language file stored named
    refine ⟨(session.store.upsert_file_row kept path language).2.2 file stored named, ?_⟩
    rcases session.store.upsert_file_columns kept path language with ⟨_, ids⟩ | ⟨absent, _⟩
    · exact ids
    · exact absurd (List.mem_map.mpr ⟨file, stored, named⟩) absent
  · intro path language absent row listed
    have behind := issued.bounded row listed
    rw [session.store.upsert_file_new path language ((session.store.file_by_path_none_iff path).mpr absent)]
    exact Int.lt_add_one_of_le behind
  · intro row listed missing later
    obtain ⟨_, gone⟩ := session.run_retired kept row.id ⟨issued.bounded row listed, missing⟩ later
    have laterKept := session.run_kept kept later
    refine ⟨gone, Store.list_chunks_gone _ laterKept row.id gone, fun chunks some => ?_, fun position prepared waiting same => ?_⟩
    · obtain ⟨error, failed⟩ := (session.run later).store.replace_chunks_gone row.id chunks gone some
      exact ⟨⟨error, failed⟩, failed_replacement_keeps (session.run later) row.id chunks error failed⟩
    · exact (session.run later).commit_retired laterKept position prepared waiting (same ▸ gone)

def overtaken : List Operation :=
  [.register wholeFiles ChunkId.serial "a.py" plainSource .python, .deleteFile "a.py"]

-- The path is registered again before the call goes on: it has a number of its own and gets none of the chunks.
theorem overtaken_call_writes_nothing :
    ∃ session, session = Session.run ⟨⟨{ declaration := some (Width.declaration 1) }, 1⟩, []⟩ overtaken ∧
      1 < (session.store.upsertFile "a.py" "python").1.id ∧
      (session.store.upsertFile "a.py" "python").2.files.filter (·.path == "a.py") =
        [(session.store.upsertFile "a.py" "python").1] ∧
      (session.run [.upsertFile "a.py" "python"]).store.listChunks 1 = .ok [] ∧
      (∃ error, (session.run [.upsertFile "a.py" "python"]).store.replaceChunks 1 [oneLiner 0 3] = .error error) ∧
      ((session.run [.upsertFile "a.py" "python"]).step (.commit 0)).store =
        (session.run [.upsertFile "a.py" "python"]).store := by
  refine ⟨_, rfl, ?_⟩
  have row : ⟨1, "a.py", "python"⟩ ∈ Session.handedOut ⟨⟨{ declaration := some (Width.declaration 1) }, 1⟩, []⟩ overtaken := by
    decide +kernel
  obtain ⟨_, present, _, beyond, _, _, retired⟩ := file_numbers_permanent 1 _ overtaken _ rfl rfl
  obtain ⟨_, listing, refused, late⟩ := retired _ row (by decide +kernel) [.upsertFile "a.py" "python"]
  have held : ((Session.run ⟨⟨{ declaration := some (Width.declaration 1) }, 1⟩, []⟩ overtaken).run
      [.upsertFile "a.py" "python"]).pending[0]?.map (·.fileId) = some 1 := by
    decide +kernel
  obtain ⟨prepared, waiting, same⟩ := Option.map_eq_some_iff.mp held
  obtain ⟨_, _, only, _⟩ := present "a.py" "python"
  exact ⟨beyond "a.py" "python" (by decide +kernel) _ row, only, listing, (refused [oneLiner 0 3] (List.cons_ne_nil _ _)).1,
    late 0 prepared waiting same⟩

end CodeIndex
