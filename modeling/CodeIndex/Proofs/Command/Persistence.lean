import CodeIndex.Command.Run
import CodeIndex.Proofs.Reconcile.Forgetting
import CodeIndex.Proofs.Workspace.Databases
import Mathlib.Logic.Relation

set_option autoImplicit false

namespace CodeIndex

def Tables.Reopened (before after : Tables) : Prop :=
  after = before ∨ before.declaration = none ∧ ∃ width, Width.check width = .ok () ∧
    after = { before with declaration := some (Width.declaration width) }

def Tables.Sound (tables : Tables) : Prop := tables = {} ∨ ∃ store : Store, WellKept store ∧ store.toTables = tables

namespace Store

theorem of_tables_reopened (tables : Tables) (width : Nat) (store : Store) (opened : Store.ofTables tables width = .ok store) :
    tables.Reopened store.toTables := by
  rw [ofTables] at opened
  cases declared : tables.declaration with
  | some declaration =>
      simp only [declared] at opened
      cases opened
      exact .inl rfl
  | none =>
      simp only [declared] at opened
      obtain ⟨_, possible, same⟩ := (bind_ok_iff _ _ _).mp opened
      cases same
      exact .inr ⟨declared, width, possible, rfl⟩

theorem of_tables_kept (tables : Tables) (sound : tables.Sound) (width : Nat) (store : Store)
    (opened : Store.ofTables tables width = .ok store) : WellKept store := by
  rcases sound with rfl | ⟨before, kept, rfl⟩
  · exact (Store.opened_consistent width store opened).kept
  · rw [before.reopen_same kept width] at opened
    cases opened
    exact kept

theorem reopened_same (store : Store) (kept : WellKept store) (tables : Tables) (reopened : store.toTables.Reopened tables) :
    tables = store.toTables := by
  rcases reopened with same | ⟨undeclared, _⟩
  · exact same
  · rw [kept.declared] at undeclared
    cases undeclared

end Store

theorem Tables.reopened_sound (before after : Tables) (sound : before.Sound) (reopened : before.Reopened after) : after.Sound := by
  rcases sound with rfl | ⟨store, kept, rfl⟩
  · rcases reopened with rfl | ⟨_, width, possible, rfl⟩
    · exact .inl rfl
    · have opened : Store.ofTables {} width = .ok ⟨{ declaration := some (Width.declaration width) }, width⟩ :=
        (bind_ok_iff _ _ _).mpr ⟨(), possible, rfl⟩
      exact .inr ⟨_, (Store.opened_consistent width _ opened).kept, rfl⟩
  · exact .inr ⟨store, kept, (store.reopened_same kept after reopened).symm⟩

namespace Workspace

-- Every database is as it was, or was opened and no more; where none was, there may be a new one without rows.
def Undisturbed (before after : Workspace) : Prop :=
  ∀ names, after.database? names = before.database? names ∨
    ∃ tables, after.database? names = some tables ∧ ((before.database? names).getD {}).Reopened tables

def Sound (workspace : Workspace) : Prop := ∀ names tables, workspace.database? names = some tables → tables.Sound

theorem same_undisturbed (before after : Workspace) (same : Entry.SameDatabases before after) : before.Undisturbed after :=
  fun names => .inl (same names)

theorem sound_tables (workspace : Workspace) (sound : workspace.Sound) (names : List String) :
    ((workspace.database? names).getD {}).Sound := by
  cases found : workspace.database? names with
  | none => exact .inl rfl
  | some tables => exact sound names tables found

theorem write_vacant (workspace : Workspace) (names : List String) (vacant : workspace.Vacant names) (content : Content) :
    (workspace.write names content).Vacant names := by
  constructor
  · intro items found
    rw [Entry.write, Entry.find_alter_here] at found
    cases found
  · obtain ⟨items, parent⟩ := vacant.above
    rcases names.eq_nil_or_concat with rfl | ⟨above, last, rfl⟩
    · exact absurd parent (vacant.free items)
    · rw [List.concat_eq_append, List.dropLast_concat]
      exact Entry.find_alter_above _ _ above last []

end Workspace

def Surroundings.Opens (around : Surroundings) (config : Config) (names : List String) (store : Store)
    (opened : Workspace) : Prop :=
  around.workspace.openDatabase (around.database config) config.model.dimensions.toNat = (.ok (.file names, store), opened)

theorem Store.delete_file_width (store : Store) (path : String) : (store.deleteFile path).2.dimensions = store.dimensions := by
  obtain ⟨_, same⟩ | ⟨file, _, same⟩ := store.delete_file_cases path
  · rw [same]
  · rw [same]
    exact (store.drop_chunks_frame file.id).dimensions

theorem Revision.index_width (revision : Revision) (store : Store) (path : String) :
    (revision.index store path).2.dimensions = store.dimensions := by
  have registered : (store.upsertFile path revision.language.name).2.dimensions = store.dimensions := by
    rw [store.upsert_file_rest path revision.language.name]
  obtain ⟨_, same⟩ | ⟨_, same⟩ | ⟨_, after, _, removed, same, replaced⟩ := revision.index_cases store path
  · rw [same]
  · rw [same]
    exact registered
  · rw [same]
    exact (Store.replace_frame _ after _ _ removed replaced).dimensions.trans registered

namespace Reconciler

section
variable (reconciler : Reconciler) (fresh : Nat → ChunkId) (holds : Store → Prop)
  (index : ∀ (revision : Revision) (store : Store) (path : String), holds store → holds (revision.index store path).2)
include index

theorem index_file_keeps (store : Store) (before : holds store) (file : FoundFile) :
    holds (reconciler.indexFile fresh store file).2 := by
  rw [indexFile]
  cases file.content with
  | database tables => exact before
  | binary bytes => exact before
  | source source =>
      simp only
      generalize Path.key file.path = path
      generalize Language.ofExtension (Path.extension file.path) = language
      have indexed := index ⟨reconciler, fresh, source, language⟩ store path before
      rw [Revision.index] at indexed
      cases done : reconciler.reconcile fresh store path source language with
      | mk result after =>
          rw [done] at indexed
          cases result with
          | error error => exact indexed
          | ok result => exact indexed

theorem index_next_keeps (state : IndexSummary × Store) (before : holds state.2) (file : FoundFile) :
    holds (reconciler.indexNext fresh state file).2 := by
  rw [indexNext]
  exact reconciler.index_file_keeps _ holds index state.2 before file

theorem index_run_keeps (files : List FoundFile) (state : IndexSummary × Store) (before : holds state.2) :
    holds (files.foldl (reconciler.indexNext fresh) state).2 := by
  induction files generalizing state with
  | nil => exact before
  | cons file rest ih => exact ih _ (reconciler.index_next_keeps fresh holds index state before file)

theorem index_files_keep (options : IndexOptions) (files : List FoundFile) (store : Store) (before : holds store) :
    holds (reconciler.indexFiles options fresh store files).2 :=
  reconciler.index_run_keeps fresh holds index _ ({}, store) before

end

end Reconciler

namespace Command

section
variable {around : Surroundings} {config : Config} {names : List String} {store : Store} {opened : Workspace}

theorem opens_tables (opens : around.Opens config names store opened) :
    Store.ofTables ((around.workspace.database? names).getD {}) config.model.dimensions.toNat = .ok store := by
  have opening := around.workspace.open_database_cases (around.database config) config.model.dimensions.toNat
  rw [opens] at opening
  cases opening with
  | opened _ above _ same vacant found =>
      rw [same names] at found
      exact found

theorem opens_written (opens : around.Opens config names store opened) (tables : Tables) (other : List String) :
    (opened.write names (.database tables)).database? other =
      if other = names then some tables else around.workspace.database? other := by
  have opening := around.workspace.open_database_cases (around.database config) config.model.dimensions.toNat
  rw [opens] at opening
  cases opening with
  | opened _ above _ same vacant found =>
      rw [Entry.write_databases _ names (above.write_vacant names vacant _) tables other]
      by_cases here : other = names
      · rw [if_pos here, if_pos here]
      · rw [if_neg here, if_neg here, Entry.write_databases above names vacant, if_neg here]
        exact same other

theorem invoke_opened (opens : around.Opens config names store opened) (fresh : Nat → ChunkId) (command : Command) :
    invoke around config fresh command =
      ((execute { around with workspace := opened } config fresh store command).1,
       opened.write names (.database (execute { around with workspace := opened } config fresh store command).2.toTables)) := by
  rw [Surroundings.Opens] at opens
  rw [invoke, opens]
  rfl

theorem invoke_written (opens : around.Opens config names store opened) (fresh : Nat → ChunkId) (command : Command)
    (other : List String) : (invoke around config fresh command).2.database? other =
      if other = names then some (execute { around with workspace := opened } config fresh store command).2.toTables
      else around.workspace.database? other := by
  rw [invoke_opened opens]
  exact opens_written opens _ other

end

theorem invoke_cases (around : Surroundings) (config : Config) (fresh : Nat → ChunkId) (command : Command) :
    around.workspace.Undisturbed (invoke around config fresh command).2 ∨
    ∃ names store opened, around.Opens config names store opened := by
  have opening := around.workspace.open_database_cases (around.database config) config.model.dimensions.toNat
  generalize result : around.workspace.openDatabase (around.database config) config.model.dimensions.toNat = done at opening
  cases opening with
  | nowhere failure after same =>
      rw [invoke, result]
      exact .inl (around.workspace.same_undisturbed after same)
  | passing store after same =>
      rw [invoke, result]
      exact .inl (around.workspace.same_undisturbed after same)
  | refused failure above names same vacant =>
      rw [invoke, result]
      refine .inl fun other => ?_
      rw [Entry.write_databases above names vacant]
      by_cases here : other = names
      · subst here
        rw [if_pos rfl, same other]
        exact .inr ⟨_, rfl, .inl rfl⟩
      · rw [if_neg here]
        exact .inl (same other)
  | opened store above names same vacant found =>
      exact .inr ⟨names, store, _, result⟩

theorem invoke_undisturbed (around : Surroundings) (config : Config) (fresh : Nat → ChunkId) (command : Command)
    (idle : ∀ names store opened, around.Opens config names store opened →
      (execute { around with workspace := opened } config fresh store command).2 = store) :
    around.workspace.Undisturbed (invoke around config fresh command).2 := by
  rcases invoke_cases around config fresh command with undisturbed | ⟨names, store, opened, opens⟩
  · exact undisturbed
  · intro other
    rw [invoke_written opens, idle names store opened opens]
    by_cases here : other = names
    · subst here
      rw [if_pos rfl]
      exact .inr ⟨_, rfl, store.of_tables_reopened _ _ (opens_tables opens)⟩
    · rw [if_neg here]
      exact .inl rfl

theorem execute_store (around : Surroundings) (config : Config) (fresh : Nat → ChunkId) (store : Store) (command : Command)
    (holds : Store → Prop) (before : holds store)
    (index : ∀ (revision : Revision) (store : Store) (path : String), holds store → holds (revision.index store path).2)
    (addFeedback : ∀ chunk kind comment, holds (store.addFeedback chunk kind comment).2)
    (deleteFile : ∀ path, holds (store.deleteFile path).2) (clear : command = .clear → holds (runClear config store).2) :
    holds (execute around config fresh store command).2 := by
  cases command with
  | index path extensions flat =>
      rw [execute, runIndex]
      cases embedder around config store with
      | error failure => exact before
      | ok embedder => exact Reconciler.index_files_keep _ _ holds index _ _ store before
  | files => exact before
  | chunks fileId => exact before
  | addFeedback chunk kind comment => exact addFeedback chunk kind comment
  | listFeedback chunk => exact before
  | search query k => exact before
  | forget path => exact deleteFile path
  | stats => exact before
  | clear => exact clear rfl

theorem run_clear_cases (config : Config) (store : Store) :
    (store.dimensions = config.model.dimensions.toNat ∧
      runClear config store = (.ok (.cleared config.model.dimensions.toNat), store.clear)) ∨
    (∃ error, store.clear.rebuild config.model.dimensions.toNat = .error error ∧
      runClear config store = (.error (.store error), store.clear)) ∨
    ∃ rebuilt, store.clear.rebuild config.model.dimensions.toNat = .ok rebuilt ∧
      runClear config store = (.ok (.cleared config.model.dimensions.toNat), rebuilt) := by
  rw [runClear]
  by_cases fits : store.dimensions = config.model.dimensions.toNat
  · exact .inl ⟨fits, if_pos fits⟩
  · have unfit : ¬ store.clear.dimensions = config.model.dimensions.toNat := fits
    simp only [unfit, if_false]
    cases store.clear.rebuild config.model.dimensions.toNat with
    | error error => exact .inr (.inl ⟨error, rfl, rfl⟩)
    | ok rebuilt => exact .inr (.inr ⟨rebuilt, rfl, rfl⟩)

theorem run_clear_kept (config : Config) (store : Store) (kept : WellKept store) : WellKept (runClear config store).2 := by
  have cleared := (store.clear_consistent kept).kept
  obtain ⟨_, same⟩ | ⟨_, _, same⟩ | ⟨rebuilt, done, same⟩ := run_clear_cases config store
  · rw [same]
    exact cleared
  · rw [same]
    exact cleared
  · rw [same]
    exact (store.clear.rebuild_consistent rebuilt cleared _ done).kept

theorem execute_kept (around : Surroundings) (config : Config) (fresh : Nat → ChunkId) (store : Store) (kept : WellKept store)
    (command : Command) : WellKept (execute around config fresh store command).2 := by
  apply execute_store around config fresh store command WellKept kept
  · exact fun revision store path kept => revision.index_kept store kept path
  · exact store.add_feedback_kept kept
  · exact store.delete_file_kept kept
  · exact fun _ => run_clear_kept config store kept

theorem execute_width (around : Surroundings) (config : Config) (fresh : Nat → ChunkId) (store : Store) (command : Command)
    (other : command ≠ .clear) : (execute around config fresh store command).2.dimensions = store.dimensions := by
  apply execute_store around config fresh store command (·.dimensions = store.dimensions) rfl
  · exact fun revision before path same => (revision.index_width before path).trans same
  · exact fun _ _ _ => rfl
  · exact store.delete_file_width
  · exact fun same => absurd same other

end Command

inductive Use (allowed : Command → Prop) (before : Workspace) : Workspace → Prop where
  | command (environment : Option String) (readModel : Content → ModelFile) (config : Config) (fresh : Nat → ChunkId)
      (command : Command) (permitted : allowed command) :
      Use allowed before (Command.invoke ⟨before, environment, readModel⟩ config fresh command).2
  | edit (after : Workspace) (same : Entry.SameDatabases before after) : Use allowed before after

def Used (workspace : Workspace) : Prop :=
  ∃ start : Workspace, (∀ names, start.database? names = none) ∧ Relation.ReflTransGen (Use fun _ => True) start workspace

-- At one place a step changes nothing, or makes a vector table, or puts there what a command made of the store.
theorem Use.effect (allowed : Command → Prop) (before after : Workspace) (step : Use allowed before after) (names : List String) :
    (after.database? names = before.database? names ∨
      ∃ tables, after.database? names = some tables ∧ ((before.database? names).getD {}).Reopened tables) ∨
    ∃ around config fresh command store, allowed command ∧
      Store.ofTables ((before.database? names).getD {}) config.model.dimensions.toNat = .ok store ∧
      after.database? names = some (Command.execute around config fresh store command).2.toTables := by
  cases step with
  | edit _ same => exact .inl (.inl (same names))
  | command environment readModel config fresh command permitted =>
      rcases Command.invoke_cases ⟨before, environment, readModel⟩ config fresh command with undisturbed | ⟨place, store, opened, opens⟩
      · exact .inl (undisturbed names)
      · have written := Command.invoke_written opens fresh command names
        by_cases here : names = place
        · subst here
          exact .inr ⟨_, config, fresh, command, store, permitted, Command.opens_tables opens, written.trans (if_pos rfl)⟩
        · exact .inl (.inl (written.trans (if_neg here)))

theorem Use.sound (allowed : Command → Prop) (before after : Workspace) (step : Use allowed before after) (sound : before.Sound) :
    after.Sound := by
  intro names tables found
  obtain (same | ⟨later, written, reopened⟩) | ⟨around, config, fresh, command, store, _, opens, written⟩ :=
    step.effect allowed before after names
  · exact sound names tables (same.symm.trans found)
  · cases written.symm.trans found
    exact Tables.reopened_sound _ _ (before.sound_tables sound names) reopened
  · cases written.symm.trans found
    have kept := store.of_tables_kept _ (before.sound_tables sound names) _ opens
    exact .inr ⟨_, Command.execute_kept around config fresh store kept command, rfl⟩

theorem used_sound (workspace : Workspace) (used : Used workspace) : workspace.Sound := by
  obtain ⟨start, blank, uses⟩ := used
  induction uses with
  | refl =>
      intro names tables found
      rw [blank names] at found
      cases found
  | tail _ step ih => exact step.sound _ _ _ ih

theorem opens_kept (around : Surroundings) (used : Used around.workspace) (config : Config) (names : List String) (store : Store)
    (opened : Workspace) (opens : around.Opens config names store opened) : WellKept store :=
  store.of_tables_kept _ (around.workspace.sound_tables (used_sound around.workspace used) names) _ (Command.opens_tables opens)

def Surroundings.store? (around : Surroundings) (config : Config) (names : List String) : Option Store :=
  match (around.workspace.openDatabase (around.database config) config.model.dimensions.toNat).1 with
  | .ok (.file found, store) => if found = names then some store else none
  | _ => none

theorem store_opens (around : Surroundings) (config : Config) (names : List String) (store : Store)
    (found : around.store? config names = some store) : ∃ opened, around.Opens config names store opened := by
  rw [Surroundings.store?] at found
  cases result : around.workspace.openDatabase (around.database config) config.model.dimensions.toNat with
  | mk first opened =>
      rw [result] at found
      cases first with
      | error failure => cases found
      | ok both =>
          obtain ⟨home, other⟩ := both
          cases home with
          | passing => cases found
          | file place =>
              by_cases here : place = names
              · simp only [here, if_true] at found
                cases found
                exact ⟨opened, here ▸ result⟩
              · simp [here] at found

def ofWidth (width : UInt64) : Config := { model := { dimensions := width } }

def notes : Workspace := .dir [("notes.txt", .file (.source ⟨"note", .error .noTree⟩))]

def among (workspace : Workspace) : Surroundings := ⟨workspace, none, fun _ => .unreadable⟩

def indexedNotes : Workspace :=
  (Command.invoke (among notes) (ofWidth 4) ChunkId.serial (.index (some "notes.txt") ["txt"] false)).2

def ratedNotes : Surroundings :=
  among (Command.invoke (among indexedNotes) (ofWidth 4) ChunkId.serial (.addFeedback "c" "up" none)).2

def notesPlace : List String := [".devflow", "devflow.db"]

theorem notes_blank (names : List String) : notes.database? names = none := by
  cases names with
  | nil => rfl
  | cons name rest =>
      rw [Entry.database?, Entry.find?, notes, Entry.items, Entry.lookup_cons]
      by_cases here : name = "notes.txt"
      · rw [if_pos here]
        cases rest with
        | nil => rfl
        | cons next rest => rfl
      · rw [if_neg here]
        rfl

theorem rated_notes_used : Used ratedNotes.workspace := by
  have indexed : Use (fun _ => True) notes indexedNotes := by
    rw [indexedNotes]
    exact .command none _ (ofWidth 4) ChunkId.serial (.index (some "notes.txt") ["txt"] false) trivial
  have rated : Use (fun _ => True) indexedNotes ratedNotes.workspace := by
    simp only [ratedNotes, among]
    exact .command none _ (ofWidth 4) ChunkId.serial (.addFeedback "c" "up" none) trivial
  exact ⟨notes, notes_blank, .tail (.single indexed) rated⟩

end CodeIndex
