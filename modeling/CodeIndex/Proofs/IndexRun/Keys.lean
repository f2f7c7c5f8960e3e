import Mathlib.Data.List.Dedup
import CodeIndex.Proofs.Agreement
import CodeIndex.Proofs.IndexRun
import CodeIndex.Proofs.Workspace.Walk

set_option autoImplicit false

namespace CodeIndex

theorem key_plain (path : String) (plain : '\\' ∉ path.toList) : Path.key path = path := by
  have same : (path.toList.map fun c => if c = '\\' then '/' else c) = path.toList := by
    refine (List.map_congr_left fun c member => if_neg ?_).trans (List.map_id _)
    rintro rfl
    exact plain member
  rw [Path.key, same, String.ofList_toList]

def IndexOptions.keys (options : IndexOptions) (files : List FoundFile) : List String :=
  (options.processed files).map (·.key)

def Store.filesAt (store : Store) (keys : List String) : List FileRow := store.files.filter fun row => row.path ∈ keys

def FoundFile.listing (file : FoundFile) (reconciler : Reconciler) (width : Nat) : Listing :=
  ⟨file.language.name, (file.call reconciler).passages width⟩

theorem keys_plain (options : IndexOptions) (files : List FoundFile) (paths : (files.map (·.path)).Nodup)
    (plain : ∀ file ∈ files, '\\' ∉ file.path.toList) : (options.keys files).Nodup := by
  have sublist := options.processed_sublist files
  have same : options.keys files = (options.processed files).map (·.path) :=
    List.map_congr_left fun file processed => key_plain file.path (plain file (sublist.subset processed))
  rw [same]
  exact paths.sublist (sublist.map _)

theorem dedup_length_iff (keys : List String) : keys.dedup.length = keys.length ↔ keys.Nodup :=
  ⟨fun same => List.dedup_eq_self.mp ((List.dedup_sublist keys).eq_of_length same), fun distinct => by rw [distinct.dedup]⟩

section IndexFiles

variable (reconciler : Reconciler) (options : IndexOptions) (files : List FoundFile) (fresh : Nat → ChunkId) (store : Store)
  (kept : WellKept store) (spare : Spare store (reconciler.idsFor options fresh store.dimensions files))

include kept spare

theorem index_files_listing (path : String) (file : FoundFile) (last : options.last? files path = some file) :
    (reconciler.indexFiles options fresh store files).2.listing? path = some (file.listing reconciler store.dimensions) := by
  have holds := index_files_hold reconciler options files fresh store kept spare
  have processed := List.mem_reverse.mp (List.mem_of_find?_eq_some last)
  have succeeds := ((options.processed_mem files file).mp processed).2.2
  rw [← options.latest_last reconciler] at last
  obtain ⟨i, here, rfl⟩ := Option.map_eq_some_iff.mp last
  obtain ⟨fails, _⟩ | ⟨_, _, language, _⟩ := ((options.accepted files).get i).call_cases reconciler
  · exact absurd (succeeds.symm.trans fails) (by decide)
  · rw [holds.listing kept, outcome, here, FoundFile.listing, ← language]
    rfl

theorem index_files_paths :
    (((reconciler.indexFiles options fresh store files).2.filesAt (options.keys files)).map (·.path)).Perm
      (options.keys files).dedup := by
  have holds := index_files_hold reconciler options files fresh store kept spare
  refine (List.perm_ext_iff_of_nodup (holds.kept.paths.sublist (List.filter_sublist.map _)) (List.nodup_dedup _)).mpr fun path => ?_
  rw [List.mem_dedup]
  constructor
  · intro listed
    obtain ⟨row, member, rfl⟩ := List.mem_map.mp listed
    exact of_decide_eq_true (List.mem_filter.mp member).2
  · intro listed
    obtain ⟨file, processed, rfl⟩ := List.mem_map.mp listed
    obtain ⟨accepted, succeeds⟩ := List.mem_filter.mp processed
    obtain ⟨i, rfl⟩ := List.mem_iff_get.mp accepted
    obtain ⟨row, member, named⟩ := holds.files.present i ((processed_at_mem _ i).mpr (by simpa using succeeds))
    rw [callOf, FoundFile.call_path] at named
    exact List.mem_map.mpr ⟨row, List.mem_filter.mpr ⟨member, decide_eq_true (named ▸ listed)⟩, named⟩

theorem index_files_total (distinct : (options.keys files).Nodup) :
    (((reconciler.indexFiles options fresh store files).2.filesAt (options.keys files)).map fun row =>
      ((reconciler.indexFiles options fresh store files).2.rowsOf row.id).length).sum =
    ((options.processed files).map fun file => (file.embedded reconciler store.dimensions).length).sum := by
  have holds := index_files_hold reconciler options files fresh store kept spare
  have paths := index_files_paths reconciler options files fresh store kept spare
  have rows := index_files_rows reconciler options files fresh store kept spare
  generalize (reconciler.indexFiles options fresh store files).2 = after at *
  have own (row : FileRow) (member : row ∈ after.filesAt (options.keys files)) :
      (after.rowsOf row.id).length = (after.rowsAt row.path).length := by
    have known := List.mem_of_mem_filter member
    rw [Store.rowsAt, (after.file_by_path_iff holds.kept row.path row).mpr ⟨known, rfl⟩]
    rfl
  calc ((after.filesAt (options.keys files)).map fun row => (after.rowsOf row.id).length).sum
      = (((after.filesAt (options.keys files)).map (·.path)).map fun path => (after.rowsAt path).length).sum := by
        rw [List.map_map]
        exact congrArg List.sum (List.map_congr_left own)
    _ = ((options.keys files).map fun path => (after.rowsAt path).length).sum := by
        rw [distinct.dedup] at paths
        exact (paths.map _).sum_nat
    _ = ((options.processed files).map fun file => (file.embedded reconciler store.dimensions).length).sum := by
        rw [IndexOptions.keys, List.map_map]
        exact congrArg List.sum (List.map_congr_left fun file processed =>
          (rows _ file (options.last_distinct files distinct file processed)).1)

end IndexFiles

theorem index_run_rows_follow_keys (workspace : Workspace) (tidy : Tidy workspace.items) (path : String) (deep : Bool)
    (files : List FoundFile) (walked : workspace.walk path deep = files) (store : Store) (reachable : Reachable store)
    (reconciler : Reconciler) (options : IndexOptions) (fresh : Nat → ChunkId)
    (spare : Spare store (reconciler.idsFor options fresh store.dimensions files)) (summary : IndexSummary) (after : Store)
    (done : reconciler.indexFiles options fresh store files = (summary, after)) :
    (files.map (·.path)).Nodup ∧
    ((∀ file ∈ files, '\\' ∉ file.path.toList) → (options.keys files).Nodup) ∧
    (∀ key file, options.last? files key = some file →
      after.listing? key = some (file.listing reconciler store.dimensions)) ∧
    (after.filesAt (options.keys files)).length = (options.keys files).dedup.length ∧
    ((after.filesAt (options.keys files)).length = summary.filesProcessed ↔ (options.keys files).Nodup) ∧
    ((options.keys files).Nodup →
      (∀ file ∈ options.processed files, after.listing? file.key = some (file.listing reconciler store.dimensions)) ∧
      ((after.filesAt (options.keys files)).map fun row => (after.rowsOf row.id).length).sum = summary.chunksAdded) := by
  have kept := reachable_kept store reachable
  have paths : (files.map (·.path)).Nodup := walked ▸ walk_paths_distinct workspace tidy path deep
  have counted := index_files_tally reconciler options files fresh store kept spare
  have listed := index_files_listing reconciler options files fresh store kept spare
  have written := (index_files_paths reconciler options files fresh store kept spare).length_eq
  have total := index_files_total reconciler options files fresh store kept spare
  rw [done] at counted listed written total
  rw [List.length_map] at written
  subst counted
  have processed : (options.keys files).length = (tally reconciler store.dimensions (options.accepted files)).filesProcessed :=
    List.length_map _
  refine ⟨paths, keys_plain options files paths, listed, written, ?_, fun distinct => ⟨fun file member => ?_, total distinct⟩⟩
  · rw [← processed, written]
    exact dedup_length_iff (options.keys files)
  · exact listed _ file (options.last_distinct files distinct file member)

def pair (name : String) : Workspace :=
  .dir [("a", .dir [("b.py", .file (.source plainSource))]), (name, .file (.source plainSource))]

def pairFiles (name : String) : List FoundFile := [⟨"./a/b.py", .source plainSource⟩, ⟨"./" ++ name, .source plainSource⟩]

def pairRun (name : String) : IndexSummary × Store := wholeFiles.indexFiles {} ChunkId.serial emptyStore (pairFiles name)

theorem pair_tidy (name : String) (plain : PlainName name) (other : name ≠ "a") : Tidy (pair name).items := by
  have below : Tidy [("b.py", .file (.source plainSource))] := .file _ _ _ ⟨by decide, by decide⟩ (by decide) .nil
  exact .dir _ _ _ ⟨by decide, by decide⟩ (by simpa using other.symm) below (.file _ _ _ plain (by simp) .nil)

theorem pair_walk (name : String) (known : name = "b.py" ∨ name = "a\\b.py") :
    (pair name).walk "." true = pairFiles name := by
  have located : (pair name).locate "." = .ok [] := rfl
  rw [Workspace.walk, located]
  simp only [pair, Entry.find?, Walk.files]
  rcases known with rfl | rfl
  · rfl
  · rfl

theorem strangers_keep_rows : (pairRun "b.py").1 = ⟨2, 0, 2, 0⟩ ∧
    ((pairRun "b.py").2.filesAt ["./a/b.py", "./b.py"]).length = 2 ∧
    (((pairRun "b.py").2.filesAt ["./a/b.py", "./b.py"]).map fun row => ((pairRun "b.py").2.rowsOf row.id).length).sum = 2 := by
  have spare : Spare emptyStore (wholeFiles.idsFor {} ChunkId.serial emptyStore.dimensions (pairFiles "b.py")) :=
    ⟨by decide +kernel, by decide +kernel⟩
  have counted : (pairRun "b.py").1 = ⟨2, 0, 2, 0⟩ := by decide +kernel
  have keys : ({} : IndexOptions).keys (pairFiles "b.py") = ["./a/b.py", "./b.py"] := by decide +kernel
  obtain ⟨_, plain, _, written, _, whole⟩ := index_run_rows_follow_keys (pair "b.py")
    (pair_tidy "b.py" ⟨by decide, by decide⟩ (by decide)) "." true (pairFiles "b.py") (pair_walk "b.py" (.inl rfl)) emptyStore
    ⟨1, emptyStore, [], rfl, rfl⟩ wholeFiles {} ChunkId.serial spare (pairRun "b.py").1 (pairRun "b.py").2 rfl
  have total := (whole (plain (by decide +kernel))).2
  rw [keys] at written total
  rw [counted] at total
  exact ⟨counted, written, total⟩

-- But for the backslash the name of one file is the path of the other: both are brought in line, and one row and one chunk are left.
theorem twins_share_row : Tidy (pair "a\\b.py").items ∧ (pair "a\\b.py").walk "." true = pairFiles "a\\b.py" ∧
    (pairRun "a\\b.py").1 = ⟨2, 0, 2, 0⟩ ∧ (pairRun "a\\b.py").2.files.length = 1 ∧
    (pairRun "a\\b.py").2.chunks.length = 1 :=
  ⟨pair_tidy "a\\b.py" ⟨by decide, by decide⟩ (by decide), pair_walk "a\\b.py" (.inr rfl), by decide +kernel, by decide +kernel,
    by decide +kernel⟩

end CodeIndex
