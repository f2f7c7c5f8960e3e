import CodeIndex.Proofs.IndexRun

set_option autoImplicit false

namespace CodeIndex

section Again

variable {n : Nat} {calls : Fin n → Call} {mint other : Fin n → Nat → ChunkId} {start after again : Store}
  {made : List (Fin n)} (first : Holds calls mint start made made after) (second : Holds calls other after made made again)

include first second

theorem again_files (path : String) : again.fileByPath? path = after.fileByPath? path := by
  cases last : latest calls path made with
  | none => exact (second.unchanged first.kept path last).file
  | some i =>
      obtain ⟨listed, named⟩ := latest_made calls path made i last
      obtain ⟨file, member, same⟩ := first.files.present i listed
      obtain ⟨later, laterMember, number, laterPath⟩ := second.files.known file member
      have here : file.path = path := same.trans named
      have there : later.path = path := laterPath.trans here
      have language : later.language = file.language := by
        rw [second.files.language later laterMember i (there ▸ last), first.files.language file member i (here ▸ last)]
      have equal : later = file := by
        cases later
        cases file
        cases number
        cases laterPath
        cases language
        rfl
      rw [(after.file_by_path_iff first.kept path file).mpr ⟨member, here⟩,
        (again.file_by_path_iff second.kept path file).mpr ⟨equal ▸ laterMember, here⟩]

theorem again_listing (kept : WellKept start) (path : String) : again.listing? path = after.listing? path := by
  rw [second.listing first.kept, outcome]
  cases last : latest calls path made with
  | none => rfl
  | some i =>
      rw [first.listing kept, outcome, last]
      simp only [Option.map_some, Option.getD_some, first.counts.dimensions]

end Again

theorem index_run_accounts_for_files (store : Store) (reachable : Reachable store) (reconciler : Reconciler)
    (options : IndexOptions) (files : List FoundFile) (keys : (files.map (·.key)).Nodup) (fresh : Nat → ChunkId)
    (spare : Spare store (reconciler.idsFor options fresh store.dimensions files)) (summary : IndexSummary) (after : Store)
    (done : reconciler.indexFiles options fresh store files = (summary, after)) :
    summary.filesProcessed + summary.filesFailed = (options.accepted files).length ∧
    summary.filesFailed = ((options.accepted files).filter (·.fails)).length ∧
    summary.chunksAdded = ((options.processed files).map fun file => (file.embedded reconciler store.dimensions).length).sum ∧
    summary.chunksFailed = ((options.processed files).map fun file => (file.unembedded reconciler store.dimensions).length).sum ∧
    summary.chunksAdded = ((options.processed files).map fun file => (after.rowsAt file.key).length).sum ∧
    (∀ file ∈ files, options.accepts (Path.extension file.path) = false ∨ file.fails = true →
      Unchanged store after file.key) ∧
    (∀ path, path ∉ files.map (·.key) → Unchanged store after path) ∧
    ∀ later, Spare after (reconciler.idsFor options later after.dimensions files) →
      ∃ again, reconciler.indexFiles options later after files = (summary, again) ∧
        (∀ path, again.fileByPath? path = after.fileByPath? path ∧ again.listing? path = after.listing? path) ∧
        ∀ file ∈ options.processed files, ∀ row ∈ again.rowsAt file.key, row.id ∉ after.ids := by
  have kept := reachable_kept store reachable
  have counted := index_files_tally reconciler options files fresh store kept spare
  have holds := index_files_hold reconciler options files fresh store kept spare
  have unchanged := index_files_unchanged reconciler options files fresh store kept spare
  have rows := index_files_rows reconciler options files fresh store kept spare
  have distinct : ((options.processed files).map (·.key)).Nodup :=
    keys.sublist ((options.processed_sublist files).map _)
  have last := options.last_distinct files distinct
  rw [done] at counted holds unchanged rows
  simp only at counted holds unchanged rows
  subst counted
  refine ⟨?_, rfl, rfl, rfl, ?_, ?_, ?_, ?_⟩
  · have split := List.length_eq_length_filter_add (l := options.accepted files) (·.fails)
    rw [split, Nat.add_comm]
    rfl
  · exact congrArg List.sum (List.map_congr_left fun file processed => (rows _ file (last file processed)).1.symm)
  · intro file member idle
    apply unchanged
    intro other processed same
    obtain ⟨otherMember, accepted, succeeds⟩ := (options.processed_mem files other).mp processed
    rw [List.inj_on_of_nodup_map keys otherMember member same] at accepted succeeds
    rcases idle with rejected | fails
    · exact absurd (accepted.symm.trans rejected) (by decide)
    · exact absurd (succeeds.symm.trans fails) (by decide)
  · intro path absent
    apply unchanged
    intro file processed same
    exact absent (List.mem_map.mpr ⟨file, (options.processed_sublist files).subset processed, same⟩)
  · intro later laterSpare
    have width := holds.counts.dimensions
    have recounted := index_files_tally reconciler options files later after holds.kept laterSpare
    have second := index_files_hold reconciler options files later after holds.kept laterSpare
    have newRows := index_files_rows reconciler options files later after holds.kept laterSpare
    rw [width] at recounted
    exact ⟨_, Prod.ext recounted rfl, fun path => ⟨again_files holds second path, again_listing holds second kept path⟩,
      fun file processed => (newRows _ file (last file processed)).2⟩

def mixedFiles : List FoundFile :=
  [⟨"a.rb", .source plainSource⟩, ⟨"b.rb", .binary [0xff]⟩, ⟨"c.rb", .source unparsed⟩, ⟨"d.txt", .source plainSource⟩]

def mixedRun : IndexSummary × Store := wholeFiles.indexFiles {} laterIds reconciledBefore mixedFiles

def lastIds (i : Nat) : ChunkId := .serial (i + 20)

theorem mixed_run_accounted : mixedRun.1 = ⟨1, 2, 1, 0⟩ ∧ Unchanged reconciledBefore mixedRun.2 "b.rb" ∧
    ∃ again, wholeFiles.indexFiles {} lastIds mixedRun.2 mixedFiles = (⟨1, 2, 1, 0⟩, again) ∧
      again.listing? "a.rb" = mixedRun.2.listing? "a.rb" := by
  have counted : mixedRun.1 = ⟨1, 2, 1, 0⟩ := by decide +kernel
  have spare : Spare reconciledBefore (wholeFiles.idsFor {} laterIds reconciledBefore.dimensions mixedFiles) :=
    ⟨by decide +kernel, by decide +kernel⟩
  have laterSpare : Spare mixedRun.2 (wholeFiles.idsFor {} lastIds mixedRun.2.dimensions mixedFiles) :=
    ⟨by decide +kernel, by decide +kernel⟩
  obtain ⟨_, _, _, _, _, idle, _, rerun⟩ := index_run_accounts_for_files reconciledBefore ⟨1, _, _, rfl, rfl⟩ wholeFiles {}
    mixedFiles (by decide +kernel) laterIds spare mixedRun.1 mixedRun.2 rfl
  obtain ⟨again, done, same, _⟩ := rerun lastIds laterSpare
  refine ⟨counted, ?_, again, counted ▸ done, (same "a.rb").2⟩
  exact idle ⟨"b.rb", .binary [0xff]⟩ (by simp [mixedFiles]) (.inr rfl)

end CodeIndex
