import CodeIndex.Proofs.Reconcile.Sections

set_option autoImplicit false

namespace CodeIndex

def NewChunk.passage (chunk : NewChunk) : Passage :=
  ⟨chunk.kind.name, chunk.name, chunk.parentClass, chunk.startLine.toInt64, chunk.endLine.toInt64,
    some ⟨chunk.metadata.filePath, chunk.content, chunk.metadata.toJson.compactText, chunk.vector⟩⟩

theorem chunk_passages (call : Call) (fresh : Nat → ChunkId) (width : Nat) :
    (call.chunks fresh width).map NewChunk.passage = call.passages width := by
  apply List.ext_getElem
  · simp [Call.chunks, Call.passages, Reconciler.newChunks]
  · intro i _ _
    simp [Call.chunks, Call.passages, Reconciler.newChunks, NewChunk.passage, NewChunk.ofElement, Passage.ofElement,
      Metadata.ofElement]

theorem filled_passages (store : Store) (fileId : Int) (chunks : List NewChunk) (filled : Filled store fileId chunks) :
    store.passagesOf fileId = chunks.map NewChunk.passage := by
  rw [Store.passagesOf, filled.1, List.map_map]
  refine List.map_congr_left fun chunk member => ?_
  obtain ⟨entry, found, stored⟩ := filled.2 chunk member
  have held : store.held? chunk.id.text = some ⟨chunk.metadata.filePath, chunk.content,
      chunk.metadata.toJson.compactText, chunk.vector⟩ := by
    rw [Store.held?, found, Option.map_some, VectorEntry.held, stored.filePath, stored.content, stored.metadata, stored.vector]
  rw [Function.comp_apply, Store.passage, NewChunk.passage, ← held]
  rfl

theorem untouched_passages (before after : Store) (fileId : Int) (untouched : Untouched before after fileId) :
    after.passagesOf fileId = before.passagesOf fileId := by
  rw [Store.passagesOf, Store.passagesOf, untouched.1]
  refine List.map_congr_left fun row member => ?_
  rw [Store.passage, Store.passage, Store.held?, Store.held?, untouched.2 row member]

def Store.passagesAt (store : Store) (path : String) : List Passage :=
  ((store.listing? path).map (·.passages)).getD []

-- What a path lists: the language of the last call to register it, the passages of the last to swap them.
def outcome {n : Nat} (calls : Fin n → Call) (start : Store) (registered committed : List (Fin n)) (path : String) :
    Option Listing :=
  match latest calls path registered with
  | none => start.listing? path
  | some i => some ⟨(calls i).language.name,
      ((latest calls path committed).map fun j => (calls j).passages start.dimensions).getD (start.passagesAt path)⟩

namespace Holds

variable {n : Nat} {calls : Fin n → Call} {mint : Fin n → Nat → ChunkId} {start : Store}
  {registered committed : List (Fin n)} {store : Store} (holds : Holds calls mint start registered committed store)

include holds

theorem known_file (old file : FileRow) (before : old ∈ start.files) (member : file ∈ store.files)
    (same : old.path = file.path ∨ old.id = file.id) : old.id = file.id ∧ old.path = file.path := by
  obtain ⟨later, laterMember, number, path⟩ := holds.files.known old before
  rcases same with samePath | sameId
  · rw [List.inj_on_of_nodup_map holds.kept.paths laterMember member (path.trans samePath)] at number
    exact ⟨number.symm, samePath⟩
  · rw [List.inj_on_of_nodup_map holds.kept.fileIds laterMember member (number.trans sameId)] at path
    exact ⟨sameId, path.symm⟩

theorem file_kept {other : Fin n → Nat → ChunkId} {enrolled settled : List (Fin n)} {second : Store}
    (otherHolds : Holds calls other start enrolled settled second) (same : SameContents store second) (old : FileRow)
    (before : old ∈ start.files) : (store.renamingTo second).file old.id = old.id := by
  obtain ⟨file, member, number, path⟩ := holds.files.known old before
  obtain ⟨twin, twinMember, twinNumber, twinPath⟩ := otherHolds.files.known old before
  have found := (second.file_by_path_iff otherHolds.kept file.path twin).mpr ⟨twinMember, twinPath.trans path.symm⟩
  rw [← number, store.file_renamed second holds.kept same file twin member found, twinNumber, number]

variable (keptStart : WellKept start)

include keptStart

theorem start_passages (file : FileRow) (member : file ∈ store.files) :
    start.passagesAt file.path = start.passagesOf file.id := by
  rw [Store.passagesAt, Store.listing?]
  cases found : start.fileByPath? file.path with
  | some old =>
      obtain ⟨before, path⟩ := (start.file_by_path_iff keptStart file.path old).mp found
      have same := holds.known_file old file before member (.inl path)
      rw [← same.1]
      rfl
  | none =>
      have empty : start.rowsOf file.id = [] := by
        apply List.filter_eq_nil_iff.mpr
        intro row stored own
        obtain ⟨old, before, number⟩ := List.mem_map.mp (keptStart.owners row stored)
        have sameId : old.id = file.id := number.trans (beq_iff_eq.mp own)
        have same := holds.known_file old file before member (.inr sameId)
        exact (start.file_by_path_none_iff file.path).mp found (List.mem_map.mpr ⟨old, before, same.2⟩)
      rw [Store.passagesOf, empty]
      rfl

theorem listing (path : String) : store.listing? path = outcome calls start registered committed path := by
  rw [Store.listing?, outcome]
  cases found : store.fileByPath? path with
  | some file =>
      obtain ⟨member, rfl⟩ := (store.file_by_path_iff holds.kept path file).mp found
      cases registrar : latest calls file.path registered with
      | none =>
          have before := holds.files.original file member registrar
          have never : latest calls file.path committed = none := by
            rw [latest_none_iff] at registrar ⊢
            exact fun i made => registrar i (holds.within i made)
          have same := untouched_passages start store file.id (holds.chunks.untouched file member never)
          simp only [Store.listing?, (start.file_by_path_iff keptStart file.path file).mpr ⟨before, rfl⟩, Option.map_some, same]
      | some i =>
          have language := holds.files.language file member i registrar
          cases committer : latest calls file.path committed with
          | none =>
              have same := untouched_passages start store file.id (holds.chunks.untouched file member committer)
              have passages := holds.start_passages keptStart file member
              simp only [Option.map_some, Option.map_none, Option.getD_none, language, same, passages]
          | some j =>
              have filled := filled_passages store file.id _ (holds.chunks.filled file member j committer)
              simp only [Option.map_some, Option.getD_some, language, filled, chunk_passages]
  | none =>
      have absent := (store.file_by_path_none_iff path).mp found
      have never : latest calls path registered = none := by
        rw [latest_none_iff]
        intro i made same
        obtain ⟨file, member, named⟩ := holds.files.present i made
        exact absent (List.mem_map.mpr ⟨file, member, named.trans same⟩)
      have unknown : start.fileByPath? path = none := by
        rw [start.file_by_path_none_iff]
        intro listed
        obtain ⟨old, before, rfl⟩ := List.mem_map.mp listed
        obtain ⟨file, member, _, named⟩ := holds.files.known old before
        exact absent (List.mem_map.mpr ⟨file, member, named⟩)
      simp only [never, Store.listing?, unknown, Option.map_none]

variable {other : Fin n → Nat → ChunkId} {enrolled settled : List (Fin n)} {second : Store}
  (otherHolds : Holds calls other start enrolled settled second)

include otherHolds

theorem same_contents (files : registered.length = enrolled.length)
    (chunks : (committed.map fun i => ((calls i).embedded start.dimensions).length).sum =
      (settled.map fun i => ((calls i).embedded start.dimensions).length).sum)
    (listings : ∀ path, outcome calls start registered committed path = outcome calls start enrolled settled path) :
    SameContents store second where
  listings := by
    intro path
    rw [holds.listing keptStart, listings, otherHolds.listing keptStart]
  loose := fun id => (holds.chunks.loose id).trans (otherHolds.chunks.loose id).symm
  feedback := otherHolds.counts.feedback.trans holds.counts.feedback.symm
  lastFile := by rw [otherHolds.counts.lastFile, holds.counts.lastFile, files]
  lastEmbedding := by rw [otherHolds.counts.lastEmbedding, holds.counts.lastEmbedding, chunks]
  lastFeedback := otherHolds.counts.lastFeedback.trans holds.counts.lastFeedback.symm
  declaration := otherHolds.counts.declaration.trans holds.counts.declaration.symm
  dimensions := otherHolds.counts.dimensions.trans holds.counts.dimensions.symm

theorem renaming_keeps (minted : Minted calls mint start) (same : SameContents store second)
    (swaps : ∀ path, latest calls path committed = none → latest calls path settled = none) :
    (store.renamingTo second).Keeps start := by
  refine ⟨holds.file_kept otherHolds same, fun id listed => ?_⟩
  by_cases taken : id ∈ store.chunks.map (·.id)
  · obtain ⟨row, member, rfl⟩ := List.mem_map.mp taken
    obtain ⟨file, known, own⟩ := List.mem_map.mp (holds.kept.owners row member)
    have here := (store.rows_of_mem file.id row).mpr ⟨member, own.symm⟩
    cases last : latest calls file.path committed with
    | some i =>
        rw [(holds.chunks.filled file known i last).1] at here
        obtain ⟨chunk, new, rfl⟩ := List.mem_map.mp here
        exact absurd listed (minted_fresh calls mint start minted i chunk.id ((calls i).chunk_drawn _ _ chunk new))
    | none =>
        have untouched := (holds.chunks.untouched file known last).1
        obtain ⟨stored, owner⟩ := (start.rows_of_mem file.id row).mp (untouched ▸ here)
        obtain ⟨old, before, number⟩ := List.mem_map.mp (keptStart.owners row stored)
        have alike := holds.known_file old file before known (.inr (number.trans owner))
        obtain ⟨twin, twinKnown, twinNumber, twinPath⟩ := otherHolds.files.known old before
        have kept := holds.file_kept otherHolds same old before
        rw [alike.1] at kept
        have twinRows := (otherHolds.chunks.untouched twin twinKnown (swaps _ (by rw [twinPath, alike.2, last]))).1
        rw [twinNumber, alike.1, ← untouched] at twinRows
        exact store.row_fixed second holds.kept otherHolds.kept same file known kept twinRows row here
  · exact store.loose_fixed second holds.kept otherHolds.kept same id taken

end Holds
end CodeIndex
