import CodeIndex.Proofs.Store.Hits
import CodeIndex.Proofs.Store.Invariant

set_option autoImplicit false

namespace CodeIndex

structure Held where
  filePath : String
  content : String
  metadata : String
  vector : Embedding

def VectorEntry.held (entry : VectorEntry) : Held :=
  ⟨entry.row.filePath, entry.row.content, entry.row.metadata, entry.vector⟩

structure Passage where
  kind : String
  name : String
  parentClass : Option String
  startLine : Int64
  endLine : Int64
  held : Option Held

structure Listing where
  language : String
  passages : List Passage

structure Renaming where
  file : Int → Int
  id : String → String
  row : Nat → Nat

namespace Renaming

def fileRow (names : Renaming) (row : FileRow) : FileRow := { row with id := names.file row.id }

def chunkRow (names : Renaming) (row : ChunkRow) : ChunkRow :=
  { row with
    id := names.id row.id
    fileId := names.file row.fileId
    embeddingId := names.id row.embeddingId }

def embeddingRow (names : Renaming) (row : EmbeddingRow) : EmbeddingRow :=
  { row with rowId := names.row row.rowId, embeddingId := names.id row.embeddingId }

def vectorRow (names : Renaming) (row : VectorRow) : VectorRow := { row with rowId := names.row row.rowId }

end Renaming

namespace Store

def held? (store : Store) (id : String) : Option Held := (store.lookup? id).map VectorEntry.held

def passage (store : Store) (row : ChunkRow) : Passage :=
  ⟨row.kind, row.name, row.parentClass, row.startLine, row.endLine, store.held? row.id⟩

def passagesOf (store : Store) (fileId : Int) : List Passage := (store.rowsOf fileId).map store.passage

def listing? (store : Store) (path : String) : Option Listing :=
  (store.fileByPath? path).map fun file => ⟨file.language, store.passagesOf file.id⟩

def loose? (store : Store) (id : String) : Option VectorEntry :=
  if id ∈ store.chunks.map (·.id) then none else store.lookup? id

def ids (store : Store) : List String := store.chunks.map (·.id) ++ store.embeddings.map (·.embeddingId)

end Store

-- The rows of all tables agree once the numbers and identifiers of the one store are replaced. A
-- file's chunks are in the same order.
structure Renaming.Carries (names : Renaming) (first second : Store) : Prop where
  files : (first.files.map names.fileRow).Perm second.files
  chunks : (first.chunks.map names.chunkRow).Perm second.chunks
  rows : ∀ file ∈ first.files, (first.rowsOf file.id).map names.chunkRow = second.rowsOf (names.file file.id)
  embeddings : (first.embeddings.map names.embeddingRow).Perm second.embeddings
  vectors : (first.vectors.map names.vectorRow).Perm second.vectors
  distinct : Set.InjOn names.id {id | id ∈ first.ids}
  feedback : second.feedback = first.feedback
  lastFile : second.lastFile = first.lastFile
  lastEmbedding : second.lastEmbedding = first.lastEmbedding
  lastFeedback : second.lastFeedback = first.lastFeedback
  declaration : second.declaration = first.declaration
  dimensions : second.dimensions = first.dimensions

structure Renaming.Keeps (names : Renaming) (store : Store) : Prop where
  files : ∀ file ∈ store.files, names.file file.id = file.id
  ids : ∀ id ∈ store.ids, names.id id = id

structure SameContents (first second : Store) : Prop where
  listings : ∀ path, first.listing? path = second.listing? path
  loose : ∀ id, first.loose? id = second.loose? id
  feedback : second.feedback = first.feedback
  lastFile : second.lastFile = first.lastFile
  lastEmbedding : second.lastEmbedding = first.lastEmbedding
  lastFeedback : second.lastFeedback = first.lastFeedback
  declaration : second.declaration = first.declaration
  dimensions : second.dimensions = first.dimensions

theorem same_contents_symm (first second : Store) (same : SameContents first second) : SameContents second first :=
  ⟨fun path => (same.listings path).symm, fun id => (same.loose id).symm, same.feedback.symm, same.lastFile.symm,
    same.lastEmbedding.symm, same.lastFeedback.symm, same.declaration.symm, same.dimensions.symm⟩

def rename {κ : Type} [DecidableEq κ] (pairs : List (κ × κ)) (key : κ) : κ :=
  ((pairs.find? (·.1 == key)).map (·.2)).getD key

theorem rename_paired {κ : Type} [DecidableEq κ] (pairs : List (κ × κ)) (unique : (pairs.map Prod.fst).Nodup)
    (pair : κ × κ) (member : pair ∈ pairs) : rename pairs pair.1 = pair.2 := by
  rw [rename, (find_by_key Prod.fst pairs unique pair.1 pair).mpr ⟨member, rfl⟩]
  rfl

theorem rename_unpaired {κ : Type} [DecidableEq κ] (pairs : List (κ × κ)) (key : κ) (absent : key ∉ pairs.map Prod.fst) :
    rename pairs key = key := by
  have missing : pairs.find? (·.1 == key) = none := by
    apply List.find?_eq_none.mpr
    intro pair member same
    exact absent (List.mem_map.mpr ⟨pair, member, by simpa using same⟩)
  rw [rename, missing]
  rfl

namespace Store

-- Files are matched by path, a file's chunks by position, and row numbers by identifier.
def filePairs (first second : Store) : List (Int × Int) :=
  first.files.filterMap fun file => (second.fileByPath? file.path).map fun twin => (file.id, twin.id)

def idPairs (first second : Store) : List (String × String) :=
  first.files.flatMap fun file =>
    ((first.rowsOf file.id).map (·.id)).zip ((second.rowsOf (rename (first.filePairs second) file.id)).map (·.id))

def rowPairs (first second : Store) : List (Nat × Nat) :=
  first.embeddings.filterMap fun row =>
    (second.embeddingOf? (rename (first.idPairs second) row.embeddingId)).map fun twin => (row.rowId, twin.rowId)

def renamingTo (first second : Store) : Renaming where
  file := rename (first.filePairs second)
  id := rename (first.idPairs second)
  row := rename (first.rowPairs second)

theorem chunks_by_file (store : Store) (kept : WellKept store) :
    (store.files.flatMap fun file => store.rowsOf file.id).Perm store.chunks := by
  have distinct : store.chunks.Nodup := List.Nodup.of_map _ kept.chunkIds
  have parts : (store.files.flatMap fun file => store.rowsOf file.id).Nodup := by
    refine List.nodup_flatMap.mpr ⟨fun file _ => distinct.filter _, ?_⟩
    refine (List.pairwise_map.mp kept.fileIds).imp fun apart row left right => apart ?_
    rw [← ((store.rows_of_mem _ row).mp left).2, ← ((store.rows_of_mem _ row).mp right).2]
  refine (List.perm_ext_iff_of_nodup parts distinct).mpr fun row => ?_
  rw [List.mem_flatMap]
  constructor
  · rintro ⟨file, _, listed⟩
    exact ((store.rows_of_mem file.id row).mp listed).1
  · intro member
    obtain ⟨file, known, same⟩ := List.mem_map.mp (kept.owners row member)
    exact ⟨file, known, (store.rows_of_mem file.id row).mpr ⟨member, same.symm⟩⟩

theorem chunk_row_alike (first second : Store) (names : Renaming) (row twin : ChunkRow)
    (alike : first.passage row = second.passage twin) (id : names.id row.id = twin.id)
    (file : names.file row.fileId = twin.fileId) (named : row.embeddingId = row.id)
    (twinNamed : twin.embeddingId = twin.id) : names.chunkRow row = twin := by
  obtain ⟨kind, name, parentClass, startLine, endLine, _⟩ := Passage.mk.inj alike
  rw [Renaming.chunkRow, named, id, file, kind, name, parentClass, startLine, endLine]
  nth_rewrite 2 [← twinNamed]
  rfl

theorem loose_held (first second : Store) (same : SameContents first second) (id : String) (entry : VectorEntry)
    (free : id ∉ first.chunks.map (·.id)) (found : first.lookup? id = some entry) :
    id ∉ second.chunks.map (·.id) ∧ second.lookup? id = some entry := by
  have loose := same.loose id
  rw [loose?, if_neg free, found, loose?] at loose
  by_cases taken : id ∈ second.chunks.map (·.id)
  · rw [if_pos taken] at loose
    cases loose
  · rw [if_neg taken] at loose
    exact ⟨taken, loose.symm⟩

section Matched

variable (first second : Store) (keptFirst : WellKept first) (keptSecond : WellKept second)
  (same : SameContents first second)

include keptFirst same

theorem file_twin (file : FileRow) (member : file ∈ first.files) :
    ∃ twin, second.fileByPath? file.path = some twin ∧ twin.language = file.language ∧
      first.passagesOf file.id = second.passagesOf twin.id := by
  have listed := same.listings file.path
  rw [listing?, listing?, (first.file_by_path_iff keptFirst file.path file).mpr ⟨member, rfl⟩] at listed
  obtain ⟨twin, found, alike⟩ := Option.map_eq_some_iff.mp listed.symm
  rw [Listing.mk.injEq] at alike
  exact ⟨twin, found, alike.1, alike.2.symm⟩

theorem file_keys : (first.filePairs second).map Prod.fst = first.files.map (·.id) := by
  apply filter_map_column
  intro file member
  obtain ⟨twin, found, _⟩ := first.file_twin second keptFirst same file member
  exact ⟨(file.id, twin.id), by rw [found]; rfl, rfl⟩

theorem file_renamed (file twin : FileRow) (member : file ∈ first.files)
    (found : second.fileByPath? file.path = some twin) : (first.renamingTo second).file file.id = twin.id := by
  have unique := (first.file_keys second keptFirst same).symm ▸ keptFirst.fileIds
  refine rename_paired _ unique (file.id, twin.id) (List.mem_filterMap.mpr ⟨file, member, ?_⟩)
  rw [found]
  rfl

include keptSecond

theorem file_row_renamed (file : FileRow) (member : file ∈ first.files) :
    second.fileByPath? file.path = some ((first.renamingTo second).fileRow file) ∧
      first.passagesOf file.id = second.passagesOf ((first.renamingTo second).file file.id) := by
  obtain ⟨twin, found, language, passages⟩ := first.file_twin second keptFirst same file member
  have path := ((second.file_by_path_iff keptSecond file.path twin).mp found).2
  have number := first.file_renamed second keptFirst same file twin member found
  have row : (first.renamingTo second).fileRow file = twin := by
    rw [Renaming.fileRow, number, ← path, ← language]
  rw [row, number]
  exact ⟨found, passages⟩

theorem files_renamed : (first.files.map (first.renamingTo second).fileRow).Perm second.files := by
  have paths : (first.files.map (first.renamingTo second).fileRow).map (·.path) = first.files.map (·.path) := by
    rw [List.map_map]
    rfl
  have distinct : (first.files.map (first.renamingTo second).fileRow).Nodup :=
    List.Nodup.of_map _ (paths.symm ▸ keptFirst.paths)
  refine (List.perm_ext_iff_of_nodup distinct (List.Nodup.of_map _ keptSecond.paths)).mpr fun row => ?_
  rw [List.mem_map]
  constructor
  · rintro ⟨file, member, rfl⟩
    have found := (first.file_row_renamed second keptFirst keptSecond same file member).1
    exact ((second.file_by_path_iff keptSecond _ _).mp found).1
  · intro member
    obtain ⟨file, found, _⟩ := second.file_twin first keptSecond (same_contents_symm _ _ same) row member
    obtain ⟨known, path⟩ := (first.file_by_path_iff keptFirst _ _).mp found
    have twin := (first.file_row_renamed second keptFirst keptSecond same file known).1
    rw [path, (second.file_by_path_iff keptSecond row.path row).mpr ⟨member, rfl⟩] at twin
    exact ⟨file, known, (Option.some.inj twin).symm⟩

theorem rows_length (file : FileRow) (member : file ∈ first.files) :
    (first.rowsOf file.id).length = (second.rowsOf ((first.renamingTo second).file file.id)).length := by
  have passages := (first.file_row_renamed second keptFirst keptSecond same file member).2
  simpa [passagesOf] using congrArg List.length passages

theorem id_keys : ((first.idPairs second).map Prod.fst).Perm (first.chunks.map (·.id)) := by
  have keys : (first.idPairs second).map Prod.fst = (first.files.flatMap fun file => first.rowsOf file.id).map (·.id) := by
    rw [idPairs, List.map_flatMap, List.map_flatMap]
    refine List.flatMap_congr fun file member => List.map_fst_zip ?_
    have length := first.rows_length second keptFirst keptSecond same file member
    simp only [List.length_map]
    exact Nat.le_of_eq length
  rw [keys]
  exact (first.chunks_by_file keptFirst).map _

theorem rows_renamed (file : FileRow) (member : file ∈ first.files) :
    (first.rowsOf file.id).map (first.renamingTo second).chunkRow =
      second.rowsOf ((first.renamingTo second).file file.id) := by
  have passages := (first.file_row_renamed second keptFirst keptSecond same file member).2
  have length := first.rows_length second keptFirst keptSecond same file member
  have unique := (first.id_keys second keptFirst keptSecond same).nodup_iff.mpr keptFirst.chunkIds
  apply List.ext_getElem
  · rw [List.length_map, length]
  · intro i inside within
    rw [List.getElem_map]
    rw [List.length_map] at inside
    have paired := List.getElem_mem (l := ((first.rowsOf file.id).map (·.id)).zip
      ((second.rowsOf ((first.renamingTo second).file file.id)).map (·.id))) (n := i) (by simp [inside, within])
    rw [List.getElem_zip, List.getElem_map, List.getElem_map] at paired
    have id : (first.renamingTo second).id _ = _ :=
      rename_paired _ unique _ (List.mem_flatMap.mpr ⟨file, member, paired⟩)
    have alike : first.passage (first.rowsOf file.id)[i] =
        second.passage (second.rowsOf ((first.renamingTo second).file file.id))[i] := by
      rw [← List.getElem_map first.passage (h := by simpa using inside),
        ← List.getElem_map second.passage (h := by simpa using within)]
      exact List.getElem_of_eq passages _
    obtain ⟨stored, own⟩ := (first.rows_of_mem file.id _).mp (List.getElem_mem inside)
    obtain ⟨twinStored, twinOwn⟩ := (second.rows_of_mem _ _).mp (List.getElem_mem within)
    exact chunk_row_alike first second _ _ _ alike id ((congrArg _ own).trans twinOwn.symm) (keptFirst.embeddingIds _ stored)
      (keptSecond.embeddingIds _ twinStored)

theorem row_fixed (file : FileRow) (member : file ∈ first.files)
    (number : (first.renamingTo second).file file.id = file.id) (rows : second.rowsOf file.id = first.rowsOf file.id)
    (row : ChunkRow) (listed : row ∈ first.rowsOf file.id) : (first.renamingTo second).id row.id = row.id := by
  have renamed := first.rows_renamed second keptFirst keptSecond same file member
  rw [number, rows] at renamed
  have fixed := List.map_inj_left.mp (renamed.trans (List.map_id _).symm) row listed
  exact congrArg ChunkRow.id fixed

theorem chunks_renamed : (first.chunks.map (first.renamingTo second).chunkRow).Perm second.chunks := by
  have files := first.files_renamed second keptFirst keptSecond same
  have parts : (first.files.flatMap fun file => first.rowsOf file.id).map (first.renamingTo second).chunkRow =
      (first.files.map (first.renamingTo second).fileRow).flatMap fun file => second.rowsOf file.id := by
    rw [List.map_flatMap, List.flatMap_map]
    exact List.flatMap_congr (first.rows_renamed second keptFirst keptSecond same)
  have split := ((first.chunks_by_file keptFirst).map (first.renamingTo second).chunkRow).symm
  rw [parts] at split
  exact (split.trans (files.flatMap_right _)).trans (second.chunks_by_file keptSecond)

theorem chunk_ids_renamed :
    ((first.chunks.map (·.id)).map (first.renamingTo second).id).Perm (second.chunks.map (·.id)) := by
  have rows := (first.chunks_renamed second keptFirst keptSecond same).map (·.id)
  rw [List.map_map] at rows ⊢
  exact rows

theorem loose_fixed (id : String) (free : id ∉ first.chunks.map (·.id)) : (first.renamingTo second).id id = id :=
  rename_unpaired _ id ((first.id_keys second keptFirst keptSecond same).mem_iff.not.mpr free)

theorem chunk_held (row : ChunkRow) (member : row ∈ first.chunks) :
    second.held? ((first.renamingTo second).id row.id) = first.held? row.id := by
  obtain ⟨file, known, own⟩ := List.mem_map.mp (keptFirst.owners row member)
  have passages := (first.file_row_renamed second keptFirst keptSecond same file known).2
  rw [passagesOf, passagesOf, ← first.rows_renamed second keptFirst keptSecond same file known, List.map_map] at passages
  have alike := List.map_inj_left.mp passages row ((first.rows_of_mem file.id row).mpr ⟨member, own.symm⟩)
  exact (congrArg Passage.held alike).symm

theorem entry_twin (id : String) (entry : VectorEntry) (found : first.lookup? id = some entry) :
    ∃ twin, second.lookup? ((first.renamingTo second).id id) = some twin ∧ twin.held = entry.held := by
  by_cases taken : id ∈ first.chunks.map (·.id)
  · obtain ⟨row, member, rfl⟩ := List.mem_map.mp taken
    have held := first.chunk_held second keptFirst keptSecond same row member
    rw [held?, held?, found] at held
    exact Option.map_eq_some_iff.mp held
  · rw [first.loose_fixed second keptFirst keptSecond same id taken]
    exact ⟨entry, (first.loose_held second same id entry taken found).2, rfl⟩

theorem ids_apart : Set.InjOn (first.renamingTo second).id {id | id ∈ first.ids} := by
  have chunkIds := first.chunk_ids_renamed second keptFirst keptSecond same
  have loose (id : String) (listed : id ∈ first.ids) (free : id ∉ first.chunks.map (·.id)) :
      id ∉ second.chunks.map (·.id) := by
    have stored := (List.mem_append.mp listed).resolve_left free
    cases found : first.lookup? id with
    | none => exact absurd stored ((first.lookup_none_iff keptFirst.vectors id).mp found)
    | some entry => exact (first.loose_held second same id entry free found).1
  have chunk (id : String) (taken : id ∈ first.chunks.map (·.id)) :
      (first.renamingTo second).id id ∈ second.chunks.map (·.id) := chunkIds.mem_iff.mp (List.mem_map_of_mem taken)
  have fixed := first.loose_fixed second keptFirst keptSecond same
  intro left leftListed right rightListed equal
  by_cases leftTaken : left ∈ first.chunks.map (·.id)
  · by_cases rightTaken : right ∈ first.chunks.map (·.id)
    · exact List.inj_on_of_nodup_map (chunkIds.nodup_iff.mpr keptSecond.chunkIds) leftTaken rightTaken equal
    · rw [fixed right rightTaken] at equal
      exact absurd (equal ▸ chunk left leftTaken) (loose right rightListed rightTaken)
  · by_cases rightTaken : right ∈ first.chunks.map (·.id)
    · rw [fixed left leftTaken] at equal
      exact absurd (equal ▸ chunk right rightTaken) (loose left leftListed leftTaken)
    · rwa [fixed left leftTaken, fixed right rightTaken] at equal

theorem row_keys : (first.rowPairs second).map Prod.fst = first.embeddings.map (·.rowId) := by
  apply filter_map_column
  intro row member
  obtain ⟨vector, stored⟩ := first.vector_of_embedding keptFirst.vectors row member
  have found := (first.lookup_iff keptFirst.vectors row.embeddingId ⟨row, vector⟩).mpr ⟨member, rfl, stored⟩
  obtain ⟨twin, looked, _⟩ := first.entry_twin second keptFirst keptSecond same _ _ found
  obtain ⟨twinStored, twinNamed, _⟩ := (second.lookup_iff keptSecond.vectors _ _).mp looked
  have chosen := (second.embedding_of_iff keptSecond.vectors _ twin.row).mpr ⟨twinStored, twinNamed⟩
  exact ⟨(row.rowId, twin.row.rowId), congrArg (Option.map _) chosen, rfl⟩

theorem entry_renamed (id : String) (entry : VectorEntry) (found : first.lookup? id = some entry) :
    second.lookup? ((first.renamingTo second).id id) =
      some ⟨(first.renamingTo second).embeddingRow entry.row, entry.vector⟩ := by
  obtain ⟨twin, looked, alike⟩ := first.entry_twin second keptFirst keptSecond same id entry found
  obtain ⟨stored, named, _⟩ := (first.lookup_iff keptFirst.vectors _ _).mp found
  obtain ⟨twinStored, twinNamed, _⟩ := (second.lookup_iff keptSecond.vectors _ _).mp looked
  have number : (first.renamingTo second).row entry.row.rowId = twin.row.rowId := by
    have unique := (first.row_keys second keptFirst keptSecond same).symm ▸ keptFirst.vectors.rowIds
    have chosen := (second.embedding_of_iff keptSecond.vectors _ twin.row).mpr ⟨twinStored, twinNamed⟩
    rw [← named] at chosen
    exact rename_paired _ unique (entry.row.rowId, twin.row.rowId)
      (List.mem_filterMap.mpr ⟨entry.row, stored, congrArg (Option.map _) chosen⟩)
  obtain ⟨filePath, content, metadata, vector⟩ := Held.mk.inj alike
  rw [looked, Renaming.embeddingRow, number, named, ← twinNamed, ← filePath, ← content, ← metadata, ← vector]

theorem embeddings_within :
    (first.embeddings.map (first.renamingTo second).embeddingRow).Subperm second.embeddings := by
  have ids : ((first.embeddings.map (first.renamingTo second).embeddingRow).map (·.embeddingId)).Nodup := by
    rw [List.map_map]
    apply (List.nodup_map_iff_inj_on (List.Nodup.of_map _ keptFirst.vectors.ids)).mpr
    intro left leftStored right rightStored equal
    apply List.inj_on_of_nodup_map keptFirst.vectors.ids leftStored rightStored
    exact first.ids_apart second keptFirst keptSecond same (List.mem_append_right _ (List.mem_map_of_mem leftStored))
      (List.mem_append_right _ (List.mem_map_of_mem rightStored)) equal
  refine List.subperm_of_subset (List.Nodup.of_map _ ids) fun row member => ?_
  obtain ⟨own, stored, rfl⟩ := List.mem_map.mp member
  obtain ⟨vector, beside⟩ := first.vector_of_embedding keptFirst.vectors own stored
  have found := (first.lookup_iff keptFirst.vectors own.embeddingId ⟨own, vector⟩).mpr ⟨stored, rfl, beside⟩
  have looked := first.entry_renamed second keptFirst keptSecond same _ _ found
  exact ((second.lookup_iff keptSecond.vectors _ _).mp looked).1

theorem embeddings_renamed : (first.embeddings.map (first.renamingTo second).embeddingRow).Perm second.embeddings := by
  have back := second.embeddings_within first keptSecond keptFirst (same_contents_symm _ _ same)
  apply (first.embeddings_within second keptFirst keptSecond same).perm_of_length_le
  simpa using back.length_le

theorem vectors_renamed : (first.vectors.map (first.renamingTo second).vectorRow).Perm second.vectors := by
  have embeddings := first.embeddings_renamed second keptFirst keptSecond same
  have size (store : Store) (valid : store.Vectors) : store.vectors.length = store.embeddings.length := by
    simpa using valid.paired.length_eq
  have rowIds : ((first.vectors.map (first.renamingTo second).vectorRow).map (·.rowId)).Perm
      ((first.embeddings.map (first.renamingTo second).embeddingRow).map (·.rowId)) := by
    have paired := keptFirst.vectors.paired.map (first.renamingTo second).row
    rw [List.map_map, List.map_map] at paired ⊢
    exact paired
  have distinct := (rowIds.trans (embeddings.map (·.rowId))).nodup_iff.mpr keptSecond.vectors.rowIds
  have within : (first.vectors.map (first.renamingTo second).vectorRow).Subperm second.vectors := by
    refine List.subperm_of_subset (List.Nodup.of_map _ distinct) fun row member => ?_
    obtain ⟨vector, beside, rfl⟩ := List.mem_map.mp member
    obtain ⟨own, stored, number⟩ := first.embedding_of_vector keptFirst.vectors vector beside
    have found := (first.lookup_iff keptFirst.vectors own.embeddingId ⟨own, vector.vector⟩).mpr ⟨stored, rfl, number ▸ beside⟩
    have looked := first.entry_renamed second keptFirst keptSecond same _ _ found
    have twin := ((second.lookup_iff keptSecond.vectors _ _).mp looked).2.2
    rw [Renaming.vectorRow, ← number]
    exact twin
  apply within.perm_of_length_le
  rw [List.length_map, size second keptSecond.vectors, size first keptFirst.vectors, ← embeddings.length_eq, List.length_map]

theorem same_contents_carried : (first.renamingTo second).Carries first second where
  files := first.files_renamed second keptFirst keptSecond same
  chunks := first.chunks_renamed second keptFirst keptSecond same
  rows := first.rows_renamed second keptFirst keptSecond same
  embeddings := first.embeddings_renamed second keptFirst keptSecond same
  vectors := first.vectors_renamed second keptFirst keptSecond same
  distinct := first.ids_apart second keptFirst keptSecond same
  feedback := same.feedback
  lastFile := same.lastFile
  lastEmbedding := same.lastEmbedding
  lastFeedback := same.lastFeedback
  declaration := same.declaration
  dimensions := same.dimensions

end Matched

theorem carried_held (first second : Store) (keptFirst : WellKept first) (keptSecond : WellKept second) (names : Renaming)
    (carried : names.Carries first second) (row : ChunkRow) (member : row ∈ first.chunks) :
    second.held? (names.id row.id) = first.held? row.id := by
  rw [held?, held?]
  cases found : first.lookup? row.id with
  | some entry =>
      obtain ⟨stored, named, beside⟩ := (first.lookup_iff keptFirst.vectors _ _).mp found
      have looked : second.lookup? (names.id row.id) = some ⟨names.embeddingRow entry.row, entry.vector⟩ := by
        apply (second.lookup_iff keptSecond.vectors _ _).mpr
        exact ⟨carried.embeddings.mem_iff.mp (List.mem_map_of_mem stored), congrArg names.id named,
          carried.vectors.mem_iff.mp (List.mem_map_of_mem beside)⟩
      rw [looked]
      rfl
  | none =>
      have absent := (first.lookup_none_iff keptFirst.vectors row.id).mp found
      have missing : second.lookup? (names.id row.id) = none := by
        apply (second.lookup_none_iff keptSecond.vectors _).mpr
        intro listed
        obtain ⟨twin, twinStored, twinNamed⟩ := List.mem_map.mp listed
        obtain ⟨own, stored, rfl⟩ := List.mem_map.mp (carried.embeddings.mem_iff.mpr twinStored)
        have same := carried.distinct (List.mem_append_right _ (List.mem_map_of_mem stored))
          (List.mem_append_left _ (List.mem_map_of_mem member)) twinNamed
        exact absent (List.mem_map.mpr ⟨own, stored, same⟩)
      rw [missing]

theorem carried_listing (first second : Store) (keptFirst : WellKept first) (keptSecond : WellKept second) (names : Renaming)
    (carried : names.Carries first second) (path : String) : first.listing? path = second.listing? path := by
  rw [listing?, listing?]
  cases found : first.fileByPath? path with
  | some file =>
      obtain ⟨known, named⟩ := (first.file_by_path_iff keptFirst path file).mp found
      have twin := (second.file_by_path_iff keptSecond path (names.fileRow file)).mpr
        ⟨carried.files.mem_iff.mp (List.mem_map_of_mem known), named⟩
      have passages : first.passagesOf file.id = second.passagesOf (names.file file.id) := by
        rw [passagesOf, passagesOf, ← carried.rows file known, List.map_map]
        refine List.map_congr_left fun row member => ?_
        have held := carried_held first second keptFirst keptSecond names carried row ((first.rows_of_mem _ row).mp member).1
        rw [Function.comp_apply, passage, passage, ← held]
        rfl
      rw [twin, Option.map_some, Option.map_some, passages]
      rfl
  | none =>
      have absent := (first.file_by_path_none_iff path).mp found
      have paths := carried.files.map (·.path)
      rw [List.map_map] at paths
      rw [(second.file_by_path_none_iff path).mpr (paths.mem_iff.not.mp absent)]
      rfl

end Store
end CodeIndex
